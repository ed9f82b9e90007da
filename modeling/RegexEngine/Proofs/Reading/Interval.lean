import Mathlib.Data.Nat.Digits.Defs
import RegexEngine.Proofs.Quoted.Reading
import RegexEngine.Proofs.Reading.Levels

/-!
# Intervals

The bounds of a repeat are written as decimal digits between braces, `{n}`, `{n,}` or `{n,m}`. A
number is read up to a byte that is no digit, but not further than ten digits. So a number of at
most ten digits is read whole, and a longer one leaves a digit where a comma or the closing brace
should stand. Then there is no interval, and if the dialect reads braces as literals, neither the
brace nor what is behind it means anything but itself.

Two ways through the parser follow. With short numbers the item before the brace is wrapped in a
repeat, if the bounds pass the check. With a long one no operator begins anywhere in the text, so it
is read byte by byte, and its bytes are joined to a single literal.

## Main definitions

* `IsNumeral`, `numeralValue`: A number that is written with digits, and what it stands for.
* `Interval`: What stands between the braces.
* `Unread`: A text in which every byte stands for itself.

## Theorems

* `scanNumber_numeral`: Ten digits are read.
* `interval_short`, `interval_long`: An interval is read if its numbers are short.
* `parse_unread`: A text without operators is a literal.
* `parse_interval`: A letter with an interval behind it.
-/

namespace RegexEngine

namespace Pattern

/-- A text of decimal digits, with one digit at least. -/
def IsNumeral (digits : List UInt8) : Prop :=
  digits ≠ [] ∧ ∀ b ∈ digits, isDigit b = true

/-- The number that a text of decimal digits stands for. -/
def numeralValue (digits : List UInt8) : Nat :=
  Nat.ofDigits 10 (digits.reverse.map fun b => b.toNat - 0x30)

variable {digits rest : List UInt8} {b : UInt8}

theorem digitValue_digit (h : isDigit b = true) : digitValue? 10 b = some (b.toNat - 0x30) := by
  simp only [isDigit, Bool.and_eq_true, decide_eq_true_eq, UInt8.le_iff_toNat_le,
    UInt8.reduceToNat] at h
  have hlow : (0x30 ≤ b.toNat && b.toNat ≤ 0x39) = true := by
    simp only [Bool.and_eq_true, decide_eq_true_eq]
    exact h
  rw [digitValue?, Encoding.hexValue?, if_pos hlow, Option.filter_some, if_pos]
  rw [decide_eq_true_eq]
  omega

theorem digitValue_other (h : isDigit b = false) : digitValue? 10 b = none := by
  have hall : ∀ i : Fin 256, isDigit (.ofFin i) = false → digitValue? 10 (.ofFin i) = none := by
    decide +kernel
  exact hall b.toFin h

theorem numeralValue_cons (b : UInt8) (digits : List UInt8) :
    numeralValue (b :: digits) =
      (b.toNat - 0x30) * 10 ^ digits.length + numeralValue digits := by
  simp only [numeralValue, List.reverse_cons, List.map_append, List.map_cons, List.map_nil,
    Nat.ofDigits_append, List.length_map, List.length_reverse, Nat.ofDigits_singleton]
  rw [Nat.add_comm, Nat.mul_comm]

/-- Digits are read as far as there is room for them, or up to a byte that is none. -/
theorem scanDigits_numeral {room : Nat} (value count : Nat)
    (hdigits : ∀ b ∈ digits, isDigit b = true) (hroom : digits.length ≤ room)
    (hend : digits.length = room ∨ ∀ b ∈ rest.head?, isDigit b = false) :
    scanDigits 10 room value count (digits ++ rest) =
      (value * 10 ^ digits.length + numeralValue digits, count + digits.length, rest) := by
  -- What was read before is the value that the digits behind it are added to.
  induction digits generalizing room value count with
  | nil =>
      have hvalue : value * 10 ^ 0 + numeralValue [] = value := by
        rw [Nat.pow_zero, Nat.mul_one]
        rfl
      rw [List.nil_append, List.length_nil, hvalue, Nat.add_zero]
      cases room with
      | zero => rfl
      | succ room =>
          cases rest with
          | nil => rfl
          | cons b rest =>
              have hb := hend.resolve_left (Nat.succ_ne_zero room).symm b rfl
              rw [scanDigits, digitValue_other hb]
  | cons b digits ih =>
      rw [List.forall_mem_cons] at hdigits
      rw [List.length_cons] at hroom hend ⊢
      obtain ⟨room, rfl⟩ : ∃ k, room = k + 1 := ⟨room - 1, by omega⟩
      rw [List.cons_append, scanDigits, digitValue_digit hdigits.1]
      simp only
      rw [ih _ _ hdigits.2 (by omega) (hend.imp_left (by omega)), numeralValue_cons, Nat.pow_succ]
      congr 1
      · ring
      · congr 1
        omega

/-- A number is read from the first ten digits. Those behind them are left. -/
theorem scanNumber_numeral (h : IsNumeral digits) (hrest : ∀ b ∈ rest.head?, isDigit b = false) :
    scanNumber (digits ++ rest) =
      (some (numeralValue (digits.take maxDigits)), digits.drop maxDigits ++ rest) := by
  rcases h with ⟨hne, hdigits⟩
  -- The first ten digits are digits, and behind them there are ten or no digit.
  have htake : ∀ b ∈ digits.take maxDigits, isDigit b = true :=
    fun b hb => hdigits b (List.mem_of_mem_take hb)
  have hend : (digits.take maxDigits).length = maxDigits ∨
      ∀ b ∈ (digits.drop maxDigits ++ rest).head?, isDigit b = false := by
    rw [List.length_take]
    by_cases hlong : maxDigits ≤ digits.length
    · exact .inl (Nat.min_eq_left hlong)
    · rw [List.drop_of_length_le (by omega), List.nil_append]
      exact .inr hrest
  have hscan := scanDigits_numeral 0 0 htake (List.length_take_le _ _) hend
  rw [← List.append_assoc, List.take_append_drop] at hscan
  -- There is one digit at least, so a number has been read.
  have hcount : (digits.take maxDigits).length ≠ 0 := by
    have hpos := List.length_pos_of_ne_nil hne
    rw [List.length_take, maxDigits]
    omega
  simp only [scanNumber, hscan, Nat.zero_mul, Nat.zero_add, if_neg hcount]

/-- What stands between the braces of an interval. -/
inductive Interval where
  /-- `{n}` -/
  | exactly (lower : List UInt8)
  /-- `{n,}` -/
  | atLeast (lower : List UInt8)
  /-- `{n,m}` -/
  | between (lower upper : List UInt8)

namespace Interval

/-- The numbers of an interval, as they are written. -/
def numerals : Interval → List (List UInt8)
  | exactly n | atLeast n => [n]
  | between n m => [n, m]

/-- The text of an interval, between its braces. -/
def text : Interval → List UInt8
  | exactly n => n
  | atLeast n => n ++ [0x2c]
  | between n m => n ++ 0x2c :: m

def lower : Interval → Nat
  | exactly n | atLeast n | between n _ => numeralValue n

def upper : Interval → Option Nat
  | exactly n => some (numeralValue n)
  | atLeast _ => none
  | between _ m => some (numeralValue m)

/-- The numbers are written with digits. -/
def Written (i : Interval) : Prop :=
  ∀ digits ∈ i.numerals, IsNumeral digits

/-- No number has more digits than are read. -/
def Short (i : Interval) : Prop :=
  ∀ digits ∈ i.numerals, digits.length ≤ maxDigits

/-- A bound is greater than bounds may be. -/
def TooBig (i : Interval) : Prop :=
  maxRepeat < i.lower ∨ ∃ m, i.upper = some m ∧ maxRepeat < m

/-- The bounds are in the wrong order. -/
def Reversed (i : Interval) : Prop :=
  ∃ m, i.upper = some m ∧ m < i.lower

end Interval

variable {env : Setting} {i : Interval}

/-- A number is read whole if it is short. -/
theorem scanNumber_short (h : IsNumeral digits) (hshort : digits.length ≤ maxDigits)
    (hrest : ∀ b ∈ rest.head?, isDigit b = false) :
    scanNumber (digits ++ rest) = (some (numeralValue digits), rest) := by
  rw [scanNumber_numeral h hrest, List.take_of_length_le hshort, List.drop_of_length_le hshort,
    List.nil_append]

/-- If it is not, the text behind the digits that were read begins with a digit. -/
theorem scanNumber_long (h : IsNumeral digits) (hlong : maxDigits < digits.length)
    (hrest : ∀ b ∈ rest.head?, isDigit b = false) :
    ∃ value b more, isDigit b = true ∧ scanNumber (digits ++ rest) = (some value, b :: more) := by
  rcases hmore : digits.drop maxDigits with _ | ⟨b, more⟩
  · rw [List.drop_eq_nil_iff] at hmore
    omega
  · have hb : b ∈ digits := List.mem_of_mem_drop (hmore ▸ List.mem_cons_self)
    refine ⟨numeralValue (digits.take maxDigits), b, more ++ rest, h.2 b hb, ?_⟩
    rw [scanNumber_numeral h hrest, hmore, List.cons_append]

theorem startsWith_digit {c : Char} (h : isDigit b = true) (hc : c.isDigit = false) :
    startsWith (b :: rest) c = false := by
  have hall : ∀ i : Fin 256, isDigit (.ofFin i) = true → (char (.ofFin i)).isDigit = true := by
    decide +kernel
  rw [startsWith, beq_eq_false_iff_ne]
  rintro rfl
  exact Bool.false_ne_true (hc.symm.trans (hall b.toFin h))

theorem startsWith_comma : startsWith (0x2c :: rest) ',' = true :=
  rfl

theorem startsWith_comma_close : startsWith (0x2c :: rest) '\x7d' = false :=
  rfl

theorem not_isDigit_close : ∀ b ∈ (0x7d :: rest).head?, isDigit b = false := by
  rintro b ⟨⟩
  rfl

theorem not_isDigit_comma : ∀ b ∈ (0x2c :: rest).head?, isDigit b = false := by
  rintro b ⟨⟩
  rfl

/-- The bounds of a short interval are those that are written, if they pass the check. -/
theorem interval_short (hwritten : i.Written) (hshort : i.Short) :
    interval env (0x7b :: (i.text ++ 0x7d :: rest)) =
      checkBounds env (i.text ++ 0x7d :: rest) i.lower i.upper >>= fun _ =>
        .ok (some (i.lower, i.upper, rest)) := by
  -- The three forms differ in what stands behind the first number: the brace, the comma and the
  -- brace, or the comma and another number.
  cases i with
  | exactly n =>
      have hn := scanNumber_short (hwritten n List.mem_cons_self) (hshort n List.mem_cons_self)
        (@not_isDigit_close rest)
      simp only [interval, Interval.text, List.tail_cons, hn]
      rfl
  | atLeast n =>
      have hn := scanNumber_short (hwritten n List.mem_cons_self) (hshort n List.mem_cons_self)
        (@not_isDigit_comma (0x7d :: rest))
      simp only [interval, Interval.text, List.tail_cons, List.append_assoc, List.cons_append,
        List.nil_append, hn]
      rfl
  | between n m =>
      have hn := scanNumber_short (hwritten n List.mem_cons_self) (hshort n List.mem_cons_self)
        (@not_isDigit_comma (m ++ 0x7d :: rest))
      have hm := scanNumber_short (hwritten m (.tail _ List.mem_cons_self))
        (hshort m (.tail _ List.mem_cons_self)) (@not_isDigit_close rest)
      simp only [interval, Interval.text, List.tail_cons, List.append_assoc, List.cons_append, hn,
        lowerBound?, startsWith_comma_close, startsWith_comma, Bool.false_eq_true, if_false,
        if_true, hm]
      rfl

/-- With a long number behind the brace there is no interval, whatever follows. -/
theorem interval_longLower (h : IsNumeral digits) (hlong : maxDigits < digits.length)
    (hrest : ∀ b ∈ rest.head?, isDigit b = false) :
    ∃ b more, interval env (0x7b :: (digits ++ rest)) =
      noInterval env (0x7b :: (digits ++ rest)) (b :: more) := by
  rcases scanNumber_long h hlong hrest with ⟨value, b, more, hb, hscan⟩
  have hclose : startsWith (b :: more) '\x7d' = false := startsWith_digit hb rfl
  have hcomma : startsWith (b :: more) ',' = false := startsWith_digit hb rfl
  refine ⟨b, more, ?_⟩
  simp only [interval, List.tail_cons, hscan, lowerBound?, hclose, hcomma, Bool.false_eq_true,
    if_false]

/-- Nor is there one with a long number behind the comma. -/
theorem interval_longUpper {n : List UInt8} (hn : IsNumeral n) (hshort : n.length ≤ maxDigits)
    (h : IsNumeral digits) (hlong : maxDigits < digits.length)
    (hrest : ∀ b ∈ rest.head?, isDigit b = false) :
    ∃ b more, interval env (0x7b :: (n ++ 0x2c :: (digits ++ rest))) =
      noInterval env (0x7b :: (n ++ 0x2c :: (digits ++ rest))) (b :: more) := by
  have hlower := scanNumber_short hn hshort (@not_isDigit_comma (digits ++ rest))
  rcases scanNumber_long h hlong hrest with ⟨value, b, more, hb, hscan⟩
  have hend : startsWith (b :: more) '\x7d' = false := startsWith_digit hb rfl
  refine ⟨b, more, ?_⟩
  simp only [interval, List.tail_cons, hlower, lowerBound?, startsWith_comma_close,
    startsWith_comma, Bool.false_eq_true, if_false, if_true, hscan, hend]

/-- With a number that is too long there is no interval. -/
theorem interval_long (hwritten : i.Written) (hlong : ¬ i.Short) :
    ∃ b more, interval env (0x7b :: (i.text ++ 0x7d :: rest)) =
      noInterval env (0x7b :: (i.text ++ 0x7d :: rest)) (b :: more) := by
  -- The first number is too long, or the second one is behind a first one that is read.
  cases i with
  | exactly n =>
      have hn : maxDigits < n.length := by
        simpa only [Interval.Short, Interval.numerals, List.forall_mem_singleton, not_le]
          using hlong
      exact interval_longLower (hwritten n List.mem_cons_self) hn not_isDigit_close
  | atLeast n =>
      have hn : maxDigits < n.length := by
        simpa only [Interval.Short, Interval.numerals, List.forall_mem_singleton, not_le]
          using hlong
      rw [Interval.text, List.append_assoc]
      exact interval_longLower (hwritten n List.mem_cons_self) hn not_isDigit_comma
  | between n m =>
      have hlower := hwritten n List.mem_cons_self
      have hupper := hwritten m (.tail _ List.mem_cons_self)
      rw [Interval.text, List.append_assoc, List.cons_append]
      by_cases hn : maxDigits < n.length
      · exact interval_longLower hlower hn not_isDigit_comma
      -- Since the first number is short, the second one is too long.
      · rw [not_lt] at hn
        have hm : maxDigits < m.length := by
          simpa only [Interval.Short, Interval.numerals, List.forall_mem_cons, List.not_mem_nil,
            false_implies, implies_true, and_true, hn, true_and, not_le] using hlong
        exact interval_longUpper hlower hn hupper hm not_isDigit_close

/-- A byte that stands for itself where no operator begins with it. -/
def StandsForItself (b : UInt8) : Prop :=
  b ∈ [0x2c, 0x7b, 0x7d] ∨ b < 0x80 ∧ isSign b = false

/-- A text of such bytes in which no operator begins. -/
inductive Unread (env : Setting) : List UInt8 → Prop
  | nil : Unread env []
  | cons {b : UInt8} {rest : List UInt8} (byte : StandsForItself b)
      (operator : quantifier? env (b :: rest) = .ok none) (later : Unread env rest) :
      Unread env (b :: rest)

section Bytes

variable {options : Options} {st : State}

theorem StandsForItself.ascii (h : StandsForItself b) : b < 0x80 := by
  rcases h with hsign | hplain
  · simp only [List.mem_cons, List.not_mem_nil, or_false] at hsign
    rcases hsign with rfl | rfl | rfl <;> decide
  · exact hplain.1

theorem startsPlain_cons (h : isSign b = false) : StartsPlain (b :: rest) := by
  rintro c ⟨⟩
  exact .inr h

theorem StandsForItself.skipBlank (h : StandsForItself b) :
    skipBlank options (b :: rest) = b :: rest := by
  rcases h with hsign | hplain
  · simp only [List.mem_cons, List.not_mem_nil, or_false] at hsign
    rw [Pattern.skipBlank]
    rcases hsign with rfl | rfl | rfl <;> split <;> rfl
  · exact skipBlank_plain (startsPlain_cons hplain.2)

theorem StandsForItself.atBranchEnd (h : StandsForItself b) : atBranchEnd (b :: rest) = false := by
  rcases h with hsign | hplain
  · simp only [List.mem_cons, List.not_mem_nil, or_false] at hsign
    rcases hsign with rfl | rfl | rfl <;> rfl
  · exact atBranchEnd_plain (startsPlain_cons hplain.2) (List.cons_ne_nil _ _)

theorem leadLength_of_lt (enc : Encoding) (h : b < 0x80) : enc.leadLength b = 1 := by
  cases enc with
  | utf8 => exact Utf8.leadLength_ascii h
  | ascii => rfl

theorem StandsForItself.item {group : Reader (Option Draft)} (h : StandsForItself b)
    (hrest : st.rest = b :: rest) :
    item env group st = .ok (some (st.literal [b]), { st with rest := rest }) := by
  have hlength := leadLength_of_lt env.encoding h.ascii
  rcases h with hsign | hplain
  · have hsplit : env.encoding.splitFirst ([b] ++ rest) = some ([b], rest) :=
      Encoding.splitFirst_append hlength
    rw [List.singleton_append] at hsplit
    simp only [List.mem_cons, List.not_mem_nil, or_false] at hsign
    rcases hsign with rfl | rfl | rfl <;>
      simp only [Pattern.item, hrest, leavesNode, simpleItem, hsplit] <;> rfl
  · refine item_quoteChar hlength (hrest.trans ?_)
    rw [quoteChar, hplain.2]
    rfl

/-- An item of one byte is a literal. -/
theorem repeats_unread {fuel wraps : Nat} {node : Draft} (hrest : st.rest = rest)
    (h : Unread env rest) :
    repeats env (fuel + 1) wraps node st = .ok (node, { st with depth := st.depth - wraps }) := by
  subst hrest
  rcases st with ⟨rest, options, groups, names, depth⟩
  cases h with
  | nil =>
      have hblank : skipBlank options [] = [] := skipBlank_plain nofun
      rw [repeats]
      simp only [hblank]
      rfl
  | cons byte operator later =>
      rw [repeats]
      simp only [byte.skipBlank, operator]
      rfl

/-- Such a text is read byte by byte. -/
theorem branchItems_unread {fuel : Nat} {group : Reader (Option Draft)} {items : List Draft}
    {text : List UInt8} (h : Unread env text) (hrest : st.rest = text)
    (hfuel : text.length < fuel) :
    branchItems env group fuel items st =
      .ok (items.reverse ++ text.map fun b => st.literal [b], { st with rest := [] }) := by
  -- By induction on the text. Each byte is an item that no operator follows, so reading goes on at
  -- the next one.
  induction h generalizing fuel items st with
  | nil =>
      obtain ⟨fuel, rfl⟩ : ∃ k, fuel = k + 1 := ⟨fuel - 1, by omega⟩
      have hblank : skipBlank st.options [] = [] := skipBlank_plain nofun
      rw [branchItems, hrest, hblank, List.map_nil, List.append_nil]
      rfl
  | @cons b rest byte operator later ih =>
      obtain ⟨fuel, rfl⟩ : ∃ k, fuel = k + 1 := ⟨fuel - 1, by omega⟩
      rw [List.length_cons] at hfuel
      -- The byte is read as a literal, and the rest of the text in the same way.
      have hitem := @StandsForItself.item rest b env { st with rest := b :: rest } group byte rfl
      have hnext := @ih { st with rest := rest } fuel (st.literal [b] :: items) rfl (by omega)
      -- No operator stands behind the byte.
      have hrepeats : ∀ {fuel : Nat} {node : Draft},
          repeats env (fuel + 1) 0 node { st with rest := rest } =
            .ok (node, { st with rest := rest }) := repeats_unread rfl later
      simp only [branchItems, hrest, byte.skipBlank, byte.atBranchEnd, Bool.false_eq_true, if_false,
        operator, hitem, hrepeats, bind, Except.bind]
      refine hnext.trans ?_
      rw [List.reverse_cons, List.append_assoc]
      rfl

end Bytes

section Patterns

variable {enc : Encoding} {options : Options} {dialect : Dialect} {limits : Limits}
  {text : List UInt8}

theorem isValid_of_ascii (h : ∀ b ∈ text, b < 0x80) : enc.isValid text = true := by
  induction text with
  | nil => exact Encoding.isValid_nil
  | cons b text ih =>
      rw [List.forall_mem_cons] at h
      rw [← List.singleton_append, Encoding.isValid_append (Encoding.isValid_singleton h.1)]
      exact ih h.2

/-- The setting in which a pattern is read. -/
abbrev settingOf (pattern : List UInt8) (enc : Encoding) (dialect : Dialect) (limits : Limits) :
    Setting :=
  ⟨pattern, enc, dialect, limits.captures, limits.nesting⟩

theorem offset_settingOf (before rest : List UInt8) :
    (settingOf (before ++ rest) enc dialect limits).offset rest = before.length := by
  have hadd : (settingOf (before ++ rest) enc dialect limits).offset rest + rest.length =
      (before ++ rest).length := offset_add_length (List.suffix_append before rest)
  rw [List.length_append] at hadd
  exact Nat.add_right_cancel hadd

/-- A pattern that is a single branch without groups. -/
theorem parse_branch {pattern : List UInt8} (hvalid : enc.isValid pattern = true)
    {read : Except Failure (List Draft)}
    (hread : ∀ group, branchItems (settingOf pattern enc dialect limits) group
      (pattern.length + 1) [] { rest := pattern, options := options } =
        read.map fun items => (items, { rest := [], options := options })) :
    (parse pattern options enc dialect limits).map Parsed.tree =
      read >>= fun items => resolve 0 {} (branchNode items) := by
  rw [parse]
  simp only [hvalid, Bool.not_true, Bool.false_eq_true, if_false, alternatives, branches, branch,
    hread, bind, Except.bind]
  rcases read with failure | items
  · rfl
  · simp only [Except.map, List.reverse_cons, List.reverse_nil, List.nil_append, alternationNode]
    rcases resolve 0 {} (branchNode items) with failure | tree <;> rfl

theorem manner_nil (q : Quantifier) : manner dialect q [] = (q, []) := by
  simp only [manner, startsWith, Bool.and_false, Bool.false_eq_true, if_false]

/-- A brace is an operator if it starts an interval. -/
theorem quantifier_brace {env : Setting} (rest : List UInt8) :
    quantifier? env (0x7b :: rest) = interval env (0x7b :: rest) >>= fun
      | none => .ok none
      | some (lower, upper, after) =>
        .ok (some (manner env.dialect { lower := lower, upper := upper } after)) :=
  rfl

/-- An interval at the end of a pattern is a repeat operator if its bounds pass the check. -/
theorem quantifier_interval {env : Setting} (hwritten : i.Written) (hshort : i.Short) :
    quantifier? env (0x7b :: (i.text ++ [0x7d])) =
      checkBounds env (i.text ++ [0x7d]) i.lower i.upper >>= fun _ =>
        .ok (some (⟨i.lower, i.upper, true, false⟩, [])) := by
  rw [quantifier_brace, interval_short hwritten hshort]
  rcases checkBounds env (i.text ++ [0x7d]) i.lower i.upper with failure | checked
  · rfl
  · simp only [bind, Except.bind, manner_nil]

/-- It wraps the item before it, unless it repeats once. -/
theorem repeats_interval {env : Setting} {item : Draft} (hitem : refusesRepeat item = false)
    (hnesting : 0 < env.nestingLimit) (hwritten : i.Written) (hshort : i.Short) :
    repeats env ((0x7b :: (i.text ++ [0x7d])).length + 1) 0 item
        { rest := 0x7b :: (i.text ++ [0x7d]), options := options } =
      checkBounds env (i.text ++ [0x7d]) i.lower i.upper >>= fun _ => .ok
        (if i.lower = 1 ∧ i.upper = some 1 then item else .repeated i.lower i.upper true item,
          { rest := [], options := options }) := by
  have hbrace : StandsForItself 0x7b := .inl (by decide)
  have hend : ∀ (wraps : Nat) (node : Draft),
      repeats env (0x7b :: (i.text ++ [0x7d])).length wraps node
          { rest := [], options := options, depth := wraps } =
        .ok (node, { rest := [], options := options, depth := wraps - wraps }) :=
    fun _ _ => repeats_unread rfl .nil
  -- The bounds are checked before it is asked whether the repeat is trivial.
  rw [repeats]
  simp only [hbrace.skipBlank, quantifier_interval hwritten hshort]
  rcases checkBounds env (i.text ++ [0x7d]) i.lower i.upper with failure | checked
  · rfl
  · simp only [bind, Except.bind, hitem, Bool.false_eq_true, if_false, Nat.zero_add, hend,
      Nat.sub_self, Quantifier.apply]
    by_cases honce : i.lower = 1 ∧ i.upper = some 1
    · have htrivial : Quantifier.isTrivial ⟨i.lower, i.upper, true, false⟩ = true := by
        rw [Quantifier.isTrivial, honce.1, honce.2]
        rfl
      rw [if_pos htrivial, if_pos honce]
    · have htrivial : ¬ Quantifier.isTrivial ⟨i.lower, i.upper, true, false⟩ = true := by
        simpa [Quantifier.isTrivial] using honce
      rw [if_neg htrivial, if_neg honce, if_neg (by omega)]

/-- A letter is an item, and operators may follow. -/
theorem branchItems_letter {env : Setting} {fuel : Nat} {group : Reader (Option Draft)} :
    branchItems env group (fuel + 1) [] { rest := 0x61 :: rest, options := options } =
      repeats env (rest.length + 1) 0 (.literal [0x61] options.ignoreCase)
          { rest := rest, options := options } >>=
        fun read => branchItems env group fuel [read.1] read.2 := by
  have hletter : StandsForItself 0x61 := .inr ⟨by decide, rfl⟩
  have hitem := @StandsForItself.item rest 0x61 env { rest := 0x61 :: rest, options := options }
    group hletter rfl
  have hplain : quantifier? env (0x61 :: rest) = .ok none := rfl
  rw [branchItems]
  simp only [hletter.skipBlank, hletter.atBranchEnd, hplain, hitem, Bool.false_eq_true, if_false,
    State.literal, bind, Except.bind]

theorem StandsForItself.of_digit (h : isDigit b = true) : StandsForItself b := by
  have hall : ∀ i : Fin 256, isDigit (.ofFin i) = true →
      (.ofFin i : UInt8) < 0x80 ∧ isSign (.ofFin i) = false := by decide +kernel
  exact .inr (hall b.toFin h)

theorem quantifier_ne_brace (h : StandsForItself b) (hb : b ≠ 0x7b) :
    quantifier? env (b :: rest) = .ok none := by
  rcases h with hsign | hplain
  · simp only [List.mem_cons, List.not_mem_nil, or_false] at hsign
    rcases hsign with rfl | rfl | rfl
    · rfl
    · exact absurd rfl hb
    · rfl
  · exact quantifier_plain (startsPlain_cons hplain.2)

/-- Without braces there is no operator in a text of such bytes. -/
theorem unread_of_forall {text : List UInt8} (h : ∀ b ∈ text, StandsForItself b ∧ b ≠ 0x7b) :
    Unread env text := by
  induction text with
  | nil => exact .nil
  | cons b text ih =>
      rw [List.forall_mem_cons] at h
      exact .cons h.1.1 (quantifier_ne_brace h.1.1 h.1.2) (ih h.2)

theorem Unread.ascii {text : List UInt8} (h : Unread env text) : ∀ b ∈ text, b < 0x80 := by
  induction h with
  | nil => exact List.forall_mem_nil _
  | cons byte operator later ih => exact List.forall_mem_cons.mpr ⟨byte.ascii, ih⟩

/-- The text of an interval has no brace in it. -/
theorem forall_text (hwritten : i.Written) :
    ∀ b ∈ i.text ++ [0x7d], StandsForItself b ∧ b ≠ 0x7b := by
  have hdigits : ∀ digits ∈ i.numerals, ∀ b ∈ digits, StandsForItself b ∧ b ≠ 0x7b := by
    intro digits hmem b hb
    have hdigit := (hwritten digits hmem).2 b hb
    refine ⟨.of_digit hdigit, ?_⟩
    rintro rfl
    cases hdigit
  have hcomma : StandsForItself 0x2c ∧ (0x2c : UInt8) ≠ 0x7b := ⟨.inl (by decide), by decide⟩
  rw [List.forall_mem_append, List.forall_mem_singleton]
  refine ⟨?_, .inl (by decide), by decide⟩
  cases i with
  | exactly n => exact hdigits n List.mem_cons_self
  | atLeast n =>
      rw [Interval.text, List.forall_mem_append, List.forall_mem_singleton]
      exact ⟨hdigits n List.mem_cons_self, hcomma⟩
  | between n m =>
      rw [Interval.text, List.forall_mem_append, List.forall_mem_cons]
      exact ⟨hdigits n List.mem_cons_self, hcomma, hdigits m (.tail _ List.mem_cons_self)⟩

/-- A text that is read byte by byte is a literal. -/
theorem parse_unread {pattern : List UInt8} (hne : pattern ≠ [])
    (hunread : Unread (settingOf pattern enc dialect limits) pattern) :
    (parse pattern options enc dialect limits).map Parsed.tree =
      .ok (.literal pattern options.ignoreCase) := by
  -- What is read are literals of one byte each, and they are joined.
  let items : List Draft := pattern.map fun b => .literal [b] options.ignoreCase
  have hread : ∀ group, branchItems (settingOf pattern enc dialect limits) group
      (pattern.length + 1) [] { rest := pattern, options := options } =
        (Except.ok items).map fun items => (items, { rest := [], options := options }) :=
    fun group => branchItems_unread hunread rfl (Nat.lt_succ_self _)
  rw [parse_branch (isValid_of_ascii hunread.ascii) hread]
  have hnode : branchNode items = .literal pattern options.ignoreCase := by
    rcases pattern with _ | ⟨b, rest⟩
    · exact absurd rfl hne
    · have hsplit : items = ([b] :: rest.map fun b => [b]).map
          fun char => .literal char options.ignoreCase := by
        rw [List.map_cons, List.map_map]
        rfl
      rw [hsplit, branchNode_literals_cons, List.flatten_cons, ← List.flatMap_def,
        List.flatMap_singleton', List.singleton_append]
  change resolve 0 {} (branchNode items) = _
  rw [hnode]
  rfl

variable {pattern : List UInt8} (hpattern : pattern = 0x61 :: 0x7b :: (i.text ++ [0x7d]))
include hpattern

theorem isValid_interval (hwritten : i.Written) : enc.isValid pattern = true := by
  rw [hpattern]
  refine isValid_of_ascii ?_
  rw [List.forall_mem_cons, List.forall_mem_cons]
  exact ⟨by decide, by decide, fun b hb => (forall_text hwritten b hb).1.ascii⟩

/-- A letter is read, and what follows it wraps it. -/
theorem parse_letter (hwritten : i.Written) (read : Except Failure Draft)
    (hread : repeats (settingOf pattern enc dialect limits)
      ((0x7b :: (i.text ++ [0x7d])).length + 1) 0 (.literal [0x61] options.ignoreCase)
      { rest := 0x7b :: (i.text ++ [0x7d]), options := options } =
        read.map fun node => (node, { rest := [], options := options })) :
    (parse pattern options enc dialect limits).map Parsed.tree = read >>= resolve 0 {} := by
  have hitems : ∀ group, branchItems (settingOf pattern enc dialect limits) group
      (pattern.length + 1) [] { rest := pattern, options := options } =
        (read.map fun node => [node]).map fun items =>
          (items, { rest := [], options := options }) := by
    intro group
    rw [hpattern] at hread ⊢
    rw [branchItems_letter, hread]
    rcases read with failure | node
    · rfl
    · exact branchItems_unread .nil rfl (Nat.succ_pos _)
  rw [parse_branch (isValid_interval hpattern hwritten) hitems]
  rcases read with failure | node <;> rfl

/-- A letter and a short interval are read as the bounds say. -/
theorem parse_short (hnesting : 0 < limits.nesting) (hwritten : i.Written) (hshort : i.Short) :
    (parse pattern options enc dialect limits).map Parsed.tree =
      checkBounds (settingOf pattern enc dialect limits) (i.text ++ [0x7d]) i.lower i.upper >>=
        fun _ => .ok (if i.lower = 1 ∧ i.upper = some 1 then .literal [0x61] options.ignoreCase
          else .repeated i.lower i.upper true (.literal [0x61] options.ignoreCase)) := by
  have hrepeats := @repeats_interval i options (settingOf pattern enc dialect limits)
    (.literal [0x61] options.ignoreCase) rfl hnesting hwritten hshort
  generalize checkBounds (settingOf pattern enc dialect limits) (i.text ++ [0x7d]) i.lower
    i.upper = checked at hrepeats ⊢
  rcases checked with failure | checked
  · exact parse_letter hpattern hwritten (.error failure) hrepeats
  · refine (parse_letter hpattern hwritten (.ok _) hrepeats).trans ?_
    split <;> rfl

/-- A letter and an interval with a number that is too long are read as they stand, if the dialect
reads braces as literals. -/
theorem parse_long (hwritten : i.Written) (hlong : ¬ i.Short) :
    (parse pattern options enc dialect limits).map Parsed.tree =
      if dialect.literalBraces then .ok (.literal pattern options.ignoreCase)
      else .error { cause := .invalidInterval, offset := 1 } := by
  -- What is read of the interval itself: that there is none.
  have hletter : StandsForItself 0x61 := .inr ⟨by decide, rfl⟩
  have hbrace : StandsForItself 0x7b := .inl (by decide)
  rcases @interval_long [] (settingOf pattern enc dialect limits) i hwritten hlong with
    ⟨b, more, hinterval⟩
  rw [noInterval] at hinterval
  split
  · -- The brace is no operator, nor is any byte behind it.
    rename_i hliteral
    rw [if_pos hliteral] at hinterval
    have hquantifier : quantifier? (settingOf pattern enc dialect limits)
        (0x7b :: (i.text ++ [0x7d])) = .ok none := by
      rw [quantifier_brace, hinterval]
      rfl
    have hunread : Unread (settingOf pattern enc dialect limits)
        (0x61 :: 0x7b :: (i.text ++ [0x7d])) :=
      .cons hletter rfl (.cons hbrace hquantifier (unread_of_forall (forall_text hwritten)))
    rw [← hpattern] at hunread
    exact parse_unread (hpattern ▸ List.cons_ne_nil _ _) hunread
  -- The dialect has no literal braces, so the pattern is refused at the brace.
  · rename_i hliteral
    rw [if_neg hliteral, List.isEmpty_cons, if_neg Bool.false_ne_true] at hinterval
    have hoffset : (settingOf pattern enc dialect limits).offset (0x7b :: (i.text ++ [0x7d])) =
        1 := by
      rw [hpattern]
      exact offset_settingOf [0x61] _
    have hrefused : repeats (settingOf pattern enc dialect limits)
        ((0x7b :: (i.text ++ [0x7d])).length + 1) 0 (.literal [0x61] options.ignoreCase)
        { rest := 0x7b :: (i.text ++ [0x7d]), options := options } =
          .error { cause := .invalidInterval, offset := 1 } := by
      rw [repeats]
      simp only [hbrace.skipBlank, quantifier_brace, hinterval, Setting.fail, hoffset]
      rfl
    exact parse_letter hpattern hwritten (.error _) hrefused

end Patterns

/-- An interval behind a letter whose numbers have at most ten digits is refused if a bound is
greater than bounds may be, and otherwise if the bounds are in the wrong order. If neither is so, it
is read as a repeat of the letter with exactly these bounds, and `{1}` as the letter itself.

An interval with a number of more digits is not read as one, whatever the number is: the text stands
for itself in a dialect that reads braces as literals, as the named ones do, and is refused in any
other. -/
theorem parse_interval {enc : Encoding} {options : Options} {dialect : Dialect} {limits : Limits}
    (hnesting : 0 < limits.nesting) {i : Interval} (hwritten : i.Written) :
    let pattern : List UInt8 := 0x61 :: 0x7b :: (i.text ++ [0x7d])
    let a : Tree := .literal [0x61] options.ignoreCase
    let read := (parse pattern options enc dialect limits).map Parsed.tree
    (i.Short → i.TooBig → read = .error { cause := .bigInterval, offset := 2 }) ∧
    (i.Short → ¬ i.TooBig → i.Reversed →
      read = .error { cause := .reversedInterval, offset := 2 }) ∧
    (i.Short → ¬ i.TooBig → ¬ i.Reversed →
      read = .ok (if i.lower = 1 ∧ i.upper = some 1 then a
        else .repeated i.lower i.upper true a)) ∧
    (¬ i.Short → read = if dialect.literalBraces then .ok (.literal pattern options.ignoreCase)
      else .error { cause := .invalidInterval, offset := 1 }) := by
  intro pattern a read
  -- The bounds are blamed behind the brace.
  have hoffset : (settingOf pattern enc dialect limits).offset (i.text ++ [0x7d]) = 2 :=
    offset_settingOf [0x61, 0x7b] _
  -- The two faults of the bounds are those that the reader checks for.
  have hbig : i.TooBig ↔
      (decide (maxRepeat < i.lower) || i.upper.any (maxRepeat < ·)) = true := by
    rw [Interval.TooBig, Bool.or_eq_true, decide_eq_true_eq]
    rcases i.upper with _ | m <;> simp
  have hreversed : i.Reversed ↔ (i.upper.any (· < i.lower)) = true := by
    rw [Interval.Reversed]
    rcases i.upper with _ | m <;> simp
  have hshort : i.Short → read = _ := fun hshort => parse_short rfl hnesting hwritten hshort
  refine ⟨fun h hb => ?_, fun h hb hr => ?_, fun h hb hr => ?_, parse_long rfl hwritten⟩
  · rw [hshort h, checkBounds, if_pos (hbig.mp hb), Setting.fail, hoffset]
    rfl
  · rw [hshort h, checkBounds, if_neg (hbig.not.mp hb), if_pos (hreversed.mp hr), Setting.fail,
      hoffset]
    rfl
  · rw [hshort h, checkBounds, if_neg (hbig.not.mp hb), if_neg (hreversed.not.mp hr)]
    rfl

/-- In `a{02,3}` the bounds are two and three. -/
theorem parse_interval_bounds :
    let i := Interval.between [0x30, 0x32] [0x33]
    i.Written ∧ i.Short ∧ ¬ i.TooBig ∧ ¬ i.Reversed ∧
      (parse [0x61, 0x7b, 0x30, 0x32, 0x2c, 0x33, 0x7d] {} .utf8 Dialect.perl {}).map Parsed.tree =
        .ok (.repeated 2 (some 3) true (.literal [0x61] false)) := by
  intro i
  -- The numbers are 02 and 3, and none of their faults is one of these bounds.
  have hwritten : i.Written := by
    intro digits hmem
    simp only [i, Interval.numerals, List.mem_cons, List.not_mem_nil, or_false] at hmem
    rcases hmem with rfl | rfl <;> exact ⟨List.cons_ne_nil _ _, List.all_eq_true.mp rfl⟩
  have hshort : i.Short := by
    intro digits hmem
    simp only [i, Interval.numerals, List.mem_cons, List.not_mem_nil, or_false] at hmem
    rcases hmem with rfl | rfl <;> decide
  have hbounds : i.lower = 2 ∧ i.upper = some 3 := ⟨rfl, rfl⟩
  have hbig : ¬ i.TooBig := by
    rw [Interval.TooBig, hbounds.1, hbounds.2]
    simp [maxRepeat]
  have hreversed : ¬ i.Reversed := by
    rw [Interval.Reversed, hbounds.1, hbounds.2]
    simp
  refine ⟨hwritten, hshort, hbig, hreversed, ?_⟩
  exact (parse_interval (by decide) hwritten).2.2.1 hshort hbig hreversed

/-- The bound of `a{99999999999}` is too big and that of `a{00000000001}` is one, but both are read
as they stand. -/
theorem parse_elevenDigits :
    (∃ i : Interval, i.Written ∧ i.TooBig ∧
      (parse (0x61 :: 0x7b :: (i.text ++ [0x7d])) {} .utf8 Dialect.standard {}).map Parsed.tree =
        .ok (.literal (0x61 :: 0x7b :: (i.text ++ [0x7d])) false)) ∧
    ∃ i : Interval, i.Written ∧ i.lower = 1 ∧ i.upper = some 1 ∧
      (parse (0x61 :: 0x7b :: (i.text ++ [0x7d])) {} .utf8 Dialect.standard {}).map Parsed.tree =
        .ok (.literal (0x61 :: 0x7b :: (i.text ++ [0x7d])) false) := by
  refine ⟨⟨.exactly (List.replicate 11 0x39), ?_, .inl (by decide), rfl⟩,
    .exactly (List.replicate 10 0x30 ++ [0x31]), ?_, rfl, rfl, rfl⟩
  all_goals
    intro digits hmem
    cases List.mem_singleton.mp hmem
    exact ⟨List.cons_ne_nil _ _, List.all_eq_true.mp rfl⟩

end Pattern
end RegexEngine
