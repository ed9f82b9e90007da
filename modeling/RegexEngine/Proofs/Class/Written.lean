import Mathlib.Data.Nat.Digits.Defs
import RegexEngine.Proofs.Class.Items

/-!
# What the Text of a Class Says

The items of a class are read off its text by the readers of single items. Here they are tied to the
text itself, by rules that mention no reader. A kind has a spelling, either an escape, whose capital
letter stands for what is not of the kind, or a name in brackets, where a caret does the same. A
code point is spelled by the character itself, by a letter or a number behind a backslash, or by a
backslash before a character that means nothing else there. A number takes all the digits that it
has room for, so what its spelling is depends on the text behind it too.

An item of a class is a code point that is spelled in the text, two of them with a minus sign
between, or a kind that is spelled there. Since no escape has room for more digits than that, a code
point is a number of at most 32 bits.

## Main definitions

* `Spells`: How the kinds are spelled.
* `LeadingDigits`: The digits that a number takes from a text.
* `SpellsCode`: How the code points are spelled.
* `ClassItem.Says`: What a piece of text says as a single item.
* `Entry.WrittenIn`: An item stands in a text.

## Theorems

* `scanDigits_leading`: What the reader of numbers reads.
* `says_classItem`: What the reader of single items reads.
* `bracketName?_spells`: What the reader of names in brackets reads.
* `SpellsCode.lt`: A code point that is spelled has at most 32 bits.
* `writtenIn_of_lists`: Every item of a class stands in its text.
-/

namespace RegexEngine

namespace Encoding

variable {bytes : List UInt8} {code bound : Nat}

theorem foldl_appendTail_lt (h : code < bound) :
    bytes.foldl Utf8.appendTail code < bound * 64 ^ bytes.length := by
  induction bytes generalizing code bound with
  | nil => rwa [List.foldl_nil, List.length_nil, Nat.pow_zero, Nat.mul_one]
  | cons b bytes ih =>
      have hstep : Utf8.appendTail code b < bound * 64 := by
        rw [Utf8.appendTail]
        omega
      rw [List.foldl_cons, List.length_cons, Nat.pow_succ', ← Nat.mul_assoc]
      exact ih hstep

/-- A character has at most three bytes behind the first, and six bits in each. -/
theorem decode_lt (enc : Encoding) (bytes : List UInt8) : enc.decode bytes < 2 ^ 32 := by
  cases bytes with
  | nil => cases enc <;> decide
  | cons lead rest =>
      have hlead := lead.toNat_lt
      cases enc with
      | ascii => exact Nat.lt_trans hlead (by decide)
      | utf8 =>
          rw [decode, Utf8.decode]
          -- At most three bytes follow that count, whatever the first one announces.
          have hthree : min (Utf8.leadLength lead - 1) rest.length ≤ 3 := by
            rw [Utf8.leadLength]
            repeat' split
            all_goals omega
          generalize min (Utf8.leadLength lead - 1) rest.length = tails at hthree ⊢
          split
          · exact Nat.lt_trans hlead (by decide)
          -- The mask keeps at most six bits of the first byte.
          · have hmask : lead.toNat % (1 <<< (6 - tails)) < 64 := by
              rw [Nat.one_shiftLeft]
              exact Nat.lt_of_lt_of_le (Nat.mod_lt _ (Nat.two_pow_pos _))
                (Nat.pow_le_pow_right (by decide) (Nat.sub_le 6 tails))
            calc (rest.take tails).foldl Utf8.appendTail (lead.toNat % (1 <<< (6 - tails)))
                < 64 * 64 ^ (rest.take tails).length := foldl_appendTail_lt hmask
              _ ≤ 64 * 64 ^ 3 := by
                refine Nat.mul_le_mul_left _ (Nat.pow_le_pow_right (by decide) ?_)
                rw [List.length_take]
                omega
              _ < 2 ^ 32 := by decide

end Encoding

namespace Pattern

/-- The letters that stand for kinds behind a backslash. -/
def kindLetters : List (Char × CharKind) :=
  [('d', .digit), ('w', .word), ('s', .space), ('h', .hexDigit)]

/-- The spellings of a kind, and of what is not of the kind, in a dialect. -/
inductive Spells (dialect : Dialect) : CharKind → (negated : Bool) → List Char → Prop where
  /-- A letter behind a backslash. -/
  | letter (letter : Char) {found : CharKind} (row : (letter, found) ∈ kindLetters)
      (known : found = .hexDigit → dialect.hexDigits = true) :
      Spells dialect found false ['\\', letter]
  /-- Its capital. -/
  | capital (letter : Char) {found : CharKind} (row : (letter, found) ∈ kindLetters)
      (known : found = .hexDigit → dialect.hexDigits = true) :
      Spells dialect found true ['\\', letter.toUpper]
  /-- A name in brackets. -/
  | name {name : String} {found : CharKind} (row : (name, found) ∈ CharKind.bracketNames)
      (known : dialect.bracketNames = true) :
      Spells dialect found false ('[' :: ':' :: name.toList ++ [':', ']'])
  /-- A name behind a caret. -/
  | notName {name : String} {found : CharKind} (row : (name, found) ∈ CharKind.bracketNames)
      (known : dialect.bracketNames = true) :
      Spells dialect found true ('[' :: ':' :: '^' :: name.toList ++ [':', ']'])

/-- The letters that stand for control characters behind a backslash. -/
def controlLetters : List (Char × Nat) :=
  [('t', 0x09), ('n', 0x0a), ('r', 0x0d), ('f', 0x0c), ('v', 0x0b), ('a', 0x07), ('e', 0x1b)]

/-- The number that a text of digits stands for in a base. -/
def digitsValue (base : Nat) (digits : List UInt8) : Nat :=
  Nat.ofDigits base (digits.reverse.map fun b => (digitValue? base b).getD 0)

/-- The digits that a number takes from a text, if there is room for so many: all there are, or as
many as there is room for. -/
structure LeadingDigits (base room : Nat) (digits after : List UInt8) : Prop where
  all : ∀ b ∈ digits, (digitValue? base b).isSome = true
  length_le : digits.length ≤ room
  ends : digits.length = room ∨ ∀ b ∈ after.head?, digitValue? base b = none

/-- The spellings of a code point inside a class, before the text `after`. -/
inductive SpellsCode (env : Setting) (after : List UInt8) : (c : Nat) → List UInt8 → Prop where
  /-- The character itself. -/
  | plain {bytes : List UInt8}
      (one : env.encoding.splitFirst (bytes ++ after) = some (bytes, after))
      (bare : startsWith bytes '\\' = false) :
      SpellsCode env after (env.encoding.decode bytes) bytes
  /-- Inside a class `\b` is the backspace. -/
  | backspace {part : List UInt8} (spelled : part.map char = ['\\', 'b']) :
      SpellsCode env after 0x08 part
  /-- A letter behind a backslash. -/
  | control {letter : Char} {c : Nat} {part : List UInt8} (row : (letter, c) ∈ controlLetters)
      (spelled : part.map char = ['\\', letter]) : SpellsCode env after c part
  /-- Up to eight digits in braces. -/
  | braced {sign digits close : List UInt8} (opens : sign.map char = ['\\', 'x', '\x7b'])
      (filled : digits ≠ []) (number : LeadingDigits 16 8 digits (close ++ after))
      (closes : close.map char = ['\x7d']) :
      SpellsCode env after (digitsValue 16 digits) (sign ++ digits ++ close)
  /-- Up to two digits without braces. -/
  | hex {sign digits : List UInt8} (opens : sign.map char = ['\\', 'x'])
      (bare : startsWith (digits ++ after) '\x7b' = false)
      (number : LeadingDigits 16 2 digits after) :
      SpellsCode env after (digitsValue 16 digits) (sign ++ digits)
  /-- Four digits. -/
  | unicode {sign digits : List UInt8} (opens : sign.map char = ['\\', 'u'])
      (four : digits.length = 4) (number : LeadingDigits 16 4 digits after) :
      SpellsCode env after (digitsValue 16 digits) (sign ++ digits)
  /-- Up to two octal digits behind a zero. -/
  | octal {sign digits : List UInt8} (opens : sign.map char = ['\\', '0'])
      (number : LeadingDigits 8 2 digits after) :
      SpellsCode env after (digitsValue 8 digits) (sign ++ digits)
  /-- Any other character behind a backslash. -/
  | escaped {sign b : UInt8} {tails : List UInt8} (opens : char sign = '\\')
      (one : env.encoding.splitFirst (b :: tails ++ after) = some (b :: tails, after))
      (noKind : ∀ found negated, ¬ Spells env.dialect found negated ['\\', char b])
      (noControl : ∀ c, (char b, c) ∉ controlLetters)
      (noNumber : char b ∉ ['b', 'x', 'u', '0']) :
      SpellsCode env after (env.encoding.decode (b :: tails)) (sign :: b :: tails)

section Digits

variable {b : UInt8} {base room d : Nat} {digits after : List UInt8}

theorem digitValue?_lt (h : digitValue? base b = some d) : d < base := by
  rw [digitValue?, Option.filter_eq_some_iff, decide_eq_true_eq] at h
  exact h.2

theorem digitsValue_cons (h : digitValue? base b = some d) :
    digitsValue base (b :: digits) = d * base ^ digits.length + digitsValue base digits := by
  rw [digitsValue, List.reverse_cons, List.map_append, List.map_singleton, Nat.ofDigits_append,
    List.length_map, List.length_reverse, Nat.ofDigits_singleton, h, Option.getD_some,
    Nat.add_comm, Nat.mul_comm, digitsValue]

/-- A number is less than there is room for digits. -/
theorem LeadingDigits.lt (h : LeadingDigits base room digits after) (hbase : 1 < base) :
    digitsValue base digits < base ^ room := by
  refine Nat.lt_of_lt_of_le (Nat.ofDigits_lt_base_pow_length hbase fun d hd => ?_) ?_
  · rcases List.mem_map.mp hd with ⟨b, hb, rfl⟩
    rcases Option.isSome_iff_exists.mp (h.all b (List.mem_reverse.mp hb)) with ⟨value, hvalue⟩
    rw [hvalue]
    exact digitValue?_lt hvalue
  · rw [List.length_map, List.length_reverse]
    exact Nat.pow_le_pow_right (Nat.lt_trans Nat.zero_lt_one hbase) h.length_le

/-- The reader of numbers takes the digits that lead the text onto what it has read before. -/
theorem scanDigits_onto (base room value count : Nat) (rest : List UInt8) :
    ∃ digits after, rest = digits ++ after ∧ LeadingDigits base room digits after ∧
      scanDigits base room value count rest =
        (value * base ^ digits.length + digitsValue base digits, count + digits.length, after) := by
  -- No digit is left to take, for want of room or of digits.
  have hstop : ∀ room value count after,
      room = 0 ∨ (∀ b ∈ after.head?, digitValue? base b = none) →
      ∃ digits after', after = digits ++ after' ∧ LeadingDigits base room digits after' ∧
        (value, count, after) =
          (value * base ^ digits.length + digitsValue base digits, count + digits.length,
            after') := by
    intro room value count after hend
    refine ⟨[], after, rfl, ⟨List.forall_mem_nil _, Nat.zero_le room, hend.imp_left Eq.symm⟩, ?_⟩
    rw [List.length_nil, Nat.pow_zero, Nat.mul_one]
    rfl
  induction room generalizing value count rest with
  | zero => exact hstop 0 value count rest (.inl rfl)
  | succ room ih =>
      cases rest with
      | nil => exact hstop _ value count [] (.inr fun _ hb => absurd hb (Option.not_mem_none _))
      | cons b rest =>
          rw [scanDigits]
          split
          · rename_i d hdigit
            rcases ih (value * base + d) (count + 1) rest with ⟨digits, after, rfl, hlead, hscan⟩
            refine ⟨b :: digits, after, rfl, ⟨?_, ?_, ?_⟩, ?_⟩
            · exact List.forall_mem_cons.mpr ⟨Option.isSome_of_eq_some hdigit, hlead.all⟩
            · exact Nat.succ_le_succ hlead.length_le
            · exact hlead.ends.imp_left (congrArg (· + 1))
            · rw [hscan, digitsValue_cons hdigit, List.length_cons, Nat.pow_succ, Nat.add_mul,
                Nat.mul_assoc, Nat.mul_comm base, Nat.add_assoc, Nat.add_assoc count,
                Nat.add_comm 1]
          · rename_i hdigit
            refine hstop _ value count (b :: rest) (.inr fun _ hb => ?_)
            cases hb
            exact hdigit

/-- What the reader of numbers reads. -/
theorem scanDigits_leading (base room : Nat) (rest : List UInt8) :
    ∃ digits after, rest = digits ++ after ∧ LeadingDigits base room digits after ∧
      scanDigits base room 0 0 rest = (digitsValue base digits, digits.length, after) := by
  rcases scanDigits_onto base room 0 0 rest with ⟨digits, after, htext, hlead, hscan⟩
  rw [Nat.zero_mul, Nat.zero_add, Nat.zero_add] at hscan
  exact ⟨digits, after, htext, hlead, hscan⟩

end Digits

/-- What a piece of text, up to `after`, says as a single item: the spelling of a code point or of a
kind. -/
def ClassItem.Says (env : Setting) (rest after : List UInt8) : ClassItem → Prop
  | code c => ∃ part, rest = part ++ after ∧ SpellsCode env after c part
  | kind found negated =>
    ∃ part, rest = part ++ after ∧ Spells env.dialect found negated (part.map char)

section Kinds

variable {env : Setting} {dialect : Dialect} {b : UInt8} {c : Nat} {found : CharKind}
  {negated : Bool} {item : ClassItem} {start body text name esc rest after : List UInt8}

/-- The escapes for kinds are the letters and their capitals. -/
theorem kindEscape?_spells (h : kindEscape? dialect b = some (found, negated)) :
    Spells dialect found negated ['\\', char b] := by
  rw [kindEscape?] at h
  split at h <;> rename_i hletter
  case h_9 => cases h
  case h_7 =>
    rw [Option.ite_none_right_eq_some, Option.some.injEq, Prod.mk.injEq] at h
    -- The letter `h` and its capital name a kind only where the dialect says so.
    rcases h with ⟨hknown, rfl, rfl⟩
    rw [hletter]
    exact .letter 'h' (by decide) fun _ => hknown
  case h_8 =>
    rw [Option.ite_none_right_eq_some, Option.some.injEq, Prod.mk.injEq] at h
    rcases h with ⟨hknown, rfl, rfl⟩
    rw [hletter]
    exact .capital 'h' (by decide) fun _ => hknown
  -- The other letters have no condition, and each is a row of the table.
  case h_1 | h_3 | h_5 =>
    cases h
    rw [hletter]
    exact .letter _ (by decide) (by rintro ⟨⟩)
  case h_2 =>
    cases h
    rw [hletter]
    exact .capital 'd' (by decide) (by rintro ⟨⟩)
  case h_4 =>
    cases h
    rw [hletter]
    exact .capital 'w' (by decide) (by rintro ⟨⟩)
  case h_6 =>
    cases h
    rw [hletter]
    exact .capital 's' (by decide) (by rintro ⟨⟩)

/-- What spells a kind behind a backslash is read as one. -/
theorem kindEscape?_of_spells (h : Spells dialect found negated ['\\', char b]) :
    kindEscape? dialect b = some (found, negated) := by
  generalize htext : ['\\', char b] = text at h
  cases h with
  | letter letter row known =>
      rw [List.cons.injEq, List.cons.injEq] at htext
      -- The letter is one of the rows, and `h` alone asks the dialect.
      simp only [kindLetters, List.mem_cons, Prod.mk.injEq, List.not_mem_nil, or_false] at row
      rw [kindEscape?, htext.2.1]
      rcases row with ⟨rfl, rfl⟩ | ⟨rfl, rfl⟩ | ⟨rfl, rfl⟩ | ⟨rfl, rfl⟩
      case inr.inr.inr => exact if_pos (known rfl)
      all_goals rfl
  | capital letter row known =>
      rw [List.cons.injEq, List.cons.injEq] at htext
      simp only [kindLetters, List.mem_cons, Prod.mk.injEq, List.not_mem_nil, or_false] at row
      rw [kindEscape?, htext.2.1]
      rcases row with ⟨rfl, rfl⟩ | ⟨rfl, rfl⟩ | ⟨rfl, rfl⟩ | ⟨rfl, rfl⟩
      case inr.inr.inr => exact if_pos (known rfl)
      all_goals rfl
  | name row known => exact absurd (List.cons.inj htext).1 (by decide)
  | notName row known => exact absurd (List.cons.inj htext).1 (by decide)

/-- The letters of control characters are those of the table. -/
theorem controlEscape?_iff : controlEscape? b = some c ↔ (char b, c) ∈ controlLetters := by
  constructor
  · intro h
    rw [controlEscape?] at h
    split at h <;> rename_i hletter
    case h_8 => cases h
    all_goals
      cases h
      rw [hletter]
      decide
  · intro h
    simp only [controlLetters, List.mem_cons, Prod.mk.injEq, List.not_mem_nil, or_false] at h
    rw [controlEscape?]
    rcases h with ⟨hletter, rfl⟩ | ⟨hletter, rfl⟩ | ⟨hletter, rfl⟩ | ⟨hletter, rfl⟩ |
      ⟨hletter, rfl⟩ | ⟨hletter, rfl⟩ | ⟨hletter, rfl⟩
    all_goals
      rw [hletter]
      rfl

theorem startsWith_iff {c : Char} :
    startsWith rest c = true ↔ ∃ b tail, rest = b :: tail ∧ char b = c := by
  cases rest with
  | nil => simp [startsWith]
  | cons b tail => simp [startsWith]

/-- A text is split into its first character and what is behind it. -/
theorem append_of_splitFirst {enc : Encoding} {bytes : List UInt8}
    (h : enc.splitFirst rest = some (bytes, after)) : rest = bytes ++ after := by
  cases rest with
  | nil => cases h
  | cons lead tail =>
      cases h
      rw [List.cons_append, List.take_append_drop]

/-- What the reader of hexadecimal numbers reads behind the sign. -/
theorem hexEscape_spells {sign : List UInt8} (hsign : sign.map char = ['\\', 'x'])
    (h : hexEscape env esc rest = .ok (c, after)) :
    ∃ part, rest = part ++ after ∧ SpellsCode env after c (sign ++ part) := by
  rw [hexEscape] at h
  split at h
  · rename_i hbrace
    rcases startsWith_iff.mp hbrace with ⟨brace, tail, rfl, hopens⟩
    rw [List.tail_cons] at h
    rcases scanDigits_leading 16 8 tail with ⟨digits, last, rfl, hlead, hscan⟩
    rw [hscan] at h
    simp only [Bool.or_eq_true, decide_eq_true_eq, Bool.not_eq_true'] at h
    split at h
    · cases h
    · rename_i hclosed
      rw [not_or, Bool.not_eq_false, startsWith_iff] at hclosed
      rcases hclosed with ⟨hfilled, close, tail, rfl, hcloses⟩
      cases h
      refine ⟨brace :: digits ++ [close], by simp, ?_⟩
      have hspelled : SpellsCode env tail (digitsValue 16 digits)
          (sign ++ [brace] ++ digits ++ [close]) := by
        refine .braced ?_ (fun hnil => hfilled (congrArg List.length hnil)) hlead ?_
        · rw [List.map_append, List.map_singleton, hsign, hopens]
          rfl
        · rw [List.map_singleton, hcloses]
      rw [List.append_assoc, List.append_assoc] at hspelled
      exact hspelled
  -- Without a brace, two digits are the most that belong to the number.
  · rename_i hbare
    rcases scanDigits_leading 16 2 rest with ⟨digits, last, rfl, hlead, hscan⟩
    rw [hscan] at h
    cases h
    exact ⟨digits, rfl, .hex hsign ((Bool.not_eq_true _).mp hbare) hlead⟩

/-- What the reader of escapes for single characters reads, where the backslash is not one of an
escape for a kind. -/
theorem escapedCode_spells {sign : UInt8} (hsign : char sign = '\\')
    (hkind : kindEscape? env.dialect b = none) (hletter : char b ≠ 'b')
    (h : escapedCode env esc (b :: rest) = .ok (c, after)) :
    ∃ part, b :: rest = part ++ after ∧ SpellsCode env after c (sign :: part) := by
  have hopens : ∀ {letter : Char}, char b = letter → [sign, b].map char = ['\\', letter] := by
    intro letter hb
    rw [List.map_cons, List.map_singleton, hsign, hb]
  rw [escapedCode] at h
  -- A letter of the table stands for a control character, whatever is behind it.
  split at h
  · rename_i hcontrol
    cases h
    exact ⟨[b], rfl, .control (controlEscape?_iff.mp hcontrol) (hopens rfl)⟩
  · rename_i hcontrol
    split at h
    · rename_i hx
      rcases hexEscape_spells (hopens hx) h with ⟨part, rfl, hspelled⟩
      exact ⟨b :: part, rfl, hspelled⟩
    -- Just four digits must follow `u`.
    · rename_i hu
      rcases scanDigits_leading 16 4 rest with ⟨digits, last, rfl, hlead, hscan⟩
      rw [hscan] at h
      simp only at h
      split at h
      · cases h
      · rename_i hfour
        cases h
        refine ⟨b :: digits, rfl, .unicode (hopens hu) ?_ hlead⟩
        exact Nat.le_antisymm hlead.length_le (Nat.le_of_not_lt hfour)
    · rename_i hzero
      rcases scanDigits_leading 8 2 rest with ⟨digits, last, rfl, hlead, hscan⟩
      rw [hscan] at h
      cases h
      exact ⟨b :: digits, rfl, .octal (hopens hzero) hlead⟩
    -- Any other character is escaped as itself.
    · rename_i hx hu hzero
      cases h
      refine ⟨b :: rest.take (env.encoding.leadLength b - 1), ?_, .escaped hsign ?_ ?_ ?_ ?_⟩
      · rw [List.cons_append, List.take_append_drop]
      · rw [List.cons_append, List.take_append_drop]
        rfl
      · intro found negated hspells
        rw [kindEscape?_of_spells hspells] at hkind
        cases hkind
      · intro code hrow
        rw [controlEscape?_iff.mpr hrow] at hcontrol
        cases hcontrol
      · simp only [List.mem_cons, List.not_mem_nil, or_false, not_or]
        exact ⟨hletter, hx, hu, hzero⟩

/-- What the reader of single items reads. -/
theorem says_classItem (h : classItem env rest = .ok (item, after)) :
    item.Says env rest after := by
  rw [classItem] at h
  split at h
  · rename_i hescape
    rcases startsWith_iff.mp hescape with ⟨esc, tail, rfl, hesc⟩
    cases tail with
    | nil => cases h
    | cons b tail =>
        rw [List.tail_cons] at h
        simp only at h
        split at h
        -- The escape is one for a kind.
        · rename_i found negated hkind
          cases h
          refine ⟨[esc, b], rfl, ?_⟩
          rw [List.map_cons, List.map_singleton, hesc]
          exact kindEscape?_spells hkind
        · rename_i hkind
          split at h
          -- In a class, `\b` is a backspace and not an anchor.
          · rename_i hletter
            cases h
            refine ⟨[esc, b], rfl, .backspace ?_⟩
            rw [List.map_cons, List.map_singleton, hesc, eq_of_beq hletter]
          · rename_i hletter
            rw [beq_iff_eq] at hletter
            rcases bind_ok h with ⟨⟨code, last⟩, hcode, hpair⟩
            cases hpair
            rcases escapedCode_spells hesc hkind hletter hcode with ⟨part, htext, hspelled⟩
            exact ⟨esc :: part, by rw [List.cons_append, htext], hspelled⟩
  · rename_i hescape
    -- A character that is not behind a backslash is read whole.
    split at h
    · cases h
    · rename_i bytes last hsplit
      cases h
      have htext := append_of_splitFirst hsplit
      refine ⟨bytes, htext, .plain (htext ▸ hsplit) ?_⟩
      rw [Bool.not_eq_true] at hescape
      cases bytes with
      | nil => rfl
      | cons lead tails =>
          rw [htext] at hescape
          exact hescape

/-- A code point that is spelled has at most 32 bits. -/
theorem SpellsCode.lt {part : List UInt8} (h : SpellsCode env after c part) : c < 2 ^ 32 := by
  cases h with
  | plain one bare => exact Encoding.decode_lt _ _
  | backspace spelled => decide
  | control row spelled =>
      have hrows : ∀ entry ∈ controlLetters, entry.2 < 2 ^ 32 := by decide
      exact hrows _ row
  | braced opens filled number closes => exact number.lt (by decide)
  | hex opens bare number => exact Nat.lt_trans (number.lt (by decide)) (by decide)
  | unicode opens four number => exact Nat.lt_trans (number.lt (by decide)) (by decide)
  | octal opens number => exact Nat.lt_trans (number.lt (by decide)) (by decide)
  | escaped opens one noKind noControl noNumber => exact Encoding.decode_lt _ _

/-- A character of US-ASCII other than the backslash is spelled by itself. -/
theorem spellsCode_ascii {letter : Char} (env : Setting) (after : List UInt8)
    (hb : char b = letter) (hascii : letter.toNat < 0x80) (hother : (letter == '\\') = false) :
    SpellsCode env after letter.toNat [b] := by
  -- In both encodings the character is one byte, and the byte is its code point.
  have hlead : env.encoding.leadLength b = 1 := by
    cases env.encoding with
    | utf8 => exact Utf8.leadLength_ascii (ascii_of_char hb hascii)
    | ascii => rfl
  have hcode : env.encoding.decode [b] = letter.toNat := by
    rw [← hb]
    cases env.encoding with
    | utf8 =>
        rw [Encoding.decode, Utf8.decode, List.length_nil, Nat.min_zero]
        rfl
    | ascii => rfl
  rw [← hcode]
  refine .plain ?_ ?_
  · simp only [List.singleton_append, Encoding.splitFirst, hlead, Nat.sub_self, List.take_zero,
      List.drop_zero]
  · rw [startsWith, hb]
    exact hother

/-- The text before the first `:]`. -/
theorem splitAtClose_some (h : splitAtClose body = some (text, after)) :
    ∃ close, body = text ++ close ++ after ∧ close.map char = [':', ']'] := by
  induction body generalizing text with
  | nil => cases h
  | cons b rest ih =>
      rw [splitAtClose] at h
      split at h
      · rename_i hclose
        rw [Bool.and_eq_true, beq_iff_eq, startsWith_iff] at hclose
        rcases hclose with ⟨hcolon, last, tail, rfl, hlast⟩
        cases h
        exact ⟨[b, last], rfl, by rw [List.map_cons, List.map_singleton, hcolon, hlast]⟩
      · rcases Option.map_eq_some_iff.mp h with ⟨⟨name, last⟩, hrest, hpair⟩
        cases hpair
        rcases ih hrest with ⟨close, rfl, hclose⟩
        exact ⟨close, rfl, hclose⟩

/-- A name of a kind as bytes. -/
theorem ofBracketName?_some (h : CharKind.ofBracketName? name = some found) :
    ∃ row, (row, found) ∈ CharKind.bracketNames ∧ name.map char = row.toList := by
  rcases Option.map_eq_some_iff.mp h with ⟨⟨row, kind⟩, hfound, rfl⟩
  have hmem := List.mem_of_find?_eq_some hfound
  refine ⟨row, hmem, ?_⟩
  have hbytes := List.find?_some hfound
  rw [beq_iff_eq] at hbytes
  -- The names are of letters, which are bytes of their own numbers.
  have hnames : ∀ entry ∈ CharKind.bracketNames,
      (entry.1.toList.map fun c => char c.toNat.toUInt8) = entry.1.toList := by
    decide
  rw [← hbytes, List.map_map]
  exact hnames _ hmem

/-- What the reader of names in brackets reads. -/
theorem bracketName?_spells {b colon : UInt8} (hopens : char b = '[') (hcolon : char colon = ':')
    (hknown : env.dialect.bracketNames = true)
    (h : bracketName? env start body = .ok (some (found, negated, after))) :
    ∃ part, b :: colon :: body = part ++ after ∧
      Spells env.dialect found negated (part.map char) := by
  rw [bracketName?] at h
  split at h
  · cases h
  · rename_i text last hsplit
    rcases splitAtClose_some hsplit with ⟨close, rfl, hclose⟩
    simp only at h
    -- The name is what is left behind the caret, if there is one.
    generalize hrow : (if startsWith text '^' then text.tail else text) = name at h
    split at h
    · cases h
    · split at h
      · cases h
      · rename_i kind hkind
        cases h
        rcases ofBracketName?_some hkind with ⟨row, hmem, hname⟩
        refine ⟨b :: colon :: text ++ close, by simp, ?_⟩
        rw [List.map_append, List.map_cons, List.map_cons, hopens, hcolon, hclose]
        by_cases hcaret : startsWith text '^' = true
        · rcases startsWith_iff.mp hcaret with ⟨caret, tail, rfl, hsign⟩
          rw [if_pos hcaret, List.tail_cons] at hrow
          rw [hcaret, List.map_cons, hsign, hrow, hname]
          exact .notName hmem hknown
        · rw [if_neg hcaret] at hrow
          rw [Bool.not_eq_true] at hcaret
          rw [hcaret, hrow, hname]
          exact .name hmem hknown

end Kinds

/-- An item stands in a text: a code point that is spelled there, two of them in order with a minus
sign between, or a kind that is spelled there. -/
inductive Entry.WrittenIn (env : Setting) (text : List UInt8) : Entry → Prop where
  | single {c : Nat} {part after : List UInt8} (place : part ++ after <:+ text)
      (spelled : SpellsCode env after c part) : WrittenIn env text (.span c c)
  | range {low high : Nat} {minus : UInt8} {first last after : List UInt8}
      (place : first ++ minus :: (last ++ after) <:+ text)
      (lower : SpellsCode env (minus :: (last ++ after)) low first) (sign : char minus = '-')
      (upper : SpellsCode env after high last) (ordered : low ≤ high) :
      WrittenIn env text (.span low high)
  | kind {found : CharKind} {negated : Bool} {part after : List UInt8}
      (place : part ++ after <:+ text)
      (spelled : Spells env.dialect found negated (part.map char)) :
      WrittenIn env text (.kind found negated)

section Items

variable {env : Setting} {entry : Entry} {entries : List Entry} {low : Option Nat}
  {text rest start stop : List UInt8}

/-- The ends of a range are in order and have at most 32 bits. -/
theorem Entry.WrittenIn.ends {first last : Nat} (h : WrittenIn env text (.span first last)) :
    first ≤ last ∧ last < 2 ^ 32 := by
  cases h with
  | single place spelled => exact ⟨Nat.le_refl _, spelled.lt⟩
  | range place lower sign upper ordered => exact ⟨ordered, upper.lt⟩

/-- Every item of the text between the brackets stands in it. What has been read may end with the
character that a range can start at. -/
theorem writtenIn_of_lists (h : Lists env low rest entries stop) (hrest : rest <:+ text)
    (hlow : ∀ c ∈ low, ∃ part, part ++ rest <:+ text ∧ SpellsCode env rest c part) :
    ∀ entry ∈ entries, entry.WrittenIn env text := by
  -- An item that is a kind or a range leaves no character that a range can start at.
  have hnone : ∀ rest, ∀ c ∈ (none : Option Nat),
      ∃ part, part ++ rest <:+ text ∧ SpellsCode env rest c part :=
    fun _ c hc => absurd hc (Option.not_mem_none c)
  -- Behind any other item, that item is the character.
  have hsingle : ∀ {c : Nat} {part last : List UInt8}, part ++ last <:+ text →
      SpellsCode env last c part → ∀ code ∈ some c,
        ∃ part, part ++ last <:+ text ∧ SpellsCode env last code part := by
    intro c part last hplace hspelled code hcode
    cases hcode
    exact ⟨part, hplace, hspelled⟩
  induction h with
  | close closes => exact List.forall_mem_nil _
  | named opens colon read more ih =>
      rw [Bool.and_eq_true, startsWith_iff] at colon
      rcases colon with ⟨hknown, second, body, rfl, hcolon⟩
      rcases bracketName?_spells opens hcolon hknown read with ⟨part, htext, hspells⟩
      rw [List.tail_cons] at htext
      rw [htext] at hrest
      exact List.forall_mem_cons.mpr
        ⟨.kind hrest hspells, ih ((List.suffix_append _ _).trans hrest) (hnone _)⟩
  | @bracket low b tail stop entries opens unnamed more ih =>
      have hspelled := spellsCode_ascii env tail opens (by decide) (by decide)
      refine List.forall_mem_cons.mpr ⟨.single hrest hspelled, ih ?_ (hsingle hrest hspelled)⟩
      exact (List.suffix_cons _ _).trans hrest
  | range minus ends read ordered more ih =>
      rcases hlow _ rfl with ⟨first, hplace, hfirst⟩
      rcases says_classItem read with ⟨last, rfl, hlast⟩
      refine List.forall_mem_cons.mpr ⟨.range hplace hfirst minus hlast ordered, ih ?_ (hnone _)⟩
      exact (List.suffix_append _ _).trans ((List.suffix_cons _ _).trans hrest)
  | @minus low b tail stop entries minus alone more ih =>
      have hspelled := spellsCode_ascii env tail minus (by decide) (by decide)
      refine List.forall_mem_cons.mpr ⟨.single hrest hspelled, ih ?_ (hsingle hrest hspelled)⟩
      exact (List.suffix_cons _ _).trans hrest
  | code other read more ih =>
      rcases says_classItem read with ⟨part, htext, hspelled⟩
      rw [htext] at hrest
      refine List.forall_mem_cons.mpr ⟨.single hrest hspelled, ih ?_ (hsingle hrest hspelled)⟩
      exact (List.suffix_append _ _).trans hrest
  | kind other read more ih =>
      rcases says_classItem read with ⟨part, htext, hspells⟩
      rw [htext] at hrest
      exact List.forall_mem_cons.mpr
        ⟨.kind hrest hspells, ih ((List.suffix_append _ _).trans hrest) (hnone _)⟩

/-- Every item of a class stands in its text. -/
theorem writtenIn_of_classLists (h : ClassLists env start entries stop) :
    ∀ entry ∈ entries, entry.WrittenIn env start := by
  rcases h with ⟨more, rfl, hmore⟩
  -- A caret and a closing bracket that comes first are passed over.
  have hstart : (classStart start).2 <:+ start ∧
      ∀ entry ∈ (classStart start).1, entry.WrittenIn env start := by
    have hcaret :
        (if startsWith start.tail '^' then start.tail.tail else start.tail) <:+ start := by
      split
      · exact (List.tail_suffix _).trans (List.tail_suffix start)
      · exact List.tail_suffix start
    rw [classStart]
    generalize (if startsWith start.tail '^' then start.tail.tail else start.tail) = rest
      at hcaret ⊢
    split
    · rename_i hbracket
      rcases startsWith_iff.mp hbracket with ⟨b, tail, rfl, hb⟩
      refine ⟨(List.suffix_cons b tail).trans hcaret, List.forall_mem_singleton.mpr ?_⟩
      exact .single hcaret (spellsCode_ascii env tail hb (by decide) (by decide))
    · exact ⟨hcaret, List.forall_mem_nil _⟩
  refine List.forall_mem_append.mpr ⟨hstart.2, ?_⟩
  exact writtenIn_of_lists hmore hstart.1 fun c hc => absurd hc (Option.not_mem_none c)

end Items

end Pattern

end RegexEngine
