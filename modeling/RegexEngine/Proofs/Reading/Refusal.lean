import RegexEngine.Pattern.Group
import RegexEngine.Pattern.Item
import RegexEngine.Pattern.Repeat

/-!
# What a Refusal Blames

A pattern is refused for a fault of its own or because it nests too deeply, and the offset that is
reported lies in the pattern or at its end. The cause that stands for a fault of the reader is never
given: a text between two positions is asked for in their order only, a character only where a byte
is left, and no loop runs out of fuel.

`Ends` says of a reader both what its answer is like and what its refusals blame, and `Ends.bind`
hands what is known of one answer to the reader that goes on from it. What has to be known is that
the text which is left is an end of the text that there was. So whatever a reader comes to is a
position in the pattern, and it is at such positions only that the pattern is refused. A reader that
a loop runs on leaves less text than there was, and therefore the loop has fuel enough.

## Main definitions

* `Failure.Blames`: A refusal blames a pattern of some length.
* `Ends`: A reader answers as is said of it, or refuses the pattern with blame.

## Theorems

* `Ends.bind`, `Ends.mono`, `ends_fail`: How the readers are put together.
* `ends_readReference`, `ends_escapedCode`, `ends_classItems`, `ends_quantifier`, …: Readers of
  names, escapes, classes and repeat operators.
-/

namespace RegexEngine

namespace Pattern

variable {α β : Type} {env : Setting} {c : Char} {rest after start : List UInt8}

/-- The refusal is for a fault of the pattern or for its nesting, and does not point behind the end
of a pattern of the given length. -/
structure Failure.Blames (failure : Failure) (size : Nat) : Prop where
  cause : failure.cause.isPatternFault = true ∨ failure.cause = .nestingLimit
  offset : failure.offset ≤ size

/-- A reader of a pattern of the given length answers as is said, or refuses the pattern with blame.
-/
def Ends (size : Nat) (result : Except Failure α) (answers : α → Prop) : Prop :=
  match result with
  | .ok a => answers a
  | .error failure => failure.Blames size

section Rules

variable {size : Nat} {answers : α → Prop}

/-- One reader goes on from the answer of another. -/
theorem Ends.bind_ok {x : Except Failure α} {f : α → Except Failure β} {last : β → Prop}
    (h : Ends size x answers) (hf : ∀ a, x = .ok a → answers a → Ends size (f a) last) :
    Ends size (x >>= f) last := by
  cases x with
  | error failure => exact h
  | ok a => exact hf a rfl h

theorem Ends.bind {x : Except Failure α} {f : α → Except Failure β} {last : β → Prop}
    (h : Ends size x answers) (hf : ∀ a, answers a → Ends size (f a) last) :
    Ends size (x >>= f) last :=
  h.bind_ok fun a _ => hf a

theorem Ends.mono {x : Except Failure α} {more : α → Prop} (h : Ends size x answers)
    (hmore : ∀ a, answers a → more a) : Ends size x more := by
  cases x with
  | error failure => exact h
  | ok a => exact hmore a h

/-- A pattern is refused at a position in it. -/
theorem ends_fail {cause : Cause} (h : cause.isPatternFault = true) (hrest : rest <:+ env.pattern) :
    Ends env.size (env.fail cause rest) answers :=
  ⟨Or.inl h, offset_le_iff.mpr hrest⟩

theorem ends_failName {cause : Cause} {name : List UInt8} (h : cause.isPatternFault = true)
    (hrest : rest <:+ env.pattern) : Ends env.size (env.failName cause rest name) answers :=
  ⟨Or.inl h, offset_le_iff.mpr hrest⟩

/-- A pattern that nests too deeply is not blamed for a fault, but where it does is told. -/
theorem ends_nestingLimit (hrest : rest <:+ env.pattern) :
    Ends env.size (env.fail .nestingLimit rest) answers :=
  ⟨Or.inr rfl, offset_le_iff.mpr hrest⟩

end Rules

theorem suffix_scanDigits (base room value count : Nat) (rest : List UInt8) :
    (scanDigits base room value count rest).2.2 <:+ rest := by
  induction room generalizing value count rest with
  | zero => exact List.suffix_rfl
  | succ room ih =>
      cases rest with
      | nil => exact List.suffix_rfl
      | cons b rest =>
          rw [scanDigits]
          split
          · exact (ih _ _ _).trans (List.suffix_cons b rest)
          · exact List.suffix_rfl

theorem suffix_scanNumber (rest : List UInt8) : (scanNumber rest).2 <:+ rest :=
  suffix_scanDigits 10 maxDigits 0 0 rest

theorem suffix_skipBlankFrom (inComment : Bool) (rest : List UInt8) :
    skipBlankFrom inComment rest <:+ rest := by
  fun_induction skipBlankFrom inComment rest with
  | case1 | case5 => exact List.suffix_rfl
  | case2 _ _ ih | case3 _ _ _ ih | case4 _ _ _ _ ih => exact ih.trans (List.suffix_cons _ _)

theorem suffix_skipBlank (options : Options) (rest : List UInt8) :
    skipBlank options rest <:+ rest := by
  rw [skipBlank]
  split
  · exact suffix_skipBlankFrom _ _
  · exact List.suffix_rfl

theorem suffix_skipComment (h : skipComment rest = some after) : after <:+ rest := by
  fun_induction skipComment rest with
  | case1 | case3 => cases h
  | case2 b rest =>
      cases h
      exact List.suffix_cons b after
  | case4 b hescape hidden rest ih =>
      exact (ih h).trans ((List.suffix_cons hidden rest).trans (List.suffix_cons b _))
  | case5 b rest _ _ ih => exact (ih h).trans (List.suffix_cons b rest)

theorem suffix_splitAtClose {text : List UInt8} (h : splitAtClose rest = some (text, after)) :
    after <:+ rest := by
  induction rest generalizing text with
  | nil => cases h
  | cons b rest ih =>
      rw [splitAtClose] at h
      split at h
      · cases h
        exact (List.tail_suffix rest).trans (List.suffix_cons b rest)
      · rcases Option.map_eq_some_iff.mp h with ⟨⟨name, last⟩, hrest, hpair⟩
        cases hpair
        exact (ih hrest).trans (List.suffix_cons b rest)

theorem suffix_scanName (env : Setting) (close : Char) (fuel : Nat) (wordsOnly : Bool)
    (rest : List UInt8) : (scanName env close fuel wordsOnly rest).2 <:+ rest := by
  fun_induction scanName env close fuel wordsOnly rest with
  | case1 | case2 => exact List.suffix_rfl
  | case3 => exact List.nil_suffix
  | case4 fuel wordsOnly rest _ char tail hsplit ih => exact ih.trans (splitFirst_suffix hsplit)

/-- The text between two positions that are in order. -/
theorem ends_slice (h : after <:+ start) : Ends env.size (env.slice start after) fun _ => True := by
  rw [Setting.slice, if_pos h.length_le]
  trivial

theorem ends_readName (close : Char) (hstart : start <:+ env.pattern) :
    Ends env.size (readName env close start) fun found => found.2 <:+ start := by
  cases start with
  | nil => exact ends_fail rfl hstart
  | cons first tail =>
      have hscan := suffix_scanName env close (first :: tail).length true (first :: tail)
      rw [readName]
      split
      · exact ends_fail rfl hstart
      · -- The scan stops at the closing byte, or at the end of a pattern that is refused.
        generalize scanName env close (first :: tail).length true (first :: tail) = scanned
          at hscan ⊢
        rcases scanned with ⟨wordsOnly, stop⟩
        refine (ends_slice hscan).bind fun name _ => ?_
        cases stop with
        | nil => exact ends_failName rfl hstart
        | cons b after =>
            simp only
            -- The name is empty or has a byte that it must not have, or something else stands where
            -- it should be closed.
            split
            · exact ends_failName rfl hstart
            · split
              · exact ends_failName rfl hstart
              · split
                · exact ends_failName rfl hstart
                · exact (List.suffix_cons b after).trans hscan

theorem ends_readNumber (groups : Nat) (close : Char) (sign : Option Char) {digits : List UInt8}
    (hstart : start <:+ env.pattern) (h : digits <:+ start) :
    Ends env.size (readNumber env groups close sign start digits) fun found =>
      found.2 <:+ start := by
  -- A refused number is quoted from its sign on, up to where its digits end.
  have hscan := suffix_scanNumber digits
  rw [readNumber]
  generalize scanNumber digits = scanned at hscan ⊢
  rcases scanned with ⟨value?, rest⟩
  simp only at hscan ⊢
  split
  · split
    · exact ends_fail rfl hstart
    · split
      · exact ends_fail rfl hstart
      · exact (List.tail_suffix rest).trans (hscan.trans h)
  · exact (ends_slice (hscan.trans h)).bind fun read _ => ends_failName rfl hstart

theorem ends_readReference (groups : Nat) (close : Char) (hstart : start <:+ env.pattern) :
    Ends env.size (readReference env groups close start) fun found => found.2 <:+ start := by
  -- A name or a number, of which each reader is known.
  have hname : Ends env.size (readName env close start >>= fun found =>
      .ok (Reference.name found.1, found.2)) fun found => found.2 <:+ start :=
    (ends_readName close hstart).bind fun found hfound => hfound
  have hnumber : ∀ {sign : Option Char} {digits : List UInt8}, digits <:+ start →
      Ends env.size (readNumber env groups close sign start digits >>= fun found =>
        .ok (Reference.number found.1, found.2)) fun found => found.2 <:+ start :=
    fun hdigits => (ends_readNumber groups close _ hstart hdigits).bind fun found hfound => hfound
  rw [readReference.eq_def]
  split
  · exact hname
  -- The first byte tells whether it is a number, with a sign or without.
  · rename_i first after
    split
    · exact hname
    · split
      · exact hnumber List.suffix_rfl
      · split
        · exact hnumber (List.suffix_cons first after)
        · exact hnumber (List.suffix_cons first after)
        · exact hname

section Escapes

variable {esc : List UInt8} (hesc : esc <:+ env.pattern)
include hesc

theorem ends_hexEscape (rest : List UInt8) :
    Ends env.size (hexEscape env esc rest) fun found => found.2 <:+ rest := by
  rw [hexEscape]
  split
  · have hdigits := suffix_scanDigits 16 8 0 0 rest.tail
    simp only
    split
    · exact ends_fail rfl hesc
    · exact (List.tail_suffix _).trans (hdigits.trans (List.tail_suffix rest))
  · exact suffix_scanDigits 16 2 0 0 rest

/-- What a backslash makes of the text after it. -/
theorem ends_escapedCode (rest : List UInt8) :
    Ends env.size (escapedCode env esc rest) fun found => found.2 <:+ rest := by
  cases rest with
  | nil => exact ends_fail rfl hesc
  | cons b tail =>
      have htail : tail <:+ b :: tail := List.suffix_cons b tail
      rw [escapedCode]
      -- The letters and numbers leave what is behind their digits.
      split
      · exact htail
      · split
        · exact (ends_hexEscape hesc tail).mono fun _ hfound => hfound.trans htail
        · simp only
          split
          · exact ends_fail rfl hesc
          · exact (suffix_scanDigits 16 4 0 0 tail).trans htail
        · exact (suffix_scanDigits 8 2 0 0 tail).trans htail
        · split
          · -- Behind the backslash stands a byte, so there is a character.
            rename_i hsplit
            cases hsplit
          · rename_i hsplit
            exact splitFirst_suffix hsplit

theorem ends_encodeCode (code : Nat) : Ends env.size (encodeCode env code esc) fun _ => True := by
  rw [encodeCode]
  split
  · trivial
  · refine ends_fail ?_ hesc
    cases env.encoding with
    | utf8 => rfl
    | ascii => rfl

end Escapes

/-- An item of a class takes a byte at least. -/
theorem ends_classItem {b : UInt8} {tail : List UInt8} (hrest : b :: tail <:+ env.pattern) :
    Ends env.size (classItem env (b :: tail)) fun found => found.2 <:+ tail := by
  rw [classItem]
  split
  -- The backslash, and the byte that it escapes.
  · rw [List.tail_cons]
    cases tail with
    | nil => exact ends_fail rfl hrest
    | cons letter last =>
        have hlast : last <:+ letter :: last := List.suffix_cons letter last
        simp only
        split
        · exact hlast
        · split
          · exact hlast
          · exact (ends_escapedCode hrest (letter :: last)).bind fun found hfound => hfound
  · split
    · rename_i hsplit
      cases hsplit
    · rename_i hsplit
      cases hsplit
      exact List.drop_suffix _ tail

theorem ends_bracketName (body : List UInt8) (hstart : start <:+ env.pattern) :
    Ends env.size (bracketName? env start body) fun named =>
      ∀ kind negated after, named = some (kind, negated, after) → after <:+ body := by
  rw [bracketName?]
  split
  · rintro _ _ _ ⟨⟩
  · rename_i text last hsplit
    simp only
    generalize (if startsWith text '^' then text.tail else text) = name
    split
    · rintro _ _ _ ⟨⟩
    · split
      · exact ends_fail rfl hstart
      · rintro _ _ _ ⟨⟩
        exact suffix_splitAtClose hsplit

/-- The items of a class. Each takes a byte at least, so fuel for the bytes is fuel for the items.
-/
theorem ends_classItems {fuel : Nat} (set : CharSet) (low : Option Nat)
    (hrest : rest <:+ env.pattern) (hfuel : rest.length < fuel) :
    Ends env.size (classItems env fuel set low rest) fun found => found.2 <:+ rest := by
  induction fuel generalizing set low rest with
  | zero => exact absurd hfuel (Nat.not_lt_zero _)
  | succ fuel ih =>
      cases rest with
      | nil => exact ends_fail rfl hrest
      | cons b tail =>
          have htail : tail <:+ b :: tail := List.suffix_cons b tail
          -- What is left behind an item is shorter, so the fuel that is left is enough for it.
          have hnext : ∀ {after : List UInt8} (set : CharSet) (low : Option Nat), after <:+ tail →
              Ends env.size (classItems env fuel set low after) fun found =>
                found.2 <:+ b :: tail := by
            intro after set low hafter
            have hlength := Nat.lt_of_le_of_lt hafter.length_le (Nat.lt_of_succ_lt_succ hfuel)
            exact (ih set low (hafter.trans (htail.trans hrest)) hlength).mono fun found hfound =>
              hfound.trans (hafter.trans htail)
          rw [classItems.eq_def]
          simp only
          split
          · exact htail
          · -- A bracket that begins no name is a member.
            split
            · refine (ends_bracketName tail.tail hrest).bind fun named hnamed => ?_
              split
              · exact hnext _ _ ((hnamed _ _ _ rfl).trans (List.tail_suffix tail))
              · exact hnext _ _ List.suffix_rfl
            · exact hnext _ _ List.suffix_rfl
          · split
            · rename_i hcan
              -- A minus sign makes a range only if something follows it.
              cases tail with
              | nil => cases hcan
              | cons next later =>
                  refine (ends_classItem (htail.trans hrest)).bind fun ⟨item, last⟩ hlast => ?_
                  split
                  · exact ends_fail rfl hrest
                  · split
                    · exact ends_fail rfl hrest
                    · exact hnext _ _ (hlast.trans (List.suffix_cons next later))
            · exact hnext _ _ List.suffix_rfl
          · refine (ends_classItem hrest).bind fun ⟨item, last⟩ hlast => ?_
            split
            · exact hnext _ _ hlast
            · exact hnext _ _ hlast

theorem ends_bracketClass (ignoreCase : Bool) (hstart : start <:+ env.pattern) :
    Ends env.size (bracketClass env ignoreCase start) fun found => found.2 <:+ start.tail := by
  have hrest : (if startsWith start.tail '^' then start.tail.tail else start.tail) <:+
      start.tail := by
    split
    · exact List.tail_suffix _
    · exact List.suffix_rfl
  rw [bracketClass]
  generalize (if startsWith start.tail '^' then start.tail.tail else start.tail) = rest at hrest ⊢
  simp only
  have hitems : ∀ {last : List UInt8} (set : CharSet), last <:+ rest →
      Ends env.size (classItems env (last.length + 1) set none last >>= fun found =>
        .ok (if ignoreCase then found.1.foldCase env.encoding else found.1, found.2)) fun found =>
          found.2 <:+ start.tail := by
    intro last set hlast
    have hinside := (hlast.trans hrest).trans ((List.tail_suffix start).trans hstart)
    refine (ends_classItems set none hinside (Nat.lt_succ_self _)).bind fun found hfound => ?_
    exact hfound.trans (hlast.trans hrest)
  -- A closing bracket that comes first is a member, if another one follows.
  split
  · split
    · exact hitems _ (List.tail_suffix rest)
    · exact ends_fail rfl hstart
  · exact hitems _ List.suffix_rfl

theorem ends_noInterval {answers : Option α → Prop} (h : answers none)
    (hstart : start <:+ env.pattern) : Ends env.size (noInterval env start rest) answers := by
  rw [noInterval]
  split
  · exact h
  · split
    · exact ends_fail rfl hstart
    · exact ends_fail rfl hstart

theorem ends_checkBounds {body : List UInt8} (lower : Nat) (upper : Option Nat)
    (hbody : body <:+ env.pattern) :
    Ends env.size (checkBounds env body lower upper) fun _ => True := by
  rw [checkBounds]
  split
  · exact ends_fail rfl hbody
  · split
    · exact ends_fail rfl hbody
    · trivial

theorem ends_interval (hstart : start <:+ env.pattern) :
    Ends env.size (interval env start) fun found =>
      ∀ lower upper after, found = some (lower, upper, after) → after <:+ start.tail := by
  have hnumber := suffix_scanNumber start.tail
  rw [interval]
  generalize scanNumber start.tail = scanned at hnumber ⊢
  rcases scanned with ⟨value?, rest⟩
  simp only at hnumber ⊢
  split
  · exact ends_noInterval (by rintro _ _ _ ⟨⟩) hstart
  · split
    · exact ends_noInterval (by rintro _ _ _ ⟨⟩) hstart
    · rename_i upper last hbounds
      -- The upper bound is the lower one, or is read behind a comma.
      have hlast : last <:+ rest := by
        split at hbounds
        · cases hbounds
          exact List.suffix_rfl
        · split at hbounds
          · rw [Option.some.injEq] at hbounds
            have hscan := suffix_scanNumber rest.tail
            rw [hbounds] at hscan
            exact hscan.trans (List.tail_suffix rest)
          · cases hbounds
      split
      · have hbody := (List.tail_suffix start).trans hstart
        refine (ends_checkBounds _ upper hbody).bind fun _ _ => ?_
        rintro _ _ _ ⟨⟩
        exact (List.tail_suffix last).trans (hlast.trans hnumber)
      · exact ends_noInterval (by rintro _ _ _ ⟨⟩) hstart

theorem suffix_manner (dialect : Dialect) (q : Quantifier) (rest : List UInt8) :
    (manner dialect q rest).2 <:+ rest := by
  rw [manner]
  split
  · exact List.tail_suffix rest
  · split
    · exact List.tail_suffix rest
    · exact List.suffix_rfl

/-- A repeat operator takes a byte at least. -/
theorem ends_quantifier {b : UInt8} {tail : List UInt8} (hrest : b :: tail <:+ env.pattern) :
    Ends env.size (quantifier? env (b :: tail)) fun found =>
      ∀ q after, found = some (q, after) → after <:+ tail := by
  -- The sign behind an operator is optional, so what counts is what the operator itself takes.
  have hmanner : ∀ {bounds : Quantifier} {last : List UInt8}, last <:+ tail →
      ∀ q after, some (manner env.dialect bounds last) = some (q, after) → after <:+ tail := by
    intro bounds last hlast q after heq
    have hsuffix := suffix_manner env.dialect bounds last
    rw [Option.some.inj heq] at hsuffix
    exact hsuffix.trans hlast
  rw [quantifier?]
  split
  · exact hmanner List.suffix_rfl
  · exact hmanner List.suffix_rfl
  · exact hmanner List.suffix_rfl
  · refine (ends_interval hrest).bind fun found hfound => ?_
    split
    · rintro _ _ ⟨⟩
    · exact hmanner (hfound _ _ _ rfl)
  · rintro _ _ ⟨⟩

end Pattern

end RegexEngine
