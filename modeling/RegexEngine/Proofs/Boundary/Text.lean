import RegexEngine.Proofs.Reading.Text
import RegexEngine.Proofs.Safety.Looks
import RegexEngine.Proofs.Search.Hints
import RegexEngine.Text.Scalars

/-!
# Boundaries of Characters

Two positions of a text with no character cut in two between them are easy to tell: they are its
ends, or a byte stands there that does not continue a character. What a matcher needs is that the
text from a position on is one of the encoding. In a text of the encoding these are the same.

The check that the encoding makes of a text is loose: it lets through surrogates, and characters
that are longer than they have to be. A text that is well formed passes it. What is cut out of a
well-formed text at two boundaries is well formed again, since a strict reader that is inside a
character at the cut would have refused the byte behind it.

## Main definitions

* `Text.IsBoundary`: A position does not split a character.
* `Encoding.Between`: The text from a position on is one of the encoding.
* `Text.Unfinished.Tails`: What a strict reader accepts inside a character continues it.

## Theorems

* `between_iff_isBoundary`: The two notions agree.
* `isValid_of_isWellFormed`: A well-formed text passes the loose check.
* `isWellFormed_extract`: A part of a well-formed text between two boundaries is well formed.
-/

namespace RegexEngine

namespace Text

/-- The position is the end of the text, or the byte there does not continue a character. -/
def IsBoundary (text : Array UInt8) (pos : Nat) : Prop :=
  pos = text.size ∨ pos < text.size ∧ Utf8.isTail (text.getD pos 0) = false

instance (text : Array UInt8) (pos : Nat) : Decidable (IsBoundary text pos) :=
  inferInstanceAs (Decidable (_ ∨ _))

theorem IsBoundary.le {text : Array UInt8} {pos : Nat} (h : IsBoundary text pos) :
    pos ≤ text.size := by
  rcases h with rfl | ⟨hlt, -⟩
  · exact Nat.le_refl _
  · exact Nat.le_of_lt hlt

/-- What is accepted inside a character continues it, and more is owed. -/
structure Unfinished.Tails (u : Unfinished) : Prop where
  owed : 1 ≤ u.owed
  low : 0x80 ≤ u.low
  high : u.high ≤ 0xbf

/-- What is read inside a character continues it. -/
def Inside (u : Option Unfinished) : Prop :=
  ∀ inner, u = some inner → inner.Tails

/-- How many bytes are owed. -/
def owedBy (u : Option Unfinished) : Nat :=
  u.elim 0 Unfinished.owed

theorem inside_none : Inside none := by
  rintro inner ⟨⟩

theorem inside_some {u : Unfinished} (h : u.Tails) : Inside (some u) := by
  rintro inner ⟨⟩
  exact h

theorem start_complete {b : UInt8} {c : Char} (h : start b = .complete c) : b < 0x80 := by
  simp only [start] at h
  rw [UInt8.lt_iff_toNat_lt]
  split at h
  · assumption
  · repeat' split at h
    all_goals cases h

/-- A first byte that announces more bytes may start a character, and these are owed. -/
theorem start_unfinished {b : UInt8} {u : Unfinished} (h : start b = .unfinished u) :
    u.Tails ∧ Utf8.isBadLead b = false ∧ Utf8.leadLength b - 1 = u.owed := by
  simp only [start] at h
  simp only [Utf8.isBadLead, Utf8.leadLength, Bool.or_eq_false_iff, Bool.and_eq_false_iff,
    decide_eq_false_iff_not, UInt8.lt_iff_toNat_lt, UInt8.reduceToNat]
  -- One case for each row of the table of first bytes.
  repeat' split at h
  all_goals cases h
  all_goals
    refine ⟨⟨by simp, by simp, by simp⟩, by omega, ?_⟩
    repeat' split
    all_goals first | rfl | omega

/-- A byte that a strict reader accepts inside a character continues it. -/
theorem Unfinished.Tails.isTail {u : Unfinished} (h : u.Tails) {b : UInt8}
    (hb : (u.low ≤ b && b ≤ u.high) = true) : Utf8.isTail b = true := by
  have hlow := h.low
  have hhigh := h.high
  simp only [Utf8.isTail, Bool.and_eq_true, decide_eq_true_eq, UInt8.le_iff_toNat_le,
    UInt8.lt_iff_toNat_lt, UInt8.reduceToNat] at hb hlow hhigh ⊢
  omega

/-- Where a strict reader is behind a byte that it accepts, between two characters or inside one. -/
def after? (u : Option Unfinished) (b : UInt8) : Option (Option Unfinished) :=
  match u with
  | none =>
    match start b with
    | .complete _ => some none
    | .unfinished inner => some (some inner)
    | .illFormed => none
  | some u =>
    if u.low ≤ b && b ≤ u.high then
      if u.owed ≤ 1 then some none
      else some (some ⟨u.owed - 1, 0x80, 0xbf, u.bits * 64 + b.toNat % 64⟩)
    else none

/-- A text is well formed if its bytes are accepted one after the other. -/
theorem all_scalarsFrom_cons (u : Option Unfinished) (b : UInt8) (rest : List UInt8) :
    (scalarsFrom u (b :: rest)).all Option.isSome =
      (after? u b).any fun next => (scalarsFrom next rest).all Option.isSome := by
  cases u with
  | none =>
      rw [scalarsFrom, after?]
      cases start b <;> simp
  | some u =>
      rw [scalarsFrom, after?]
      split
      · simp only
        split <;> simp
      · cases start b <;> simp

/-- The loose check goes on in step with a strict reader. -/
theorem validFrom_after {u next : Option Unfinished} {b : UInt8} (hu : Inside u)
    (h : after? u b = some next) :
    Inside next ∧
      ∀ rest, Utf8.validFrom (owedBy u) (b :: rest) = Utf8.validFrom (owedBy next) rest := by
  -- Between characters the byte starts one or stands alone. Inside of one it has to be the next of
  -- the bytes that are owed.
  cases u with
  | none =>
      simp only [after?] at h
      -- A byte that is complete is of US-ASCII.
      rcases hstart : start b with c | inner | _
      · rw [hstart] at h
        cases h
        have hascii := start_complete hstart
        refine ⟨inside_none, fun rest => ?_⟩
        exact @Encoding.isValid_append .utf8 [b] (Encoding.isValid_singleton hascii) rest
      · rw [hstart] at h
        cases h
        rcases start_unfinished hstart with ⟨htails, hlead, howed⟩
        refine ⟨inside_some htails, fun rest => ?_⟩
        simp only [owedBy, Option.elim_none, Option.elim_some, Utf8.validFrom, hlead, howed,
          Bool.not_false, Bool.true_and]
      · rw [hstart] at h
        cases h
  | some u =>
      have htails := hu u rfl
      simp only [after?] at h
      split at h
      · rename_i hb
        -- The byte continues the character, so the loose check counts it too.
        have htail := htails.isTail hb
        have howed : u.owed = u.owed - 1 + 1 := by
          have hpos := htails.owed
          omega
        have hvalid : ∀ rest,
            Utf8.validFrom u.owed (b :: rest) = Utf8.validFrom (u.owed - 1) rest := by
          intro rest
          rw [howed, Utf8.validFrom, htail, Bool.true_and, Nat.add_sub_cancel]
        -- It is the last one, or one byte fewer is owed.
        split at h
        · rename_i hlast
          cases h
          refine ⟨inside_none, fun rest => (hvalid rest).trans ?_⟩
          rw [Nat.sub_eq_zero_of_le hlast]
          rfl
        · rename_i hmore
          cases h
          refine ⟨inside_some ⟨?_, by simp, by simp⟩, hvalid⟩
          simp only
          omega
      · cases h

/-- What a strict reader accepts passes the loose check. -/
theorem validFrom_of_scalars {u : Option Unfinished} {bytes : List UInt8} (hu : Inside u)
    (h : (scalarsFrom u bytes).all Option.isSome = true) :
    Utf8.validFrom (owedBy u) bytes = true := by
  induction bytes generalizing u with
  | nil =>
      cases u with
      | none => rfl
      | some inner => cases h
  | cons b rest ih =>
      rw [all_scalarsFrom_cons, Option.any_eq_true] at h
      rcases h with ⟨next, hnext, h⟩
      rcases validFrom_after hu hnext with ⟨hinside, hvalid⟩
      rw [hvalid]
      exact ih hinside h

/-- A well-formed text passes the loose check. -/
theorem isValid_of_isWellFormed {bytes : List UInt8} (h : isWellFormed bytes = true) :
    Utf8.isValid bytes = true :=
  validFrom_of_scalars inside_none h

/-- A byte that does not continue a character cannot follow inside of one. -/
theorem eq_none_of_scalars {u : Option Unfinished} {bytes : List UInt8} (hu : Inside u)
    (hhead : ∀ b, bytes.head? = some b → Utf8.isTail b = false)
    (h : (scalarsFrom u bytes).all Option.isSome = true) : u = none := by
  cases u with
  | none => rfl
  | some inner =>
      cases bytes with
      | nil => cases h
      | cons b rest =>
          have htails := hu inner rfl
          rw [all_scalarsFrom_cons, Option.any_eq_true] at h
          rcases h with ⟨next, hnext, -⟩
          simp only [after?] at hnext
          split at hnext
          · rename_i hb
            have hfirst := hhead b rfl
            rw [htails.isTail hb] at hfirst
            cases hfirst
          · cases hnext

/-- A text that is cut where no character goes on is well formed on both sides. -/
theorem scalars_append {u : Option Unfinished} {bytes more : List UInt8} (hu : Inside u)
    (hhead : ∀ b, more.head? = some b → Utf8.isTail b = false)
    (h : (scalarsFrom u (bytes ++ more)).all Option.isSome = true) :
    (scalarsFrom u bytes).all Option.isSome = true ∧ isWellFormed more = true := by
  induction bytes generalizing u with
  | nil =>
      obtain rfl := eq_none_of_scalars hu hhead h
      exact ⟨rfl, h⟩
  | cons b rest ih =>
      rw [List.cons_append, all_scalarsFrom_cons, Option.any_eq_true] at h
      rcases h with ⟨next, hnext, h⟩
      rcases ih (validFrom_after hu hnext).1 h with ⟨hrest, hmore⟩
      rw [all_scalarsFrom_cons, Option.any_eq_true]
      exact ⟨⟨next, hnext, hrest⟩, hmore⟩

variable {text : Array UInt8} {first last : Nat}

/-- The text from a position on, split at a later one. -/
theorem drop_eq_extract_append (text : Array UInt8) (hle : first ≤ last) :
    text.toList.drop first = (text.extract first last).toList ++ text.toList.drop last := by
  have hdrop : (text.toList.drop first).drop (last - first) = text.toList.drop last := by
    rw [List.drop_drop, Nat.add_sub_cancel' hle]
  rw [Array.toList_extract, List.extract_eq_take_drop, ← hdrop, List.take_append_drop]

/-- The text from a boundary on does not go on with a character. -/
theorem IsBoundary.head (h : IsBoundary text first) (b : UInt8)
    (hb : (text.toList.drop first).head? = some b) : Utf8.isTail b = false := by
  rw [List.head?_drop, Array.getElem?_toList] at hb
  rcases h with rfl | ⟨-, htail⟩
  · rw [Array.getElem?_eq_none (Nat.le_refl _)] at hb
    cases hb
  · rw [Array.getD_eq_getD_getElem?, hb, Option.getD_some] at htail
    exact htail

/-- A part of a well-formed text between two boundaries is well formed. -/
theorem isWellFormed_extract (h : isWellFormed text.toList = true) (hfirst : IsBoundary text first)
    (hlast : IsBoundary text last) (hle : first ≤ last) :
    isWellFormed (text.extract first last).toList = true := by
  rw [← List.take_append_drop first text.toList] at h
  have hrest := (scalars_append inside_none hfirst.head h).2
  rw [drop_eq_extract_append text hle] at hrest
  exact (scalars_append inside_none hlast.head hrest).1

end Text

namespace Encoding

/-- The text from a position on is one of the encoding. -/
def Between (enc : Encoding) (data : Array UInt8) (pos : Nat) : Prop :=
  pos ≤ data.size ∧ enc.isValid (data.toList.drop pos) = true

variable {enc : Encoding} {data : Array UInt8} {pos : Nat}

theorem between_size (enc : Encoding) (data : Array UInt8) : enc.Between data data.size := by
  refine ⟨Nat.le_refl _, ?_⟩
  rw [← Array.length_toList, List.drop_length]
  exact isValid_nil

/-- Where a character can start, the text from there on is one of the encoding. -/
theorem between_of_isHead (h : enc.isValid data.toList = true) (hpos : pos < data.size)
    (hhead : enc.isHead (data.getD pos 0) = true) : enc.Between data pos := by
  have hlength : pos < data.toList.length := hpos
  have hremains := (Remains.of_isValid h).drop pos
  rw [List.drop_eq_getElem_cons hlength] at hremains
  refine ⟨Nat.le_of_lt hpos, ?_⟩
  rw [List.drop_eq_getElem_cons hlength]
  refine hremains.isValid ?_
  rwa [getD_of_lt hpos, ← Array.getElem_toList hpos] at hhead

/-- In a text of the encoding, these positions are the boundaries. -/
theorem between_iff_isBoundary (h : utf8.isValid data.toList = true) :
    utf8.Between data pos ↔ Text.IsBoundary data pos := by
  constructor
  · rintro ⟨hle, hvalid⟩
    rcases Nat.lt_or_eq_of_le hle with hlt | rfl
    · have hlength : pos < data.toList.length := hlt
      rw [List.drop_eq_getElem_cons hlength] at hvalid
      have hhead := isHead_of_isValid hvalid
      rw [isHead, Bool.not_eq_true', Array.getElem_toList] at hhead
      exact Or.inr ⟨hlt, by rwa [getD_of_lt hlt]⟩
    · exact Or.inl rfl
  · rintro (rfl | ⟨hlt, htail⟩)
    · exact between_size utf8 data
    · exact between_of_isHead h hlt (by rw [isHead, htail, Bool.not_false])

end Encoding

end RegexEngine
