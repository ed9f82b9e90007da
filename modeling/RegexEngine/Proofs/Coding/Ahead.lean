import RegexEngine.Proofs.Range.Walk

/-!
# So Many Characters Ahead

A subject is walked ahead as it is walked back, a number of characters at a time. The way ahead goes
by the lengths that first bytes announce, and the way back by the bytes that continue a character.
In a text of the encoding both come to the same: from between two characters, as many steps ahead
undo steps back.

A pattern is split into its characters from the front, so there is one character for every first
byte. The text that is left behind one of them is split as it would be by itself.

## Main definitions

* `Encoding.stepAhead`: The position so many characters ahead.

## Theorems

* `characters_append`: The characters of a text that goes on behind its first character.
* `flatten_characters`: A text consists of its characters.
* `stepAhead_add`: One number of steps after the other.
* `stepAhead_stepBack`: Steps ahead undo steps back.
-/

namespace RegexEngine

namespace Encoding

variable {enc : Encoding} {data : Array UInt8} {n m pos mid last : Nat}

/-- As long as there are no more characters than rounds, it does not matter how many there are. -/
theorem splitMany_enough {fuel more : Nat} {bytes : List UInt8} (hfuel : bytes.length ≤ fuel)
    (hmore : bytes.length ≤ more) : enc.splitMany fuel bytes = enc.splitMany more bytes := by
  induction fuel generalizing more bytes with
  | zero =>
      obtain rfl := List.eq_nil_of_length_eq_zero (Nat.le_zero.mp hfuel)
      cases more <;> rfl
  | succ fuel ih =>
      cases bytes with
      | nil => cases more <;> rfl
      | cons lead rest =>
          rw [List.length_cons] at hfuel hmore
          obtain ⟨more, rfl⟩ : ∃ k, more = k + 1 := ⟨more - 1, by omega⟩
          simp only [splitMany, splitFirst]
          refine congrArg (_ :: ·) (ih ?_ ?_) <;> (rw [List.length_drop]; omega)

/-- A text is split behind its first character. -/
theorem splitFirst_append {lead : UInt8} {tails rest : List UInt8}
    (h : enc.leadLength lead = tails.length + 1) :
    enc.splitFirst (lead :: tails ++ rest) = some (lead :: tails, rest) := by
  have htails : enc.leadLength lead - 1 = tails.length := by omega
  rw [List.cons_append, splitFirst]
  simp only [htails, List.take_left, List.drop_left]

/-- The characters of a text that goes on behind its first character. -/
theorem characters_append {lead : UInt8} {tails rest : List UInt8}
    (h : enc.leadLength lead = tails.length + 1) :
    enc.characters (lead :: tails ++ rest) = (lead :: tails) :: enc.characters rest := by
  rw [characters, List.cons_append, List.length_cons, splitMany, ← List.cons_append,
    splitFirst_append h]
  simp only
  rw [characters, splitMany_enough (by rw [List.length_append]; omega) (Nat.le_refl _)]

/-- A text consists of its characters. -/
theorem flatten_characters (enc : Encoding) (bytes : List UInt8) :
    (enc.characters bytes).flatten = bytes := by
  rw [characters]
  generalize hfuel : bytes.length = fuel
  have henough : bytes.length ≤ fuel := Nat.le_of_eq hfuel
  clear hfuel
  induction fuel generalizing bytes with
  | zero => rw [List.eq_nil_of_length_eq_zero (Nat.le_zero.mp henough), splitMany, List.flatten_nil]
  | succ fuel ih =>
      cases bytes with
      | nil => rfl
      | cons lead rest =>
          simp only [splitMany, splitFirst, List.flatten_cons]
          rw [ih, List.cons_append, List.take_append_drop]
          rw [List.length_cons] at henough
          rw [List.length_drop]
          omega

/-- The position `n` characters ahead, if there are so many. -/
def stepAhead (enc : Encoding) (data : Array UInt8) : (n pos : Nat) → Option Nat
  | 0, pos => some pos
  | n + 1, pos =>
    if pos < data.size then stepAhead enc data n (pos + enc.charLength data pos) else none

/-- One character ahead. -/
theorem stepAhead_one (h : pos < data.size) :
    enc.stepAhead data 1 pos = some (pos + enc.charLength data pos) := by
  rw [stepAhead, if_pos h, stepAhead]

/-- One number of steps ahead after the other. -/
theorem stepAhead_add (h1 : enc.stepAhead data n pos = some mid)
    (h2 : enc.stepAhead data m mid = some last) : enc.stepAhead data (n + m) pos = some last := by
  induction n generalizing pos with
  | zero =>
      cases h1
      rw [Nat.zero_add]
      exact h2
  | succ n ih =>
      rw [stepAhead, Option.ite_none_right_eq_some] at h1
      rw [Nat.add_right_comm, stepAhead, if_pos h1.1]
      exact ih h1.2

/-- The way back passes over bytes that continue a character. -/
theorem isTail_tailsBack {i : Nat} (hlow : tailsBack data 0 pos < i) (hhigh : i ≤ pos) :
    Utf8.isTail (data.getD i 0) = true := by
  induction pos with
  | zero => omega
  | succ pos ih =>
      rw [tailsBack] at hlow
      split at hlow
      · rename_i htail
        rw [Bool.and_eq_true] at htail
        rcases Nat.lt_or_eq_of_le hhigh with hlt | rfl
        · exact ih hlow (Nat.le_of_lt_succ hlt)
        · exact htail.2
      · omega

/-- Between two neighbouring boundaries there is one character. -/
theorem charLength_of_tails (h : utf8.isValid data.toList = true) (hpos : utf8.Between data pos)
    (hlast : utf8.Between data last) (hlt : pos < last)
    (htails : ∀ i, pos < i → i < last → Utf8.isTail (data.getD i 0) = true) :
    pos + utf8.charLength data pos = last := by
  have hsize : pos < data.size := Nat.lt_of_lt_of_le hlt hlast.1
  have hlength := charLength_pos utf8 data pos
  have hle := charLength_le utf8 data pos hsize
  -- Whatever lies strictly inside a character continues it, and a boundary does not.
  have hboundary : ∀ i, utf8.Between data i → i < data.size →
      Utf8.isTail (data.getD i 0) = false := by
    intro i hi hinside
    rcases (between_iff_isBoundary h).mp hi with rfl | ⟨-, hhead⟩
    · exact absurd hinside (Nat.lt_irrefl _)
    · exact hhead
  by_contra hne
  rcases Nat.lt_or_gt_of_ne hne with hbefore | hbehind
  · have hnext := hpos.charLength hsize
    have htail := htails _ (by omega) hbefore
    rw [hboundary _ hnext (Nat.lt_of_lt_of_le hbefore hlast.1)] at htail
    cases htail
  · have hinside : last < data.size := by omega
    have hvalid := hpos.2
    have hlist : pos < data.toList.length := hsize
    have hlead : utf8.charLength data pos ≤ Utf8.leadLength data[pos] := by
      have hannounced := Utf8.leadLength_pos data[pos]
      rw [charLength, getD_of_lt hsize, leadLength]
      omega
    rw [List.drop_eq_getElem_cons hlist, Array.getElem_toList, isValid, Utf8.isValid,
      Utf8.validFrom, Bool.and_eq_true] at hvalid
    rcases Utf8.isTail_of_validFrom (i := last - pos - 1) hvalid.2 (by omega) with ⟨b, hb, htail⟩
    rw [List.getElem?_drop, show pos + 1 + (last - pos - 1) = last by omega,
      Array.getElem?_toList, Array.getElem?_eq_getElem hinside, Option.some.injEq] at hb
    rw [← hb, ← getD_of_lt hinside, hboundary last hlast hinside] at htail
    cases htail

/-- The character before a boundary ends there. -/
theorem charLength_of_prevHead (h : enc.isValid data.toList = true) (hlast : enc.Between data last)
    (hprev : enc.prevHead data 0 last = some pos) : pos + enc.charLength data pos = last := by
  have hpos := between_prevHead h hlast.1 hprev
  have hlt := prevHead_lt hprev
  rw [prevHead, Option.ite_none_left_eq_some, Option.some.injEq] at hprev
  cases enc with
  | ascii =>
      have hhead : last - 1 = pos := hprev.2
      have hsize := hlast.1
      rw [charLength, leadLength]
      omega
  | utf8 =>
      refine charLength_of_tails h hpos hlast hlt fun i hlow hhigh => ?_
      refine isTail_tailsBack ?_ (show i ≤ last - 1 by omega)
      rw [show tailsBack data 0 (last - 1) = pos from hprev.2]
      exact hlow

/-- In a text of the encoding, steps ahead undo steps back. -/
theorem stepAhead_stepBack (h : enc.isValid data.toList = true) (hlast : enc.Between data last)
    (hback : enc.stepBack data 0 n last = some pos) : enc.stepAhead data n pos = some last := by
  induction n generalizing last with
  | zero =>
      cases hback
      rfl
  | succ n ih =>
      rw [stepBack] at hback
      split at hback
      · cases hback
      · rename_i head hprev
        have hsize : head < data.size := Nat.lt_of_lt_of_le (prevHead_lt hprev) hlast.1
        have hone : enc.stepAhead data 1 head = _ := stepAhead_one hsize
        rw [charLength_of_prevHead h hlast hprev] at hone
        exact stepAhead_add (ih (between_prevHead h hlast.1 hprev) hback) hone

end Encoding

end RegexEngine
