import RegexEngine.Proofs.Coding.Character
import RegexEngine.Proofs.Reading.Text
import RegexEngine.Proofs.Safety.Looks

/-!
# Walking Over Coded Text

A text that is the coded characters of a list, one after the other, can be walked in both
directions. All of it follows from looking at one character between a text before it and a text
behind it: its first byte announces its length, the bytes of that length are what the decoder reads,
and the way back from any of its bytes leads over continuing bytes to the first one and no further.

Characters are found by index, so the text before the character with number `k` is that of the first
`k` characters, and its length is where the character starts. Nothing but the shape of the
characters is used until the end, where they are the bytes of code points.

## Main definitions

* `Encoding.codesFrom`: The code points that a walk from a position finds.
* `Encoding.boundary`: Where the character with a number starts.
* `Encoding.Walked`: What the walks over a text of some characters find.

## Theorems

* `characters_flatten`: A text is split into the characters it is made of.
* `charHead_boundary`: The way back from a byte of a character leads to its start.
* `stepBack_boundary`: Steps back from a boundary lead to the boundaries before it.
* `walked_encoded`: Walks over encoded code points find the code points again.
-/

namespace RegexEngine

namespace Utf8

variable {char rest : List UInt8}

/-- No byte of a character but the first can be taken for the start of one. -/
theorem IsCharacter.isTail_getElem (h : IsCharacter char) {i : Nat} (hi : i < char.length) :
    isTail char[i] = decide (0 < i) := by
  cases h with
  | intro starts _ continues =>
      cases i with
      | zero => exact isTail_of_isBadLead starts
      | succ i => simp [continues]

end Utf8

namespace Encoding

variable {chars : List (List UInt8)} {before char after : List UInt8} {k n i : Nat}

/-- A text of characters is a text of the encoding. -/
theorem isValid_flatten (h : ∀ char ∈ chars, Utf8.IsCharacter char) :
    utf8.isValid chars.flatten = true := by
  induction chars with
  | nil => rfl
  | cons char chars ih =>
      rw [List.forall_mem_cons] at h
      exact (h.1.validFrom_append _).trans (ih h.2)

/-- A text is split into the characters it is made of. -/
theorem characters_flatten (h : ∀ char ∈ chars, Utf8.IsCharacter char) :
    utf8.characters chars.flatten = chars := by
  -- Every character has a byte, so there are no more characters than bytes.
  suffices hmany : ∀ fuel, chars.flatten.length ≤ fuel →
      utf8.splitMany fuel chars.flatten = chars from hmany _ (Nat.le_refl _)
  induction chars with
  | nil =>
      intro fuel _
      cases fuel <;> rfl
  | cons char chars ih =>
      rw [List.forall_mem_cons] at h
      intro fuel hfuel
      rcases h with ⟨hchar, hchars⟩
      have hlength := hchar.length_pos
      rw [List.flatten_cons, List.length_append] at hfuel
      obtain ⟨fuel, rfl⟩ : ∃ m, fuel = m + 1 := ⟨fuel - 1, by omega⟩
      cases hchar with
      | @intro lead tails _ announces _ =>
          have htails : utf8.leadLength lead - 1 = tails.length := by
            rw [leadLength]
            omega
          rw [List.flatten_cons, List.cons_append, splitMany, splitFirst]
          simp only [htails, List.take_left, List.drop_left]
          rw [ih hchars fuel (by rw [List.length_cons] at hfuel; omega)]

/-- The code points of the characters from a position on, one walked over after the other. -/
def codesFrom (enc : Encoding) (data : Array UInt8) (pos : Nat) : List Nat :=
  if pos < data.size then
    enc.codeAt data pos :: enc.codesFrom data (pos + enc.charLength data pos)
  else []
termination_by data.size - pos
decreasing_by
  have hpos := charLength_pos enc data pos
  omega

/-- Code points that the encoding has bytes for can be encoded one after the other. -/
theorem exists_encoded {codes : List Nat} (h : ∀ c ∈ codes, c ≤ 0x10ffff) :
    ∃ chars, codes.mapM utf8.encode? = some chars := by
  induction codes with
  | nil => exact ⟨[], rfl⟩
  | cons c codes ih =>
      rw [List.forall_mem_cons] at h
      obtain ⟨char, hchar⟩ := Option.isSome_iff_exists.mp (Utf8.encode?_isSome h.1)
      obtain ⟨chars, hchars⟩ := ih h.2
      exact ⟨char :: chars, by simp [hchars, encode?, hchar]⟩

/-- The bytes of code points are characters, and each is read as its code point. -/
theorem isCharacter_of_mapM {codes : List Nat} (h : codes.mapM utf8.encode? = some chars) :
    (∀ char ∈ chars, Utf8.IsCharacter char) ∧ chars.map utf8.decode = codes := by
  induction codes generalizing chars with
  | nil =>
      cases h
      exact ⟨List.forall_mem_nil _, rfl⟩
  | cons c codes ih =>
      simp only [List.mapM_cons, Option.bind_eq_bind, Option.bind_eq_some_iff, Option.pure_def,
        Option.some.injEq] at h
      obtain ⟨char, hchar, rest, hrest, rfl⟩ := h
      have hcoded := Utf8.encode?_isCharacter hchar
      have hothers := ih hrest
      exact ⟨List.forall_mem_cons.mpr ⟨hcoded.1, hothers.1⟩, by
        rw [List.map_cons, hothers.2, decode, hcoded.2]⟩

section OneCharacter

/-- The bytes of a text between two others. -/
theorem getD_between (before char after : List UInt8) (hi : i < char.length) :
    (before ++ char ++ after).toArray.getD (before.length + i) 0 = char[i] := by
  rw [getD_of_lt (by simp; omega)]
  simp [List.getElem_append_right, List.getElem_append_left, hi]

variable (h : Utf8.IsCharacter char)
include h

/-- A character has the length that it announces. -/
theorem charLength_between :
    utf8.charLength (before ++ char ++ after).toArray before.length = char.length := by
  have hbyte := getD_between before char after h.length_pos
  rw [Nat.add_zero] at hbyte
  cases h with
  | @intro lead tails _ announces _ =>
      have hlead : utf8.leadLength lead = tails.length + 1 := announces
      rw [charLength, hbyte, List.getElem_cons_zero, hlead]
      simp only [List.size_toArray, List.length_append, List.length_cons]
      omega

/-- The code point at a character is that of the character. -/
theorem codeAt_between :
    utf8.codeAt (before ++ char ++ after).toArray before.length = utf8.decode char := by
  have hlt : before.length < (before ++ char ++ after).toArray.size := by
    have hlength := h.length_pos
    simp only [List.size_toArray, List.length_append]
    omega
  have hle := charLength_le utf8 _ _ hlt
  -- The bytes that the decoder is given are those of the character.
  have hcode := codeAt?_eq utf8 hlt
  rw [codeAt?, charLength?_eq utf8 hlt, Option.bind_some, charLength_between h,
    slice?_eq (Nat.le_add_right _ _) (charLength_between h ▸ hle), Option.map_some] at hcode
  rw [← Option.some.inj hcode, List.extract_toArray, List.extract_eq_take_drop,
    List.append_assoc, List.drop_left, Nat.add_sub_cancel_left, List.take_left]

/-- The way back from a byte of a character leads to its first byte. -/
theorem charHead_between (hi : i < char.length) :
    utf8.charHead (before ++ char ++ after).toArray 0 (before.length + i) = before.length := by
  rw [charHead]
  have hbyte := getD_between before char after hi
  have htail := h.isTail_getElem hi
  induction i with
  | zero =>
      -- The first byte of the character stops the way, unless it is the first one of all.
      cases hlength : before.length with
      | zero => rfl
      | succ m =>
          rw [hlength, Nat.add_zero] at hbyte
          rw [Nat.add_zero, tailsBack, hbyte, htail]
          simp
  | succ i ih =>
      rw [← Nat.add_assoc] at hbyte ⊢
      rw [tailsBack, hbyte, htail]
      simp only [Nat.succ_pos, decide_true, Bool.and_self, if_true]
      exact ih (by omega) (getD_between before char after _) (h.isTail_getElem _)

end OneCharacter

/-- Where the character with a number starts in a text of some characters. -/
def boundary (chars : List (List UInt8)) (k : Nat) : Nat :=
  (chars.take k).flatten.length

@[simp]
theorem boundary_zero (chars : List (List UInt8)) : boundary chars 0 = 0 := by
  simp [boundary]

@[simp]
theorem boundary_length (chars : List (List UInt8)) :
    boundary chars chars.length = chars.flatten.length := by
  rw [boundary, List.take_length]

theorem boundary_succ (hk : k < chars.length) :
    boundary chars (k + 1) = boundary chars k + chars[k].length := by
  rw [boundary, List.take_succ_eq_append_getElem hk, List.flatten_append, List.length_append,
    List.flatten_singleton, boundary]

/-- The text up to a character, the character, and the text behind it. -/
theorem flatten_split (hk : k < chars.length) :
    chars.flatten = (chars.take k).flatten ++ chars[k] ++ (chars.drop (k + 1)).flatten := by
  have hsplit := congrArg List.flatten (List.take_append_drop k chars)
  rw [List.drop_eq_getElem_cons hk, List.flatten_append, List.flatten_cons] at hsplit
  rw [List.append_assoc, hsplit]

/-- Every position before a boundary belongs to a character before it. -/
theorem exists_boundary (chars : List (List UInt8)) {m : Nat} (hi : i < boundary chars m) :
    ∃ k < m, boundary chars k ≤ i ∧ i < boundary chars (k + 1) := by
  induction m with
  | zero => simp at hi
  | succ m ih =>
      by_cases hm : i < boundary chars m
      · obtain ⟨k, hk, hbetween⟩ := ih hm
        exact ⟨k, Nat.lt_succ_of_lt hk, hbetween⟩
      · exact ⟨m, Nat.lt_succ_self m, Nat.not_lt.mp hm, hi⟩

section Characters

variable (h : ∀ char ∈ chars, Utf8.IsCharacter char)
include h

theorem charLength_boundary (hk : k < chars.length) :
    utf8.charLength chars.flatten.toArray (boundary chars k) = chars[k].length := by
  rw [flatten_split hk]
  exact charLength_between (h _ (List.getElem_mem hk))

theorem codeAt_boundary (hk : k < chars.length) :
    utf8.codeAt chars.flatten.toArray (boundary chars k) = utf8.decode chars[k] := by
  rw [flatten_split hk]
  exact codeAt_between (h _ (List.getElem_mem hk))

theorem boundary_lt (hk : k < chars.length) : boundary chars k < boundary chars (k + 1) := by
  have hlength := (h _ (List.getElem_mem hk)).length_pos
  rw [boundary_succ hk]
  omega

/-- The way back from a byte of a character leads to its start. -/
theorem charHead_boundary (hk : k < chars.length) (hlow : boundary chars k ≤ i)
    (hhigh : i < boundary chars (k + 1)) :
    utf8.charHead chars.flatten.toArray 0 i = boundary chars k := by
  rw [boundary_succ hk] at hhigh
  rw [flatten_split hk]
  obtain ⟨j, rfl⟩ : ∃ j, i = boundary chars k + j := ⟨i - boundary chars k, by omega⟩
  exact charHead_between (h _ (List.getElem_mem hk)) (by omega)

/-- Steps back from a boundary lead to the boundaries before it, and no further than the first. -/
theorem stepBack_boundary (hk : k ≤ chars.length) (n : Nat) :
    utf8.stepBack chars.flatten.toArray 0 n (boundary chars k) =
      if n ≤ k then some (boundary chars (k - n)) else none := by
  induction n generalizing k with
  | zero => simp [stepBack]
  | succ n ih =>
      cases k with
      | zero => simp [stepBack, prevHead]
      | succ k =>
          -- The byte before a boundary is the last one of the character before it.
          have hlt := boundary_lt h (k := k) (by omega)
          have hhead := charHead_boundary h (k := k) (i := boundary chars (k + 1) - 1) (by omega)
            (by omega) (by omega)
          rw [stepBack, prevHead, if_neg (by omega), hhead]
          simpa using ih (k := k) (by omega)

/-- The code points from a character on are those of the characters from there on. -/
theorem codesFrom_boundary (hk : k ≤ chars.length) :
    utf8.codesFrom chars.flatten.toArray (boundary chars k) =
      (chars.drop k).map utf8.decode := by
  induction hm : chars.length - k generalizing k with
  | zero =>
      obtain rfl : k = chars.length := by omega
      rw [codesFrom, if_neg (by simp), List.drop_length, List.map_nil]
  | succ m ih =>
      have hlt : k < chars.length := by omega
      have hinside : boundary chars k < chars.flatten.toArray.size := by
        have hlength := (h _ (List.getElem_mem hlt)).length_pos
        have hsize := congrArg List.length (flatten_split hlt)
        simp only [List.length_append] at hsize
        rw [List.size_toArray, hsize, boundary]
        omega
      rw [codesFrom, if_pos hinside, codeAt_boundary h hlt, charLength_boundary h hlt,
        ← boundary_succ hlt, ih hlt (by omega), List.drop_eq_getElem_cons hlt, List.map_cons]

end Characters

/-- What the walks over a text of some characters find, if the characters stand for the given code
points. -/
structure Walked (codes : List Nat) (chars : List (List UInt8)) : Prop where
  /-- The text is one of the encoding. -/
  valid : utf8.isValid chars.flatten = true
  /-- The walk with the lengths of the characters finds the code points. -/
  found : utf8.codesFrom chars.flatten.toArray 0 = codes
  /-- There are as many characters as code points. -/
  count : (utf8.characters chars.flatten).length = codes.length
  /-- The walk starts at the first boundary and ends with the text at the last. -/
  ends : boundary chars 0 = 0 ∧ boundary chars codes.length = chars.flatten.length
  /-- The walk goes from each boundary to the next. -/
  next : ∀ k < codes.length, boundary chars k +
    utf8.charLength chars.flatten.toArray (boundary chars k) = boundary chars (k + 1)
  /-- Steps back from a boundary lead to the boundaries before it. -/
  back : ∀ k ≤ codes.length, ∀ n, utf8.stepBack chars.flatten.toArray 0 n (boundary chars k) =
    if n ≤ k then some (boundary chars (k - n)) else none
  /-- The way back from any byte leads to the start of the character that the byte belongs to. -/
  head : ∀ i < chars.flatten.length, ∃ k < codes.length,
    boundary chars k ≤ i ∧ i < boundary chars (k + 1) ∧
      utf8.charHead chars.flatten.toArray 0 i = boundary chars k

/-- Every list of code points up to U+10FFFF is encoded, and walks over its bytes, in both
directions, find the code points again. -/
theorem walked_encoded {codes : List Nat} (hcodes : ∀ c ∈ codes, c ≤ 0x10ffff) :
    ∃ chars, codes.mapM utf8.encode? = some chars ∧ Walked codes chars := by
  -- The bytes of each code point are a character, and the character is decoded to it.
  obtain ⟨chars, hchars⟩ := exists_encoded hcodes
  obtain ⟨hmem, hdecode⟩ := isCharacter_of_mapM hchars
  have hlength : chars.length = codes.length := by
    rw [← hdecode, List.length_map]
  refine ⟨chars, hchars, ?_⟩
  -- The text consists of these characters, and both walks come from boundary to boundary.
  constructor
  case valid => exact isValid_flatten hmem
  case found =>
    have hwalk := codesFrom_boundary hmem (Nat.zero_le _)
    rwa [boundary_zero, List.drop_zero, hdecode] at hwalk
  case count => rw [characters_flatten hmem, hlength]
  case ends => exact ⟨boundary_zero chars, hlength ▸ boundary_length chars⟩
  case next =>
    intro k hk
    rw [charLength_boundary hmem (hlength ▸ hk), boundary_succ (hlength ▸ hk)]
  case back =>
    intro k hk
    exact stepBack_boundary hmem (hlength ▸ hk)
  case head =>
    intro i hi
    obtain ⟨k, hk, hlow, hhigh⟩ :=
      exists_boundary chars (i := i) (m := chars.length) (by rwa [boundary_length])
    exact ⟨k, hlength ▸ hk, hlow, hhigh, charHead_boundary hmem hk hlow hhigh⟩

/-- A code point of each number of bytes, a surrogate and the last code point among them. -/
theorem walked_encoded_lengths :
    (∀ c ∈ [0x24, 0x7ff, 0xd800, 0x20ac, 0x10ffff], c ≤ 0x10ffff) ∧
      ∃ chars, [0x24, 0x7ff, 0xd800, 0x20ac, 0x10ffff].mapM utf8.encode? = some chars ∧
        Walked [0x24, 0x7ff, 0xd800, 0x20ac, 0x10ffff] chars :=
  ⟨by decide, walked_encoded (by decide)⟩

end Encoding

end RegexEngine
