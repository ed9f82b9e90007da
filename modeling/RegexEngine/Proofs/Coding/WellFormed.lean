import RegexEngine.Proofs.Coding.Ahead
import RegexEngine.Proofs.Coding.Walk

/-!
# Well-Formed UTF-8

RFC 3629, section 4, lists the sequences of bytes that are characters of UTF-8. The first byte
decides how many bytes there are. Four first bytes restrict the second byte as well: after `e0` and
`f0` it is so high that the code point has no shorter form, after `ed` so low that the code point is
no surrogate, and after `f4` so low that it is not above U+10FFFF.

The check of a text does not restrict the second byte. What it accepts can be divided into sequences
of the list and strays, which are what the four first bytes would have excluded. A text is well
formed just if there is no stray in it. From the outside this shows in the code points: they are
scalar values and their bytes are the text again. Each kind of stray breaks that in its own way.

## Main definitions

* `Utf8.Sequence`: The sequences of the list.
* `Utf8.WellFormed`: A text of such sequences.
* `Utf8.Stray`: Characters of the right length that are not in the list.

## Theorems

* `isCharacter_iff`: A character is a sequence or a stray.
* `Sequence.shows`, `Stray.shows`: What the decoder and the encoder make of either.
* `isValid_iff`, `wellFormed_iff`: Texts of characters, and of sequences.
* `isValid_strays`: The texts that the check accepts, and the well-formed ones among them.
* `isValid_faults`: It accepts a stray of each kind.
-/

namespace RegexEngine

namespace Utf8

/-- The sequences of bytes that are characters of UTF-8 (RFC 3629, section 4). -/
inductive Sequence : List UInt8 → Prop where
  /-- U+0000 to U+007F. -/
  | one {a : UInt8} (ha : a ≤ 0x7f) : Sequence [a]
  /-- U+0080 to U+07FF. -/
  | two {a b : UInt8} (ha : 0xc2 ≤ a ∧ a ≤ 0xdf) (hb : isTail b = true) : Sequence [a, b]
  /-- U+0800 to U+0FFF. -/
  | threeFirst {b c : UInt8} (hb : 0xa0 ≤ b ∧ b ≤ 0xbf) (hc : isTail c = true) :
      Sequence [0xe0, b, c]
  /-- U+1000 to U+CFFF. -/
  | threeLow {a b c : UInt8} (ha : 0xe1 ≤ a ∧ a ≤ 0xec) (hb : isTail b = true)
      (hc : isTail c = true) : Sequence [a, b, c]
  /-- U+D000 to U+D7FF. -/
  | threeMiddle {b c : UInt8} (hb : 0x80 ≤ b ∧ b ≤ 0x9f) (hc : isTail c = true) :
      Sequence [0xed, b, c]
  /-- U+E000 to U+FFFF. -/
  | threeHigh {a b c : UInt8} (ha : 0xee ≤ a ∧ a ≤ 0xef) (hb : isTail b = true)
      (hc : isTail c = true) : Sequence [a, b, c]
  /-- U+10000 to U+3FFFF. -/
  | fourFirst {b c d : UInt8} (hb : 0x90 ≤ b ∧ b ≤ 0xbf) (hc : isTail c = true)
      (hd : isTail d = true) : Sequence [0xf0, b, c, d]
  /-- U+40000 to U+FFFFF. -/
  | fourMiddle {a b c d : UInt8} (ha : 0xf1 ≤ a ∧ a ≤ 0xf3) (hb : isTail b = true)
      (hc : isTail c = true) (hd : isTail d = true) : Sequence [a, b, c, d]
  /-- U+100000 to U+10FFFF. -/
  | fourLast {b c d : UInt8} (hb : 0x80 ≤ b ∧ b ≤ 0x8f) (hc : isTail c = true)
      (hd : isTail d = true) : Sequence [0xf4, b, c, d]

/-- A text of sequences, one after the other. -/
inductive WellFormed : List UInt8 → Prop where
  | nil : WellFormed []
  | append {char rest : List UInt8} (first : Sequence char) (more : WellFormed rest) :
      WellFormed (char ++ rest)

/-- What is wrong with a character that is not in the list. -/
inductive Fault where
  /-- The code point has a shorter form. -/
  | long
  /-- The code point is a surrogate. -/
  | surrogate
  /-- The code point is above U+10FFFF. -/
  | beyond
  deriving DecidableEq, Repr

/-- The characters that are not in the list since their second byte is too low or too high. -/
inductive Stray : Fault → List UInt8 → Prop where
  | longThree {b c : UInt8} (hb : 0x80 ≤ b ∧ b ≤ 0x9f) (hc : isTail c = true) :
      Stray .long [0xe0, b, c]
  | surrogate {b c : UInt8} (hb : 0xa0 ≤ b ∧ b ≤ 0xbf) (hc : isTail c = true) :
      Stray .surrogate [0xed, b, c]
  | longFour {b c d : UInt8} (hb : 0x80 ≤ b ∧ b ≤ 0x8f) (hc : isTail c = true)
      (hd : isTail d = true) : Stray .long [0xf0, b, c, d]
  | beyond {b c d : UInt8} (hb : 0x90 ≤ b ∧ b ≤ 0xbf) (hc : isTail c = true)
      (hd : isTail d = true) : Stray .beyond [0xf4, b, c, d]

/-- How a fault shows in what the decoder and the encoder make of a character. -/
def Fault.Shows (char : List UInt8) : Fault → Prop
  | long => ∃ short, encode? (decode char) = some short ∧ short.length < char.length
  | surrogate => (0xd800 ≤ decode char ∧ decode char ≤ 0xdfff) ∧ encode? (decode char) = some char
  | beyond => 0x10ffff < decode char ∧ encode? (decode char) = none

section Bytes

variable {a b c d : UInt8} {n : Nat}

theorem isTail_iff : isTail b = true ↔ 0x80 ≤ b.toNat ∧ b.toNat < 0xc0 := by
  simp only [isTail, Bool.and_eq_true, decide_eq_true_eq, UInt8.le_iff_toNat_le,
    UInt8.lt_iff_toNat_lt, UInt8.reduceToNat]

/-- A continuing byte carries the lowest six bits. -/
theorem tailByte_eq (h : isTail b = true) (hbits : n % 64 = b.toNat % 64) : tailByte n = b := by
  rw [isTail_iff] at h
  rw [← UInt8.toNat_inj, toNat_tailByte]
  omega

theorem toUInt8_eq (h : n = b.toNat) : n.toUInt8 = b := by
  rw [← UInt8.toNat_inj, h]
  exact toNat_toUInt8 b.toNat_lt

theorem decode_two (ha : 0xc2 ≤ a ∧ a ≤ 0xdf) :
    decode [a, b] = a.toNat % 32 * 64 + b.toNat % 64 := by
  simp only [UInt8.le_iff_toNat_le, UInt8.reduceToNat] at ha
  have hlength : leadLength a = 2 := by
    simp only [leadLength, UInt8.lt_iff_toNat_lt, UInt8.reduceToNat]
    rw [if_neg (by omega), if_pos (by omega)]
  rw [decode, hlength]
  rfl

theorem decode_three (ha : 0xe0 ≤ a ∧ a ≤ 0xef) :
    decode [a, b, c] = a.toNat % 16 * 4096 + b.toNat % 64 * 64 + c.toNat % 64 := by
  simp only [UInt8.le_iff_toNat_le, UInt8.reduceToNat] at ha
  have hlength : leadLength a = 3 := by
    simp only [leadLength, UInt8.lt_iff_toNat_lt, UInt8.reduceToNat]
    rw [if_neg (by omega), if_neg (by omega), if_pos (by omega)]
  have hfold : decode [a, b, c] = (a.toNat % 16 * 64 + b.toNat % 64) * 64 + c.toNat % 64 := by
    rw [decode, hlength]
    rfl
  omega

theorem decode_four (ha : 0xf0 ≤ a ∧ a ≤ 0xf4) : decode [a, b, c, d] =
    a.toNat % 8 * 262144 + b.toNat % 64 * 4096 + c.toNat % 64 * 64 + d.toNat % 64 := by
  simp only [UInt8.le_iff_toNat_le, UInt8.reduceToNat] at ha
  have hlength : leadLength a = 4 := by
    simp only [leadLength, UInt8.lt_iff_toNat_lt, UInt8.reduceToNat]
    rw [if_neg (by omega), if_neg (by omega), if_neg (by omega), if_pos (by omega)]
  have hfold : decode [a, b, c, d] =
      ((a.toNat % 8 * 64 + b.toNat % 64) * 64 + c.toNat % 64) * 64 + d.toNat % 64 := by
    rw [decode, hlength]
    rfl
  omega

/-- Two bytes are never too many. -/
theorem encode?_two (ha : 0xc2 ≤ a ∧ a ≤ 0xdf) (hb : isTail b = true) :
    decode [a, b] < 0x800 ∧ encode? (decode [a, b]) = some [a, b] := by
  rw [decode_two ha]
  simp only [UInt8.le_iff_toNat_le, UInt8.reduceToNat] at ha
  refine ⟨by omega, ?_⟩
  rw [encode?, if_neg (by omega), if_pos (by omega), tailByte_eq hb (by omega)]
  rw [toUInt8_eq (b := a) (by omega)]

/-- Three bytes are encoded to themselves if the code point needs as many. -/
theorem encode?_three (ha : 0xe0 ≤ a ∧ a ≤ 0xef) (hb : isTail b = true) (hc : isTail c = true)
    (hneeds : 0x800 ≤ decode [a, b, c]) : encode? (decode [a, b, c]) = some [a, b, c] := by
  rw [decode_three ha] at hneeds ⊢
  simp only [UInt8.le_iff_toNat_le, UInt8.reduceToNat] at ha
  rw [encode?, if_neg (by omega), if_neg (by omega), if_pos (by omega), tailByte_eq hb (by omega),
    tailByte_eq hc (by omega), toUInt8_eq (b := a) (by omega)]

/-- So are four, if the code point needs as many and has bytes at all. -/
theorem encode?_four (ha : 0xf0 ≤ a ∧ a ≤ 0xf4) (hb : isTail b = true) (hc : isTail c = true)
    (hd : isTail d = true) (hneeds : 0x10000 ≤ decode [a, b, c, d])
    (hhas : decode [a, b, c, d] ≤ 0x10ffff) :
    encode? (decode [a, b, c, d]) = some [a, b, c, d] := by
  rw [decode_four ha] at hneeds hhas ⊢
  simp only [UInt8.le_iff_toNat_le, UInt8.reduceToNat] at ha
  rw [encode?, if_neg (by omega), if_neg (by omega), if_neg (by omega), if_pos (by omega),
    tailByte_eq hb (by omega), tailByte_eq hc (by omega), tailByte_eq hd (by omega),
    toUInt8_eq (b := a) (by omega)]

end Bytes

variable {char : List UInt8} {fault : Fault}

theorem isScalar_iff {c : Nat} :
    Unicode.isScalar c = true ↔ c < 0xd800 ∨ 0xdfff < c ∧ c < 0x110000 := by
  simp only [Unicode.isScalar, Bool.or_eq_true, Bool.and_eq_true, decide_eq_true_eq]

/-- Code points that need fewer bytes get fewer. -/
theorem exists_short {c : Nat} (h : c < 0x10000) : ∃ short, encode? c = some short ∧
    short.length < 4 ∧ (c < 0x800 → short.length < 3) := by
  rw [encode?, if_pos h]
  split
  · exact ⟨_, rfl, by simp, fun _ => by simp⟩
  · split
    · exact ⟨_, rfl, by simp, fun _ => by simp⟩
    · exact ⟨_, rfl, by simp, fun hlow => absurd hlow ‹_›⟩

/-- A sequence of the list stands for a scalar value, whose bytes it is. -/
theorem Sequence.shows (h : Sequence char) :
    Unicode.isScalar (decode char) = true ∧ encode? (decode char) = some char := by
  rw [isScalar_iff]
  -- The bounds of the second byte are those of the code point.
  cases h with
  | @one a ha =>
      have hcode : decode [a] = a.toNat := by
        rw [decode, List.length_nil, Nat.min_zero, if_pos rfl]
      simp only [UInt8.le_iff_toNat_le, UInt8.reduceToNat] at ha
      refine ⟨by omega, ?_⟩
      rw [hcode, encode?, if_pos (by omega), toUInt8_eq rfl]
  | two ha hb =>
      have hcode := encode?_two ha hb
      exact ⟨by omega, hcode.2⟩
  | @threeFirst b c hb hc =>
      have hcode := decode_three (a := 0xe0) (b := b) (c := c) (by decide)
      simp only [UInt8.le_iff_toNat_le, UInt8.reduceToNat] at hb hcode
      exact ⟨by omega, encode?_three (by decide) (isTail_iff.mpr (by omega)) hc (by omega)⟩
  | @threeLow a b c ha hb hc =>
      have ha' : 0xe0 ≤ a ∧ a ≤ 0xef :=
        ⟨UInt8.le_trans (by decide) ha.1, UInt8.le_trans ha.2 (by decide)⟩
      have hcode := decode_three (b := b) (c := c) ha'
      simp only [UInt8.le_iff_toNat_le, UInt8.reduceToNat] at ha
      exact ⟨by omega, encode?_three ha' hb hc (by omega)⟩
  | @threeMiddle b c hb hc =>
      have hcode := decode_three (a := 0xed) (b := b) (c := c) (by decide)
      simp only [UInt8.le_iff_toNat_le, UInt8.reduceToNat] at hb hcode
      exact ⟨by omega, encode?_three (by decide) (isTail_iff.mpr (by omega)) hc (by omega)⟩
  | @threeHigh a b c ha hb hc =>
      have ha' : 0xe0 ≤ a ∧ a ≤ 0xef := ⟨UInt8.le_trans (by decide) ha.1, ha.2⟩
      have hcode := decode_three (b := b) (c := c) ha'
      simp only [UInt8.le_iff_toNat_le, UInt8.reduceToNat] at ha
      exact ⟨by omega, encode?_three ha' hb hc (by omega)⟩
  | @fourFirst b c d hb hc hd =>
      have hcode := decode_four (a := 0xf0) (b := b) (c := c) (d := d) (by decide)
      simp only [UInt8.le_iff_toNat_le, UInt8.reduceToNat] at hb hcode
      exact ⟨by omega,
        encode?_four (by decide) (isTail_iff.mpr (by omega)) hc hd (by omega) (by omega)⟩
  | @fourMiddle a b c d ha hb hc hd =>
      have ha' : 0xf0 ≤ a ∧ a ≤ 0xf4 :=
        ⟨UInt8.le_trans (by decide) ha.1, UInt8.le_trans ha.2 (by decide)⟩
      have hcode := decode_four (b := b) (c := c) (d := d) ha'
      simp only [UInt8.le_iff_toNat_le, UInt8.reduceToNat] at ha
      exact ⟨by omega, encode?_four ha' hb hc hd (by omega) (by omega)⟩
  | @fourLast b c d hb hc hd =>
      have hcode := decode_four (a := 0xf4) (b := b) (c := c) (d := d) (by decide)
      simp only [UInt8.le_iff_toNat_le, UInt8.reduceToNat] at hb hcode
      exact ⟨by omega,
        encode?_four (by decide) (isTail_iff.mpr (by omega)) hc hd (by omega) (by omega)⟩

/-- A stray shows its fault. -/
theorem Stray.shows (h : Stray fault char) : fault.Shows char := by
  cases h with
  -- The second byte is too small, so that two bytes are enough for the code point.
  | @longThree b c hb hc =>
      have hcode := decode_three (a := 0xe0) (b := b) (c := c) (by decide)
      simp only [UInt8.le_iff_toNat_le, UInt8.reduceToNat] at hb hcode
      obtain ⟨short, hshort, -, hlength⟩ := exists_short (c := decode [0xe0, b, c]) (by omega)
      exact ⟨short, hshort, hlength (by omega)⟩
  -- The code point lies between U+D800 and U+DFFF, and its three bytes are what is written for it.
  | @surrogate b c hb hc =>
      have hcode := decode_three (a := 0xed) (b := b) (c := c) (by decide)
      simp only [UInt8.le_iff_toNat_le, UInt8.reduceToNat] at hb hcode
      exact ⟨by omega, encode?_three (by decide) (isTail_iff.mpr (by omega)) hc (by omega)⟩
  -- The second byte is too small, so that three bytes are enough.
  | @longFour b c d hb hc hd =>
      have hcode := decode_four (a := 0xf0) (b := b) (c := c) (d := d) (by decide)
      simp only [UInt8.le_iff_toNat_le, UInt8.reduceToNat] at hb hcode
      obtain ⟨short, hshort, hlength, -⟩ := exists_short (c := decode [0xf0, b, c, d]) (by omega)
      exact ⟨short, hshort, hlength⟩
  -- The code point lies above U+10FFFF, for which nothing is written.
  | @beyond b c d hb hc hd =>
      have hcode := decode_four (a := 0xf4) (b := b) (c := c) (d := d) (by decide)
      simp only [UInt8.le_iff_toNat_le, UInt8.reduceToNat] at hb hcode
      refine ⟨by omega, ?_⟩
      rw [encode?, if_neg (by omega), if_neg (by omega), if_neg (by omega), if_neg (by omega)]

/-- Where a fault shows, the code point is no scalar value or its bytes are others. -/
theorem Fault.Shows.not_faithful (h : fault.Shows char) :
    ¬(Unicode.isScalar (decode char) = true ∧ encode? (decode char) = some char) := by
  rintro ⟨hscalar, hback⟩
  rw [isScalar_iff] at hscalar
  cases fault with
  | long =>
      rcases h with ⟨short, hshort, hlength⟩
      rw [hback] at hshort
      cases hshort
      exact absurd hlength (Nat.lt_irrefl _)
  | surrogate =>
      have hbounds := h.1
      omega
  | beyond =>
      have habove := h.1
      omega

/-- What the first byte of a character announces. -/
theorem leadLength_cases {a : UInt8} (h : isBadLead a = false) :
    leadLength a = 1 ∧ a ≤ 0x7f ∨ leadLength a = 2 ∧ 0xc2 ≤ a ∧ a ≤ 0xdf ∨
      leadLength a = 3 ∧ 0xe0 ≤ a ∧ a ≤ 0xef ∨ leadLength a = 4 ∧ 0xf0 ≤ a ∧ a ≤ 0xf4 := by
  simp only [isBadLead, leadLength, Bool.or_eq_false_iff, Bool.and_eq_false_iff,
    decide_eq_false_iff_not, UInt8.lt_iff_toNat_lt, UInt8.le_iff_toNat_le, UInt8.reduceToNat] at h ⊢
  repeat' split
  all_goals omega

theorem Stray.isCharacter (h : Stray fault char) : IsCharacter char := by
  -- The bounds of the second byte are those of a continuing byte, or tighter.
  have htail : ∀ {b : UInt8}, 0x80 ≤ b → b ≤ 0xbf → isTail b = true := fun hlow hhigh =>
    isTail_iff.mpr ⟨hlow, Nat.lt_succ_of_le hhigh⟩
  cases h with
  | longThree hb hc =>
      refine .intro (by decide) rfl
        (List.forall_mem_cons.mpr ⟨?_, List.forall_mem_singleton.mpr hc⟩)
      exact htail hb.1 (UInt8.le_trans hb.2 (by decide))
  | surrogate hb hc =>
      refine .intro (by decide) rfl
        (List.forall_mem_cons.mpr ⟨?_, List.forall_mem_singleton.mpr hc⟩)
      exact htail (UInt8.le_trans (by decide) hb.1) hb.2
  | longFour hb hc hd =>
      refine .intro (by decide) rfl (List.forall_mem_cons.mpr
        ⟨?_, List.forall_mem_cons.mpr ⟨hc, List.forall_mem_singleton.mpr hd⟩⟩)
      exact htail hb.1 (UInt8.le_trans hb.2 (by decide))
  | beyond hb hc hd =>
      refine .intro (by decide) rfl (List.forall_mem_cons.mpr
        ⟨?_, List.forall_mem_cons.mpr ⟨hc, List.forall_mem_singleton.mpr hd⟩⟩)
      exact htail (UInt8.le_trans (by decide) hb.1) hb.2

section Rows

variable {a b c d : UInt8}

theorem three_cases (ha : 0xe0 ≤ a ∧ a ≤ 0xef) (hb : isTail b = true) (hc : isTail c = true) :
    Sequence [a, b, c] ∨ ∃ fault, Stray fault [a, b, c] := by
  have hbounds := isTail_iff.mp hb
  by_cases hfirst : a = 0xe0
  · rw [hfirst]
    rcases Nat.lt_or_ge b.toNat 0xa0 with hlow | hhigh
    · exact .inr ⟨_, .longThree ⟨hbounds.1, Nat.le_of_lt_succ hlow⟩ hc⟩
    · exact .inl (.threeFirst ⟨hhigh, Nat.le_of_lt_succ hbounds.2⟩ hc)
  · by_cases hmiddle : a = 0xed
    · rw [hmiddle]
      rcases Nat.lt_or_ge b.toNat 0xa0 with hlow | hhigh
      · exact .inl (.threeMiddle ⟨hbounds.1, Nat.le_of_lt_succ hlow⟩ hc)
      · exact .inr ⟨_, .surrogate ⟨hhigh, Nat.le_of_lt_succ hbounds.2⟩ hc⟩
    · simp only [UInt8.le_iff_toNat_le, ← UInt8.toNat_inj, UInt8.reduceToNat] at ha hfirst hmiddle
      rcases Nat.lt_or_ge a.toNat 0xed with hlow | hhigh
      · have hnext := Nat.lt_of_le_of_ne ha.1 (Ne.symm hfirst)
        exact .inl (.threeLow ⟨hnext, Nat.le_of_lt_succ hlow⟩ hb hc)
      · have hnext := Nat.lt_of_le_of_ne hhigh (Ne.symm hmiddle)
        exact .inl (.threeHigh ⟨hnext, ha.2⟩ hb hc)

theorem four_cases (ha : 0xf0 ≤ a ∧ a ≤ 0xf4) (hb : isTail b = true) (hc : isTail c = true)
    (hd : isTail d = true) : Sequence [a, b, c, d] ∨ ∃ fault, Stray fault [a, b, c, d] := by
  have hbounds := isTail_iff.mp hb
  by_cases hfirst : a = 0xf0
  · rw [hfirst]
    rcases Nat.lt_or_ge b.toNat 0x90 with hlow | hhigh
    · exact .inr ⟨_, .longFour ⟨hbounds.1, Nat.le_of_lt_succ hlow⟩ hc hd⟩
    · exact .inl (.fourFirst ⟨hhigh, Nat.le_of_lt_succ hbounds.2⟩ hc hd)
  · by_cases hlast : a = 0xf4
    · rw [hlast]
      rcases Nat.lt_or_ge b.toNat 0x90 with hlow | hhigh
      · exact .inl (.fourLast ⟨hbounds.1, Nat.le_of_lt_succ hlow⟩ hc hd)
      · exact .inr ⟨_, .beyond ⟨hhigh, Nat.le_of_lt_succ hbounds.2⟩ hc hd⟩
    · simp only [UInt8.le_iff_toNat_le, ← UInt8.toNat_inj, UInt8.reduceToNat] at ha hfirst hlast
      have hlow := Nat.lt_of_le_of_ne ha.1 (Ne.symm hfirst)
      have hhigh := Nat.lt_of_le_of_ne ha.2 hlast
      exact .inl (.fourMiddle ⟨hlow, Nat.le_of_lt_succ hhigh⟩ hb hc hd)

end Rows

/-- A character is one of the list or a stray. -/
theorem isCharacter_iff : IsCharacter char ↔ Sequence char ∨ ∃ fault, Stray fault char := by
  constructor
  · intro h
    cases h with
    | @intro lead tails starts announces continues =>
        -- The first byte says how many follow, and the second byte decides whether the character is
        -- a stray.
        rcases leadLength_cases starts with ⟨hlead, ha⟩ | ⟨hlead, ha⟩ | ⟨hlead, ha⟩ | ⟨hlead, ha⟩
        all_goals rw [hlead] at announces
        · obtain rfl := List.eq_nil_of_length_eq_zero (Nat.succ.inj announces).symm
          exact .inl (.one ha)
        · obtain ⟨b, rfl⟩ := List.length_eq_one_iff.mp (Nat.succ.inj announces).symm
          exact .inl (.two ha (continues b List.mem_cons_self))
        · obtain ⟨b, c, rfl⟩ := List.length_eq_two.mp (Nat.succ.inj announces).symm
          simp only [List.forall_mem_cons] at continues
          exact three_cases ha continues.1 continues.2.1
        · obtain ⟨b, c, d, rfl⟩ := List.length_eq_three.mp (Nat.succ.inj announces).symm
          simp only [List.forall_mem_cons] at continues
          exact four_cases ha continues.1 continues.2.1 continues.2.2.1
  · rintro (h | ⟨fault, h⟩)
    · exact (encode?_isCharacter h.shows.2).1
    · exact h.isCharacter

/-- No sequence of the list is a stray. -/
theorem Sequence.not_stray (h : Sequence char) : ¬∃ fault, Stray fault char :=
  fun ⟨_, hstray⟩ => hstray.shows.not_faithful h.shows

/-- The characters of the list are those that stand for scalar values whose bytes they are. -/
theorem IsCharacter.sequence_iff (h : IsCharacter char) : Sequence char ↔
    Unicode.isScalar (decode char) = true ∧ encode? (decode char) = some char := by
  refine ⟨Sequence.shows, fun hfaithful => (isCharacter_iff.mp h).resolve_right ?_⟩
  rintro ⟨fault, hstray⟩
  exact hstray.shows.not_faithful hfaithful

end Utf8

namespace Encoding

open Utf8

variable {bytes : List UInt8}

/-- A text of the encoding is one that is divided into characters. -/
theorem isValid_iff : utf8.isValid bytes = true ↔
    ∀ char ∈ utf8.characters bytes, IsCharacter char := by
  constructor
  · intro h
    have hcomplete := complete_of_isValid h
    induction hcomplete with
    | nil => exact List.forall_mem_nil _
    | @char lead tails rest announces later ih =>
        rw [characters_append announces]
        -- What follows a character in a valid text is valid again.
        have hlater := isValid_splitFirst h (splitFirst_append announces)
        refine List.forall_mem_cons.mpr ⟨?_, ih hlater⟩
        have htails : Utf8.leadLength lead - 1 = tails.length := Nat.sub_eq_of_eq_add announces
        rw [List.cons_append, isValid, Utf8.isValid, validFrom, htails, Bool.and_eq_true,
          Bool.not_eq_true'] at h
        refine .intro h.1 announces fun b hb => ?_
        obtain ⟨i, hi, rfl⟩ := List.getElem_of_mem hb
        obtain ⟨b, hget, htail⟩ := isTail_of_validFrom h.2 hi
        rw [List.getElem?_append_left hi, List.getElem?_eq_getElem hi, Option.some.injEq] at hget
        rwa [hget]
  · intro h
    rw [← flatten_characters utf8 bytes]
    exact isValid_flatten h

/-- A well-formed text is one that is divided into sequences of the list. -/
theorem wellFormed_iff : WellFormed bytes ↔ ∀ char ∈ utf8.characters bytes, Sequence char := by
  constructor
  -- Each sequence is a character, so that the text is divided just behind it.
  · intro h
    induction h with
    | nil => exact List.forall_mem_nil _
    | append first more ih =>
        have hchar := isCharacter_iff.mpr (.inl first)
        cases hchar with
        | @intro lead tails _ announces _ =>
            have hlength : utf8.leadLength lead = tails.length + 1 := announces
            rw [characters_append hlength]
            exact List.forall_mem_cons.mpr ⟨first, ih⟩
  · intro h
    rw [← flatten_characters utf8 bytes]
    generalize utf8.characters bytes = chars at h
    induction chars with
    | nil => exact .nil
    | cons char chars ih =>
        rw [List.forall_mem_cons] at h
        exact .append h.1 (ih h.2)

/-- The code points of a text are those of its characters. -/
theorem codesFrom_zero (h : utf8.isValid bytes = true) :
    utf8.codesFrom bytes.toArray 0 = (utf8.characters bytes).map utf8.decode := by
  have hwalk := codesFrom_boundary (isValid_iff.mp h) (Nat.zero_le _)
  rwa [flatten_characters, boundary_zero, List.drop_zero] at hwalk

/-- Code points are encoded one by one. -/
theorem mapM_encode?_iff {codes : List Nat} {chars : List (List UInt8)} :
    codes.mapM utf8.encode? = some chars ↔ codes.map utf8.encode? = chars.map some := by
  induction codes generalizing chars with
  | nil => cases chars <;> simp
  | cons c codes ih =>
      simp only [List.mapM_cons, Option.bind_eq_bind, Option.bind_eq_some_iff, Option.pure_def,
        Option.some.injEq, ih, List.map_cons]
      cases chars with
      | nil => simp
      | cons char chars => simp

/-- The texts that the check accepts are made of sequences of the list and of strays, which show
their faults. The well-formed texts are those without a stray, and they are those whose code points
are scalar values and are encoded to the text again. -/
theorem isValid_strays (bytes : List UInt8) :
    (utf8.isValid bytes = true ↔ ∀ char ∈ utf8.characters bytes,
      Sequence char ∨ ∃ fault, Stray fault char ∧ fault.Shows char) ∧
    (WellFormed bytes ↔ utf8.isValid bytes = true ∧
      ¬∃ char ∈ utf8.characters bytes, ∃ fault, Stray fault char) ∧
    (WellFormed bytes ↔ utf8.isValid bytes = true ∧
      (∀ c ∈ utf8.codesFrom bytes.toArray 0, Unicode.isScalar c = true) ∧
      ((utf8.codesFrom bytes.toArray 0).mapM utf8.encode?).map List.flatten = some bytes) := by
  refine ⟨?_, ?_, ?_⟩
  · rw [isValid_iff]
    refine forall₂_congr fun char _ => isCharacter_iff.trans (or_congr_right ?_)
    exact exists_congr fun fault => ⟨fun h => ⟨h, h.shows⟩, And.left⟩
  · rw [wellFormed_iff, isValid_iff]
    constructor
    · intro h
      refine ⟨fun char hmem => isCharacter_iff.mpr (.inl (h char hmem)), ?_⟩
      rintro ⟨char, hmem, hstray⟩
      exact (h char hmem).not_stray hstray
    · rintro ⟨hchars, hnone⟩ char hmem
      exact (isCharacter_iff.mp (hchars char hmem)).resolve_right fun hstray =>
        hnone ⟨char, hmem, hstray⟩
  · rw [wellFormed_iff]
    constructor
    · intro h
      have hvalid : utf8.isValid bytes = true :=
        isValid_iff.mpr fun char hmem => isCharacter_iff.mpr (.inl (h char hmem))
      have hback : ((utf8.characters bytes).map utf8.decode).mapM utf8.encode? =
          some (utf8.characters bytes) := by
        rw [mapM_encode?_iff, List.map_map]
        exact List.map_congr_left fun char hmem => (h char hmem).shows.2
      rw [codesFrom_zero hvalid, hback, Option.map_some, flatten_characters]
      exact ⟨hvalid, List.forall_mem_map.mpr fun char hmem => (h char hmem).shows.1, rfl⟩
    · rintro ⟨hvalid, hscalar, hback⟩
      rw [codesFrom_zero hvalid] at hscalar hback
      obtain ⟨chars, hchars, rfl⟩ := Option.map_eq_some_iff.mp hback
      -- The encoded code points are characters, and the text that they make has no others.
      have hcoded := (isCharacter_of_mapM hchars).1
      rw [characters_flatten hcoded] at hchars hscalar ⊢
      rw [mapM_encode?_iff, List.map_map, List.map_inj_left] at hchars
      intro char hmem
      rw [(hcoded char hmem).sequence_iff]
      exact ⟨hscalar _ (List.mem_map_of_mem hmem), hchars char hmem⟩

/-- The check accepts a surrogate, a long form of U+0000 and a code point above U+10FFFF, and none
of the three is well-formed. -/
theorem isValid_faults :
    (utf8.isValid [0xed, 0xa0, 0x80] = true ∧ utf8.decode [0xed, 0xa0, 0x80] = 0xd800 ∧
      ¬WellFormed [0xed, 0xa0, 0x80]) ∧
    (utf8.isValid [0xe0, 0x80, 0x80] = true ∧ utf8.decode [0xe0, 0x80, 0x80] = 0 ∧
      ¬WellFormed [0xe0, 0x80, 0x80]) ∧
    (utf8.isValid [0xf4, 0x90, 0x80, 0x80] = true ∧
      utf8.decode [0xf4, 0x90, 0x80, 0x80] = 0x110000 ∧ ¬WellFormed [0xf4, 0x90, 0x80, 0x80]) := by
  have hstray : ∀ {fault : Fault} {char : List UInt8}, Stray fault char →
      utf8.characters char = [char] → ¬WellFormed char := by
    intro fault char hstray hchars hwellFormed
    rw [wellFormed_iff, hchars] at hwellFormed
    exact (hwellFormed char List.mem_cons_self).not_stray ⟨fault, hstray⟩
  refine ⟨⟨rfl, rfl, ?_⟩, ⟨rfl, rfl, ?_⟩, rfl, rfl, ?_⟩
  · exact hstray (.surrogate (by decide) (by decide)) rfl
  · exact hstray (.longThree (by decide) (by decide)) rfl
  · exact hstray (.beyond (by decide) (by decide) (by decide)) rfl

end Encoding

end RegexEngine
