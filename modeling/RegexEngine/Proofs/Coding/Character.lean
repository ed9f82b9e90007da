import RegexEngine.Proofs.Reading.Text

/-!
# Coded Characters

The bytes of a code point are a first byte and as many continuing bytes as it announces. Bytes of
this shape can be read wherever they stand: the first byte tells how many there are, and no byte but
the first can be taken for the start of a character.

The encoder spreads a code point over the bytes, six bits to a continuing byte and the rest to the
first one. How many bits are left for the first byte decides which length it announces, and the
decoder takes as many bits from it.

## Main definitions

* `Utf8.IsCharacter`: A first byte and the continuing bytes that it announces.

## Theorems

* `validFrom_append`: A character does not matter to the check of what follows it.
* `encode?_isSome`: Every code point up to U+10FFFF has bytes.
* `encode?_isCharacter`: The bytes of a code point are a character, and the decoder reads it.
-/

namespace RegexEngine

namespace Utf8

/-- A first byte and the continuing bytes that it announces. -/
inductive IsCharacter : List UInt8 → Prop where
  | intro {lead : UInt8} {tails : List UInt8} (starts : isBadLead lead = false)
      (announces : leadLength lead = tails.length + 1) (continues : ∀ b ∈ tails, isTail b = true) :
      IsCharacter (lead :: tails)

variable {char : List UInt8} {c n : Nat}

theorem IsCharacter.length_pos (h : IsCharacter char) : 0 < char.length := by
  cases h
  exact Nat.succ_pos _

/-- All bytes that a character announces are there. -/
theorem IsCharacter.validFrom_append (h : IsCharacter char) (rest : List UInt8) :
    validFrom 0 (char ++ rest) = validFrom 0 rest := by
  cases h with
  | @intro lead tails starts announces continues =>
      have hlength : leadLength lead - 1 = tails.length := by omega
      have htails : validFrom tails.length tails = true := by
        clear announces hlength
        induction tails with
        | nil => rfl
        | cons b tails ih =>
            rw [List.forall_mem_cons] at continues
            rw [List.length_cons, validFrom, continues.1, Bool.true_and]
            exact ih continues.2
      rw [List.cons_append, validFrom, starts, hlength, Utf8.validFrom_append htails]
      rfl

theorem toNat_toUInt8 (h : n < 0x100) : n.toUInt8.toNat = n :=
  UInt8.toNat_ofNat_of_lt h

theorem toNat_tailByte (n : Nat) : (tailByte n).toNat = 0x80 + n % 64 :=
  toNat_toUInt8 (by omega)

theorem isTail_tailByte (n : Nat) : isTail (tailByte n) = true := by
  simp only [isTail, Bool.and_eq_true, decide_eq_true_eq, UInt8.le_iff_toNat_le,
    UInt8.lt_iff_toNat_lt, toNat_tailByte, UInt8.reduceToNat]
  omega

/-- A first byte below `0x80` is a character by itself. -/
theorem isCharacter_ascii (h : n < 0x80) : IsCharacter [n.toUInt8] := by
  have hbyte : n.toUInt8.toNat = n := toNat_toUInt8 (by omega)
  refine .intro ?_ ?_ (List.forall_mem_nil _)
  · simp only [isBadLead, Bool.or_eq_false_iff, Bool.and_eq_false_iff, decide_eq_false_iff_not,
      UInt8.lt_iff_toNat_lt, hbyte, UInt8.reduceToNat]
    omega
  · simp only [leadLength, UInt8.lt_iff_toNat_lt, hbyte, UInt8.reduceToNat]
    rw [if_pos (by omega)]
    rfl

/-- A greater first byte and the continuing bytes of some numbers are a character if there are as
many as the first byte announces. The decoder leaves the bits out of the first byte that announce
the length, and takes six from each of the others. -/
theorem isCharacter_lead (n : Nat) (tails : List Nat) (hlow : 0xc2 ≤ n) (hhigh : n < 0xf5)
    (hlength : tails.length = if n < 0xe0 then 1 else if n < 0xf0 then 2 else 3) :
    IsCharacter (n.toUInt8 :: tails.map tailByte) ∧
      decode (n.toUInt8 :: tails.map tailByte) =
        tails.foldl (fun code tail => code * 64 + tail % 64) (n % (1 <<< (6 - tails.length))) := by
  -- The first byte is the number, and announces as many bytes as follow.
  have hbyte : n.toUInt8.toNat = n := toNat_toUInt8 (by omega)
  have hlead : leadLength n.toUInt8 = tails.length + 1 := by
    simp only [leadLength, UInt8.lt_iff_toNat_lt, hbyte, UInt8.reduceToNat, hlength]
    rw [if_neg (by omega), if_pos hhigh]
    split
    · rfl
    · split <;> rfl
  -- It may start a character, has the bytes that it announces, and these continue it.
  refine ⟨.intro ?_ ?_ ?_, ?_⟩
  · simp only [isBadLead, Bool.or_eq_false_iff, Bool.and_eq_false_iff, decide_eq_false_iff_not,
      UInt8.lt_iff_toNat_lt, hbyte, UInt8.reduceToNat]
    omega
  · rw [hlead, List.length_map]
  · rintro b hb
    rcases List.mem_map.mp hb with ⟨tail, -, rfl⟩
    exact isTail_tailByte tail
  -- The decoder takes the bits out of all of them, since none is missing.
  · have hne : tails.length ≠ 0 := by
      rw [hlength]
      split
      · exact Nat.one_ne_zero
      · split <;> decide
    have happend : ∀ code tail, appendTail code (tailByte tail) = code * 64 + tail % 64 := by
      intro code tail
      rw [appendTail, toNat_tailByte]
      omega
    simp only [decode, hlead, Nat.add_sub_cancel, List.length_map, Nat.min_self, if_neg hne, hbyte,
      ← List.map_take, List.take_length, List.foldl_map, happend]

/-- Every code point up to U+10FFFF has bytes. -/
theorem encode?_isSome (h : c ≤ 0x10ffff) : (encode? c).isSome = true := by
  rw [encode?]
  repeat' split
  all_goals rfl

/-- The bytes of a code point are a character, and the decoder reads it. -/
theorem encode?_isCharacter (h : encode? c = some char) : IsCharacter char ∧ decode char = c := by
  rw [encode?] at h
  split at h
  · rename_i hone
    cases h
    refine ⟨isCharacter_ascii hone, ?_⟩
    simp only [decode, List.length_nil, Nat.min_zero, if_true]
    exact toNat_toUInt8 (by omega)
  -- In each row of the table the bits of the code point that no continuing byte has are few enough
  -- for the first byte.
  split at h
  · cases h
    have hcoded := isCharacter_lead (0xc0 + c / 64) [c] (by omega) (by omega) (by
      rw [if_pos (by omega)]
      rfl)
    refine ⟨hcoded.1, hcoded.2.trans ?_⟩
    simp only [List.foldl_cons, List.foldl_nil, List.length_cons, List.length_nil, Nat.reduceAdd,
      Nat.reduceSub, Nat.reduceShiftLeft]
    omega
  split at h
  · cases h
    have hcoded := isCharacter_lead (0xe0 + c / 4096) [c / 64, c] (by omega)
      (by omega) (by
        rw [if_neg (by omega), if_pos (by omega)]
        rfl)
    refine ⟨hcoded.1, hcoded.2.trans ?_⟩
    simp only [List.foldl_cons, List.foldl_nil, List.length_cons, List.length_nil, Nat.reduceAdd,
      Nat.reduceSub, Nat.reduceShiftLeft]
    omega
  split at h
  · cases h
    have hcoded := isCharacter_lead (0xf0 + c / 262144) [c / 4096, c / 64, c]
      (by omega) (by omega) (by
        rw [if_neg (by omega), if_neg (by omega)]
        rfl)
    refine ⟨hcoded.1, hcoded.2.trans ?_⟩
    simp only [List.foldl_cons, List.foldl_nil, List.length_cons, List.length_nil, Nat.reduceAdd,
      Nat.reduceSub, Nat.reduceShiftLeft]
    omega
  · cases h

end Utf8

end RegexEngine
