/-!
# Sets of Small Code Points

A set of code points below 256, with a membership bit for each. The bits are kept in eight words of
thirty-two: the upper bits of a code point tell its word, the lowest five its place there. Sets are
built by setting one bit after the other.

## Main definitions

* `ByteSet`: the sets.
* `ByteSet.contains`: membership.
* `ByteSet.insert`, `ByteSet.insertEach`: adds a code point, and several.
* `ByteSet.insertRange`, `ByteSet.insertWhere`: adds a range, and what satisfies a test.

## Theorems

* `and_bit_ne_zero`, `getLsbD_or_bit`: looking at a bit of a word, and setting it.
* `contains_insert`, `contains_insertEach`: what is a member after insertions.
* `contains_of_le`: no member reaches 256.
-/

namespace RegexEngine

/-- A set of code points below 256: the word `i` has the code points from `32 * i` on, one for each
bit, the smallest in the lowest. -/
structure ByteSet where
  words : Vector UInt32 8
  deriving DecidableEq, Repr

namespace ByteSet

/-- The set without members. -/
def empty : ByteSet := ⟨Vector.replicate 8 0⟩

instance : Inhabited ByteSet := ⟨empty⟩

/-- The word that a code point is in. -/
def room (c : Nat) : Nat :=
  c >>> 5

/-- The bit of a code point in its word. -/
def bit (c : Nat) : UInt32 :=
  1 <<< (c &&& 0x1f).toUInt32

/-- Membership. -/
def contains (set : ByteSet) (c : Nat) : Bool :=
  if h : room c < 8 then set.words[room c] &&& bit c != 0 else false

/-- Adds a code point. -/
def insert (set : ByteSet) (c : Nat) : ByteSet :=
  if h : room c < 8 then ⟨set.words.set (room c) (set.words[room c] ||| bit c)⟩ else set

/-- Adds code points, one after the other. -/
def insertEach (set : ByteSet) (codes : List Nat) : ByteSet :=
  codes.foldl insert set

/-- Adds the code points of a range, ends included. -/
def insertRange (set : ByteSet) (low high : Nat) : ByteSet :=
  set.insertEach (List.range' low (min high 255 + 1 - low))

/-- Adds the code points that satisfy a test. -/
def insertWhere (set : ByteSet) (test : Nat → Bool) : ByteSet :=
  set.insertEach ((List.range 256).filter test)

variable {set : ByteSet} {c d : Nat}

theorem room_lt : room c < 8 ↔ c < 256 := by
  rw [room, Nat.shiftRight_eq_div_pow]
  omega

theorem toBitVec_bit (c : Nat) : (bit c).toBitVec = BitVec.twoPow 32 (c % 32) := by
  have hplace : ((c &&& 0x1f).toUInt32.toBitVec % 32).toNat = c % 32 := by
    rw [show (0x1f : Nat) = 2 ^ 5 - 1 from rfl, Nat.and_two_pow_sub_one_eq_mod, BitVec.toNat_umod]
    change c % 32 % 2 ^ 32 % 32 = c % 32
    omega
  rw [bit, UInt32.toBitVec_shiftLeft, BitVec.shiftLeft_eq', hplace]
  rfl

/-- Looking at a bit of a word. -/
theorem and_bit_ne_zero (w : UInt32) (c : Nat) :
    (w &&& bit c != 0) = w.toBitVec.getLsbD (c % 32) := by
  have hlt := Nat.mod_lt c (show 0 < 32 by decide)
  have hbit : BitVec.twoPow 32 (c % 32) ≠ 0#32 := by
    intro hzero
    have hset := BitVec.getLsbD_twoPow (w := 32) (c % 32) (c % 32)
    rw [hzero, BitVec.getLsbD_zero, decide_eq_true hlt, decide_eq_true rfl] at hset
    cases hset
  rw [Bool.eq_iff_iff, bne_iff_ne, Ne, ← UInt32.toBitVec_inj, UInt32.toBitVec_and, toBitVec_bit,
    BitVec.and_twoPow]
  split
  · rename_i hset
    exact iff_of_true hbit hset
  · rename_i hclear
    exact iff_of_false (fun h => h rfl) hclear

/-- Setting a bit of a word. -/
theorem getLsbD_or_bit (w : UInt32) (c d : Nat) :
    (w ||| bit c).toBitVec.getLsbD (d % 32) =
      (w.toBitVec.getLsbD (d % 32) || c % 32 == d % 32) := by
  have hlt := Nat.mod_lt c (show 0 < 32 by decide)
  rw [UInt32.toBitVec_or, BitVec.getLsbD_or, toBitVec_bit, BitVec.getLsbD_twoPow,
    decide_eq_true hlt, Bool.true_and]
  rfl

@[simp] theorem contains_empty (c : Nat) : empty.contains c = false := by
  rw [contains]
  split
  · rw [and_bit_ne_zero, empty, Vector.getElem_replicate]
    exact BitVec.getLsbD_zero
  · rfl

theorem contains_of_le (set : ByteSet) {c : Nat} (h : 256 ≤ c) : set.contains c = false := by
  rw [contains, dif_neg]
  rw [room_lt]
  omega

/-- A code point that is added is a member if there is a word for it. -/
theorem contains_insert (set : ByteSet) (c d : Nat) :
    (set.insert c).contains d = (set.contains d || (decide (d < 256) && d == c)) := by
  by_cases hd : d < 256
  · have hroom := room_lt.mpr hd
    rw [contains, contains, dif_pos hroom, dif_pos hroom, and_bit_ne_zero, and_bit_ne_zero,
      decide_eq_true hd, Bool.true_and, insert]
    -- The two are the same if they have one word and one place in it.
    have hsame : (d == c) = (room c == room d && c % 32 == d % 32) := by
      rw [Bool.eq_iff_iff, Bool.and_eq_true, beq_iff_eq, beq_iff_eq, beq_iff_eq, room, room,
        Nat.shiftRight_eq_div_pow, Nat.shiftRight_eq_div_pow]
      omega
    rw [hsame]
    split
    · rw [Vector.getElem_set]
      split
      · rename_i hword
        simp only [← hword, getLsbD_or_bit, beq_self_eq_true, Bool.true_and]
      · rename_i hword
        rw [beq_false_of_ne hword, Bool.false_and, Bool.or_false]
    · rename_i hc
      have hword : room c ≠ room d := fun heq => hc (heq ▸ hroom)
      rw [beq_false_of_ne hword, Bool.false_and, Bool.or_false]
  · have hle := Nat.le_of_not_lt hd
    rw [contains_of_le _ hle, contains_of_le _ hle, decide_eq_false hd, Bool.false_and,
      Bool.or_false]

theorem contains_insertEach (set : ByteSet) (codes : List Nat) (d : Nat) :
    (set.insertEach codes).contains d =
      (set.contains d || (decide (d < 256) && codes.contains d)) := by
  induction codes generalizing set with
  | nil => simp [insertEach]
  | cons c rest ih =>
      have hstep : set.insertEach (c :: rest) = (set.insert c).insertEach rest := rfl
      rw [hstep, ih, contains_insert, List.contains_cons, Bool.or_assoc, ← Bool.and_or_distrib_left]

theorem contains_insertRange (set : ByteSet) (low high c : Nat) :
    (set.insertRange low high).contains c =
      (decide (c < 256) && (set.contains c || (decide (low ≤ c) && decide (c ≤ high)))) := by
  rw [insertRange, contains_insertEach]
  by_cases hc : c < 256
  · have hmem : (List.range' low (min high 255 + 1 - low)).contains c =
        (decide (low ≤ c) && decide (c ≤ high)) := by
      rw [Bool.eq_iff_iff, List.contains_iff_mem, List.mem_range'_1, Bool.and_eq_true,
        decide_eq_true_eq, decide_eq_true_eq]
      omega
    rw [hmem, decide_eq_true hc, Bool.true_and, Bool.true_and]
  · rw [contains_of_le _ (Nat.le_of_not_lt hc), decide_eq_false hc, Bool.false_and, Bool.false_and,
      Bool.or_false]

theorem contains_insertWhere (set : ByteSet) (test : Nat → Bool) (c : Nat) :
    (set.insertWhere test).contains c = (decide (c < 256) && (set.contains c || test c)) := by
  rw [insertWhere, contains_insertEach]
  by_cases hc : c < 256
  · have hmem : ((List.range 256).filter test).contains c = test c := by
      rw [Bool.eq_iff_iff, List.contains_iff_mem, List.mem_filter, List.mem_range, and_iff_right hc]
    rw [hmem, decide_eq_true hc, Bool.true_and, Bool.true_and]
  · rw [contains_of_le _ (Nat.le_of_not_lt hc), decide_eq_false hc, Bool.false_and, Bool.false_and,
      Bool.or_false]

end ByteSet
end RegexEngine
