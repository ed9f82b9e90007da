import Mathlib.Data.List.Sort
import RegexEngine.Proofs.Class.Written

/-!
# Folding a Class in Machine Words

A class is folded with numbers of 32 bits. The distance between the ends of a range is taken, and
the last range is compared with the next code point by adding one to its end. A program that checks
its arithmetic stops when a result has no place in 32 bits, and one that does not goes on with what
is left of it.

No distance is less than zero, since the ends of a range are in order. Adding one goes wrong for a
single number, the greatest, and only if a range that is too wide to be folded ends there: folded
code points come in ascending order, so a range made of them ends below the next of them. Then the
sum is zero, and no code point above 255 folds to zero, so that unchecked arithmetic makes the same
ranges as numbers without bounds.

## Main definitions

* `Arithmetic`: Numbers of 32 bits, checked or not.
* `Arithmetic.foldRanges`: The folded ranges, computed with such numbers.
* `Arithmetic.overflows`: Ranges for which a sum has no place in 32 bits.

## Theorems

* `foldRanges_wrapping`: Unchecked arithmetic makes the folded ranges of the set.
* `foldRanges_checked`: When checked arithmetic has no answer.
* `bracketClass_inWords`: Both for every class that is read.
* `bracketClass_overflows`: A class whose folding overflows.
-/

namespace RegexEngine

/-- What is done when a result has no place in 32 bits. -/
inductive Arithmetic where
  /-- There is no answer. -/
  | checked
  /-- The lowest 32 bits are the answer. -/
  | wrapping
  deriving DecidableEq, Repr

namespace Arithmetic

/-- The difference of two numbers. -/
def sub : Arithmetic → Nat → Nat → Option Nat
  | checked, a, b => if b ≤ a then some (a - b) else none
  | wrapping, a, b => some ((a + 2 ^ 32 - b) % 2 ^ 32)

/-- The number that follows. -/
def succ : Arithmetic → Nat → Option Nat
  | checked, a => if a + 1 < 2 ^ 32 then some (a + 1) else none
  | wrapping, a => some ((a + 1) % 2 ^ 32)

/-- The ranges that are too wide to be folded, and the folded members of the others. -/
def spread (arith : Arithmetic) (enc : Encoding) :
    List (Nat × Nat) → Option (List (Nat × Nat) × List Nat)
  | [] => some ([], [])
  | range :: rest =>
    (arith.sub range.2 range.1).bind fun span =>
      (arith.spread enc rest).map fun (wide, codes) =>
        if CharSet.foldableSpan < span then (range :: wide, codes)
        else (wide, (List.range' range.1 (span + 1)).map enc.fold ++ codes)

/-- Adds code points to the end of a list of ranges, given last range first. -/
def appendCodes (arith : Arithmetic) : List (Nat × Nat) → List Nat → Option (List (Nat × Nat))
  | ranges, [] => some ranges
  | [], c :: rest => arith.appendCodes [(c, c)] rest
  | (first, last) :: ranges, c :: rest =>
    (arith.succ last).bind fun next =>
      if next = c then arith.appendCodes ((first, c) :: ranges) rest
      else arith.appendCodes ((c, c) :: (first, last) :: ranges) rest

/-- The folded ranges of a set with the given ranges. -/
def foldRanges (arith : Arithmetic) (enc : Encoding) (ranges : List (Nat × Nat)) :
    Option (List (Nat × Nat)) :=
  (arith.spread enc ranges).bind fun (wide, codes) =>
    (arith.appendCodes wide.reverse
      (CharSet.dropRepeats (codes.mergeSort (· ≤ ·)))).map List.reverse

/-- The last of the ranges that are too wide to be folded ends at the greatest number of 32 bits,
and some other range is folded. -/
def overflows (ranges : List (Nat × Nat)) : Bool :=
  ((ranges.filter CharSet.isWide).getLast?.any fun r => r.2 + 1 == 2 ^ 32) &&
    ranges.any fun r => !CharSet.isWide r

end Arithmetic

namespace Encoding

variable {enc : Encoding} {c : Nat}

/-- No small letter of the table is zero, and all have at most 32 bits. -/
theorem toLowerTable_word : ∀ row ∈ Unicode.toLowerTable,
    0 < row.2 ∧ row.2 + (row.1.last - row.1.first) < 2 ^ 32 := by
  have hall : (Unicode.toLowerTable.toList.all fun row =>
      decide (0 < row.2 ∧ row.2 + (row.1.last - row.1.first) < 2 ^ 32)) = true := by decide
  intro row hrow
  exact of_decide_eq_true (List.all_eq_true.mp hall row (Array.mem_toList_iff.mpr hrow))

/-- A code point above 255 does not fold to zero, and the folded form has at most 32 bits too. -/
theorem fold_word (enc : Encoding) (hupper : 256 ≤ c) (hword : c < 2 ^ 32) :
    0 < enc.fold c ∧ enc.fold c < 2 ^ 32 := by
  have hself : 0 < c ∧ c < 2 ^ 32 := ⟨by omega, hword⟩
  cases enc with
  | ascii =>
      have hfold : Encoding.ascii.fold c = c := if_neg (by omega)
      rwa [hfold]
  | utf8 =>
      rcases fold_utf8 (c := c) (by omega) with hfold | hlower
      · rwa [hfold]
      · rw [hlower]
        rcases Unicode.simpleLower_cases c with hlower | ⟨row, hrow, htakes, hlower⟩
        · rwa [hlower]
        · rw [Unicode.Stretch.contains_iff] at htakes
          have htable := toLowerTable_word row hrow
          omega

end Encoding

namespace CharSet

variable {enc : Encoding} {codes kept : List Nat} {ranges : List (Nat × Nat)} {c : Nat}

/-- Without repeats, numbers in ascending order are strictly ascending. -/
theorem pairwise_dropRepeats (h : codes.Pairwise (· ≤ ·)) :
    (dropRepeats codes).Pairwise (· < ·) := by
  -- The numbers that are kept stand in descending order, and none that follows is less.
  have hfold : ∀ kept : List Nat, kept.Pairwise (· > ·) →
      (∀ k ∈ kept.head?, ∀ c ∈ codes, k ≤ c) →
        (codes.foldl (fun kept c => if kept.head? = some c then kept else c :: kept)
          kept).Pairwise (· > ·) := by
    induction codes with
    | nil => exact fun kept hkept _ => hkept
    | cons d rest ih =>
        intro kept hkept hhead
        rw [List.pairwise_cons] at h
        rw [List.foldl_cons]
        split
        · exact ih h.2 kept hkept fun k hk c hc => hhead k hk c (List.mem_cons_of_mem d hc)
        · rename_i hne
          refine ih h.2 _ (List.pairwise_cons.mpr ⟨fun k hk => ?_, hkept⟩) ?_
          · cases kept with
            | nil => exact absurd hk List.not_mem_nil
            | cons top below =>
                have htop : top < d := by
                  have hle := hhead top rfl d List.mem_cons_self
                  have hne : top ≠ d := fun heq => hne (congrArg some heq)
                  omega
                rcases List.mem_cons.mp hk with rfl | hk
                · exact htop
                · exact Nat.lt_trans ((List.pairwise_cons.mp hkept).1 k hk) htop
          · rintro k hk c hc
            cases hk
            exact h.1 c hc
  rw [dropRepeats, List.pairwise_reverse]
  exact hfold [] List.Pairwise.nil (by rintro k ⟨⟩)

/-- Folded members come in ascending order. -/
theorem pairwise_foldedMembers : (foldedMembers enc ranges).Pairwise (· < ·) := by
  rw [foldedMembers]
  refine pairwise_dropRepeats ?_
  exact List.pairwise_mergeSort' (· ≤ ·) _

end CharSet

namespace Arithmetic

variable {arith : Arithmetic} {enc : Encoding} {ranges : List (Nat × Nat)} {codes : List Nat}
  {a b : Nat}

/-- A difference that is not less than zero has its place. -/
theorem sub_eq (hle : b ≤ a) (hword : a < 2 ^ 32) : arith.sub a b = some (a - b) := by
  cases arith with
  | checked => exact if_pos hle
  | wrapping =>
      rw [sub]
      congr 1
      omega

theorem spread_eq (h : ∀ r ∈ ranges, r.1 ≤ r.2 ∧ r.2 < 2 ^ 32) :
    arith.spread enc ranges = some (ranges.filter CharSet.isWide,
      (ranges.filter fun r => !CharSet.isWide r).flatMap fun r =>
        (List.range' r.1 (r.2 + 1 - r.1)).map enc.fold) := by
  induction ranges with
  | nil => rfl
  | cons r rest ih =>
      rw [List.forall_mem_cons] at h
      rw [spread, sub_eq h.1.1 h.1.2, Option.bind_some, ih h.2, Option.map_some]
      by_cases hwide : CharSet.foldableSpan < r.2 - r.1
      · have hiswide : CharSet.isWide r = true := decide_eq_true hwide
        simp only [if_pos hwide, List.filter_cons, hiswide]
        rfl
      · have hnarrow : CharSet.isWide r = false := decide_eq_false hwide
        have hspan : r.2 - r.1 + 1 = r.2 + 1 - r.1 := by omega
        simp only [if_neg hwide, List.filter_cons, hnarrow, hspan]
        rfl

theorem foldRanges_eq (h : ∀ r ∈ ranges, r.1 ≤ r.2 ∧ r.2 < 2 ^ 32) :
    arith.foldRanges enc ranges = (arith.appendCodes (ranges.filter CharSet.isWide).reverse
      (CharSet.foldedMembers enc ranges)).map List.reverse := by
  rw [foldRanges, spread_eq h]
  rfl

/-- The sum that has no place is zero, and zero is not looked for. -/
theorem appendCodes_wrapping (hcodes : ∀ c ∈ codes, 0 < c ∧ c < 2 ^ 32)
    (hranges : ∀ r ∈ ranges, r.2 < 2 ^ 32) :
    wrapping.appendCodes ranges codes = some (CharSet.appendCodes ranges codes) := by
  fun_induction CharSet.appendCodes ranges codes with
  | case1 ranges => rw [appendCodes]
  | case2 c rest ih =>
      rw [List.forall_mem_cons] at hcodes
      rw [appendCodes]
      exact ih hcodes.2 (List.forall_mem_singleton.mpr hcodes.1.2)
  | case3 first last ranges rest ih =>
      rw [List.forall_mem_cons] at hcodes hranges
      rw [appendCodes, succ, Option.bind_some, if_pos (Nat.mod_eq_of_lt hcodes.1.2)]
      exact ih hcodes.2 (List.forall_mem_cons.mpr ⟨hcodes.1.2, hranges.2⟩)
  | case4 first last ranges c rest hne ih =>
      rw [List.forall_mem_cons] at hcodes
      have hlast : last < 2 ^ 32 := hranges _ List.mem_cons_self
      rw [appendCodes, succ, Option.bind_some, if_neg (by omega)]
      exact ih hcodes.2 (List.forall_mem_cons.mpr ⟨hcodes.1.2, hranges⟩)

/-- Behind the first code point every sum has a place, since a greater code point has one. -/
theorem appendCodes_checked (hasc : codes.Pairwise (· < ·)) (hcodes : ∀ c ∈ codes, c < 2 ^ 32)
    (hhead : codes ≠ [] → ∀ r ∈ ranges.head?, r.2 + 1 < 2 ^ 32) :
    checked.appendCodes ranges codes = some (CharSet.appendCodes ranges codes) := by
  -- A code point that another one follows is not the greatest number.
  have hnext : ∀ {c : Nat} {rest : List Nat}, (c :: rest).Pairwise (· < ·) →
      (∀ d ∈ c :: rest, d < 2 ^ 32) → rest ≠ [] → c + 1 < 2 ^ 32 := by
    intro c rest hasc hcodes hrest
    obtain ⟨d, more, rfl⟩ := List.exists_cons_of_ne_nil hrest
    have hlt := (List.pairwise_cons.mp hasc).1 d List.mem_cons_self
    have hword := hcodes d (List.mem_cons_of_mem c List.mem_cons_self)
    omega
  fun_induction CharSet.appendCodes ranges codes with
  | case1 ranges => rw [appendCodes]
  | case2 c rest ih =>
      rw [appendCodes]
      refine ih (List.pairwise_cons.mp hasc).2 (List.forall_mem_cons.mp hcodes).2 ?_
      rintro hrest r ⟨⟩
      exact hnext hasc hcodes hrest
  | case3 first last ranges rest ih =>
      have hplace : last + 1 < 2 ^ 32 := hhead (List.cons_ne_nil _ _) (first, last) rfl
      rw [appendCodes, succ, if_pos hplace, Option.bind_some, if_pos rfl]
      refine ih (List.pairwise_cons.mp hasc).2 (List.forall_mem_cons.mp hcodes).2 ?_
      rintro hrest r ⟨⟩
      exact hnext hasc hcodes hrest
  | case4 first last ranges c rest hne ih =>
      have hplace : last + 1 < 2 ^ 32 := hhead (List.cons_ne_nil _ _) (first, last) rfl
      rw [appendCodes, succ, if_pos hplace, Option.bind_some, if_neg hne]
      refine ih (List.pairwise_cons.mp hasc).2 (List.forall_mem_cons.mp hcodes).2 ?_
      rintro hrest r ⟨⟩
      exact hnext hasc hcodes hrest

/-- A range that ends at the greatest number has no number behind it. -/
theorem appendCodes_overflows (hcodes : codes ≠ [])
    (hhead : ∃ r ∈ ranges.head?, r.2 + 1 = 2 ^ 32) : checked.appendCodes ranges codes = none := by
  obtain ⟨c, rest, rfl⟩ := List.exists_cons_of_ne_nil hcodes
  rcases hhead with ⟨⟨first, last⟩, hhead, hlast⟩
  cases ranges with
  | nil => cases hhead
  | cons top below =>
      cases hhead
      rw [appendCodes, succ, if_neg (by omega)]
      rfl

end Arithmetic

namespace CharSet

variable {enc : Encoding} {set : CharSet}

/-- The ranges of a set lie at 256 and above, and their ends are in order and have at most 32
bits. -/
def HasWords (set : CharSet) : Prop :=
  ∀ r ∈ set.ranges, 256 ≤ r.1 ∧ r.1 ≤ r.2 ∧ r.2 < 2 ^ 32

theorem HasWords.ends (h : set.HasWords) : ∀ r ∈ set.ranges, r.1 ≤ r.2 ∧ r.2 < 2 ^ 32 :=
  fun r hr => (h r hr).2

theorem HasWords.folded (h : set.HasWords) :
    ∀ c ∈ foldedMembers enc set.ranges, 0 < c ∧ c < 2 ^ 32 := by
  intro d hd
  rcases mem_foldedMembers.mp hd with ⟨r, hr, -, c, hc, rfl⟩
  have hword := h r hr
  exact Encoding.fold_word enc (Nat.le_trans hword.1 hc.1) (by omega)

/-- There is something to fold if some range is not too wide. -/
theorem HasWords.folded_ne_nil (h : set.HasWords) :
    foldedMembers enc set.ranges ≠ [] ↔ (set.ranges.any fun r => !isWide r) = true := by
  simp only [List.any_eq_true, Bool.not_eq_true']
  constructor
  · intro hne
    obtain ⟨d, hd⟩ := List.exists_mem_of_ne_nil _ hne
    rcases mem_foldedMembers.mp hd with ⟨r, hr, hnarrow, -⟩
    exact ⟨r, hr, hnarrow⟩
  · rintro ⟨r, hr, hnarrow⟩
    exact List.ne_nil_of_mem
      (mem_foldedMembers.mpr ⟨r, hr, hnarrow, r.1, ⟨Nat.le_refl _, (h r hr).2.1⟩, rfl⟩)

/-- Unchecked arithmetic makes the folded ranges of the set. -/
theorem foldRanges_wrapping (h : set.HasWords) :
    Arithmetic.wrapping.foldRanges enc set.ranges = some (set.foldCase enc).foldRanges := by
  rw [Arithmetic.foldRanges_eq h.ends, Arithmetic.appendCodes_wrapping h.folded]
  · rfl
  · intro r hr
    exact (h.ends r (List.mem_filter.mp (List.mem_reverse.mp hr)).1).2

/-- Checked arithmetic makes them too, or it has no answer. -/
theorem foldRanges_checked (h : set.HasWords) :
    Arithmetic.checked.foldRanges enc set.ranges =
      if Arithmetic.overflows set.ranges then none else some (set.foldCase enc).foldRanges := by
  rw [Arithmetic.foldRanges_eq h.ends]
  -- The last wide range, which the folded code points are appended to.
  have hlast : ∀ r, r ∈ (set.ranges.filter isWide).reverse.head? ↔
      (set.ranges.filter isWide).getLast? = some r := by
    intro r
    rw [List.head?_reverse, Option.mem_def]
  split
  · rename_i hover
    rw [Arithmetic.overflows, Bool.and_eq_true, Option.any_eq_true] at hover
    rcases hover.1 with ⟨r, hr, hend⟩
    rw [Arithmetic.appendCodes_overflows (h.folded_ne_nil.mpr hover.2)
      ⟨r, (hlast r).mpr hr, eq_of_beq hend⟩]
    rfl
  -- Adding one to the end of the last range overflows only if it is the greatest number.
  · rename_i hfits
    rw [Arithmetic.appendCodes_checked pairwise_foldedMembers fun c hc => (h.folded c hc).2]
    · rfl
    · intro hcodes r hr
      rw [hlast] at hr
      have hword := (h.ends r (List.mem_filter.mp (List.mem_of_getLast? hr)).1).2
      have hend : r.2 + 1 ≠ 2 ^ 32 := by
        intro hend
        refine hfits ?_
        rw [Arithmetic.overflows, Bool.and_eq_true, Option.any_eq_true]
        exact ⟨⟨r, hr, beq_iff_eq.mpr hend⟩, h.folded_ne_nil.mp hcodes⟩
      omega

end CharSet

namespace Pattern

variable {env : Setting} {enc : Encoding} {set : CharSet} {entries : List Entry}
  {start after : List UInt8}

/-- The part of a range that lies at 256 and above. -/
def Entry.upper : Entry → Option (Nat × Nat)
  | span low high => if 256 ≤ high then some (max low 256, high) else none
  | kind _ _ => none

/-- Ranges are kept in the order in which they are added. -/
theorem ranges_insertAll :
    (insertAll enc set entries).ranges = set.ranges ++ entries.filterMap Entry.upper := by
  induction entries generalizing set with
  | nil => rw [insertAll_nil, List.filterMap_nil, List.append_nil]
  | cons entry rest ih =>
      rw [insertAll_cons, ih]
      cases entry with
      | span low high =>
          simp only [Entry.addTo, CharSet.insertRange, List.filterMap_cons, Entry.upper]
          split
          · rw [List.append_assoc, List.singleton_append]
          · rfl
      | kind found negated =>
          simp only [Entry.addTo, CharSet.insertKind, List.filterMap_cons, Entry.upper]

/-- Every class that is read without regard to case is folded with numbers of 32 bits as it is with
numbers without bounds, if the arithmetic is not checked. If it is, the folding ends without an
answer just for those classes whose last range that is too wide ends at the greatest number and that
have another range to fold. -/
theorem bracketClass_inWords (hread : bracketClass env true start = .ok (set, after)) :
    (∃ entries, ClassLists env start entries after ∧
      set.ranges = entries.filterMap Entry.upper) ∧
    (∀ range ∈ set.ranges, range.1 ≤ range.2 ∧ range.2 < 2 ^ 32) ∧
    Arithmetic.wrapping.foldRanges env.encoding set.ranges = some set.foldRanges ∧
    Arithmetic.checked.foldRanges env.encoding set.ranges =
      if Arithmetic.overflows set.ranges then none else some set.foldRanges := by
  rcases exists_classLists hread with ⟨entries, hlists⟩
  rcases bracketClass_of_lists hlists hread with ⟨plain, hplain, hset⟩
  rw [if_pos rfl] at hset
  -- The ranges are the parts of the items above 255, which have at most 32 bits because the items
  -- stand in the text.
  have hranges : plain.ranges = entries.filterMap Entry.upper := by
    rw [hplain, ranges_insertAll, List.nil_append]
  have hwords : plain.HasWords := by
    intro r hr
    rw [hplain, mem_ranges_insertAll] at hr
    rcases hr.resolve_left List.not_mem_nil with ⟨low, high, hmem, hhigh, rfl⟩
    have hends := (writtenIn_of_classLists hlists _ hmem).ends
    exact ⟨Nat.le_max_right _ _, Nat.max_le.mpr ⟨hends.1, hhigh⟩, hends.2⟩
  -- Folding keeps the ranges and adds others.
  have hkept : set.ranges = plain.ranges := by
    rw [hset, CharSet.foldCase]
  rw [hkept, hset]
  refine ⟨⟨entries, hlists, hranges⟩, hwords.ends, ?_, ?_⟩
  · exact CharSet.foldRanges_wrapping hwords
  · exact CharSet.foldRanges_checked hwords

/-- The class of U+0100 to the greatest number but one. -/
theorem bracketClass_inWords_below :
    let text := [91, 92, 120, 123, 49, 48, 48, 125, 45, 92, 120, 123, 102, 102, 102, 102, 102, 102,
      102, 101, 125, 93]
    ∃ set, bracketClass (standardSetting text) true text = .ok (set, []) ∧
      Arithmetic.checked.foldRanges .utf8 set.ranges = some set.foldRanges := by
  intro text
  obtain ⟨set, hread, hranges⟩ : ∃ set,
      bracketClass (standardSetting text) true text = .ok (set, []) ∧
      set.ranges = [(0x100, 0x100), (0x100, 0xfffffffe)] := ⟨_, rfl, rfl⟩
  have hwords := bracketClass_inWords hread
  rw [hranges, if_neg (by decide)] at hwords
  refine ⟨set, hread, ?_⟩
  rw [hranges]
  exact hwords.2.2.2

/-- The class of U+0100 to the greatest number of 32 bits. -/
theorem bracketClass_overflows :
    let text := [91, 92, 120, 123, 49, 48, 48, 125, 45, 92, 120, 123, 102, 102, 102, 102, 102, 102,
      102, 102, 125, 93]
    ∃ set, bracketClass (standardSetting text) true text = .ok (set, []) ∧
      Arithmetic.checked.foldRanges .utf8 set.ranges = none := by
  intro text
  obtain ⟨set, hread, hranges⟩ : ∃ set,
      bracketClass (standardSetting text) true text = .ok (set, []) ∧
      set.ranges = [(0x100, 0x100), (0x100, 0xffffffff)] := ⟨_, rfl, rfl⟩
  refine ⟨set, hread, ?_⟩
  -- The single U+0100 is folded, and the range in front of it ends at the greatest number.
  have hfolds : CharSet.foldedMembers .utf8 [(0x100, 0x100), (0x100, 0xffffffff)] ≠ [] :=
    List.ne_nil_of_mem (CharSet.mem_foldedMembers.mpr
      ⟨(0x100, 0x100), List.mem_cons_self, rfl, 0x100, ⟨Nat.le_refl _, Nat.le_refl _⟩, rfl⟩)
  rw [hranges, Arithmetic.foldRanges_eq (by decide),
    Arithmetic.appendCodes_overflows hfolds ⟨(0x100, 0xffffffff), rfl, rfl⟩]
  rfl

end Pattern

end RegexEngine
