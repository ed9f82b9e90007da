import Mathlib.Logic.Basic
import RegexEngine.CharSet.Basic

/-!
# Folding a Set of Characters

What is known of simple case folding, and which members a set has once case does not matter.

Folding is folding to the small letter, and no small letter is a capital. This is a fact about a
table and is checked row by row. It follows that folding twice is folding once. Nothing below 256
folds to a greater code point, but four greater ones fold to smaller ones: U+0178 to U+00FF, U+1E9E
to U+00DF, U+212A to `k` and U+212B to U+00E5.

A set keeps folded forms in two places. The byte set has all code points that fold like one of its
own members, so the folded forms of greater members never come into it. The folded ranges have the
folded forms of the members of the ranges, but of a range that is too wide only the members
themselves. `lists_foldCase` puts the two together.

## Theorems

* `fold_lt`: A code point below 256 folds to one below 256.
* `fold_fold`: Folding twice is folding once.
* `inRanges_appendCodes`, `mem_foldedMembers`, `contains_foldLow`: The parts of a folded set.
* `lists_foldCase`: The members of a folded set.
-/

namespace RegexEngine

namespace Unicode

variable {α : Type} {stretch : α → Stretch} {table : Array α} {c : Nat}

/-- A row that is found is a row of the table, and its stretch takes the code point. -/
theorem halve_some {fuel lo hi : Nat} {row : α}
    (h : halve stretch table c fuel lo hi = some row) :
    row ∈ table ∧ (stretch row).contains c = true := by
  fun_induction halve stretch table c fuel lo hi with
  | case1 | case2 | case6 | case7 => cases h
  | case3 _ _ _ _ _ _ _ _ ih => exact ih h
  | case4 _ _ _ _ _ _ _ _ _ ih => exact ih h
  | case5 _ _ _ _ _ _ hrow _ _ hin =>
      cases h
      exact ⟨Array.mem_of_getElem? hrow, hin⟩

theorem Stretch.contains_iff {s : Stretch} :
    s.contains c = true ↔ (s.first ≤ c ∧ c ≤ s.last) ∧ (c - s.first) % s.step = 0 := by
  simp only [Stretch.contains, Bool.and_eq_true, decide_eq_true_eq, beq_iff_eq]

/-- A code point is its own lower case, or a row of the table takes it. -/
theorem simpleLower_cases (c : Nat) : simpleLower c = c ∨
    ∃ row ∈ toLowerTable, row.1.contains c = true ∧
      simpleLower c = row.2 + (c - row.1.first) := by
  unfold simpleLower
  split
  · rename_i hfound
    have hrow := halve_some hfound
    exact Or.inr ⟨_, hrow.1, hrow.2, rfl⟩
  · exact Or.inl rfl

end Unicode

namespace Encoding

variable {enc : Encoding} {c d : Nat}

/-- A code point below 256 stays there. -/
theorem fold_lt (h : c < 256) : enc.fold c < 256 := by
  have hall : ∀ enc ∈ [Encoding.utf8, Encoding.ascii], ∀ c < 256, enc.fold c < 256 := by
    decide +kernel
  exact hall enc (by cases enc <;> decide) c h

/-- No small letter of the table is a capital. -/
theorem fold_toLowerTable : ∀ row ∈ Unicode.toLowerTable, ∀ i ≤ row.1.last - row.1.first,
    i % row.1.step = 0 → Encoding.utf8.fold (row.2 + i) = row.2 + i := by
  simp only [← Array.mem_toList_iff]
  decide +kernel

theorem asciiLower_asciiLower (c : Nat) : asciiLower (asciiLower c) = asciiLower c := by
  simp only [asciiLower]
  grind

theorem fold_of_lt (h : c < 0x80) : enc.fold c = asciiLower c :=
  if_pos h

/-- From U+0080 on UTF-8 folds the characters that the table takes. -/
theorem fold_utf8 (h : ¬c < 0x80) : Encoding.utf8.fold c = c ∨
    Encoding.utf8.fold c = Unicode.simpleLower c := by
  have hfold : Encoding.utf8.fold c = if Unicode.isScalar c then Unicode.simpleLower c else c :=
    if_neg h
  rw [hfold]
  exact (ite_eq_or_eq _ _ _).symm

/-- What is folded stays as it is when it is folded again. -/
@[simp] theorem fold_fold (enc : Encoding) (c : Nat) : enc.fold (enc.fold c) = enc.fold c := by
  by_cases hlow : c < 0x80
  · have hstays : asciiLower c < 0x80 := by
      simp only [asciiLower]
      grind
    rw [fold_of_lt hlow, fold_of_lt hstays, asciiLower_asciiLower]
  · cases enc with
    | ascii =>
        have hself : Encoding.ascii.fold c = c := if_neg hlow
        rw [hself, hself]
    | utf8 =>
        rcases fold_utf8 hlow with hself | hlower
        · rw [hself, hself]
        · rw [hlower]
          rcases Unicode.simpleLower_cases c with hself | ⟨row, hrow, htakes, hlower'⟩
          · rw [hself, hlower, hself]
          · rw [Unicode.Stretch.contains_iff] at htakes
            rw [hlower']
            exact fold_toLowerTable row hrow _ (by omega) htakes.2

end Encoding

namespace CharSet

variable {enc : Encoding} {c d : Nat} {ranges : List (Nat × Nat)} {codes : List Nat}

theorem inRanges_iff : CharKind.inRanges ranges c = true ↔ ∃ r ∈ ranges, r.1 ≤ c ∧ c ≤ r.2 := by
  simp only [CharKind.inRanges, List.any_eq_true, Bool.and_eq_true, decide_eq_true_eq]

theorem inRanges_reverse : CharKind.inRanges ranges.reverse c = CharKind.inRanges ranges c :=
  List.any_reverse

/-- Appended code points are covered, and nothing else is. -/
theorem inRanges_appendCodes (h : ∀ r ∈ ranges, r.1 ≤ r.2) :
    CharKind.inRanges (appendCodes ranges codes) c = true ↔
      CharKind.inRanges ranges c = true ∨ c ∈ codes := by
  -- The first code point begins a range, continues the last one, or begins another one.
  fun_induction appendCodes ranges codes with
  | case1 ranges => simp
  | case2 d rest ih =>
      rw [ih (by simp)]
      simp only [CharKind.inRanges, List.any_cons, List.any_nil, Bool.or_false, Bool.and_eq_true,
        decide_eq_true_eq, Bool.false_eq_true, false_or, List.mem_cons]
      exact or_congr_left (by omega)
  | case3 first last ranges rest ih =>
      rw [List.forall_mem_cons] at h
      have hlast : first ≤ last := h.1
      rw [ih (List.forall_mem_cons.mpr ⟨by omega, h.2⟩)]
      simp only [CharKind.inRanges, List.any_cons, Bool.or_eq_true, Bool.and_eq_true,
        decide_eq_true_eq, List.mem_cons]
      -- A range that is longer by one has one code point more.
      have hgrown : first ≤ c ∧ c ≤ last + 1 ↔ (first ≤ c ∧ c ≤ last) ∨ c = last + 1 := by omega
      rw [hgrown, or_assoc, or_or_or_comm]
  | case4 first last ranges d rest hne ih =>
      rw [ih (List.forall_mem_cons.mpr ⟨Nat.le_refl d, h⟩)]
      simp only [CharKind.inRanges, List.any_cons, Bool.or_eq_true, Bool.and_eq_true,
        decide_eq_true_eq, List.mem_cons]
      have hsingle : d ≤ c ∧ c ≤ d ↔ c = d := by omega
      rw [hsingle, or_assoc, or_left_comm]

theorem mem_dropRepeats : c ∈ dropRepeats codes ↔ c ∈ codes := by
  have hfold : ∀ kept : List Nat,
      c ∈ codes.foldl (fun kept c => if kept.head? = some c then kept else c :: kept) kept ↔
        c ∈ kept ∨ c ∈ codes := by
    induction codes with
    | nil => simp
    | cons d rest ih =>
        intro kept
        rw [List.foldl_cons, ih]
        split
        · rename_i hhead
          have hkept := List.mem_of_head? hhead
          grind
        · grind
  rw [dropRepeats, List.mem_reverse, hfold, or_iff_right List.not_mem_nil]

/-- The folded forms are those of the members of the ranges that are not too wide. -/
theorem mem_foldedMembers : d ∈ foldedMembers enc ranges ↔
    ∃ r ∈ ranges, isWide r = false ∧ ∃ c, (r.1 ≤ c ∧ c ≤ r.2) ∧ enc.fold c = d := by
  have hmember : ∀ (r : Nat × Nat) (c : Nat), c ∈ List.range' r.1 (r.2 + 1 - r.1) ↔
      r.1 ≤ c ∧ c ≤ r.2 := by
    intro r c
    rw [List.mem_range'_1]
    omega
  simp only [foldedMembers, mem_dropRepeats, List.mem_mergeSort, List.mem_flatMap, List.mem_filter,
    List.mem_map, hmember, Bool.not_eq_true', and_assoc]

/-- A folded byte set has what folds like one of its members. -/
theorem contains_foldLow {low : ByteSet} : (foldLow enc low).contains d = true ↔
    d < 256 ∧ ∃ c < 256, low.contains c = true ∧ enc.fold c = enc.fold d := by
  simp only [foldLow, ByteSet.contains_insertWhere, ByteSet.contains_insertEach,
    ByteSet.contains_empty, Bool.false_or, Bool.and_eq_true, Bool.or_eq_true, decide_eq_true_eq,
    List.contains_iff_mem, List.mem_map, List.mem_filter, List.mem_range]
  constructor
  · rintro ⟨hd, hself | ⟨-, c, ⟨hc, hlow⟩, hfold⟩⟩
    · exact ⟨hd, d, hd, hself, rfl⟩
    · exact ⟨hd, c, hc, hlow, hfold⟩
  · rintro ⟨hd, c, hc, hlow, hfold⟩
    exact ⟨hd, Or.inr ⟨Encoding.fold_lt hd, c, ⟨hc, hlow⟩, hfold⟩⟩

/-- The folded ranges have the members of ranges that are too wide, and the folded forms of those of
the others. -/
theorem inRanges_foldRanges (set : CharSet) :
    CharKind.inRanges (set.foldCase enc).foldRanges d = true ↔
      ∃ r ∈ set.ranges, if isWide r then r.1 ≤ d ∧ d ≤ r.2
        else ∃ c, (r.1 ≤ c ∧ c ≤ r.2) ∧ enc.fold c = d := by
  -- Ranges that are too wide are not empty.
  have hwide : ∀ r ∈ (set.ranges.filter isWide).reverse, r.1 ≤ r.2 := by
    intro r hr
    rw [List.mem_reverse, List.mem_filter, isWide, decide_eq_true_eq] at hr
    omega
  rw [foldCase, inRanges_reverse, inRanges_appendCodes hwide, inRanges_reverse, inRanges_iff,
    mem_foldedMembers]
  simp only [List.mem_filter]
  constructor
  -- A code point comes from a wide range itself, or by folding from a narrow one.
  · rintro (⟨r, ⟨hr, hiswide⟩, hin⟩ | ⟨r, hr, hnarrow, hin⟩)
    · exact ⟨r, hr, by rwa [if_pos hiswide]⟩
    · exact ⟨r, hr, by rwa [hnarrow, if_neg Bool.false_ne_true]⟩
  · rintro ⟨r, hr, hin⟩
    cases hiswide : isWide r with
    | true =>
        rw [hiswide, if_pos rfl] at hin
        exact Or.inl ⟨r, ⟨hr, hiswide⟩, hin⟩
    | false =>
        rw [hiswide, if_neg Bool.false_ne_true] at hin
        exact Or.inr ⟨r, hr, hiswide, hin⟩

theorem lists_of_lt {set : CharSet} (h : c < 256) : set.lists enc c = set.low.contains c := by
  rw [lists, if_pos h]

theorem lists_plain {set : CharSet} (hkinds : set.kinds = []) (hcase : set.ignoreCase = false)
    (h : 256 ≤ c) : set.lists enc c = CharKind.inRanges set.ranges c := by
  rw [lists, if_neg (Nat.not_lt.mpr h), hkinds, hcase]
  simp

/-- The members of a folded set, when the set has no kinds. -/
theorem lists_foldCase {set : CharSet} (hkinds : set.kinds = []) (hcase : set.ignoreCase = false) :
    (set.foldCase enc).lists enc d = true ↔
      set.lists enc d = true ∨
      (∃ c < 256, set.lists enc c = true ∧ enc.fold c = enc.fold d) ∨
      (256 ≤ enc.fold d ∧ CharKind.inRanges (set.foldCase enc).foldRanges (enc.fold d) = true) := by
  -- A member of the byte set is one of the set itself.
  have hlow : ∀ {f : Nat}, (∃ c < 256, set.low.contains c = true ∧ enc.fold c = f) ↔
      ∃ c < 256, set.lists enc c = true ∧ enc.fold c = f := by
    intro f
    refine exists_congr fun c => and_congr_right fun hc => ?_
    rw [lists_of_lt hc]
  by_cases hd : d < 256
  · have hfold : enc.fold d < 256 := Encoding.fold_lt hd
    rw [lists_of_lt hd, foldCase, contains_foldLow, hlow]
    constructor
    · exact fun h => Or.inr (Or.inl h.2)
    · rintro (hself | hlisted | ⟨habove, -⟩)
      · exact ⟨hd, d, hd, hself, rfl⟩
      · exact ⟨hd, hlisted⟩
      · exact absurd hfold (Nat.not_lt.mpr habove)
  · rw [lists_plain hkinds hcase (Nat.le_of_not_lt hd)]
    have hopen : (set.foldCase enc).lists enc d = (CharKind.inRanges set.ranges d ||
        if enc.fold d < 256 then (foldLow enc set.low).contains (enc.fold d)
        else CharKind.inRanges (set.foldCase enc).foldRanges (enc.fold d)) := by
      rw [lists, if_neg hd]
      simp only [foldCase, hkinds, List.any_nil]
      cases CharKind.inRanges set.ranges d <;> simp
    rw [hopen, Bool.or_eq_true]
    refine or_congr_right ?_
    by_cases hfold : enc.fold d < 256
    · rw [if_pos hfold, contains_foldLow, hlow, Encoding.fold_fold]
      rw [and_iff_right hfold]
      exact (or_iff_left fun h => Nat.not_lt.mpr h.1 hfold).symm
    · rw [if_neg hfold]
      -- What is below 256 folds below it.
      have hnone : ¬∃ c < 256, set.lists enc c = true ∧ enc.fold c = enc.fold d := by
        rintro ⟨c, hc, -, heq⟩
        exact hfold (heq ▸ Encoding.fold_lt hc)
      rw [or_iff_right hnone, and_iff_right (Nat.le_of_not_lt hfold)]

end CharSet

end RegexEngine
