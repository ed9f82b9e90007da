import RegexEngine.Proofs.Class.Items
import RegexEngine.Proofs.Coding.Walk

/-!
# Classes Without Regard to Case

A class that is read while case does not matter has what folds like a listed code point, with one
limit that is drawn on purpose. A range whose part from 256 on is too wide is not folded member by
member: of that part only the code points that are their own folded forms bring others into the
class. A class with such a range can therefore list a capital and not have the small letter.

The statement leaves one thing open. Four code points above 255 fold to ones below 256: U+0178,
U+1E9E, the Kelvin sign U+212A and U+212B. Byte sets and folded ranges do not exchange what they
fold. If no other listed code point folds like such a one, nothing is said here about whether the
class has what folds like it and is not listed.

## Main definitions

* `Covered`: some item of a class lists a code point.
* `Entry.IsNarrow`: a range that is folded member by member.
* `Brings`: a listed code point brings one that folds like it into the class.
* `OnlyFromAbove`: what folds below 256 and could be brought in by greater code points only.

## Theorems

* `brings_of_lists`: What is in a class that is read without regard to case was brought in.
* `lists_of_brings`: What is brought in is in the class.
* `accept_single`: A class of one character and that character as a literal.
* `bracketClass_folds`: The two together.
* `bracketClass_unfolded`: Classes that are not closed under folding.
-/

namespace RegexEngine

namespace Encoding

variable {enc : Encoding} {c : Nat} {bytes : List UInt8}

/-- The bytes of a code point are one character, which stands for the code point. -/
theorem characters_encode? (h : enc.encode? c = some bytes) :
    enc.characters bytes = [bytes] ∧ enc.decode bytes = c := by
  cases enc with
  | utf8 =>
      have hchar := Utf8.encode?_isCharacter h
      have hsplit := characters_flatten (List.forall_mem_singleton.mpr hchar.1)
      rw [List.flatten_singleton] at hsplit
      exact ⟨hsplit, hchar.2⟩
  | ascii =>
      simp only [encode?, Option.ite_none_right_eq_some, Option.some.injEq] at h
      rcases h with ⟨hle, rfl⟩
      exact ⟨rfl, Utf8.toNat_toUInt8 (by omega)⟩

/-- The test of a single character as a literal without regard to case. -/
theorem literalLeaf_single (h : enc.encode? c = some bytes) :
    literalLeaf enc bytes true = .folded [enc.fold c] := by
  rw [literalLeaf, if_pos rfl, (characters_encode? h).1, List.map_singleton,
    (characters_encode? h).2]

end Encoding

namespace Pattern

/-- Some item lists the code point. -/
def Covered (enc : Encoding) (entries : List Entry) (c : Nat) : Prop :=
  ∃ entry ∈ entries, entry.covers enc c = true

/-- A range that is folded member by member, as far as it lies at 256 and above. -/
def Entry.IsNarrow : Entry → Prop
  | span low high => high - max low 256 ≤ CharSet.foldableSpan
  | kind _ _ => False

/-- A code point that an item lists brings one that folds like it into the class. In a range that is
too wide only those do that are small or their own folded forms; every code point brings itself. -/
structure Brings (enc : Encoding) (entry : Entry) (c d : Nat) : Prop where
  listed : entry.covers enc c = true
  alike : enc.fold c = enc.fold d
  folded : c < 256 ∨ c = d ∨ c = enc.fold d ∨ entry.IsNarrow

/-- A code point that folds below 256 while neither it nor one below 256 that folds like it is
listed: only greater code points could bring it in. -/
structure OnlyFromAbove (enc : Encoding) (entries : List Entry) (d : Nat) : Prop where
  below : enc.fold d < 256
  unlisted : ¬Covered enc entries d
  apart : ∀ c < 256, Covered enc entries c → enc.fold c ≠ enc.fold d

section Members

variable {enc : Encoding} {entries : List Entry} {c d : Nat} {negated : Bool}

/-- What a set of items lists. -/
theorem lists_iff_covered :
    (insertAll enc { negated := negated } entries).lists enc c = true ↔ Covered enc entries c := by
  have hempty : ({ negated := negated } : CharSet).lists enc c = false := by
    simp [CharSet.lists, CharKind.inRanges]
  rw [lists_insertAll rfl, hempty, Bool.false_or, List.any_eq_true]
  rfl

/-- The folded ranges of a class tell which code points from 256 on bring `d` into it, except that
they may miss `d` itself. -/
theorem foldRanges_iff (hspans : ∀ entry ∈ entries, ∃ low high, entry = .span low high)
    (hd : 256 ≤ enc.fold d) :
    CharKind.inRanges ((insertAll enc { negated := negated } entries).foldCase enc).foldRanges
        (enc.fold d) = true ↔
      ∃ entry ∈ entries, ∃ c, 256 ≤ c ∧ entry.covers enc c = true ∧ enc.fold c = enc.fold d ∧
        (c = enc.fold d ∨ entry.IsNarrow) := by
  -- Wide ranges are kept as they are and are not folded, narrow ones only bring in folded code
  -- points.
  rw [CharSet.inRanges_foldRanges]
  simp only [mem_ranges_insertAll, List.not_mem_nil, false_or]
  constructor
  -- From a range to the item that it was cut from.
  · rintro ⟨r, ⟨low, high, hmem, hhigh, rfl⟩, hin⟩
    refine ⟨_, hmem, ?_⟩
    simp only [Entry.covers, Bool.and_eq_true, decide_eq_true_eq]
    split at hin
    -- In a wide range the code point itself is listed; in a narrow one another that folds alike.
    · exact ⟨enc.fold d, hd, by omega, Encoding.fold_fold enc d, Or.inl rfl⟩
    · rename_i hnarrow
      rcases hin with ⟨c, hc, hfold⟩
      refine ⟨c, by omega, by omega, hfold, Or.inr ?_⟩
      simpa [CharSet.isWide, Entry.IsNarrow] using hnarrow
  -- From an item to the range that is cut from it, which is as wide as the item above 255.
  · rintro ⟨entry, hmem, c, hc, hlisted, hfold, hkept⟩
    rcases hspans entry hmem with ⟨low, high, rfl⟩
    simp only [Entry.covers, Bool.and_eq_true, decide_eq_true_eq] at hlisted
    refine ⟨(max low 256, high), ⟨low, high, hmem, by omega, rfl⟩, ?_⟩
    split
    · rename_i hwide
      simp only [CharSet.isWide, decide_eq_true_eq] at hwide
      rcases hkept with rfl | hnarrow
      · simp only
        omega
      · exact absurd hwide (Nat.not_lt.mpr hnarrow)
    · exact ⟨c, ⟨by simp only; omega, hlisted.2⟩, hfold⟩

end Members

variable {env : Setting} {start after : List UInt8} {set : CharSet} {entries : List Entry}

section Folded

variable (hread : bracketClass env true start = .ok (set, after))
  (hlists : ClassLists env start entries after)
  (hspans : ∀ entry ∈ entries, ∃ low high, entry = .span low high)

include hread hlists hspans

/-- The parts of a class of ranges that is read without regard to case. -/
theorem lists_bracketClass {d : Nat} :
    set.lists env.encoding d = true ↔ Covered env.encoding entries d ∨
      (∃ c < 256, Covered env.encoding entries c ∧ env.encoding.fold c = env.encoding.fold d) ∨
      256 ≤ env.encoding.fold d ∧ ∃ entry ∈ entries, ∃ c, 256 ≤ c ∧
        entry.covers env.encoding c = true ∧ env.encoding.fold c = env.encoding.fold d ∧
        (c = env.encoding.fold d ∨ entry.IsNarrow) := by
  rcases bracketClass_of_lists hlists hread with ⟨plain, hplain, hset⟩
  rw [if_pos rfl] at hset
  have hkinds : plain.kinds = [] := by rw [hplain, kinds_insertAll hspans]
  have hcase : plain.ignoreCase = false := by rw [hplain, ignoreCase_insertAll]
  rw [hset, CharSet.lists_foldCase hkinds hcase]
  subst hplain
  simp only [lists_iff_covered]
  exact or_congr_right (or_congr_right (and_congr_right (foldRanges_iff hspans)))

/-- Whatever is in the class was brought in by an item. -/
theorem brings_of_lists {d : Nat} (h : set.lists env.encoding d = true) :
    ∃ entry ∈ entries, ∃ c, Brings env.encoding entry c d := by
  rcases (lists_bracketClass hread hlists hspans).mp h with
    ⟨entry, hmem, hself⟩ | ⟨c, hc, ⟨entry, hmem, hlisted⟩, hfold⟩ |
    ⟨-, entry, hmem, c, -, hlisted, hfold, hkept⟩
  · exact ⟨entry, hmem, d, hself, rfl, Or.inr (Or.inl rfl)⟩
  · exact ⟨entry, hmem, c, hlisted, hfold, Or.inl hc⟩
  · exact ⟨entry, hmem, c, hlisted, hfold, Or.inr (Or.inr hkept)⟩

/-- What an item brings in is in the class. -/
theorem lists_of_brings {d : Nat} (habove : ¬OnlyFromAbove env.encoding entries d)
    (h : ∃ entry ∈ entries, ∃ c, Brings env.encoding entry c d) :
    set.lists env.encoding d = true := by
  rw [lists_bracketClass hread hlists hspans]
  by_contra hnot
  rw [not_or, not_or, not_and_or, Nat.not_le] at hnot
  rcases hnot with ⟨hself, hsmall, hgreat⟩
  have hnone : ∀ c < 256, Covered env.encoding entries c →
      env.encoding.fold c ≠ env.encoding.fold d :=
    fun c hc hlisted hfold => hsmall ⟨c, hc, hlisted, hfold⟩
  -- Neither the code point itself nor a small one is listed, so it folds to 256 or above.
  have hd : 256 ≤ env.encoding.fold d :=
    Nat.le_of_not_lt fun hlt => habove ⟨hlt, hself, hnone⟩
  rcases h with ⟨entry, hmem, c, hlisted, hfold, hbrings⟩
  have hc : 256 ≤ c := Nat.le_of_not_lt fun hlt => hnone c hlt ⟨entry, hmem, hlisted⟩ hfold
  rcases hbrings with hlt | rfl | hkept
  · omega
  · exact hself ⟨entry, hmem, hlisted⟩
  · exact hgreat.resolve_left (Nat.not_lt.mpr hd) ⟨entry, hmem, c, hc, hlisted, hfold, hkept⟩

end Folded

theorem negated_bracketClass (hread : bracketClass env true start = .ok (set, after))
    (hlists : ClassLists env start entries after) : set.negated = startsWith start.tail '^' := by
  rcases bracketClass_of_lists hlists hread with ⟨plain, rfl, rfl⟩
  rw [if_pos rfl, CharSet.foldCase, negated_insertAll]

/-- A class of one character accepts what the character accepts as a literal. -/
theorem accept_single {c : Nat} {bytes : List UInt8}
    (hread : bracketClass env true start = .ok (set, after))
    (hlists : ClassLists env start [.span c c] after) (hnegated : startsWith start.tail '^' = false)
    (habove : c < 256 ∨ 256 ≤ env.encoding.fold c) (hbytes : env.encoding.encode? c = some bytes)
    {ctx : Context} (hctx : ctx.encoding = env.encoding) (pos : Nat) :
    (Leaf.set set).accept ctx #[] pos =
      (literalLeaf env.encoding bytes true).accept ctx #[] pos := by
  have hspans : ∀ entry ∈ [Entry.span c c], ∃ low high, entry = .span low high := by
    simp
  -- The only item covers one code point, and is narrow.
  have hcovered : ∀ d, Covered env.encoding [.span c c] d ↔ d = c := by
    intro d
    simp only [Covered, List.mem_singleton, exists_eq_left, Entry.covers, Bool.and_eq_true,
      decide_eq_true_eq]
    omega
  have hnarrow : (Entry.span c c).IsNarrow := by
    simp only [Entry.IsNarrow, CharSet.foldableSpan]
    omega
  -- The class has what folds like this code point, since the exclusion does not apply.
  have hmembers : ∀ d,
      set.contains env.encoding d = (env.encoding.fold d == env.encoding.fold c) := by
    intro d
    rw [CharSet.contains, negated_bracketClass hread hlists, hnegated, Bool.bne_false,
      Bool.eq_iff_iff, beq_iff_eq]
    constructor
    · intro hlisted
      rcases brings_of_lists hread hlists hspans hlisted with ⟨entry, hmem, e, hbrings⟩
      obtain rfl := (hcovered e).mp ⟨entry, hmem, hbrings.listed⟩
      exact hbrings.alike.symm
    · intro hfold
      have hself : (Entry.span c c).covers env.encoding c = true := by simp [Entry.covers]
      refine lists_of_brings hread hlists hspans ?_
        ⟨_, List.mem_singleton_self _, c, hself, hfold.symm, Or.inr (Or.inr (Or.inr hnarrow))⟩
      -- The exclusion would need a listed code point below 256 where the folded one is above.
      rintro ⟨hd, -, hnone⟩
      rcases habove with hc | hc
      · exact hnone c hc ((hcovered c).mpr rfl) hfold.symm
      · omega
  -- Both tests look at the folded character here.
  have hset : (Leaf.set set).accept ctx #[] pos =
      ctx.acceptChar pos (set.contains ctx.encoding (ctx.codeAt pos)) := rfl
  have hliteral : (Leaf.folded [env.encoding.fold c]).accept ctx #[] pos =
      (ctx.acceptChar pos (ctx.foldedAt pos == env.encoding.fold c)).bind some := rfl
  rw [Encoding.literalLeaf_single hbytes, hset, hliteral, hctx, hmembers, Context.foldedAt, hctx,
    Option.bind_fun_some]

/-- A class of characters and ranges that is read without regard to case has only what some item
brings in. It has all of that, unless it is a matter of listed code points above 255 alone that fold
below 256. A class of a single character accepts what the character accepts as a literal. -/
theorem bracketClass_folds (hread : bracketClass env true start = .ok (set, after)) :
    (∃ entries, ClassLists env start entries after) ∧
      ∀ entries, ClassLists env start entries after →
        (∀ entry ∈ entries, ∃ low high, entry = .span low high) →
        (∀ d, set.lists env.encoding d = true →
          ∃ entry ∈ entries, ∃ c, Brings env.encoding entry c d) ∧
        (∀ d, ¬OnlyFromAbove env.encoding entries d →
          (∃ entry ∈ entries, ∃ c, Brings env.encoding entry c d) →
          set.lists env.encoding d = true) ∧
        ∀ c bytes, entries = [.span c c] → startsWith start.tail '^' = false →
          (c < 256 ∨ 256 ≤ env.encoding.fold c) → env.encoding.encode? c = some bytes →
          ∀ ctx : Context, ctx.encoding = env.encoding → ∀ pos,
            (Leaf.set set).accept ctx #[] pos =
              (literalLeaf env.encoding bytes true).accept ctx #[] pos := by
  refine ⟨exists_classLists hread, fun entries hlists hspans => ⟨?_, ?_, ?_⟩⟩
  · exact fun d => brings_of_lists hread hlists hspans
  · exact fun d => lists_of_brings hread hlists hspans
  · rintro c bytes rfl hnegated habove hbytes ctx hctx pos
    exact accept_single hread hlists hnegated habove hbytes hctx pos

/-- The theorem at `[k]`, a class that has the Kelvin sign. -/
theorem bracketClass_folds_letter :
    ∃ set, bracketClass (standardSetting [91, 107, 93]) true [91, 107, 93] = .ok (set, []) ∧
      set.lists .utf8 0x212a = true := by
  refine ⟨_, rfl, ?_⟩
  have hlists : ClassLists (standardSetting [91, 107, 93]) [91, 107, 93] [.span 0x6b 0x6b] [] :=
    ⟨_, rfl, .code (by decide) rfl (.close rfl)⟩
  refine ((bracketClass_folds rfl).2 _ hlists (by simp)).2.1 0x212a ?_ ?_
  · rintro ⟨-, -, hnone⟩
    exact hnone 0x6b (by decide) ⟨_, List.mem_singleton_self _, by decide⟩ (by decide +kernel)
  · exact ⟨_, List.mem_singleton_self _, 0x6b, by decide, by decide +kernel, Or.inl (by decide)⟩

/-- Two classes that are not closed under folding. The first lists U+10400 in a wide range and does
not have U+10428; the second lists the Kelvin sign and does not have `k`. -/
theorem bracketClass_unfolded :
    (∃ set entries,
        let text := [91, 92, 120, 123, 49, 48, 48, 125, 45, 92, 120, 123, 49, 48, 52, 48, 48, 125,
          93]
        bracketClass (standardSetting text) true text = .ok (set, []) ∧
        ClassLists (standardSetting text) text entries [] ∧
        Covered .utf8 entries 0x10400 ∧
        Encoding.utf8.fold 0x10400 = Encoding.utf8.fold 0x10428 ∧
        set.lists .utf8 0x10428 = false) ∧
      ∃ set entries,
        let text := [91, 92, 120, 123, 50, 49, 50, 97, 125, 93]
        bracketClass (standardSetting text) true text = .ok (set, []) ∧
        ClassLists (standardSetting text) text entries [] ∧
        Covered .utf8 entries 0x212a ∧
        Encoding.utf8.fold 0x212a = Encoding.utf8.fold 0x6b ∧
        set.lists .utf8 0x6b = false := by
  refine ⟨⟨_, [.span 0x100 0x100, .span 0x100 0x10400], rfl, ⟨_, rfl, ?_⟩, ?_, ?_, ?_⟩,
    _, [.span 0x212a 0x212a], rfl, ⟨_, rfl, ?_⟩, ?_, ?_, ?_⟩
  -- The items, read off the text by the rules of the grammar.
  · exact .code (by decide) rfl (.range rfl rfl rfl (by decide) (.close rfl))
  · exact ⟨_, List.mem_cons_of_mem _ List.mem_cons_self, by decide⟩
  · decide +kernel
  · decide +kernel
  · exact .code (by decide) rfl (.close rfl)
  · exact ⟨_, List.mem_cons_self, by decide⟩
  · decide +kernel
  · decide +kernel

end Pattern

end RegexEngine
