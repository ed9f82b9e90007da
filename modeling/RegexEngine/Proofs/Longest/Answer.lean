import RegexEngine.Proofs.Longest.Outcomes
import RegexEngine.Proofs.Search.Twins

/-!
# The Longest Match Knows No Priority

A search for the longest match goes through all that there is to try, so the order in which it does
so cannot matter. It does not for the span of the match: a tree without references to groups and
without parts that give nothing back may have its repeats made greedy or not and its alternatives
put into another order, anywhere and as often as one likes, and the search finds a match of the same
length at the same position. The groups inside may well differ, since one of several ways to match
the same text is reported.

An attempt notes a longer match in place of the one that it has and keeps that one otherwise. What
is left in the end is as long as the furthest of the positions that are come to, and positions do
not depend on the order.

## Main definitions

* `Placed.span`: The start and the end of a match.
* `Program.SameSpan`: Two matches have the same span, or there is none.

## Theorems

* `comparable_sameEnds`: Attempts that lead to the same positions note matches of the same span.
* `ofParsed_iff`, `ofParsed_means`: When there is a program for a tree, and what it is.
* `search_reordered`: A search for the longest match does not depend on priority.
-/

namespace RegexEngine

namespace Placed

/-- The start and the end of a match. -/
def span (placed : Placed) : Nat × Nat :=
  (placed.1, placed.2.pos)

theorem length_of_span {placed other : Placed} (h : placed.span = other.span) :
    placed.length = other.length := by
  simp only [span, Prod.mk.injEq] at h
  rw [length, length, h.1, h.2]

/-- The span of the longer one of two matches depends on the spans of both. -/
theorem merge_span {best best' later later' : Option Placed}
    (hbest : best.map span = best'.map span) (hlater : later.map span = later'.map span) :
    (merge best later).map span = (merge best' later').map span := by
  -- On both sides there is a later match or none, and then a noted one or none.
  cases later with
  | none =>
      cases later' with
      | none => exact hbest
      | some => cases hlater
  | some placed =>
      cases later' with
      | none => cases hlater
      | some placed' =>
          have hplaced : placed.span = placed'.span := Option.some.inj hlater
          cases best with
          | none =>
              cases best' with
              | none => exact hlater
              | some => cases hbest
          | some noted =>
              cases best' with
              | none => cases hbest
              | some noted' =>
                  have hnoted : noted.span = noted'.span := Option.some.inj hbest
                  -- Lengths depend on spans only, so the same one of the two is kept.
                  rw [merge, merge, longer_eq_some, longer_eq_some, length_of_span hnoted,
                    length_of_span hplaced]
                  split
                  · exact hlater
                  · exact hbest

end Placed

namespace Program

/-- Two matches have the same span, or there is none of either. -/
def SameSpan (found found' : Option Found) : Prop :=
  (found.map Found.placed).map Placed.span = (found'.map Found.placed).map Placed.span

/-- If the longest match is wanted, attempts that come to the same positions note matches of the
same span. -/
theorem comparable_sameEnds {ctx : Context} {tree tree' : Tree}
    (hlongest : ctx.options.findLongest = true)
    (h : Ways.SameEnds (tree.outcomes ctx) (tree'.outcomes ctx)) :
    Comparable ctx (tree.outcomes ctx) (tree'.outcomes ctx) SameSpan := by
  intro start best best' verdict verdict' hbest hcomes hcomes'
  have hahead : ∀ (tree : Tree), ∀ place ∈ tree.outcomes ctx (.fresh start), start ≤ place.pos :=
    fun tree place hplace => (Node.outcomes_advances ctx tree (.fresh start) place hplace).le
  rcases Verdict.comes_merged hcomes hlongest (hahead tree) with ⟨after, rfl, hafter⟩
  rcases Verdict.comes_merged hcomes' hlongest (hahead tree') with ⟨after', rfl, hafter'⟩
  -- Whether a match is refused depends on its position, so the same positions are left.
  have hleft : ∀ {ways ways' : Ways}, Ways.EndsIn ways ways' →
      ∀ place ∈ (ways (.fresh start)).filter fun place => ¬ ctx.Refuses start place.pos,
        ∃ found ∈ (ways' (.fresh start)).filter fun place => ¬ ctx.Refuses start place.pos,
          found.pos = place.pos := by
    intro ways ways' hends place hplace
    rw [List.mem_filter] at hplace
    rcases hends _ _ rfl place hplace.1 with ⟨found, hfound, hpos⟩
    refine ⟨found, List.mem_filter.mpr ⟨hfound, ?_⟩, hpos⟩
    rw [hpos]
    exact hplace.2
  refine .exhausted ?_
  rw [SameSpan, hafter, hafter']
  refine Placed.merge_span hbest ?_
  have hfurthest := congrArg (Option.map (Prod.mk start))
    (Place.furthest_pos_congr (hleft h.1) (hleft h.2))
  rw [Option.map_map, Option.map_map] at hfurthest ⊢
  exact hfurthest

variable {pattern : List UInt8} {options : Options} {enc : Encoding} {dialect : Dialect}
  {readLimits : Limits} {parsed : Pattern.Parsed} {program other : Program}

/-- There is a program for every tree that has code once it has been prepared. -/
theorem ofParsed_iff : (∃ program, ofParsed pattern options enc dialect parsed = .ok program) ↔
    (prepare enc dialect parsed.tree).HasCode enc := by
  rw [← Node.emit_iff _ {}, ofParsed]
  rcases (prepare enc dialect parsed.tree).emit enc {} with cause | ⟨code, ids⟩
  · constructor
    · rintro ⟨program, ⟨⟩⟩
    · rintro ⟨code, ids, ⟨⟩⟩
  · constructor
    · exact fun _ => ⟨code, ids, rfl⟩
    · exact fun _ => ⟨_, rfl⟩

/-- The program of a well-formed tree, wherever the tree comes from. -/
theorem ofParsed_means (hwell : (prepare enc dialect parsed.tree).WellFormed (parsed.groups + 1))
    (h : ofParsed pattern options enc dialect parsed = .ok program) :
    program.Means (prepare enc dialect parsed.tree) ∧ program.encoding = enc ∧
      program.options = options ∧ program.groups = parsed.groups := by
  rw [ofParsed] at h
  split at h
  · cases h
  · rename_i code ids hemit
    cases h
    exact ⟨⟨hwell, code, ids, hemit, rfl, rfl, rfl⟩, rfl, rfl, rfl⟩

/-- Reports of matches that have the same span answer the same, and agree on the whole match. -/
theorem AnswerAlike.span {region : Region} {first second : Except Error (Option Nat) × Region}
    (h : program.AnswerAlike SameSpan region Found.start first second) :
    first.1 = second.1 ∧ first.2.get? 0 = second.2.get? 0 := by
  rcases h with ⟨e, rfl, rfl⟩ | ⟨found, found', hsame, hsized, hsized', hroom, rfl, rfl⟩
  · exact ⟨rfl, rfl⟩
  -- On both sides something was found or nothing.
  cases found with
  | none =>
      cases found' with
      | none => exact ⟨rfl, rfl⟩
      | some => cases hsame
  | some last =>
      cases found' with
      | none => cases hsame
      | some last' =>
          have hspan : (last.start, last.stop) = (last'.start, last'.stop) := Option.some.inj hsame
          have hcapacity : 0 < region.capacity := Nat.lt_of_lt_of_le (Nat.succ_pos _) hroom
          -- The region has room for the whole match, and reports its span first.
          have hget : ∀ last : Found, last.captures.size = program.slotCount →
              (region.fill last).get? 0 = some (last.start, last.stop) := by
            intro last hsize
            have hcount : 0 < (region.fill last).count := by
              change 0 < last.captures.size
              rw [hsize]
              exact Nat.succ_pos program.groups
            rw [Region.get?, if_pos hcount, Region.slot_fill, if_pos hcapacity]
            rfl
          refine ⟨?_, ?_⟩
          · simp only [report, (Prod.mk.inj hspan).1]
          · simp only [report]
            rw [hget last (hsized last rfl), hget last' (hsized' last' rfl), hspan]

/-- A search for the longest match does not depend on priority. Of a pattern that was read without
references to groups and without parts that give nothing back, and a tree that differs from its tree
in the greediness of repeats and in the order of alternatives, there is a program for one if there
is one for the other. Without hints and without limits, both answer every search for the longest
match alike, and report the same span for the whole match. -/
theorem search_reordered
    (hparse : Pattern.parse pattern options enc dialect readLimits = .ok parsed)
    (hplain : parsed.tree.plain = true) {tree : Tree} (horder : parsed.tree.Reordered tree) :
    ((∃ program, ofParsed pattern options enc dialect parsed = .ok program) ↔
      ∃ other, ofParsed pattern options enc dialect { parsed with tree := tree } = .ok other) ∧
    ∀ program other, ofParsed pattern options enc dialect parsed = .ok program →
      ofParsed pattern options enc dialect { parsed with tree := tree } = .ok other →
      ∀ (subject : Array UInt8) (start range : Nat) (region : Region) (given : Options),
        (given.union options).findLongest = true → ∀ limits : Limits, limits.Off →
        ∃ bound, ∀ fuel, bound ≤ fuel →
          let searched :=
            program.withoutHints.searchWithin fuel subject start range region given limits
          let reordered :=
            other.withoutHints.searchWithin fuel subject start range region given limits
          searched.1 = reordered.1 ∧ searched.2.get? 0 = reordered.2.get? 0 := by
  rcases Node.keeps_rearranged (@rearranged_prepare enc dialect _ _ horder)
    (wellFormed_prepare hparse) (plain_prepare hplain) with ⟨hwell, hcode, hends⟩
  -- There is code for a tree if every look-behind in it has a length, which the order does not
  -- change.
  refine ⟨ofParsed_iff.trans ((hcode enc).trans ?_), ?_⟩
  · exact (@ofParsed_iff pattern options enc dialect { parsed with tree := tree }).symm
  intro program other hprogram hother subject start range region given hlongest limits hlimits
  rcases ofParsed_means (wellFormed_prepare hparse) hprogram with
    ⟨hmeans, hencoding, hoptions, hgroups⟩
  rcases ofParsed_means hwell hother with ⟨hmeans', hencoding', hoptions', hgroups'⟩
  -- The two programs differ in nothing that a call checks.
  have htwins : Twins program.withoutHints other.withoutHints :=
    ⟨hencoding'.trans hencoding.symm, hoptions'.trans hoptions.symm,
      hgroups'.trans hgroups.symm, rfl⟩
  -- Both attempts are told by the outcomes of the two trees, which have the same ends.
  let ctx := Context.make program.withoutHints subject start range given
  have hexplored : program.withoutHints.Explored ctx _ :=
    Means.explored ⟨hmeans.wellFormed, hmeans.emits⟩ rfl
  have hexplored' : other.withoutHints.Explored ctx _ :=
    Means.explored ⟨hmeans'.wellFormed, hmeans'.emits⟩ htwins.encoding.symm
  have hwanted : ctx.options.findLongest = true := by
    change (given.union program.options).findLongest = true
    rw [hoptions]
    exact hlongest
  -- Where the longest match is asked for, the same ends make the same choice.
  rcases searchWithin_twins htwins hexplored hexplored' hlimits
    (comparable_sameEnds hwanted (hends ctx)) rfl with ⟨bound, hbound⟩
  exact ⟨bound, fun fuel hfuel => (hbound fuel hfuel).span⟩

/-- The longest match of `(?<!a|bc)(?:a|ab)+?c*` in `xaabc`, with a look-behind that is divided, and
of the tree with all of it changed, whose code is different. -/
theorem search_reordered_mirror :
    let pattern : List UInt8 := [40, 63, 60, 33, 97, 124, 98, 99, 41, 40, 63, 58, 97, 124, 97, 98,
      41, 43, 63, 99, 42]
    ∃ parsed program other,
      Pattern.parse pattern {} .utf8 Dialect.standard {} = .ok parsed ∧
      parsed.tree.plain = true ∧ parsed.tree.Reordered parsed.tree.mirror ∧
      ofParsed pattern {} .utf8 Dialect.standard parsed = .ok program ∧
      ofParsed pattern {} .utf8 Dialect.standard { parsed with tree := parsed.tree.mirror } =
        .ok other ∧
      program.code ≠ other.code ∧
      (Options.union { findLongest := true } {}).findLongest = true ∧ Limits.off.Off ∧
      ∃ bound, ∀ fuel, bound ≤ fuel →
        let searched := program.withoutHints.searchWithin fuel #[120, 97, 97, 98, 99] 0 5
          (Region.ofCapacity 1) { findLongest := true } Limits.off
        let reordered := other.withoutHints.searchWithin fuel #[120, 97, 97, 98, 99] 0 5
          (Region.ofCapacity 1) { findLongest := true } Limits.off
        searched.1 = reordered.1 ∧ searched.2.get? 0 = reordered.2.get? 0 := by
  intro pattern
  -- Both programs are computed, and that their code is different.
  have hcomputed : ((Pattern.parse pattern {} .utf8 Dialect.standard {}).toOption.any
      fun parsed => (ofParsed pattern {} .utf8 Dialect.standard parsed).toOption.any fun program =>
        parsed.tree.plain && (ofParsed pattern {} .utf8 Dialect.standard
          { parsed with tree := parsed.tree.mirror }).toOption.any
            fun other => decide (program.code ≠ other.code)) = true := by decide +kernel
  rcases exists_program hcomputed with ⟨parsed, program, hparse, hprogram, hholds⟩
  rw [Bool.and_eq_true] at hholds
  rcases hother : ofParsed pattern {} .utf8 Dialect.standard
    { parsed with tree := parsed.tree.mirror } with e | other
  · rw [hother] at hholds
    cases hholds.2
  rw [hother] at hholds
  -- The hypotheses of the theorem, and then the theorem at the mirrored tree.
  have hoff : Limits.off.Off := ⟨rfl, rfl, rfl⟩
  have hmirror := Node.reordered_mirror parsed.tree
  refine ⟨parsed, program, other, hparse, hholds.1, hmirror, hprogram, hother,
    of_decide_eq_true hholds.2, rfl, hoff, ?_⟩
  exact (search_reordered hparse hholds.1 hmirror).2 program other hprogram hother _ 0 5 _ _ rfl _
    hoff

end Program

end RegexEngine
