import RegexEngine.Proofs.Boundary.Answers
import RegexEngine.Proofs.Iteration.Basic

/-!
# All Matches in a Text

The matches of a regular expression that are found one after the other are those of an iteration
that is sound: a search finds no match before its start and none that ends behind the text, and no
character is without bytes. This holds of every text, well formed or not, and of the longest matches
as of the first ones.

The function that gives all matches makes a bounded number of searches. Every search begins behind
the one before, so the bound is never met before the end of the text, and the matches are all that
there are.

## Main definitions

* `Regex.iteration`: How all matches in a text are looked for.

## Theorems

* `sound_iteration`: The iteration of a compiled pattern is sound.
* `findIterFrom_enough`: A larger bound on the number of searches makes no difference.
* `findIter_gives`: What is given is what the iteration gives.
* `findIter_ordered`: The matches are in order, and there is an end to them.
-/

namespace RegexEngine

namespace Regex

/-- How all matches in a text are looked for. -/
def iteration (regex : Regex) (text : Array UInt8) (limits : Limits) : Iteration where
  size := text.size
  look pos := ignoreError (regex.tryFindFrom text pos limits)
  step := regex.stepChar text

variable {regex : Regex} {text : Array UInt8} {pattern : List UInt8} {asked : Options}
  {enc : Encoding} {dialect : Dialect} {readLimits limits : Limits} {m : Match} {pos count : Nat}

theorem stepChar_lt (regex : Regex) (text : Array UInt8) (pos : Nat) :
    pos < regex.stepChar text pos := by
  rw [stepChar]
  split
  · rename_i lead _
    have hlead := regex.program.encoding.leadLength_pos lead
    omega
  · exact Nat.lt_succ_self pos

/-- A match that is found from a position on is one in the text, behind the position. -/
theorem tryFindFrom_ordered
    (hcompile : Program.compile pattern asked enc dialect readLimits = .ok regex.program)
    (h : regex.tryFindFrom text pos limits = .ok (some m)) :
    m.text = text ∧ pos ≤ m.start ∧ m.start ≤ m.stop ∧ m.stop ≤ text.size := by
  rcases ok_some_of_map h with ⟨region, hregion, hget⟩
  rcases search_of_regionFrom hregion with ⟨start, hsearch⟩
  rcases Program.searchWithin_reports hcompile hsearch with ⟨hstart, -, last, hreports⟩
  rw [hreports.whole] at hget
  cases hget
  exact ⟨rfl, hstart, hreports.first_le, hreports.last_le⟩

/-- The matches of a compiled pattern are looked for soundly. -/
theorem sound_iteration
    (hcompile : Program.compile pattern asked enc dialect readLimits = .ok regex.program) :
    (regex.iteration text limits).Sound where
  ordered h := (tryFindFrom_ordered hcompile (ok_of_ignoreError h)).2
  advances := regex.stepChar_lt text

/-- With a bound that exceeds the number of positions that are left, all matches are given. -/
theorem findIterFrom_gives
    (hcompile : Program.compile pattern asked enc dialect readLimits = .ok regex.program)
    {previous : Option Nat} (hcount : text.size + 2 ≤ pos + count) :
    (regex.iteration text limits).Gives ⟨pos, previous⟩
      (regex.findIterFrom text limits count pos previous) := by
  have hsound : (regex.iteration text limits).Sound := sound_iteration hcompile
  -- By induction on the count. Each search begins further on in the text, so what is left of it
  -- needs one less.
  induction count generalizing pos previous with
  | zero => exact .done (.outside (show text.size < pos by omega))
  | succ count ih =>
      rw [findIterFrom]
      split
      · rename_i houtside
        exact .done (.outside houtside)
      · rename_i hinside
        rw [Nat.not_lt] at hinside
        split
        · rename_i hsearch
          exact .done (.absent hinside hsearch)
        · rename_i m hsearch
          have hlook : (regex.iteration text limits).look pos = some m := hsearch
          -- The next search begins behind this match.
          have hbehind : pos < (regex.iteration text limits).behind m := hsound.look_behind hlook
          have hnext : ∀ previous, (regex.iteration text limits).Gives
              ⟨(regex.iteration text limits).behind m, previous⟩
              (regex.findIterFrom text limits count ((regex.iteration text limits).behind m)
                previous) :=
            fun previous => ih (by omega)
          simp only
          -- An empty match right behind the last one is passed over; any other counts.
          split
          · rename_i hskips
            exact .skipped hinside hlook hskips (hnext previous)
          · rename_i hcounts
            exact .more (.found hinside hlook hcounts) (hnext (some m.stop))

/-- Such a bound is never met: with any larger one, the matches that are given are the same. -/
theorem findIterFrom_enough
    (hcompile : Program.compile pattern asked enc dialect readLimits = .ok regex.program)
    {previous : Option Nat} (hcount : text.size + 2 ≤ pos + count) (more : Nat) :
    regex.findIterFrom text limits (count + more) pos previous =
      regex.findIterFrom text limits count pos previous :=
  (findIterFrom_gives hcompile (by omega)).unique (findIterFrom_gives hcompile hcount)

/-- All matches are those that are looked for from the start of the text on. -/
theorem findIter_gives
    (hcompile : Program.compile pattern asked enc dialect readLimits = .ok regex.program) :
    (regex.iteration text limits).Gives {} (regex.findIter text limits) :=
  findIterFrom_gives hcompile (Nat.le_of_eq (Nat.zero_add _).symm)

/-- Whatever the text and the limits are: wherever one has come to in looking for all matches of a
compiled pattern, two searches find the next match, or there is none. Asked for one after the other,
from the start of the text on, the matches come to an end; they are the ones that are given, and no
others. Every match lies within the text. The next one starts at its end or later, behind its start,
and is not an empty match at its end. So there are not more of them than positions in the text. -/
theorem findIter_ordered
    (hcompile : Program.compile pattern asked enc dialect readLimits = .ok regex.program)
    (text : Array UInt8) (limits : Limits) :
    let it := regex.iteration text limits
    let found := regex.findIter text limits
    (∀ c, ∃ searches answer, searches ≤ 2 ∧ it.Next c searches answer) ∧
    it.Gives {} found ∧ (∀ other, it.Gives {} other → other = found) ∧
    (∀ m ∈ found, m.text = text ∧ m.start ≤ m.stop ∧ m.stop ≤ text.size) ∧
    found.IsChain Match.Before ∧ found.length ≤ text.size + 1 := by
  intro it found
  have hsound : it.Sound := sound_iteration hcompile
  have hgives : it.Gives {} found := findIter_gives hcompile
  refine ⟨Iteration.next_exists hsound, hgives, fun other hother => hother.unique hgives, ?_,
    hgives.chain hsound, hgives.length_le hsound⟩
  intro m hmem
  rcases hgives.looked m hmem with ⟨pos, hlook⟩
  have hm := tryFindFrom_ordered hcompile (ok_of_ignoreError hlook)
  exact ⟨hm.1, hm.2.2⟩

/-- With `a*`, the matches in `baab` are an empty one, `aa` and an empty one at the end; the empty
match right behind `aa` is skipped. -/
theorem findIter_ordered_star :
    ∃ regex : Regex, Program.compile [97, 42] {} .utf8 Dialect.standard {} = .ok regex.program ∧
      (regex.findIter #[98, 97, 97, 98] {}).map Match.span = [(0, 0), (1, 3), (4, 4)] ∧
      (regex.findIter #[98, 97, 97, 98] {}).IsChain Match.Before := by
  have hcomputed : ((Program.compile [97, 42] {} .utf8 Dialect.standard {}).toOption.any
      fun program => ((⟨program⟩ : Regex).findIter #[98, 97, 97, 98] {}).map Match.span ==
        [(0, 0), (1, 3), (4, 4)]) = true := by decide +kernel
  rcases Program.exists_compiled hcomputed with ⟨program, hcompile, hholds⟩
  have hchain := @findIter_ordered ⟨program⟩ _ _ _ _ _ hcompile #[98, 97, 97, 98] {}
  exact ⟨⟨program⟩, hcompile, beq_iff_eq.mp hholds, hchain.2.2.2.2.1⟩

end Regex

end RegexEngine
