import Mathlib.Data.List.Chain
import RegexEngine.Regex.Find

/-!
# Looking for All Matches

All matches in a text are looked for one after the other. A search begins where the last match
ended, or one character further if the match was empty. If it comes to an empty match right behind
the last match, that match is skipped and the next search begins one character further.

Here this is said without a bound on the number of searches, as relations between what is known
before the next match is asked for and what comes out. What a search finds and where the next
character begins are parameters. Of the one it is only used that a match starts where its search
does or later and ends within the text; of the other, that there is no character without bytes. So
every search begins behind the one before, and the first of them that begins behind the end of the
text is the last.

## Main definitions

* `Cursor`: What is known when the next match is asked for.
* `Iteration`: A way to look for all matches.
* `Iteration.Next`: How the next match is found.
* `Iteration.Gives`: The matches that are found, asked for one after the other.
* `Match.Before`: One match follows the other.

## Theorems

* `Next.unique`, `Gives.unique`: Nothing is left to chance.
* `next_exists`: Two searches are enough for the next match.
* `gives_exists`: At some time there are no more matches.
* `Gives.chain`: The matches follow each other.
* `Gives.length_le`: There are not more of them than positions in the text.
-/

namespace RegexEngine

/-- Where the next search begins, and where the last match ended. -/
structure Cursor where
  pos : Nat := 0
  previous : Option Nat := none

/-- An empty match that ends where the last one did. -/
def Cursor.Skips (c : Cursor) (m : Match) : Prop :=
  m.isEmpty ∧ c.previous = some m.stop

instance (c : Cursor) (m : Match) : Decidable (c.Skips m) :=
  inferInstanceAs (Decidable (_ ∧ _))

/-- A match follows another one: it starts later, not before the other one ends, and if it is empty
not at this end either. -/
def Match.Before (m next : Match) : Prop :=
  m.stop ≤ next.start ∧ m.start < next.start ∧ ¬ (next.start = m.stop ∧ next.stop = m.stop)

/-- A way to look for all matches in a text. -/
structure Iteration where
  /-- The length of the text. -/
  size : Nat
  /-- What a search from a position on finds. -/
  look : Nat → Option Match
  /-- The position one character further. -/
  step : Nat → Nat

namespace Iteration

/-- Where the next search begins behind a match. -/
def behind (it : Iteration) (m : Match) : Nat :=
  if m.isEmpty then it.step m.stop else m.stop

/-- The next match is asked for, and the answer is found by a number of searches. With a match comes
what is known behind it. -/
inductive Next (it : Iteration) : Cursor → Nat → Option (Match × Cursor) → Prop
  | outside {c : Cursor} (outside : it.size < c.pos) : Next it c 0 none
  | absent {c : Cursor} (inside : c.pos ≤ it.size) (search : it.look c.pos = none) :
      Next it c 1 none
  | found {c : Cursor} {m : Match} (inside : c.pos ≤ it.size) (search : it.look c.pos = some m)
      (counts : ¬ c.Skips m) : Next it c 1 (some (m, ⟨it.behind m, some m.stop⟩))
  | skipped {c : Cursor} {m : Match} {searches : Nat} {answer : Option (Match × Cursor)}
      (inside : c.pos ≤ it.size) (search : it.look c.pos = some m) (skips : c.Skips m)
      (later : Next it { c with pos := it.behind m } searches answer) :
      Next it c (searches + 1) answer

/-- Asked for one after the other, these are the matches until there is none. -/
inductive Gives (it : Iteration) : Cursor → List Match → Prop
  | done {c : Cursor} {searches : Nat} (next : it.Next c searches none) : Gives it c []
  | more {c after : Cursor} {searches : Nat} {m : Match} {rest : List Match}
      (next : it.Next c searches (some (m, after))) (later : Gives it after rest) :
      Gives it c (m :: rest)

/-- A search finds what starts there or later and ends within the text, and every character has
bytes. -/
structure Sound (it : Iteration) : Prop where
  ordered : ∀ {pos m}, it.look pos = some m → pos ≤ m.start ∧ m.start ≤ m.stop ∧ m.stop ≤ it.size
  advances : ∀ pos, pos < it.step pos

variable {it : Iteration} {c after : Cursor} {searches : Nat} {m : Match} {found : List Match}

theorem Next.unique {other : Nat} {answer answer' : Option (Match × Cursor)}
    (h : it.Next c searches answer) (h' : it.Next c other answer') :
    searches = other ∧ answer = answer' := by
  -- The same rule must have been used both times: where the search is, what it finds and whether
  -- that counts exclude the other rules.
  induction h generalizing other with
  | outside outside =>
      cases h' with
      | outside => exact ⟨rfl, rfl⟩
      | absent inside | found inside | skipped inside =>
          exact absurd inside (Nat.not_le.mpr outside)
  | absent inside search =>
      cases h' with
      | outside outside => exact absurd inside (Nat.not_le.mpr outside)
      | absent => exact ⟨rfl, rfl⟩
      | found _ search' | skipped _ search' => cases search.symm.trans search'
  | found inside search counts =>
      cases h' with
      | outside outside => exact absurd inside (Nat.not_le.mpr outside)
      | absent _ search' => cases search.symm.trans search'
      | found _ search' =>
          cases search.symm.trans search'
          exact ⟨rfl, rfl⟩
      | skipped _ search' skips =>
          cases search.symm.trans search'
          exact absurd skips counts
  | skipped inside search skips later ih =>
      cases h' with
      | outside outside => exact absurd inside (Nat.not_le.mpr outside)
      | absent _ search' => cases search.symm.trans search'
      | found _ search' counts =>
          cases search.symm.trans search'
          exact absurd skips counts
      | skipped _ search' _ later' =>
          -- An empty match has been passed over both times, and what follows is the same by
          -- induction.
          cases search.symm.trans search'
          rcases ih later' with ⟨rfl, rfl⟩
          exact ⟨rfl, rfl⟩

/-- The matches that are found are determined. -/
theorem Gives.unique {other : List Match} (h : it.Gives c found) (h' : it.Gives c other) :
    found = other := by
  induction h generalizing other with
  | done next =>
      cases h' with
      | done => rfl
      | more next' => cases (next.unique next').2
  | more next later ih =>
      cases h' with
      | done next' => cases (next.unique next').2
      | more next' later' =>
          cases (next.unique next').2
          rw [ih later']

/-- Every match that is given was found by a search. -/
theorem Gives.looked (h : it.Gives c found) : ∀ m ∈ found, ∃ pos, it.look pos = some m := by
  have hnext : ∀ {c searches answer}, it.Next c searches answer →
      ∀ m after, answer = some (m, after) → ∃ pos, it.look pos = some m := by
    intro c searches answer h
    induction h with
    | outside | absent =>
        intro m after hanswer
        cases hanswer
    | found inside search =>
        intro m after hanswer
        cases hanswer
        exact ⟨_, search⟩
    | skipped inside search skips later ih => exact ih
  induction h with
  | done => exact List.forall_mem_nil _
  | more next later ih => exact List.forall_mem_cons.mpr ⟨hnext next _ _ rfl, ih⟩

/-- A match that is skipped may be left out. -/
theorem Gives.skipped (inside : c.pos ≤ it.size) (search : it.look c.pos = some m)
    (skips : c.Skips m) (h : it.Gives { c with pos := it.behind m } found) : it.Gives c found := by
  cases h with
  | done next => exact .done (.skipped inside search skips next)
  | more next later => exact .more (.skipped inside search skips next) later

section Ordered

variable (h : it.Sound)
include h

/-- The search behind a match begins behind the start of the match. -/
theorem Sound.behind (hle : m.start ≤ m.stop) :
    m.stop ≤ it.behind m ∧ m.start < it.behind m := by
  have hadvances := h.advances m.stop
  rw [Iteration.behind]
  split
  · omega
  · rename_i hempty
    rw [Match.isEmpty, beq_iff_eq] at hempty
    omega

/-- So it begins behind the start of the search that found the match. -/
theorem Sound.look_behind {pos : Nat} (search : it.look pos = some m) : pos < it.behind m := by
  have hordered := h.ordered search
  have hbehind := h.behind hordered.2.1
  omega

/-- A match that is found does not start before its search, and the next search begins later. -/
theorem Next.found_ordered (hnext : it.Next c searches (some (m, after))) :
    c.pos ≤ it.size ∧ c.pos ≤ m.start ∧ m.start ≤ m.stop ∧ m.stop ≤ it.size ∧
      ¬ c.Skips m ∧ after = ⟨it.behind m, some m.stop⟩ := by
  generalize hanswer : some (m, after) = answer at hnext
  -- Searches whose matches are skipped only move the cursor on.
  induction hnext with
  | outside | absent => cases hanswer
  | found inside search counts =>
      cases hanswer
      have hordered := h.ordered search
      exact ⟨inside, hordered.1, hordered.2.1, hordered.2.2, counts, rfl⟩
  | skipped inside search skips later ih =>
      rcases ih hanswer with ⟨-, hpos, hrest⟩
      have hlater := h.look_behind search
      exact ⟨inside, Nat.le_trans (Nat.le_of_lt hlater) hpos, hrest⟩

/-- Whatever is known, the next match is found by two searches at most, or there is none. Behind an
empty match that was skipped, a match cannot end where that one did. -/
theorem next_exists (c : Cursor) : ∃ searches answer, searches ≤ 2 ∧ it.Next c searches answer := by
  -- A search whose match counts if there is one.
  have hcounts : ∀ c : Cursor, (∀ last, c.previous = some last → last < c.pos) →
      ∃ searches answer, searches ≤ 1 ∧ it.Next c searches answer := by
    intro c hprevious
    by_cases inside : c.pos ≤ it.size
    · rcases search : it.look c.pos with _ | m
      · exact ⟨1, none, Nat.le_refl _, .absent inside search⟩
      · have hordered := h.ordered search
        have hcounts : ¬ c.Skips m := by
          rintro ⟨-, hskips⟩
          have hlast := hprevious m.stop hskips
          omega
        exact ⟨1, _, Nat.le_refl _, .found inside search hcounts⟩
    · exact ⟨0, none, Nat.zero_le _, .outside (Nat.not_le.mp inside)⟩
  by_cases inside : c.pos ≤ it.size
  · rcases search : it.look c.pos with _ | m
    · exact ⟨1, none, by decide, .absent inside search⟩
    · by_cases skips : c.Skips m
      · have hlater : ∀ last, c.previous = some last → last < it.behind m := by
          rintro last hlast
          cases skips.2.symm.trans hlast
          rw [Iteration.behind, if_pos skips.1]
          exact h.advances m.stop
        rcases hcounts { c with pos := it.behind m } hlater with ⟨searches, answer, hle, hnext⟩
        exact ⟨searches + 1, answer, Nat.succ_le_succ hle, .skipped inside search skips hnext⟩
      · exact ⟨1, _, by decide, .found inside search skips⟩
  · exact ⟨0, none, Nat.zero_le _, .outside (Nat.not_le.mp inside)⟩

/-- At some time there are no more matches. -/
theorem gives_exists (c : Cursor) : ∃ found, it.Gives c found := by
  -- Every match brings the cursor closer to the end of the text.
  induction hleft : it.size + 1 - c.pos using Nat.strongRecOn generalizing c with
  | ind left ih =>
      rcases next_exists h c with ⟨searches, answer, -, hnext⟩
      rcases answer with _ | ⟨m, after⟩
      · exact ⟨[], .done hnext⟩
      · rcases hnext.found_ordered h with ⟨hinside, hpos, hle, -, -, rfl⟩
        have hbehind := h.behind hle
        rcases ih (it.size + 1 - it.behind m) (by omega) ⟨it.behind m, some m.stop⟩ rfl with
          ⟨rest, hrest⟩
        exact ⟨m :: rest, .more hnext hrest⟩

/-- Every match starts where the first search does or later, and ends within the text. -/
theorem Gives.ordered (hgives : it.Gives c found) :
    ∀ m ∈ found, c.pos ≤ m.start ∧ m.start ≤ m.stop ∧ m.stop ≤ it.size := by
  induction hgives with
  | done => exact List.forall_mem_nil _
  | more next later ih =>
      rcases next.found_ordered h with ⟨-, hpos, hle, hstop, -, rfl⟩
      have hbehind := h.behind hle
      rw [List.forall_mem_cons]
      refine ⟨⟨hpos, hle, hstop⟩, fun m hmem => ?_⟩
      have hm : it.behind _ ≤ m.start ∧ _ := ih m hmem
      exact ⟨by omega, hm.2⟩

/-- Each match follows the one before. -/
theorem Gives.chain (hgives : it.Gives c found) : found.IsChain Match.Before := by
  induction hgives with
  | done => exact .nil
  | more next later ih =>
      cases later with
      | done => exact .singleton _
      | more next' later' =>
          rcases next.found_ordered h with ⟨-, -, hle, -, -, rfl⟩
          rcases next'.found_ordered h with ⟨-, hpos, -, -, hcounts, -⟩
          have hbehind := h.behind hle
          simp only at hpos
          refine .cons_cons ⟨by omega, by omega, fun hsame => hcounts ⟨?_, ?_⟩⟩ ih
          · rw [Match.isEmpty, beq_iff_eq, hsame.1, hsame.2]
          · rw [hsame.2]

/-- There are not more matches than positions from the first search on. -/
theorem Gives.length_le (hgives : it.Gives c found) : found.length ≤ it.size + 1 - c.pos := by
  induction hgives with
  | done => exact Nat.zero_le _
  | more next later ih =>
      rcases next.found_ordered h with ⟨hinside, hpos, hle, -, -, rfl⟩
      have hbehind := h.behind hle
      rw [List.length_cons]
      simp only at ih
      omega

end Ordered

end Iteration

end RegexEngine
