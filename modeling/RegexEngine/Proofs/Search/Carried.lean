import RegexEngine.Proofs.Program.Matching
import RegexEngine.Proofs.Safety.Attempt
import RegexEngine.Proofs.Search.SameText

/-!
# What Attempts Share

An attempt that is one of a search differs in two ways from the same attempt made on its own. The
search has a start, which need not be where the attempt starts; and the attempts before have left
something behind, the counters of the loops and the longest match so far.

The start of the search is seen by one anchor only, and where an empty match is refused. A program
without the anchor runs in the same way wherever the search has started. What the attempts before
have left cannot be told from the verdict, since that is read off the outcomes of the tree. The
longest match is the exception: it is given up for a longer one and kept otherwise, so the verdict
of an attempt is that of the attempt on its own, put together with what was noted before.

## Main definitions

* `Context.startedAt`: The same call, with the search started elsewhere.
* `Program.SearchBlind`: A program without the anchor that sees where the search started.
* `Found.placed`: What a match reports.
* `Placed.longer`, `Placed.merge`: The longer one of two matches.
* `Context.single`: What an attempt answers that is made on its own.

## Theorems

* `run_startedAt`: Where a search started is not seen.
* `comes_merged`, `comes_longest`: The longest match of an attempt with one noted before.
* `attempt_first`, `attempt_longest`: An attempt of a search answers as one on its own.
-/

namespace RegexEngine

namespace Context

variable {ctx : Context} {q : Nat}

/-- The same call, with the search started at another position. -/
def startedAt (ctx : Context) (q : Nat) : Context :=
  { ctx with searchStart := q }

theorem sameText_startedAt : (ctx.startedAt q).SameText ctx :=
  ⟨rfl, rfl, rfl⟩

end Context

/-- A program without the anchor that holds where the search started. -/
def Program.SearchBlind (program : Program) : Prop :=
  ∀ multiline, Instr.leaf (.anchor .searchStart multiline) ∉ program.code

instance (program : Program) : Decidable program.SearchBlind :=
  inferInstanceAs (Decidable (∀ multiline, Instr.leaf (.anchor .searchStart multiline) ∉ _))

/-- Every other test accepts the same wherever the search started. -/
theorem Leaf.accept_startedAt {ctx : Context} {q : Nat} {test : Leaf}
    (h : ∀ multiline, test ≠ .anchor .searchStart multiline) (captures : Array Capture)
    (pos : Nat) : test.accept (ctx.startedAt q) captures pos = test.accept ctx captures pos := by
  cases test with
  | anyChar => rfl
  | anchor kind multiline =>
      cases kind with
      | searchStart => exact absurd rfl (h multiline)
      | _ => rfl
  | _ =>
      exact accept_sameText Context.sameText_startedAt (by simp) (by simp) captures pos

namespace Machine

variable {program : Program} {limits : Limits} {ctx : Context} {q fuel start : Nat}

theorem step_startedAt (hblind : program.SearchBlind) (hempty : ctx.options.findNotEmpty = false)
    (m : Machine) : m.step program limits (ctx.startedAt q) = m.step program limits ctx := by
  rcases hinstr : m.fetch program with _ | instr
  · rw [step, step, hinstr]
  -- The instruction is one of the program, so it is not the anchor.
  have hmem : instr ∈ program.code := Program.mem_of_instrAt hinstr
  have hobey : m.obey program limits (ctx.startedAt q) instr = m.obey program limits ctx instr := by
    cases instr with
    | leaf test =>
        have hother : ∀ multiline, test ≠ .anchor .searchStart multiline := by
          rintro multiline rfl
          exact hblind multiline hmem
        rw [obey, obey, Leaf.accept_startedAt hother]
    | finish =>
        -- The start of the search counts only where an empty match may be refused.
        have hsame : (ctx.startedAt q).options = ctx.options := rfl
        simp only [obey, obeyFinish, hsame, hempty, Bool.false_eq_true, false_and]
    | _ => rfl
  rw [step, step, hinstr]
  simp only [hobey]

/-- Where a search started is not seen by an attempt. -/
theorem run_startedAt (hblind : program.SearchBlind) (hempty : ctx.options.findNotEmpty = false)
    (m : Machine) : run program limits (ctx.startedAt q) fuel m = run program limits ctx fuel m :=
  run_congr (fun state _ => step_startedAt hblind hempty state) fuel

theorem attempt_startedAt (hblind : program.SearchBlind)
    (hempty : ctx.options.findNotEmpty = false) (m : Machine) :
    m.attempt program limits (ctx.startedAt q) fuel start =
      m.attempt program limits ctx fuel start :=
  run_startedAt hblind hempty _

end Machine

/-- Where a match starts, and the place where it ends. -/
abbrev Placed := Nat × Place

namespace Placed

/-- The length of a match. -/
def length (placed : Placed) : Nat :=
  placed.2.pos - placed.1

/-- The longer one of a match and the longest match so far, which wins a tie. -/
def longer (best : Option Placed) (placed : Placed) : Option Placed :=
  match best with
  | none => some placed
  | some best => if best.length < placed.length then some placed else some best

/-- The longer one of two matches, of which there need be none. The first one wins a tie. -/
def merge (best : Option Placed) : Option Placed → Option Placed
  | none => best
  | some placed => longer best placed

@[simp] theorem merge_none_left (placed : Option Placed) : merge none placed = placed := by
  cases placed with
  | none => rfl
  | some placed => rfl

theorem longer_eq_some (best placed : Placed) :
    longer (some best) placed = some (if best.length < placed.length then placed else best) := by
  rw [longer]
  split
  · rfl
  · rfl

theorem merge_longer (best : Option Placed) (placed : Placed) (later : Option Placed) :
    merge (longer best placed) later = merge best (merge (some placed) later) := by
  cases later with
  | none => rfl
  | some later =>
      cases best with
      | none => rw [merge_none_left]; rfl
      | some best =>
          simp only [merge, longer_eq_some]
          -- The longest of the three is kept, whichever two are compared first.
          by_cases hplaced : best.length < placed.length
          · by_cases hlater : placed.length < later.length
            · have hbest : best.length < later.length := by omega
              simp only [hplaced, hlater, hbest, if_true]
            · simp only [hplaced, hlater, if_true, if_false]
          · by_cases hlater : placed.length < later.length
            · simp only [hplaced, hlater, if_true, if_false]
            · have hbest : ¬ best.length < later.length := by omega
              simp only [hplaced, hlater, hbest, if_false]

theorem merge_assoc (best placed later : Option Placed) :
    merge (merge best placed) later = merge best (merge placed later) := by
  cases placed with
  | none => rw [merge_none_left]; rfl
  | some placed => exact merge_longer best placed later

/-- Noting several matches adds the longest of them to what was noted before. -/
theorem foldl_longer (best : Option Placed) (found : List Placed) :
    found.foldl longer best = merge best (found.foldl longer none) := by
  induction found generalizing best with
  | nil => rfl
  | cons placed rest ih =>
      rw [List.foldl_cons, List.foldl_cons, ih, ih (longer none placed)]
      exact merge_longer best placed _

/-- Among matches with a common start, the longest is the one that ends furthest on. -/
theorem foldl_longer_start {start : Nat} {places : List Place} (best : Option Place)
    (hbest : ∀ place, best = some place → start ≤ place.pos)
    (hplaces : ∀ place ∈ places, start ≤ place.pos) :
    (places.map (Prod.mk start)).foldl longer (best.map (Prod.mk start)) =
      (places.foldl Place.further best).map (Prod.mk start) := by
  induction places generalizing best with
  | nil => rfl
  | cons place rest ih =>
      rw [List.forall_mem_cons] at hplaces
      have hstep : longer (best.map (Prod.mk start)) (start, place) =
          (Place.further best place).map (Prod.mk start) := by
        cases best with
        | none => rfl
        | some best =>
            have hle := hbest best rfl
            -- From a common start, the longer match is the one that ends further on.
            have hiff : Placed.length (start, best) < Placed.length (start, place) ↔
                best.pos < place.pos := by
              simp only [Placed.length]
              omega
            simp only [Option.map_some, longer, Place.further, hiff]
            split
            · rfl
            · rfl
      have hnext : ∀ other, Place.further best place = some other → start ≤ other.pos := by
        intro other hother
        cases best with
        | none =>
            cases hother
            exact hplaces.1
        | some best =>
            rw [Place.further] at hother
            split at hother
            · cases hother
              exact hplaces.1
            · cases hother
              exact hbest _ rfl
      rw [List.map_cons, List.foldl_cons, List.foldl_cons, hstep]
      exact ih _ hnext hplaces.2

end Placed

/-- The start of a match, and the place where it ends. -/
def Found.placed (found : Found) : Placed :=
  (found.start, found.place)

theorem Found.orLonger_placed (best : Option Found) (found : Found) :
    (found.orLonger best).map placed = Placed.longer (best.map placed) found.placed := by
  cases best with
  | none => rfl
  | some best =>
      have hiff : best.length < found.length ↔ best.placed.length < found.placed.length := Iff.rfl
      simp only [orLonger, Option.map_some, Placed.longer, hiff]
      split
      · rfl
      · rfl

/-- If the longest match is wanted, an attempt has no verdict but that no choice is left, and the
match that is noted is the longest one of all that it came to and that were not refused, and the one
that was noted before. -/
theorem Verdict.comes_admitted {ctx : Context} {start : Nat} {best : Option Found}
    {places : List Place} {verdict : Verdict} (h : Comes ctx start best places verdict)
    (hlongest : ctx.options.findLongest = true) :
    ∃ after, verdict = .exhausted after ∧ after.best.map Found.placed =
      ((places.filter fun place => ¬ ctx.Refuses start place.pos).map (Prod.mk start)).foldl
        Placed.longer (best.map Found.placed) := by
  -- One outcome is refused or noted after the other, until none is left.
  induction h with
  | exhausted m => exact ⟨m, rfl, rfl⟩
  | refused refuses _ ih =>
      rw [List.filter_cons_of_neg (by simpa using refuses)]
      exact ih
  | @noted best found rest verdict admits _ starts later ih =>
      have hplaced : found.placed = (start, found.place) := by rw [Found.placed, starts]
      have hadmits : ¬ ctx.Refuses start found.place.pos := admits
      rw [List.filter_cons_of_pos (by simpa using hadmits), List.map_cons, List.foldl_cons,
        ← hplaced, ← Found.orLonger_placed]
      exact ih
  | matched _ shortest =>
      rw [shortest] at hlongest
      cases hlongest

/-- From a common start, that is the one that ends furthest on, put together with what was noted
before. -/
theorem Verdict.comes_merged {ctx : Context} {start : Nat} {best : Option Found}
    {places : List Place} {verdict : Verdict} (h : Comes ctx start best places verdict)
    (hlongest : ctx.options.findLongest = true) (hahead : ∀ place ∈ places, start ≤ place.pos) :
    ∃ after, verdict = .exhausted after ∧ after.best.map Found.placed =
      Placed.merge (best.map Found.placed)
        ((Place.furthest (places.filter fun place => ¬ ctx.Refuses start place.pos)).map
          (Prod.mk start)) := by
  rcases comes_admitted h hlongest with ⟨after, hafter, hbest⟩
  have hadmitted : ∀ place ∈ places.filter fun place => ¬ ctx.Refuses start place.pos,
      start ≤ place.pos :=
    fun place hplace => hahead place (List.mem_of_mem_filter hplace)
  refine ⟨after, hafter, ?_⟩
  rw [hbest, Placed.foldl_longer]
  exact congrArg _ (Placed.foldl_longer_start none (by rintro place ⟨⟩) hadmitted)

/-- Where nothing is refused, it is the furthest one of all of them. -/
theorem Verdict.comes_longest {ctx : Context} {start : Nat} {best : Option Found}
    {places : List Place} {verdict : Verdict} (h : Comes ctx start best places verdict)
    (hadmits : ∀ pos, ¬ ctx.Refuses start pos) (hlongest : ctx.options.findLongest = true)
    (hahead : ∀ place ∈ places, start ≤ place.pos) :
    ∃ after, verdict = .exhausted after ∧ after.best.map Found.placed =
      Placed.merge (best.map Found.placed) ((Place.furthest places).map (Prod.mk start)) := by
  have hall : (places.filter fun place => ¬ ctx.Refuses start place.pos) = places :=
    List.filter_eq_self.mpr fun place _ => decide_eq_true (hadmits place.pos)
  have hcomes := comes_merged h hlongest hahead
  rw [hall] at hcomes
  exact hcomes

/-- If the first match is wanted, an attempt without one leaves what was noted before. -/
theorem Verdict.Comes.best_of_exhausted {ctx : Context} {start : Nat} {best : Option Found}
    {places : List Place} {verdict : Verdict} (h : Comes ctx start best places verdict)
    (hadmits : ∀ pos, ¬ ctx.Refuses start pos) (hshortest : ctx.options.findLongest = false)
    {after : Machine} (hafter : verdict = .exhausted after) : after.best = best := by
  cases h with
  | exhausted m =>
      cases hafter
      rfl
  | refused refuses => exact absurd refuses (hadmits _)
  | noted _ longest =>
      rw [longest] at hshortest
      cases hshortest
  | matched => cases hafter

/-- What an attempt at a position answers that is made on its own. -/
def Context.single (ctx : Context) (tree : Tree) (q : Nat) : Option Placed :=
  (ctx.choose (tree.outcomes ctx (.fresh q))).map (Prod.mk q)

theorem Context.start_of_single {ctx : Context} {tree : Tree} {q : Nat} {placed : Placed}
    (h : ctx.single tree q = some placed) : placed.1 = q := by
  rcases Option.map_eq_some_iff.mp h with ⟨place, -, rfl⟩
  rfl

namespace Program.Means

variable {program : Program} {tree : Tree} {ctx : Context} {limits : Limits} {m : Machine}
  {fuel start : Nat} {verdict : Verdict}

/-- An attempt that has a verdict has come to it by the outcomes of the tree, however many steps it
was allowed to take. -/
theorem comes_of_attempt (h : program.Means tree) (hencoding : ctx.encoding = program.encoding)
    (hlimits : limits.Off) (hfits : m.registers.Fits program)
    (hattempt : m.attempt program limits ctx fuel start = .ok verdict) :
    Verdict.Comes ctx start m.best (tree.outcomes ctx (.fresh start)) verdict := by
  rcases h.attempt_comes hencoding hfits limits start with ⟨bound, hbound⟩
  -- With more steps, as many as the bound asks for, the verdict stays the same.
  have hmore : m.attempt program limits ctx (fuel + bound) start = .ok verdict := by
    have hends : m.attempt program limits ctx fuel start ≠ .error .outOfFuel := by
      rw [hattempt]
      rintro ⟨⟩
    exact (Machine.run_add bound hends).trans hattempt
  rcases hbound (fuel + bound) (Nat.le_add_left bound fuel) with
    ⟨cause, hraises, -⟩ | ⟨other, hother, hcomes⟩
  · exact absurd hraises (hlimits.not_raises cause)
  · obtain rfl : other = verdict := Except.ok.inj (hother.symm.trans hmore)
    exact hcomes

theorem not_refuses (hempty : ctx.options.findNotEmpty = false) (pos : Nat) :
    ¬ ctx.Refuses start pos := by
  rintro ⟨hrefuses, -⟩
  rw [hempty] at hrefuses
  cases hrefuses

/-- An attempt of a search that takes the first match answers as one on its own. -/
theorem attempt_first (h : program.Means tree) (hencoding : ctx.encoding = program.encoding)
    (hlimits : limits.Off) (hempty : ctx.options.findNotEmpty = false)
    (hshortest : ctx.options.findLongest = false) (hfits : m.registers.Fits program)
    (hbest : m.best = none)
    (hattempt : m.attempt program limits ctx fuel start = .ok verdict) :
    (matchOf verdict).map Found.placed = ctx.single tree start ∧
      ∀ after, verdict = .exhausted after → after.best = none := by
  have hcomes := h.comes_of_attempt hencoding hlimits hfits hattempt
  rcases Verdict.comes_first hcomes hbest (not_refuses hempty) hshortest with ⟨hplace, hstart⟩
  constructor
  · rw [Context.single, Context.choose, hshortest, if_neg Bool.false_ne_true, ← hplace,
      Option.map_map]
    rcases hfound : matchOf verdict with _ | found
    · rfl
    · rw [Option.map_some, Option.map_some, Found.placed, hstart found hfound]
      rfl
  · intro after hafter
    exact (hcomes.best_of_exhausted (not_refuses hempty) hshortest hafter).trans hbest

/-- An attempt of a search for the longest match adds what it would answer on its own to what was
noted before. -/
theorem attempt_longest (h : program.Means tree) (hencoding : ctx.encoding = program.encoding)
    (hlimits : limits.Off) (hempty : ctx.options.findNotEmpty = false)
    (hlongest : ctx.options.findLongest = true) (hfits : m.registers.Fits program)
    (hattempt : m.attempt program limits ctx fuel start = .ok verdict) :
    ∃ after, verdict = .exhausted after ∧ after.best.map Found.placed =
      Placed.merge (m.best.map Found.placed) (ctx.single tree start) := by
  have hcomes := h.comes_of_attempt hencoding hlimits hfits hattempt
  have hahead : ∀ place ∈ tree.outcomes ctx (.fresh start), start ≤ place.pos :=
    fun place hplace => (Node.outcomes_advances ctx tree (.fresh start) place hplace).le
  rcases Verdict.comes_longest hcomes (not_refuses hempty) hlongest hahead with
    ⟨after, hafter, hbest⟩
  refine ⟨after, hafter, ?_⟩
  rw [hbest, Context.single, Context.choose, hlongest, if_pos rfl]

end Program.Means

end RegexEngine
