import RegexEngine.Proofs.Search.Answer

/-!
# Stricter Limits

Two runs of one program, one under limits that are as strict as those of the other or stricter, go
in lockstep until the stricter one meets a limit. Nothing else can tell them apart: the counters and
the stack are the same in both, so what is over the greater bound is over the smaller one as well.
When the stricter run does meet a limit, nothing of it is left but the error, the longest match that
it had noted included.

Each function of the matcher has one lemma here, and each lemma cites the one before: falling back,
a step, a run, a scan, a search, a call. Nothing is assumed of the program.

## Main definitions

* `AbortsOr`: A result that is the failure of a limit, or what another result is.

## Theorems

* `step_atMost`, `run_atMost`, `scan_atMost`: A step, a run and a scan.
* `searchWithin_atMost`, `matchWithin_atMost`: The calls, with the regions that they leave.
-/

namespace RegexEngine

/-- A result under limits that is the failure of one of them, or what another result is. -/
def AbortsOr {ε α : Type} (limits : Limits) (fail : Cause → ε) (limited full : Except ε α) : Prop :=
  (∃ cause, limits.Raises cause ∧ limited = .error (fail cause)) ∨ limited = full

/-- What is over the greater bound is over the smaller one. -/
theorem Limits.Bounds.exceeded {low high n : Nat} (h : Limits.Bounds low high)
    (hover : high ≠ 0 ∧ high < n) : low ≠ 0 ∧ low < n := by
  rcases h with hnone | ⟨hne, hle⟩
  · exact absurd hnone hover.1
  · exact ⟨hne, Nat.lt_of_le_of_lt hle hover.2⟩

variable {low high : Limits} {program : Program} {ctx : Context}

namespace Machine

/-- Falling back under stricter limits does the same, or meets a limit on retries. -/
theorem fallBack_atMost (h : low.AtMost high) (m : Machine) :
    AbortsOr low id (m.fallBack low) (m.fallBack high) := by
  rw [fallBack, fallBack]
  rcases popChoice m.stack m.registers with ⟨pc, pos, regs, stack⟩ | regs
  · simp only
    -- Under the stricter limits either counter may be over; if none is, none is under the others.
    by_cases hmatch : low.retriesPerMatch ≠ 0 ∧ low.retriesPerMatch < m.retries + 1
    · rw [if_pos hmatch]
      exact Or.inl ⟨_, Or.inr (Or.inl ⟨rfl, hmatch.1⟩), rfl⟩
    rw [if_neg hmatch, if_neg fun hover => hmatch (h.retriesPerMatch.exceeded hover)]
    by_cases hsearch : low.retriesPerSearch ≠ 0 ∧ low.retriesPerSearch < m.searchRetries + 1
    · rw [if_pos hsearch]
      exact Or.inl ⟨_, Or.inr (Or.inr ⟨rfl, hsearch.1⟩), rfl⟩
    rw [if_neg hsearch, if_neg fun hover => hsearch (h.retriesPerSearch.exceeded hover)]
    exact Or.inr rfl
  · exact Or.inr rfl

/-- A step under stricter limits does the same, or meets a limit. -/
theorem step_atMost (h : low.AtMost high) (m : Machine) :
    AbortsOr low id (m.step program low ctx) (m.step program high ctx) := by
  rcases hinstr : m.fetch program with _ | instr
  · refine Or.inr ?_
    rw [step, step, hinstr]
  rcases obey_atMost h m program ctx instr with ⟨hon, hstops⟩ | hsame
  · exact Or.inl ⟨_, Or.inl ⟨rfl, hon⟩, step_error hinstr hstops⟩
  rcases hobey : m.obey program high ctx instr with cause | effect
  · exact Or.inr ((step_error hinstr (hsame.trans hobey)).trans (step_error hinstr hobey).symm)
  · rw [step_effect hinstr (hsame.trans hobey), step_effect hinstr hobey]
    cases effect with
    | goOn | accept => exact Or.inr rfl
    | fallBack fallen => exact fallBack_atMost h fallen

/-- So does a run. -/
theorem run_atMost (h : low.AtMost high) (fuel : Nat) (m : Machine) :
    AbortsOr low Interrupt.failure (run program low ctx fuel m) (run program high ctx fuel m) := by
  induction fuel generalizing m with
  | zero => exact Or.inr rfl
  | succ fuel ih =>
      rw [run_succ, run_succ]
      rcases step_atMost h m with ⟨cause, hraises, hstops⟩ | hsame
      · exact Or.inl ⟨cause, hraises, by rw [hstops]; rfl⟩
      rw [hsame]
      rcases m.step program high ctx with cause | status
      · exact Or.inr rfl
      cases status with
      | running after => exact ih after
      | matched | exhausted => exact Or.inr rfl

end Machine

namespace Program

/-- So does a scan. A limit that an attempt meets ends the scan. -/
theorem scan_atMost (h : low.AtMost high) (fuel last count : Nat) (m : Machine) (pos : Nat) :
    AbortsOr low Interrupt.failure (program.scan low ctx fuel last count m pos)
      (program.scan high ctx fuel last count m pos) := by
  -- By induction on the count, with the matcher and the position of the two scans the same at every
  -- attempt.
  induction count generalizing m pos with
  | zero => exact Or.inr rfl
  | succ count ih =>
      rw [scan, scan]
      rcases ctx.nextOccurrence program.hints.literal pos with _ | start
      · exact Or.inr rfl
      have hattempt : AbortsOr low Interrupt.failure (m.attempt program low ctx fuel start)
          (m.attempt program high ctx fuel start) := Machine.run_atMost h fuel (m.restart start)
      simp only
      -- The attempt runs into a limit, and so does the scan.
      rcases hattempt with ⟨cause, hraises, hstops⟩ | hsame
      · rw [hstops]
        exact Or.inl ⟨cause, hraises, rfl⟩
      rw [hsame]
      rcases m.attempt program high ctx fuel start with interrupt | ⟨after⟩ | ⟨after⟩
      · exact Or.inr rfl
      · exact Or.inr rfl
      · -- The matchers that the attempts leave are the same, so the scans go on alike.
        simp only
        by_cases hlast : last ≤ start ∨
          ctx.range < start + ctx.encoding.charLength ctx.subject start
        · rw [if_pos hlast, if_pos hlast]
          exact Or.inr rfl
        · rw [if_neg hlast, if_neg hlast]
          exact ih after _

/-- What is made of a result keeps its failure. -/
theorem abortsOr_map {α β : Type} {limited full : Except Interrupt α} (f : α → β)
    (h : AbortsOr low Interrupt.failure limited full) :
    AbortsOr low Interrupt.failure (limited.map f) (full.map f) := by
  rcases h with ⟨cause, hraises, rfl⟩ | rfl
  · exact Or.inl ⟨cause, hraises, rfl⟩
  · exact Or.inr rfl

/-- The match of a search. -/
theorem findFrom_atMost (h : low.AtMost high) (fuel : Nat) :
    AbortsOr low Interrupt.failure (program.findFrom low ctx fuel)
      (program.findFrom high ctx fuel) := by
  rw [findFrom, findFrom]
  rcases program.lastStart ctx with _ | last
  · exact Or.inr rfl
  · exact abortsOr_map matchOf (scan_atMost h ..)

/-- The match of a single attempt. -/
theorem findAt_atMost (h : low.AtMost high) (fuel : Nat) :
    AbortsOr low Interrupt.failure (program.findAt low ctx fuel) (program.findAt high ctx fuel) :=
  abortsOr_map matchOf (Machine.run_atMost h fuel _)

variable {given : Options} {region : Region} {subject : Array UInt8} {start range pos fuel : Nat}

/-- A call whose attempts meet a limit answers with the error of it and clears the region. -/
theorem report_atMost {α : Type} {answer : Found → α}
    {limited full : Except Interrupt (Option Found)}
    (h : AbortsOr low Interrupt.failure limited full) :
    (∃ cause, low.Raises cause ∧
        report region answer limited = (.error (Error.ofCause cause), region.clear)) ∨
      report region answer limited = report region answer full := by
  rcases h with ⟨cause, hraises, rfl⟩ | rfl
  · exact Or.inl ⟨cause, hraises, rfl⟩
  · exact Or.inr rfl

/-- A search under stricter limits is the same, or meets a limit. -/
theorem searchWithin_atMost (h : low.AtMost high) :
    (∃ cause, low.Raises cause ∧
        program.searchWithin fuel subject start range region given low =
          (.error (Error.ofCause cause), region.clear)) ∨
      program.searchWithin fuel subject start range region given low =
        program.searchWithin fuel subject start range region given high := by
  rcases program.searchWithin_cases subject start range region given with ⟨e, hrefused⟩ | hreports
  · rw [hrefused, hrefused]
    exact Or.inr rfl
  · rw [hreports, hreports]
    exact report_atMost (findFrom_atMost h fuel)

/-- So is a match at a single position. -/
theorem matchWithin_atMost (h : low.AtMost high) :
    (∃ cause, low.Raises cause ∧
        program.matchWithin fuel subject pos region given low =
          (.error (Error.ofCause cause), region.clear)) ∨
      program.matchWithin fuel subject pos region given low =
        program.matchWithin fuel subject pos region given high := by
  rcases program.matchWithin_cases subject pos region given with ⟨e, hrefused⟩ | hreports
  · rw [hrefused, hrefused]
    exact Or.inr rfl
  · rw [hreports, hreports]
    exact report_atMost (findAt_atMost h fuel)

end Program

end RegexEngine
