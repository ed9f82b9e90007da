import RegexEngine.Proofs.Limited.Lockstep

/-!
# What Limits Do

Limits abort a call and do nothing else. A call that has a result without limits has the same result
under limits, or the error of one of them, and raising a limit changes no result.

When the error comes can be told from the run without limits. Each attempt of that run resumes a
number of choices. A limit on the retries of a match is met if it is less than one of these numbers,
and a limit on the retries of a search if it is less than their sum. The numbers are counted here
along the run, apart from the counters of the matcher; that the matcher counts the same is part of
what is proved.

A limit is looked at whenever a choice is about to be resumed. An attempt of the run under limits
therefore stops at the first choice that is one too many, and until then it is the attempt of the
run without limits. A scan hands the number of retries of the search from one attempt to the next,
and begins each attempt with no retries of its own.

## Main definitions

* `Machine.resumes`: The next step resumes a choice.
* `Machine.resumed`: How many choices a run resumes.
* `Program.searchResumed`, `Program.matchResumed`: How many each attempt of a call resumes.
* `Limits.Exceeded`: A limit on retries is less than what attempts need.
* `OnlyAborts`: What limits do to a call.

## Theorems

* `run_retries`, `scan_retries`: A run and a scan err exactly if a limit on retries is exceeded.
* `search_limited`: Limits only abort a search or a match.
-/

namespace RegexEngine

namespace Limits

/-- A limit on retries is less than the number of an attempt, or than the sum over all attempts and
what was counted before. -/
def Exceeded (limits : Limits) (before : Nat) (resumed : List Nat) : Prop :=
  (limits.retriesPerMatch ≠ 0 ∧ ∃ n ∈ resumed, limits.retriesPerMatch < n) ∨
  (limits.retriesPerSearch ≠ 0 ∧ limits.retriesPerSearch < resumed.foldl (· + ·) before)

end Limits

namespace Machine

/-- The next step, if no limit is met, resumes a choice. -/
def resumes (program : Program) (ctx : Context) (m : Machine) : Bool :=
  match m.fetch program with
  | none => false
  | some instr =>
    match m.obey program Limits.off ctx instr with
    | .ok (.fallBack fallen) =>
      match popChoice fallen.stack fallen.registers with
      | .resume .. => true
      | .bottom _ => false
    | _ => false

/-- How many choices are resumed in at most `fuel` steps without limits. -/
def resumed (program : Program) (ctx : Context) : (fuel : Nat) → Machine → Nat
  | 0, _ => 0
  | fuel + 1, m =>
    match m.step program Limits.off ctx with
    | .ok (.running after) => (m.resumes program ctx).toNat + resumed program ctx fuel after
    | _ => 0

end Machine

namespace Program

/-- How many choices each attempt of a scan without limits resumes. -/
def scanResumed (program : Program) (ctx : Context) (fuel last : Nat) :
    (count : Nat) → Machine → (pos : Nat) → List Nat
  | 0, _, _ => []
  | count + 1, m, pos =>
    match ctx.nextOccurrence program.hints.literal pos with
    | none => []
    | some start =>
      (m.restart start).resumed program ctx fuel ::
        match m.attempt program Limits.off ctx fuel start with
        | .ok (.exhausted after) =>
          let next := start + ctx.encoding.charLength ctx.subject start
          if last ≤ start ∨ ctx.range < next then []
          else scanResumed program ctx fuel last count after next
        | _ => []

/-- How many choices each attempt of a search without limits resumes. -/
def searchResumed (program : Program) (ctx : Context) (fuel : Nat) : List Nat :=
  match program.lastStart ctx with
  | none => []
  | some last =>
    program.scanResumed ctx fuel last (ctx.range + 1 - ctx.searchStart)
      (Machine.initial program ctx.searchStart) ctx.searchStart

/-- How many choices the only attempt of a match resumes. -/
def matchResumed (program : Program) (ctx : Context) (fuel : Nat) : List Nat :=
  [((Machine.initial program ctx.searchStart).restart ctx.searchStart).resumed program ctx fuel]

end Program

variable {limits : Limits} {program : Program} {ctx : Context} {fuel : Nat}

/-- The matcher on which an instruction had its effect. -/
def Effect.machine : Effect → Machine
  | goOn m | fallBack m | accept m => m

namespace Machine

/-- One of the counters of a matcher is over a limit. -/
def Over (limits : Limits) (retries searchRetries : Nat) : Prop :=
  (limits.retriesPerMatch ≠ 0 ∧ limits.retriesPerMatch < retries) ∨
  (limits.retriesPerSearch ≠ 0 ∧ limits.retriesPerSearch < searchRetries)

theorem Over.mono {r s r' s' : Nat} (h : Over limits r s) (hr : r ≤ r') (hs : s ≤ s') :
    Over limits r' s' := by
  rcases h with ⟨hne, hlt⟩ | ⟨hne, hlt⟩
  · exact Or.inl ⟨hne, by omega⟩
  · exact Or.inr ⟨hne, by omega⟩

variable {m : Machine}

/-- No instruction counts anything. -/
theorem obey_counts {instr : Instr} {effect : Effect}
    (hobey : m.obey program limits ctx instr = .ok effect) :
    effect.machine.retries = m.retries ∧ effect.machine.searchRetries = m.searchRetries := by
  by_cases hfinish : instr = .finish
  · subst hfinish
    simp only [obey, obeyFinish, Except.ok.injEq] at hobey
    subst hobey
    split
    · exact ⟨rfl, rfl⟩
    · split
      · rw [noteBest_eq]
        exact ⟨rfl, rfl⟩
      · exact ⟨rfl, rfl⟩
  · rcases obey_effectOn hfinish hobey with ⟨d, rfl⟩
    cases d <;> exact ⟨rfl, rfl⟩

/-- With no limit on the stack, a step that succeeds without limits succeeds under limits, but for a
choice that is one too many. -/
theorem step_retries (hstack : limits.stackEntries = 0) {status : Status}
    (h : m.step program Limits.off ctx = .ok status) :
    (m.resumes program ctx = false ∧ m.step program limits ctx = .ok status ∧
        status.machine.retries = m.retries ∧ status.machine.searchRetries = m.searchRetries) ∨
      (m.resumes program ctx = true ∧ ∃ after, status = .running after ∧
        after.retries = m.retries + 1 ∧ after.searchRetries = m.searchRetries + 1 ∧
        (Over limits after.retries after.searchRetries ∧
            (∃ cause, m.step program limits ctx = .error cause) ∨
          ¬ Over limits after.retries after.searchRetries ∧
            m.step program limits ctx = .ok status)) := by
  rcases step_ok h with ⟨instr, effect, hinstr, hobey, hstatus⟩
  have hlimited : m.obey program limits ctx instr = .ok effect := by
    rcases obey_stopsOr m program limits ctx instr with ⟨hon, -⟩ | hsame
    · exact absurd hstack hon
    · exact hsame.trans hobey
  rcases obey_counts hobey with ⟨hretries, hsearch⟩
  rw [step_effect hinstr hlimited, resumes, hinstr]
  simp only [hobey]
  cases effect with
  | goOn gone | accept ended =>
      cases hstatus
      exact Or.inl ⟨rfl, rfl, hretries, hsearch⟩
  | fallBack fallen =>
      simp only [Effect.status, fallBack] at hstatus ⊢
      simp only [Effect.machine] at hretries hsearch
      rcases hpop : popChoice fallen.stack fallen.registers with ⟨pc, pos, regs, stack⟩ | regs
      · rw [hpop] at hstatus
        cases hstatus
        refine Or.inr ⟨rfl, _, rfl, by rw [← hretries], by rw [← hsearch], ?_⟩
        -- The limits are looked at in this order, and either stops the matcher.
        simp only
        by_cases hmatch : limits.retriesPerMatch ≠ 0 ∧ limits.retriesPerMatch < fallen.retries + 1
        · rw [if_pos hmatch]
          exact Or.inl ⟨Or.inl hmatch, _, rfl⟩
        rw [if_neg hmatch]
        by_cases hcall : limits.retriesPerSearch ≠ 0 ∧
            limits.retriesPerSearch < fallen.searchRetries + 1
        · rw [if_pos hcall]
          exact Or.inl ⟨Or.inr hcall, _, rfl⟩
        rw [if_neg hcall]
        exact Or.inr ⟨by rintro (hover | hover) <;> contradiction, rfl⟩
      · rw [hpop] at hstatus
        cases hstatus
        exact Or.inl ⟨rfl, rfl, hretries, hsearch⟩

/-- A run that has a verdict goes on, or has it at once. -/
theorem run_steps {verdict : Verdict}
    (h : run program limits ctx (fuel + 1) m = .ok verdict) :
    (∃ after, m.step program limits ctx = .ok (.running after) ∧
        run program limits ctx fuel after = .ok verdict) ∨
      m.step program limits ctx = .ok verdict.status := by
  rw [run_succ] at h
  rcases hstep : m.step program limits ctx with cause | status
  · rw [hstep] at h
    cases h
  · rw [hstep] at h
    cases status with
    | running after => exact Or.inl ⟨after, rfl, h⟩
    | matched after | exhausted after =>
        cases h
        exact Or.inr rfl

theorem resumed_running {after : Machine}
    (hstep : m.step program Limits.off ctx = .ok (.running after)) :
    m.resumed program ctx (fuel + 1) =
      (m.resumes program ctx).toNat + after.resumed program ctx fuel := by
  simp only [resumed, hstep]

theorem resumed_ended {verdict : Verdict}
    (hstep : m.step program Limits.off ctx = .ok verdict.status) :
    m.resumed program ctx (fuel + 1) = 0 := by
  cases verdict <;> simp only [resumed, hstep, Verdict.status]

/-- The matcher counts the choices that a run resumes. -/
theorem run_counts {verdict : Verdict} (h : run program Limits.off ctx fuel m = .ok verdict) :
    verdict.status.machine.searchRetries = m.searchRetries + m.resumed program ctx fuel := by
  induction fuel generalizing m with
  | zero => cases h
  | succ fuel ih =>
      rcases run_steps h with ⟨after, hstep, hrest⟩ | hstep
      · rw [resumed_running hstep, ih hrest]
        rcases @step_retries Limits.off program ctx m rfl _ hstep with ⟨hgoes, -, -, hsearch⟩ |
          ⟨hresumes, other, heq, -, hsearch, -⟩
        · rw [hgoes, Bool.toNat_false, Nat.zero_add]
          exact congrArg (· + _) hsearch
        · cases heq
          rw [hresumes, hsearch, Bool.toNat_true, Nat.add_assoc]
      · rw [resumed_ended hstep]
        rcases @step_retries Limits.off program ctx m rfl _ hstep with ⟨-, -, -, hsearch⟩ |
          ⟨-, after, heq, -⟩
        · exact hsearch
        · cases verdict <;> cases heq

/-- With no limit on the stack, a run that has a verdict without limits has the same one under
limits, unless one is less than what the counters come to. -/
theorem run_retries (hstack : limits.stackEntries = 0) {verdict : Verdict}
    (hover : ¬ Over limits m.retries m.searchRetries)
    (h : run program Limits.off ctx fuel m = .ok verdict) :
    let resumed := m.resumed program ctx fuel
    Over limits (m.retries + resumed) (m.searchRetries + resumed) ∧
        (∃ cause, run program limits ctx fuel m = .error (.failure cause)) ∨
      ¬ Over limits (m.retries + resumed) (m.searchRetries + resumed) ∧
        run program limits ctx fuel m = .ok verdict := by
  induction fuel generalizing m with
  | zero => cases h
  | succ fuel ih =>
      simp only
      rw [run_succ]
      rcases run_steps h with ⟨after, hstep, hrest⟩ | hstep
      · rw [resumed_running hstep]
        rcases step_retries hstack hstep with ⟨hgoes, hsame, hretries, hsearch⟩ |
          ⟨hresumes, other, heq, hretries, hsearch, hstops⟩
        · simp only [Status.machine] at hretries hsearch
          rw [hsame, hgoes, Bool.toNat_false, Nat.zero_add, ← hretries, ← hsearch]
          exact ih (by rwa [hretries, hsearch]) hrest
        · cases heq
          -- The matcher has counted the choice that is resumed before the rest of the run.
          rw [hresumes, Bool.toNat_true, ← Nat.add_assoc, ← Nat.add_assoc, ← hretries, ← hsearch]
          rcases hstops with ⟨hover, cause, hfails⟩ | ⟨hover, hsame⟩
          · rw [hfails]
            exact Or.inl ⟨hover.mono (by omega) (by omega), cause, rfl⟩
          · rw [hsame]
            exact ih hover hrest
      · rw [resumed_ended hstep]
        rcases step_retries hstack hstep with ⟨-, hsame, -⟩ | ⟨-, after, heq, -⟩
        · rw [hsame]
          exact Or.inr ⟨hover, by cases verdict <;> rfl⟩
        · cases verdict <;> cases heq

/-- An attempt begins with no retries of its own, and with those of the search. -/
theorem attempt_retries (hstack : limits.stackEntries = 0) {start : Nat} {verdict : Verdict}
    (hover : ¬ Over limits 0 m.searchRetries)
    (h : m.attempt program Limits.off ctx fuel start = .ok verdict) :
    let resumed := (m.restart start).resumed program ctx fuel
    verdict.status.machine.searchRetries = m.searchRetries + resumed ∧
      (Over limits resumed (m.searchRetries + resumed) ∧
          (∃ cause, m.attempt program limits ctx fuel start = .error (.failure cause)) ∨
        ¬ Over limits resumed (m.searchRetries + resumed) ∧
          m.attempt program limits ctx fuel start = .ok verdict) := by
  have hretries : (m.restart start).retries = 0 := rfl
  have hsearch : (m.restart start).searchRetries = m.searchRetries := rfl
  have hrun := run_retries hstack (by rwa [hretries, hsearch]) h
  simp only [hretries, hsearch, Nat.zero_add] at hrun
  exact ⟨run_counts h, hrun⟩

end Machine

namespace Program

/-- The first attempt of a scan exceeds a limit, or those after it do. -/
theorem exceeded_cons {before n : Nat} {rest : List Nat}
    (hover : ¬ Machine.Over limits n (before + n)) :
    limits.Exceeded before (n :: rest) ↔ limits.Exceeded (before + n) rest := by
  simp only [Machine.Over, not_or, not_and, Nat.not_lt] at hover
  simp only [Limits.Exceeded, List.mem_cons, exists_eq_or_imp, List.foldl_cons]
  constructor
  · rintro (⟨hne, hfirst | hlater⟩ | hsearch)
    · exact absurd hfirst (by have := hover.1 hne; omega)
    · exact Or.inl ⟨hne, hlater⟩
    · exact Or.inr hsearch
  · rintro (⟨hne, hlater⟩ | hsearch)
    · exact Or.inl ⟨hne, Or.inr hlater⟩
    · exact Or.inr hsearch

/-- No attempts exceed nothing that is not exceeded already. -/
theorem not_exceeded_nil {before : Nat} (h : limits.Exceeded before []) :
    Machine.Over limits 0 before := by
  rcases h with ⟨-, n, hmem, -⟩ | hsearch
  · cases hmem
  · exact Or.inr hsearch

theorem not_over_zero (limits : Limits) : ¬ Machine.Over limits 0 0 := by
  rintro (⟨-, hlt⟩ | ⟨-, hlt⟩)
  · exact Nat.not_lt_zero _ hlt
  · exact Nat.not_lt_zero _ hlt

/-- A count never falls. -/
theorem le_foldl_add (before : Nat) (rest : List Nat) : before ≤ rest.foldl (· + ·) before := by
  induction rest generalizing before with
  | nil => exact Nat.le_refl before
  | cons n rest ih => exact Nat.le_trans (Nat.le_add_right before n) (ih (before + n))

/-- What the first attempt exceeds, the scan exceeds. -/
theorem exceeded_of_over {before n : Nat} (rest : List Nat)
    (hover : Machine.Over limits n (before + n)) : limits.Exceeded before (n :: rest) := by
  rcases hover with ⟨hne, hlt⟩ | ⟨hne, hlt⟩
  · exact Or.inl ⟨hne, n, List.mem_cons_self, hlt⟩
  · exact Or.inr ⟨hne, Nat.lt_of_lt_of_le hlt (le_foldl_add (before + n) rest)⟩

/-- With no limit on the stack, a scan that has a verdict without limits has the same one under
limits, unless its attempts exceed one. -/
theorem scan_retries (hstack : limits.stackEntries = 0) {last count pos : Nat} {m : Machine}
    {verdict : Verdict} (hover : ¬ Machine.Over limits 0 m.searchRetries)
    (h : program.scan Limits.off ctx fuel last count m pos = .ok verdict) :
    let resumed := program.scanResumed ctx fuel last count m pos
    limits.Exceeded m.searchRetries resumed ∧
        (∃ cause, program.scan limits ctx fuel last count m pos = .error (.failure cause)) ∨
      ¬ limits.Exceeded m.searchRetries resumed ∧
        program.scan limits ctx fuel last count m pos = .ok verdict := by
  -- By induction on the count. Each attempt is compared with the one without limits, and the
  -- retries of the attempts before it are carried along.
  induction count generalizing m pos with
  | zero =>
      cases h
      exact Or.inr ⟨fun hexceeded => hover (not_exceeded_nil hexceeded), rfl⟩
  | succ count ih =>
      simp only [scan, scanResumed] at h ⊢
      -- The literal does not occur any more, and no attempt is made.
      rcases hoccurs : ctx.nextOccurrence program.hints.literal pos with _ | start
      · rw [hoccurs] at h
        cases h
        exact Or.inr ⟨fun hexceeded => hover (not_exceeded_nil hexceeded), rfl⟩
      rw [hoccurs] at h
      simp only at h ⊢
      -- Without limits no attempt errs, since the scan has a verdict.
      rcases hattempt : m.attempt program Limits.off ctx fuel start with interrupt | ended
      · rw [hattempt] at h
        cases h
      rw [hattempt] at h
      rcases Machine.attempt_retries hstack hover hattempt with
        ⟨hcounts, ⟨hfirst, cause, hfails⟩ | ⟨hfirst, hsame⟩⟩
      -- This attempt exceeds a limit already.
      · rw [hfails]
        exact Or.inl ⟨exceeded_of_over _ hfirst, cause, rfl⟩
      rw [hsame, exceeded_cons hfirst, ← hcounts]
      -- No limit is exceeded so far, so the attempts behind this one decide.
      have hover : ¬ Machine.Over limits 0 ended.status.machine.searchRetries := fun hover =>
        hfirst (hover.mono (Nat.zero_le _) (Nat.le_of_eq hcounts))
      have hnone : ¬ limits.Exceeded ended.status.machine.searchRetries [] := fun hexceeded =>
        hover (not_exceeded_nil hexceeded)
      cases ended with
      | matched after =>
          cases h
          exact Or.inr ⟨hnone, rfl⟩
      | exhausted after =>
          simp only at h ⊢
          by_cases hlast : last ≤ start ∨
            ctx.range < start + ctx.encoding.charLength ctx.subject start
          · rw [if_pos hlast] at h ⊢
            cases h
            exact Or.inr ⟨hnone, by rw [if_pos hlast]⟩
          · rw [if_neg hlast] at h ⊢
            rw [if_neg hlast]
            exact ih hover h

/-- With no limit on the stack, a search that has a result without limits errs under limits exactly
if its attempts exceed one. -/
theorem findFrom_retries (hstack : limits.stackEntries = 0) {answer : Option Found}
    (h : program.findFrom Limits.off ctx fuel = .ok answer) :
    (∃ interrupt, program.findFrom limits ctx fuel = .error interrupt) ↔
      limits.Exceeded 0 (program.searchResumed ctx fuel) := by
  simp only [findFrom] at h ⊢
  rw [searchResumed]
  rcases hlast : program.lastStart ctx with _ | last
  · -- No attempt is made, and nothing can be exceeded.
    refine ⟨?_, fun hexceeded => absurd (not_exceeded_nil hexceeded) (not_over_zero limits)⟩
    rintro ⟨interrupt, ⟨⟩⟩
  · rw [hlast] at h
    rcases ok_of_map h with ⟨verdict, hscan, -⟩
    have hcounted : (Machine.initial program ctx.searchStart).searchRetries = 0 := rfl
    have hretries := scan_retries hstack (by rw [hcounted]; exact not_over_zero limits) hscan
    rw [hcounted] at hretries
    rcases hretries with ⟨hexceeded, cause, hfails⟩ | ⟨hexceeded, hsame⟩
    · simp only [hfails]
      exact ⟨fun _ => hexceeded, fun _ => ⟨_, rfl⟩⟩
    · simp only [hsame]
      refine ⟨?_, fun hover => absurd hover hexceeded⟩
      rintro ⟨interrupt, ⟨⟩⟩

/-- So does a single attempt. -/
theorem findAt_retries (hstack : limits.stackEntries = 0) {answer : Option Found}
    (h : program.findAt Limits.off ctx fuel = .ok answer) :
    (∃ interrupt, program.findAt limits ctx fuel = .error interrupt) ↔
      limits.Exceeded 0 (program.matchResumed ctx fuel) := by
  rcases ok_of_map h with ⟨verdict, hattempt, -⟩
  have hcounted : (Machine.initial program ctx.searchStart).searchRetries = 0 := rfl
  have hretries := Machine.attempt_retries hstack (by rw [hcounted]; exact not_over_zero limits)
    hattempt
  rw [hcounted] at hretries
  simp only [findAt, matchResumed]
  rcases hretries with ⟨-, ⟨hover, cause, hfails⟩ | ⟨hover, hsame⟩⟩
  · rw [hfails]
    exact ⟨fun _ => exceeded_of_over [] hover, fun _ => ⟨_, rfl⟩⟩
  · rw [hsame, exceeded_cons hover]
    refine ⟨?_, fun hexceeded => absurd ?_ hover⟩
    · rintro ⟨interrupt, ⟨⟩⟩
    · exact (not_exceeded_nil hexceeded).mono (Nat.zero_le _) (Nat.le_refl _)

end Program

/-- What limits do to a call whose attempts, if there are no limits, resume as many choices as
listed. -/
structure OnlyAborts (call : Limits → Except Error (Option Nat) × Region) (region : Region)
    (resumed : List Nat) : Prop where
  /-- What is answered without limits is answered under limits, with the same region, unless the
  error of a limit that is switched on is answered. -/
  aborts : ∀ unlimited limits answer after, unlimited.Off → call unlimited = (.ok answer, after) →
    call limits = (.ok answer, after) ∨
      ∃ cause, limits.Raises cause ∧ call limits = (.error (Error.ofCause cause), region.clear)
  /-- Limits on retries err exactly if the attempts without limits exceed one. -/
  retries : ∀ unlimited limits answer after, unlimited.Off → call unlimited = (.ok answer, after) →
    limits.stackEntries = 0 →
    ((∃ e, (call limits).1 = .error e) ↔
      (limits.retriesPerMatch ≠ 0 ∧ ∃ n ∈ resumed, limits.retriesPerMatch < n) ∨
        (limits.retriesPerSearch ≠ 0 ∧ limits.retriesPerSearch < resumed.foldl (· + ·) 0))
  /-- What is answered under limits is answered under limits that are raised. -/
  raising : ∀ low high answer after, low.AtMost high → call low = (.ok answer, after) →
    call high = (.ok answer, after)

namespace OnlyAborts

variable {call : Limits → Except Error (Option Nat) × Region} {region : Region} {resumed : List Nat}

/-- Limits only abort a call that goes in lockstep with itself under stricter limits. -/
theorem of_atMost
    (hlockstep : ∀ low high : Limits, low.AtMost high →
      (∃ cause, low.Raises cause ∧ call low = (.error (Error.ofCause cause), region.clear)) ∨
        call low = call high)
    (hretries : ∀ limits answer after, call Limits.off = (.ok answer, after) →
      limits.stackEntries = 0 →
      ((∃ e, (call limits).1 = .error e) ↔ limits.Exceeded 0 resumed)) :
    OnlyAborts call region resumed := by
  -- All ways to switch the limits off are the same to the call.
  have hoff : ∀ unlimited : Limits, unlimited.Off → call unlimited = call Limits.off := by
    intro unlimited hunlimited
    rcases hlockstep unlimited Limits.off unlimited.atMost_off with ⟨cause, hraises, -⟩ | hsame
    · exact absurd hraises (hunlimited.not_raises cause)
    · exact hsame
  refine ⟨fun unlimited limits answer after hunlimited hcall => ?_,
    fun unlimited limits answer after hunlimited hcall hstack => ?_,
    fun low high answer after hle hcall => ?_⟩
  · rcases hlockstep limits Limits.off limits.atMost_off with hstops | hsame
    · exact Or.inr hstops
    · exact Or.inl (hsame.trans ((hoff unlimited hunlimited).symm.trans hcall))
  · have h := hretries limits answer after ((hoff unlimited hunlimited).symm.trans hcall) hstack
    rwa [Limits.Exceeded] at h
  · rcases hlockstep low high hle with ⟨cause, -, hstops⟩ | hsame
    · rw [hstops] at hcall
      cases hcall
    · exact hsame.symm.trans hcall

end OnlyAborts

namespace Program

/-- A call whose arguments are accepted errs as its attempts do. -/
theorem report_fails {α : Type} {region : Region} {answer : Found → α}
    {result : Except Interrupt (Option Found)} :
    (∃ e, (report region answer result).1 = .error e) ↔ ∃ interrupt, result = .error interrupt := by
  rcases result with interrupt | (_ | found)
  · exact ⟨fun _ => ⟨interrupt, rfl⟩, fun _ => ⟨_, rfl⟩⟩
  · exact ⟨by rintro ⟨e, ⟨⟩⟩, by rintro ⟨interrupt, ⟨⟩⟩⟩
  · exact ⟨by rintro ⟨e, ⟨⟩⟩, by rintro ⟨interrupt, ⟨⟩⟩⟩

theorem ok_of_report {α : Type} {region after : Region} {answer : Found → α} {value : Option α}
    {result : Except Interrupt (Option Found)}
    (h : report region answer result = (.ok value, after)) : ∃ found, result = .ok found := by
  rcases result with interrupt | found
  · cases h
  · exact ⟨found, rfl⟩

/-- Limits only abort a search or a match. Nothing is assumed of the program, which need not be
compiled from a pattern. -/
theorem search_limited (program : Program) (subject : Array UInt8) (start range : Nat)
    (region : Region) (given : Options) (fuel : Nat) :
    OnlyAborts (program.searchWithin fuel subject start range region given) region
        (program.searchResumed (Context.make program subject start range given) fuel) ∧
      OnlyAborts (program.matchWithin fuel subject start region given) region
        (program.matchResumed (Context.make program subject start subject.size given) fuel) := by
  constructor
  -- Both calls make their checks first, whatever the limits are, and report what was found.
  · refine .of_atMost (fun _ _ hle => searchWithin_atMost hle) ?_
    intro limits answer after hcall hstack
    rcases program.searchWithin_cases subject start range region given with
      ⟨e, hrefused⟩ | hreports
    · rw [hrefused] at hcall
      cases hcall
    · rw [hreports] at hcall ⊢
      rcases ok_of_report hcall with ⟨found, hfind⟩
      exact report_fails.trans (findFrom_retries hstack hfind)
  · refine .of_atMost (fun _ _ hle => matchWithin_atMost hle) ?_
    intro limits answer after hcall hstack
    rcases program.matchWithin_cases subject start region given with ⟨e, hrefused⟩ | hreports
    · rw [hrefused] at hcall
      cases hcall
    · rw [hreports] at hcall ⊢
      rcases ok_of_report hcall with ⟨found, hfind⟩
      exact report_fails.trans (findAt_retries hstack hfind)

/-- A search with `a*b` in `aac` makes four attempts, which resume 3, 2, 1 and 1 choices. -/
theorem search_limited_backtracking :
    ∃ program, compile [97, 42, 98] {} .utf8 Dialect.standard {} = .ok program ∧
      program.searchWithin 100 #[97, 97, 99] 0 3 (Region.ofCapacity 1) {} Limits.off =
        (.ok none, (Region.ofCapacity 1).clear) ∧
      ∀ limits : Limits, limits.stackEntries = 0 →
        ((∃ e, (program.searchWithin 100 #[97, 97, 99] 0 3 (Region.ofCapacity 1) {} limits).1 =
            .error e) ↔
          (limits.retriesPerMatch ≠ 0 ∧ ∃ n ∈ [3, 2, 1, 1], limits.retriesPerMatch < n) ∨
            (limits.retriesPerSearch ≠ 0 ∧ limits.retriesPerSearch < 7)) := by
  -- The answer without limits and the resumed choices are computed.
  have hcomputed : ((compile [97, 42, 98] {} .utf8 Dialect.standard {}).toOption.any fun program =>
      decide (program.searchWithin 100 #[97, 97, 99] 0 3 (Region.ofCapacity 1) {} Limits.off =
        (.ok none, (Region.ofCapacity 1).clear)) &&
      decide (program.searchResumed (Context.make program #[97, 97, 99] 0 3 {}) 100 =
        [3, 2, 1, 1])) = true := by decide +kernel
  rcases exists_compiled hcomputed with ⟨program, hcompile, hholds⟩
  simp only [Bool.and_eq_true, decide_eq_true_eq] at hholds
  rcases hholds with ⟨hcall, hresumed⟩
  refine ⟨program, hcompile, hcall, fun limits hstack => ?_⟩
  -- Which limits let the search err is then read off the theorem.
  have hlimited := (search_limited program #[97, 97, 99] 0 3 (Region.ofCapacity 1) {} 100).1
  rw [hresumed] at hlimited
  exact hlimited.retries Limits.off limits none _ ⟨rfl, rfl, rfl⟩ hcall hstack

end Program

end RegexEngine
