import RegexEngine.Proofs.Search.Answer

/-!
# What Calls Do to Regions

A call takes a region and leaves one. Three things can become of it: it is as it was if an argument
is refused, it is empty if nothing is found or something goes wrong while matching, and it holds
what was found otherwise. Nothing in between is possible, since the arguments are checked before the
region is touched, and the region is written once, when all attempts are over.

That the cases can be told apart by the answer needs to be known of the matcher: no attempt fails
with the error that refused arguments have. This holds of every program, those included that no
pattern is compiled to, which may fail in more ways than by a limit.

## Main definitions

* `Cause.IsFault`: The failures of code that no pattern is compiled to.
* `Region.IsEmpty`: No span is held.
* `Region.Governed`: What the answer of a call tells about the region that the call leaves.

## Theorems

* `step_fails`, `run_fails`, `scan_fails`: Attempts fail by a limit or by a fault.
* `governed_report`: A call whose arguments are accepted empties or fills the region.
* `calls_governed`: The answers of searches and matches tell what became of the region.
-/

namespace RegexEngine

/-- The cause is a fault of the code. No pattern is compiled to code with such faults. -/
def Cause.IsFault (cause : Cause) : Prop :=
  cause = .undefinedInstruction ∨ cause = .malformedInstruction ∨ cause = .stackBug

/-- An attempt may fail with the cause: by a limit that is switched on, or by a fault of the code.
-/
def Limits.Allows (limits : Limits) (cause : Cause) : Prop :=
  limits.Raises cause ∨ cause.IsFault

/-- No argument is at fault when an attempt fails. -/
theorem Limits.Allows.not_argument {limits : Limits} {cause : Cause} (h : limits.Allows cause)
    (text : String) : Error.ofCause cause ≠ .invalidArgument text := by
  rcases h with (⟨rfl, -⟩ | ⟨rfl, -⟩ | ⟨rfl, -⟩) | (rfl | rfl | rfl)
  all_goals
    intro h
    cases h

namespace Machine

variable {program : Program} {limits : Limits} {ctx : Context} {cause : Cause} {m : Machine}

theorem branch_off (m : Machine) (bodyFirst : Bool) (body exit : Int) :
    m.branch Limits.off bodyFirst body exit =
      .ok (if bodyFirst then
        { m with stack := .choice (m.pc + exit) m.pos :: m.stack }.jump body
      else { m with stack := .choice (m.pc + body) m.pos :: m.stack }.jump exit) := by
  cases bodyFirst <;> rfl

/-- Without limits, an instruction fails only if it has no meaning, if its loop is missing, or if
its mark is. -/
theorem obey_isFault {instr : Instr} (h : m.obey program Limits.off ctx instr = .error cause) :
    cause.IsFault := by
  -- The stack limit is off, so nothing that only pushes can fail. What is left are the instructions
  -- that look something up: a loop by its number, a mark on the stack.
  cases instr with
  | bare text =>
      cases h
      exact Or.inr (Or.inl rfl)
  | enter id exit greedy =>
      simp only [obey, obeyEnter] at h
      rcases hloop : program.loops[id]? with _ | bounds
      · rw [hloop] at h
        cases h
        exact Or.inl rfl
      -- The loop is there, and whichever way it goes is pushed without a check.
      · simp only [hloop, changeCounter, push_off, bind, Except.bind, pure, Except.pure] at h
        by_cases hlower : bounds.lower = 0
        · simp only [if_pos hlower, branch_off] at h
          cases h
        · simp only [if_neg hlower] at h
          cases h
  | again id body greedy =>
      simp only [obey, obeyAgain] at h
      rcases hloop : program.loops[id]? with _ | bounds
      · rw [hloop] at h
        cases h
        exact Or.inl rfl
      · simp only [hloop, changeCounter, push_off, bind, Except.bind, pure, Except.pure] at h
        -- The loop ends, may end, or has to go on; none of these fails.
        by_cases hends : (m.pos = (m.registers.counterOf id).start ∧
            bounds.lower ≤ (m.registers.counterOf id).count + 1) ∨
            bounds.upper.any (· ≤ (m.registers.counterOf id).count + 1)
        · simp only [if_pos hends] at h
          cases h
        · by_cases henough : bounds.lower ≤ (m.registers.counterOf id).count + 1
          · simp only [if_neg hends, if_pos henough, branch_off] at h
            cases h
          · simp only [if_neg hends, if_neg henough] at h
            cases h
  | cut id returns =>
      simp only [obey, obeyCut] at h
      rcases hcut : cutTo id [] m.stack with _ | ⟨pos, stack⟩
      · rw [hcut] at h
        cases h
        exact Or.inr (Or.inr rfl)
      · rw [hcut] at h
        cases h
  | rewind id =>
      simp only [obey, obeyRewind] at h
      rcases hrewind : rewindTo id m.stack m.registers with _ | ⟨stack, regs⟩
      · rw [hrewind] at h
        cases h
        exact Or.inr (Or.inr rfl)
      · rw [hrewind] at h
        cases h
  -- All others push, move or fall back.
  | _ => cases h

/-- A step fails by a limit or by a fault. -/
theorem step_fails (h : m.step program limits ctx = .error cause) : limits.Allows cause := by
  rcases hinstr : m.fetch program with _ | instr
  · rw [step, hinstr] at h
    cases h
    exact Or.inr (Or.inl rfl)
  rcases hobey : m.obey program limits ctx instr with failure | effect
  · rw [step_error hinstr hobey] at h
    cases h
    rcases obey_stopsOr m program limits ctx instr with ⟨hon, hstops⟩ | hsame
    · rw [hstops] at hobey
      cases hobey
      exact Or.inl (Or.inl ⟨rfl, hon⟩)
    · exact Or.inr (obey_isFault (hsame.symm.trans hobey))
  · rw [step_effect hinstr hobey] at h
    cases effect with
    | goOn | accept => cases h
    | fallBack fallen => exact Or.inl (fallBack_raises h)

/-- So does a run. -/
theorem run_fails {fuel : Nat} (h : run program limits ctx fuel m = .error (.failure cause)) :
    limits.Allows cause := by
  induction fuel generalizing m with
  | zero => cases h
  | succ fuel ih =>
      rw [run_succ] at h
      rcases hstep : m.step program limits ctx with failure | status
      · rw [hstep] at h
        cases h
        exact step_fails hstep
      · rw [hstep] at h
        cases status with
        | running later => exact ih h
        | matched | exhausted => cases h

end Machine

namespace Program

variable {program : Program} {limits : Limits} {ctx : Context} {cause : Cause} {fuel : Nat}

/-- So does a scan. -/
theorem scan_fails {last count pos : Nat} {m : Machine}
    (h : program.scan limits ctx fuel last count m pos = .error (.failure cause)) :
    limits.Allows cause := by
  induction count generalizing m pos with
  | zero => cases h
  | succ count ih =>
      rw [scan] at h
      split at h
      · cases h
      · split at h
        · rename_i interrupt hattempt
          cases h
          exact Machine.run_fails hattempt
        · cases h
        · simp only at h
          split at h
          · cases h
          · exact ih h

/-- No argument is at fault when the attempts of a search fail. -/
theorem findFrom_not_argument {interrupt : Interrupt}
    (h : program.findFrom limits ctx fuel = .error interrupt) (text : String) :
    interrupt.toError ≠ .invalidArgument text := by
  cases interrupt with
  | outOfFuel =>
      intro htime
      cases htime
  | failure cause =>
      rw [findFrom] at h
      split at h
      · cases h
      · exact (scan_fails (error_of_map h)).not_argument text

/-- Nor is one when a single attempt fails. -/
theorem findAt_not_argument {interrupt : Interrupt}
    (h : program.findAt limits ctx fuel = .error interrupt) (text : String) :
    interrupt.toError ≠ .invalidArgument text := by
  cases interrupt with
  | outOfFuel =>
      intro htime
      cases htime
  | failure cause => exact (Machine.run_fails (error_of_map h)).not_argument text

end Program

namespace Region

/-- No span is held. -/
structure IsEmpty (region : Region) : Prop where
  count : region.count = 0
  slot : ∀ i, region.slot i = none

theorem isEmpty_clear (region : Region) : region.clear.IsEmpty := by
  constructor
  · rfl
  · intro i
    by_cases hi : i < region.capacity <;> simp [slot, clear, Array.getD, hi]

/-- Of a region, only its capacity matters to what it is filled with. -/
theorem fill_of_capacity {region other : Region} (h : other.capacity = region.capacity)
    (found : Found) :
    other.fill found = region.fill found := by
  rw [fill, fill, h]

/-- What the answer of a call tells about the region that the call leaves. -/
structure Governed {α : Type} (call : Region → Except Error (Option α) × Region) : Prop where
  /-- The capacity never changes. -/
  capacity : ∀ region, (call region).2.capacity = region.capacity
  /-- A region stays as it is if an argument is refused. -/
  refused : ∀ region text, (call region).1 = .error (.invalidArgument text) →
    (call region).2 = region
  /-- It is empty if nothing is found. -/
  missed : ∀ region, (call region).1 = .ok none → (call region).2.IsEmpty
  /-- It is empty after every other error. -/
  failed : ∀ region e, (call region).1 = .error e → (∀ text, e ≠ .invalidArgument text) →
    (call region).2.IsEmpty
  /-- It holds what was found, and what it held before does not matter. -/
  found : ∀ region other answer, other.capacity = region.capacity →
    (call region).1 = .ok (some answer) → call other = call region
  /-- Nor does it matter to the answer, whichever it is. -/
  answer : ∀ region other, other.capacity = region.capacity → (call other).1 = (call region).1

end Region

namespace Program

open Region (Governed)

/-- The check can only refuse an argument. -/
def RefusesOnly (check : Except Error Unit) : Prop :=
  ∀ e, check = .error e → ∃ text, e = .invalidArgument text

theorem refusesOnly_ite {accepted : Prop} [Decidable accepted] (text : String) :
    RefusesOnly (if accepted then .ok () else .error (.invalidArgument text)) := by
  intro e h
  split at h
  · cases h
  · cases h
    exact ⟨text, rfl⟩

theorem RefusesOnly.bind {first next : Except Error Unit} (hfirst : RefusesOnly first)
    (hnext : RefusesOnly next) : RefusesOnly (first >>= fun _ => next) := by
  intro e h
  rcases error_of_bind h with hrefused | hrefused
  · exact hfirst e hrefused
  · exact hnext e hrefused

section Calls

variable {α : Type} {result : Except Interrupt (Option Found)}

/-- The checks of a call, and what is reported if they accept. -/
theorem governed_report (checks : Region → Except Error Unit) (answer : Found → α)
    (hrefuses : ∀ region, RefusesOnly (checks region))
    (hcapacity : ∀ region other : Region, other.capacity = region.capacity →
      checks other = checks region)
    (hresult : ∀ interrupt, result = .error interrupt → ∀ text,
      interrupt.toError ≠ .invalidArgument text) :
    Governed fun region =>
      match checks region with
      | .error e => (.error e, region)
      | .ok () => report region answer result := by
  -- The region is as it was if the checks refuse it, and is cleared before anything else. So each
  -- field is about two or three cases: what the checks say, and then what was found.
  constructor
  case capacity =>
    intro region
    rcases checks region with e | accepted
    · rfl
    · rcases result with interrupt | _ | found <;> simp [report]
  case refused =>
    intro region text h
    rcases hchecks : checks region with e | accepted
    · rfl
    · simp only [hchecks] at h
      rcases result with interrupt | _ | found
      -- No result of a run reads like a refused argument.
      · exact absurd (Except.error.inj h) (hresult interrupt rfl text)
      · cases h
      · cases h
  case missed =>
    intro region h
    rcases hchecks : checks region with e | accepted
    · simp only [hchecks] at h
      cases h
    · simp only [hchecks] at h
      rcases result with interrupt | _ | found
      · cases h
      · exact region.isEmpty_clear
      · cases h
  case failed =>
    intro region e h hother
    rcases hchecks : checks region with refusal | accepted
    · simp only [hchecks] at h
      cases h
      -- An error of the checks is a refusal, which has been excluded here.
      obtain ⟨text, rfl⟩ := hrefuses region _ hchecks
      exact absurd rfl (hother text)
    · simp only [hchecks] at h
      rcases result with interrupt | _ | found
      · exact region.isEmpty_clear
      · cases h
      · cases h
  case found =>
    intro region other found hsame h
    -- Regions of one capacity pass the same checks and are filled with the same spans.
    simp only [hcapacity region other hsame] at h ⊢
    rcases hchecks : checks region with e | accepted
    · simp only [hchecks] at h
      cases h
    · simp only [hchecks] at h ⊢
      rcases result with interrupt | _ | last
      · cases h
      · cases h
      · simp only [report, Region.fill_of_capacity hsame]
  case answer =>
    intro region other hsame
    simp only [hcapacity region other hsame]
    rcases checks region with e | accepted
    · rfl
    · rcases result with interrupt | _ | found <;> rfl

/-- A call that is refused for a subject that is too long is still governed by its answer. -/
theorem governed_onSubject {call : Region → Except Error (Option α) × Region}
    (h : Governed call) (subject : Array UInt8) : Governed (onSubject subject call) := by
  have hrefuses : RefusesOnly (checkSubject subject.size) := refusesOnly_ite _
  rcases hcheck : checkSubject subject.size with e | accepted
  · -- Every region is refused, with one error.
    obtain ⟨text, rfl⟩ := hrefuses e hcheck
    have hcall : onSubject subject call =
        fun region => (.error (.invalidArgument text), region) := by
      funext region
      rw [onSubject, hcheck]
    rw [hcall]
    constructor
    case failed =>
      intro region e h hother
      cases h
      exact absurd rfl (hother text)
    all_goals simp
  · have hcall : onSubject subject call = call := by
      funext region
      rw [onSubject, hcheck]
    rwa [hcall]

end Calls

section Checks

variable (program : Program) {region other : Region} (given : Options)

theorem refusesOnly_arguments (region : Region) :
    RefusesOnly (program.checkOptions given >>= fun _ => program.checkRegion region) :=
  .bind (refusesOnly_ite _) (refusesOnly_ite _)

theorem checkRegion_of_capacity (h : other.capacity = region.capacity) :
    program.checkRegion other = program.checkRegion region := by
  rw [checkRegion, checkRegion, h]

end Checks

/-- The answer of every search and every match tells what has become of the region: it is as it was,
empty, or filled with this match only. No error that is raised while matching can be taken for the
refusal of an argument. -/
theorem calls_governed (program : Program) (subject : Array UInt8) (start range : Nat)
    (given : Options) (limits : Limits) (fuel : Nat) :
    Governed (onSubject subject fun region =>
        program.searchWithin fuel subject start range region given limits) ∧
      Governed (onSubject subject fun region =>
        program.matchWithin fuel subject start region given limits) ∧
      ∀ ctx interrupt text, program.findFrom limits ctx fuel = .error interrupt ∨
        program.findAt limits ctx fuel = .error interrupt →
          interrupt.toError ≠ .invalidArgument text := by
  -- A search and a match make their own checks, and both report in the same way.
  refine ⟨governed_onSubject ?_ subject, governed_onSubject ?_ subject, ?_⟩
  · refine governed_report (fun region => do
      checkRange start range subject.size
      program.checkOptions given
      program.checkRegion region) Found.start ?_ ?_ fun _ => findFrom_not_argument
    · intro region
      exact .bind (refusesOnly_ite _) (program.refusesOnly_arguments given region)
    · intro region other hsame
      simp only [program.checkRegion_of_capacity hsame]
  · refine governed_report (fun region => do
      checkPosition start subject.size
      program.checkOptions given
      program.checkRegion region) Found.length ?_ ?_ fun _ => findAt_not_argument
    · intro region
      exact .bind (refusesOnly_ite _) (program.refusesOnly_arguments given region)
    · intro region other hsame
      simp only [program.checkRegion_of_capacity hsame]
  · intro ctx interrupt text h
    rcases h with hfind | hfind
    · exact findFrom_not_argument hfind text
    · exact findAt_not_argument hfind text

end Program

end RegexEngine
