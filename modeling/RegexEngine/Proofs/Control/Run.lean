import Mathlib.Logic.Relation
import RegexEngine.Proofs.Control.Step
import RegexEngine.Proofs.Outcome.Basic

/-!
# Runs and their Controls

A run that is followed control by control either comes to an end or does not. `Explores` says that
it does, and lists the places where it came to the end of a match on the way. The list is what a
structural account of a pattern can predict; this module turns it into what a matcher answers.

An attempt stops at the first of the places, unless it has to look for the longest match, in which
case it goes through all of them. Limits can interrupt it, and nothing else can: with steps enough
an attempt whose exploration ends has a verdict, or has met a limit that is switched on.

The other direction is needed for what holds at every moment of an attempt: the states of a matcher
are among the controls of its exploration.

## Main definitions

* `Control.Reaches`: One control comes after another.
* `Control.Explores`: A run ends, is safe at every control, and comes to the given ends of matches.
* `Machine.resume`: Goes on from a control.
* `Verdict.Comes`: The verdict that the ends of matches lead to.

## Theorems

* `explores_reaches`: An exploration goes on from every control that is reached.
* `explores_safe`: An exploration is safe at every control that is reached.
* `explores_resume`: An exploration leads to its verdict, or to a limit.
* `reaches_of_step`: A step of a matcher leads to a control that is reached.
-/

namespace RegexEngine

/-- The spans of the groups. -/
def Registers.spans (regs : Registers) (n : Nat) : Option (Nat × Nat) :=
  regs.captures[n]?.bind Capture.span?

/-- The place where a match ends. -/
def Found.place (found : Found) : Place :=
  ⟨found.stop, fun n => found.captures[n]?.bind Capture.span?⟩

/-- The longer one of a match and the longest match so far, which wins a tie. -/
def Found.orLonger (best : Option Found) (found : Found) : Option Found :=
  match best with
  | none => some found
  | some best => if best.length < found.length then some found else some best

/-- A match that starts at `start` and ends at `pos` is refused for being empty. -/
def Context.Refuses (ctx : Context) (start pos : Nat) : Prop :=
  ctx.options.findNotEmpty ∧ pos = start ∧ start = ctx.searchStart

instance (ctx : Context) (start pos : Nat) : Decidable (ctx.Refuses start pos) :=
  inferInstanceAs (Decidable (_ ∧ _))

/-- The verdict of an attempt that starts at `start`, with the longest match of earlier attempts
noted, if matches end at the given places. -/
inductive Verdict.Comes (ctx : Context) (start : Nat) :
    Option Found → List Place → Verdict → Prop
  /-- No match is left. -/
  | exhausted (m : Machine) : Comes ctx start m.best [] (.exhausted m)
  /-- The next match is refused. -/
  | refused {best : Option Found} {place : Place} {rest : List Place} {verdict : Verdict}
      (refuses : ctx.Refuses start place.pos) (later : Comes ctx start best rest verdict) :
      Comes ctx start best (place :: rest) verdict
  /-- The next match is noted, since the longest one is wanted. -/
  | noted {best : Option Found} {found : Found} {rest : List Place} {verdict : Verdict}
      (admits : ¬ ctx.Refuses start found.stop) (longest : ctx.options.findLongest = true)
      (starts : found.start = start) (later : Comes ctx start (found.orLonger best) rest verdict) :
      Comes ctx start best (found.place :: rest) verdict
  /-- The next match is the answer. -/
  | matched {best : Option Found} {m : Machine} {rest : List Place}
      (admits : ¬ ctx.Refuses start m.pos) (shortest : ctx.options.findLongest = false)
      (starts : m.start = start) : Comes ctx start best (m.found.place :: rest) (.matched m)

namespace Control

/-- One control comes after another, any number of steps later. -/
def Reaches (program : Program) (ctx : Context) : Control → Control → Prop :=
  Relation.ReflTransGen fun c d => c.next program ctx = some d

/-- The run from a control ends. It is safe at each control, and the ends of matches that it comes
to are the places in the list. -/
inductive Explores (program : Program) (ctx : Context) (safe : Control → Prop) :
    Control → List Place → Prop
  /-- No choice is left. -/
  | bottom (regs : Registers) : Explores program ctx safe (falling regs []) []
  /-- A step that does not end a match. -/
  | step {c d : Control} {places : List Place} (safe_here : safe c)
      (goes : ∀ pc pos regs stack, c = running pc pos regs stack →
        program.instrAt pc ≠ some .finish)
      (next : c.next program ctx = some d) (later : Explores program ctx safe d places) :
      Explores program ctx safe c places
  /-- The end of a match. -/
  | accept {pc : Int} {pos : Nat} {regs : Registers} {stack : List Entry} {places : List Place}
      (safe_here : safe (running pc pos regs stack)) (ends : program.instrAt pc = some .finish)
      (later : Explores program ctx safe (falling regs stack) places) :
      Explores program ctx safe (running pc pos regs stack) (⟨pos, regs.spans⟩ :: places)

variable {program : Program} {ctx : Context} {safe : Control → Prop}

/-- A control that is reached is the one at hand, or is reached from the next one. -/
theorem reaches_cases {c d : Control} (h : Reaches program ctx c d) :
    d = c ∨ ∃ e, c.next program ctx = some e ∧ Reaches program ctx e d := by
  rcases Relation.ReflTransGen.cases_head h with rfl | ⟨e, hnext, hlater⟩
  · exact Or.inl rfl
  · exact Or.inr ⟨e, hnext, hlater⟩

/-- From every control that is reached, what is left of an exploration is explored. -/
theorem explores_reaches {c d : Control} {places : List Place}
    (h : Explores program ctx safe c places) (hreach : Reaches program ctx c d) :
    ∃ rest, rest <:+ places ∧ Explores program ctx safe d rest := by
  -- What is reached is the control itself or lies behind its first step, from which on the later
  -- part of the exploration is explored.
  induction h with
  | bottom regs =>
      rcases reaches_cases hreach with rfl | ⟨e, hnext, -⟩
      · exact ⟨[], List.suffix_rfl, .bottom regs⟩
      · cases hnext
  | step safe_here goes next later ih =>
      rcases reaches_cases hreach with rfl | ⟨e, hnext, hlater⟩
      · exact ⟨_, List.suffix_rfl, .step safe_here goes next later⟩
      · rw [next, Option.some.injEq] at hnext
        exact ih (hnext ▸ hlater)
  | accept safe_here ends later ih =>
      rcases reaches_cases hreach with rfl | ⟨e, hnext, hlater⟩
      · exact ⟨_, List.suffix_rfl, .accept safe_here ends later⟩
      · -- The end of a match falls back, and its place is not among the rest.
        rw [next_finish ends, Option.some.injEq] at hnext
        rcases ih (hnext ▸ hlater) with ⟨rest, hsuffix, hrest⟩
        exact ⟨rest, hsuffix.trans (List.suffix_cons _ _), hrest⟩

/-- An exploration is safe at every control that is reached. Falling back with nothing left is safe
in itself. -/
theorem explores_safe {c d : Control} {places : List Place}
    (h : Explores program ctx safe c places) (hbottom : ∀ regs, safe (falling regs []))
    (hreach : Reaches program ctx c d) : safe d := by
  rcases explores_reaches h hreach with ⟨rest, -, hrest⟩
  cases hrest with
  | bottom regs => exact hbottom regs
  | step safe_here | accept safe_here => exact safe_here

end Control

/-- What becomes of an attempt on which an instruction had its effect. -/
def Effect.status (limits : Limits) : Effect → Except Cause Status
  | goOn m => .ok (.running m)
  | fallBack m => m.fallBack limits
  | accept m => .ok (.matched m)

namespace Machine

variable {program : Program} {limits : Limits} {ctx : Context}

/-- What becomes of an attempt after a step. -/
def settle (program : Program) (limits : Limits) (ctx : Context) (fuel : Nat) :
    Except Cause Status → Except Interrupt Verdict
  | .error cause => .error (.failure cause)
  | .ok (.running m) => run program limits ctx fuel m
  | .ok (.matched m) => .ok (.matched m)
  | .ok (.exhausted m) => .ok (.exhausted m)

theorem run_succ (fuel : Nat) (m : Machine) :
    run program limits ctx (fuel + 1) m =
      settle program limits ctx fuel (m.step program limits ctx) := by
  rw [run]
  rcases m.step program limits ctx with cause | status
  · rfl
  · cases status <;> rfl

/-- The matcher goes on from a control. -/
def resume (program : Program) (limits : Limits) (ctx : Context) (fuel : Nat) (m : Machine) :
    Control → Except Interrupt Verdict
  | .running pc pos regs stack =>
    run program limits ctx fuel { m with pc := pc, pos := pos, registers := regs, stack := stack }
  | .falling regs stack =>
    settle program limits ctx fuel
      (fallBack { m with registers := regs, stack := stack } limits)

/-- An attempt is interrupted by a limit that is switched on. -/
def StopsWith (limits : Limits) (result : Except Interrupt Verdict) : Prop :=
  ∃ cause, limits.Raises cause ∧ result = .error (.failure cause)

theorem step_error {m : Machine} {instr : Instr} {cause : Cause}
    (hinstr : program.instrAt m.pc = some instr)
    (hobey : m.obey program limits ctx instr = .error cause) :
    m.step program limits ctx = .error cause := by
  have hfetch : m.fetch program = some instr := hinstr
  rw [step, hfetch]
  simp only [hobey]

/-- A step does what its instruction does. -/
theorem step_effect {m : Machine} {instr : Instr} {effect : Effect}
    (hinstr : program.instrAt m.pc = some instr)
    (hobey : m.obey program limits ctx instr = .ok effect) :
    m.step program limits ctx = effect.status limits := by
  have hfetch : m.fetch program = some instr := hinstr
  rw [step, hfetch]
  simp only [hobey]
  cases effect <;> rfl

/-- A step that succeeds obeys the instruction that the matcher is at. -/
theorem step_ok {m : Machine} {status : Status} (h : m.step program limits ctx = .ok status) :
    ∃ instr effect, m.fetch program = some instr ∧ m.obey program limits ctx instr = .ok effect ∧
      effect.status limits = .ok status := by
  rcases hinstr : m.fetch program with _ | instr
  · rw [step, hinstr] at h
    cases h
  rcases hobey : m.obey program limits ctx instr with cause | effect
  · rw [step_error hinstr hobey] at h
    cases h
  rw [step_effect hinstr hobey] at h
  exact ⟨instr, effect, rfl, hobey, h⟩

/-- An instruction other than the last does what the control says, or meets the stack limit. -/
theorem obey_next (limits : Limits) (m : Machine) {instr : Instr} {d : Control}
    (hinstr : program.instrAt m.pc = some instr) (hfinish : instr ≠ .finish)
    (hnext : m.control.next program ctx = some d) :
    StopsOr limits (m.obey program limits ctx instr) (.ok (d.effectOn m)) := by
  have hstops := obey_stopsOr m program limits ctx instr
  rw [obey_standing m instr hfinish] at hstops
  rw [control, Control.next_instr hinstr] at hnext
  rcases hobey : (standing m.pc m.pos m.registers m.stack).obey program Limits.off ctx instr
    with cause | effect
  · rw [hobey] at hnext
    cases hnext
  · rw [hobey] at hnext hstops
    simp only [Option.some.injEq] at hnext
    rw [← hnext]
    exact hstops

/-- Falling back over an entry does what the control says, or meets a limit on retries. -/
theorem resume_falling (limits : Limits) (m : Machine) {regs : Registers} {stack : List Entry}
    {d : Control} (hnext : (Control.falling regs stack).next program ctx = some d) :
    ∃ after : Machine, after.start = m.start ∧ after.best = m.best ∧ ∀ fuel,
      StopsWith limits (m.resume program limits ctx fuel (.falling regs stack)) ∨
        m.resume program limits ctx fuel (.falling regs stack) =
          after.resume program limits ctx fuel d := by
  cases stack with
  | nil => cases hnext
  | cons entry stack =>
      cases entry with
      | choice pc pos =>
          cases hnext
          -- Only a resumed choice counts as a retry, so only here can a limit be met.
          refine ⟨{ m with retries := m.retries + 1, searchRetries := m.searchRetries + 1 },
            rfl, rfl, fun fuel => ?_⟩
          simp only [resume, fallBack, popChoice]
          split
          · rename_i hmatch
            exact Or.inl ⟨_, Or.inr (Or.inl ⟨rfl, hmatch.1⟩), rfl⟩
          · split
            · rename_i hsearch
              exact Or.inl ⟨_, Or.inr (Or.inr ⟨rfl, hsearch.1⟩), rfl⟩
            · exact Or.inr rfl
      | mark | capture | counter | check =>
          cases hnext
          exact ⟨m, rfl, rfl, fun _ => Or.inr rfl⟩

/-- A step that ends no match does what the control says, or meets a limit. Only a step from an
instruction is paid for. -/
theorem resume_next (limits : Limits) (m : Machine) {c d : Control}
    (hnext : c.next program ctx = some d)
    (hgoes : ∀ pc pos regs stack, c = .running pc pos regs stack →
      program.instrAt pc ≠ some .finish) :
    ∃ after : Machine, after.start = m.start ∧ after.best = m.best ∧ ∃ paid ≤ 1, ∀ fuel,
      StopsWith limits (m.resume program limits ctx (fuel + paid) c) ∨
        m.resume program limits ctx (fuel + paid) c = after.resume program limits ctx fuel d := by
  cases c with
  | falling regs stack =>
      -- Falling back is part of the step that began it, so it costs nothing of its own.
      rcases resume_falling limits m hnext with ⟨after, hstart, hbest, hresume⟩
      exact ⟨after, hstart, hbest, 0, Nat.zero_le 1, hresume⟩
  | running pc pos regs stack =>
      refine ⟨{ m with pc := pc, pos := pos, registers := regs, stack := stack }, rfl, rfl, 1,
        Nat.le_refl 1, fun fuel => ?_⟩
      rcases hinstr : program.instrAt pc with _ | instr
      · rw [Control.next, hinstr] at hnext
        cases hnext
      have hfinish : instr ≠ .finish := by
        rintro rfl
        exact hgoes pc pos regs stack rfl hinstr
      have hobey := obey_next limits
        { m with pc := pc, pos := pos, registers := regs, stack := stack } hinstr hfinish hnext
      simp only [resume]
      rw [run_succ]
      rcases hobey with ⟨hon, hobey⟩ | hobey
      · rw [step_error hinstr hobey]
        exact Or.inl ⟨_, Or.inl ⟨rfl, hon⟩, rfl⟩
      · refine Or.inr ?_
        rw [step_effect hinstr hobey]
        cases d <;> rfl

theorem noteBest_eq (m : Machine) : m.noteBest = { m with best := m.found.orLonger m.best } := by
  rcases m with ⟨pc, pos, start, regs, stack, retries, searchRetries, best⟩
  cases best with
  | none => rfl
  | some best =>
      simp only [noteBest, Found.orLonger]
      split
      · rfl
      · rfl

/-- A match that ends is the answer, or it is refused or noted and the matcher falls back. -/
theorem resume_finish (m : Machine) {pc : Int} {pos : Nat} {regs : Registers}
    {stack : List Entry} (hends : program.instrAt pc = some .finish) (fuel : Nat) :
    let ended : Machine := { m with pc := pc, pos := pos, registers := regs, stack := stack }
    m.resume program limits ctx (fuel + 1) (.running pc pos regs stack) =
      if ctx.Refuses m.start pos then ended.resume program limits ctx fuel (.falling regs stack)
      else if ctx.options.findLongest then
        resume program limits ctx fuel { ended with best := ended.found.orLonger m.best }
          (.falling regs stack)
      else .ok (.matched ended) := by
  intro ended
  have hobey : ended.obey program limits ctx .finish =
      .ok (if ctx.Refuses m.start pos then .fallBack ended
        else if ctx.options.findLongest then .fallBack ended.noteBest
        else .accept ended) := rfl
  simp only [resume]
  rw [run_succ, step_effect (m := ended) hends hobey]
  -- A match that is refused is not noted. Otherwise the option tells whether it is noted or is the
  -- answer.
  by_cases hrefuses : ctx.Refuses m.start pos
  · rw [if_pos hrefuses, if_pos hrefuses]
    rfl
  · rw [if_neg hrefuses, if_neg hrefuses]
    cases ctx.options.findLongest with
    | false => rfl
    | true =>
        rw [noteBest_eq]
        rfl

/-- With steps enough, an attempt whose exploration ends comes to the verdict that the ends of
matches lead to, or meets a limit. -/
theorem explores_resume {safe : Control → Prop} {c : Control} {places : List Place}
    (h : Control.Explores program ctx safe c places) (m : Machine) :
    ∃ bound, ∀ fuel, bound ≤ fuel →
      StopsWith limits (m.resume program limits ctx fuel c) ∨
        ∃ verdict, m.resume program limits ctx fuel c = .ok verdict ∧
          Verdict.Comes ctx m.start m.best places verdict := by
  induction h generalizing m with
  | bottom regs =>
      exact ⟨0, fun fuel _ => Or.inr ⟨_, rfl,
        .exhausted { m with registers := regs, stack := [] }⟩⟩
  | step safe_here goes next later ih =>
      -- The bound grows by what the step is paid, which is nothing when it only falls back.
      rcases resume_next limits m next goes with
        ⟨after, hstart, hbest, paid, hpaid, hresume⟩
      rcases ih after with ⟨bound, hbound⟩
      refine ⟨bound + 1, fun fuel hfuel => ?_⟩
      obtain ⟨fuel, rfl⟩ : ∃ n, fuel = n + paid := ⟨fuel - paid, by omega⟩
      rcases hresume fuel with hstops | hresume
      · exact Or.inl hstops
      · rw [hresume, ← hstart, ← hbest]
        exact hbound fuel (by omega)
  | @accept pc pos regs stack rest safe_here ends later ih =>
      let ended : Machine := { m with pc := pc, pos := pos, registers := regs, stack := stack }
      -- The rest is explored from two machines: the match was refused, or it was noted.
      rcases ih ended with ⟨bound, hbound⟩
      rcases ih { ended with best := ended.found.orLonger m.best } with ⟨bound', hbound'⟩
      refine ⟨bound + bound' + 1, fun fuel hfuel => ?_⟩
      obtain ⟨fuel, rfl⟩ : ∃ n, fuel = n + 1 := ⟨fuel - 1, by omega⟩
      rw [resume_finish m ends fuel]
      by_cases hrefuses : ctx.Refuses m.start pos
      · rw [if_pos hrefuses]
        rcases hbound fuel (by omega) with hstops | ⟨verdict, hresume, hcomes⟩
        · exact Or.inl hstops
        · exact Or.inr ⟨verdict, hresume, .refused hrefuses hcomes⟩
      · rw [if_neg hrefuses]
        cases hlongest : ctx.options.findLongest with
        | false =>
            exact Or.inr ⟨_, rfl, .matched (m := ended) hrefuses hlongest rfl⟩
        | true =>
            rcases hbound' fuel (by omega) with hstops | ⟨verdict, hresume, hcomes⟩
            · exact Or.inl hstops
            · have hnoted : Verdict.Comes ctx m.start m.best (ended.found.place :: rest) verdict :=
                .noted hrefuses hlongest rfl hcomes
              exact Or.inr ⟨verdict, hresume, hnoted⟩

/-- An instruction that is obeyed under limits has the effect that the control describes. -/
theorem next_obey {m : Machine} {instr : Instr} {effect : Effect}
    (hinstr : program.instrAt m.pc = some instr)
    (hobey : m.obey program limits ctx instr = .ok effect) :
    m.control.next program ctx = some effect.control := by
  rcases obey_stopsOr m program limits ctx instr with ⟨-, hstops⟩ | hsame
  · rw [hstops] at hobey
    cases hobey
  rw [hsame] at hobey
  rw [control, Control.next_instr hinstr]
  -- The last instruction does read a count, the longest match so far, but leaves the control alone.
  by_cases hfinish : instr = .finish
  · subst hfinish
    cases hobey
    simp only [obey, obeyFinish_control]
    rfl
  · rw [obey_standing m instr hfinish] at hobey
    rcases hstanding : (standing m.pc m.pos m.registers m.stack).obey program Limits.off ctx instr
      with cause | plain
    · rw [hstanding] at hobey
      cases hobey
    · rw [hstanding] at hobey
      cases hobey
      simp only [Option.some.injEq]
      cases plain <;> rfl

/-- Falling back to a choice goes entry by entry. -/
theorem reaches_of_popChoice {stack rest : List Entry} {regs undone : Registers} {pc : Int}
    {pos : Nat} (h : popChoice stack regs = .resume pc pos undone rest) :
    Control.Reaches program ctx (.falling regs stack) (.running pc pos undone rest) := by
  induction stack generalizing regs with
  | nil => cases h
  | cons entry stack ih =>
      cases entry with
      | choice =>
          cases h
          exact Relation.ReflTransGen.single rfl
      | mark | capture | counter | check => exact Relation.ReflTransGen.head rfl (ih h)

/-- A step leads to a control that is reached. -/
theorem reaches_of_step {m after : Machine}
    (h : m.step program limits ctx = .ok (.running after)) :
    Control.Reaches program ctx m.control after.control := by
  rcases step_ok h with ⟨instr, effect, hinstr, hobey, h⟩
  have hnext := next_obey hinstr hobey
  cases effect with
  | accept ended => cases h
  | goOn gone =>
      cases h
      exact Relation.ReflTransGen.single hnext
  | fallBack fallen =>
      -- One step of the matcher pops down to a choice, which is many steps of the control.
      refine Relation.ReflTransGen.head hnext ?_
      simp only [Effect.status, fallBack] at h
      rcases hpop : popChoice fallen.stack fallen.registers with ⟨pc, pos, regs, stack⟩ | regs
      · rw [hpop] at h
        simp only at h
        split at h
        · cases h
        · split at h
          · cases h
          · cases h
            exact reaches_of_popChoice hpop
      · rw [hpop] at h
        cases h

end Machine

end RegexEngine
