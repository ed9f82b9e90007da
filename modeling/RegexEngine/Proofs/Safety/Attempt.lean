import RegexEngine.Proofs.Program.Compile
import RegexEngine.Proofs.Safety.Inside

/-!
# Safe Attempts

What can be said of every state that an attempt goes through. The matcher is at an instruction of
the program; everything it looks up is there; an instruction that looks for a mark finds the one
that was put for it; and a match that ends does not end before it starts. So a step cannot go wrong,
unless a limit is met.

All of this comes from the exploration that the code of a tree gives rise to. The states of a
matcher are controls of the exploration, so what the exploration says of its controls holds of the
states. Only the match that has been noted is not part of a control, and is followed step by step.

Between two attempts little is left of a matcher, and what is left is as the next attempt needs it.

## Main definitions

* `Found.Inside`: The spans of a match lie within the range.
* `Machine.Reaches`: A state that a matcher comes to.
* `Machine.Safe`: What is safe about a state of an attempt.
* `Machine.Rests`: What a matcher is like before an attempt.

## Theorems

* `run_congr`: Where every step of a run is the same, so is the run.
* `instr_inside`: The operands of the instructions of a program name registers that there are.
* `attempt_safe`: Every state of an attempt is safe.
* `attempt_raises`: An attempt fails by a limit only.
* `attempt_rests`: What an attempt leaves is ready for the next one.
-/

namespace RegexEngine

/-- The spans of a match are those of a program, and lie within a limit. -/
structure Found.Inside (program : Program) (limit : Nat) (found : Found) : Prop where
  size : found.captures.size = program.slotCount
  start_le : found.start ≤ found.stop
  stop_le : found.stop ≤ limit
  spans : ∀ n first last, found.place.spans n = some (first, last) → first ≤ last ∧ last ≤ limit

theorem Found.orLonger_cases (found : Found) (best : Option Found) :
    found.orLonger best = some found ∨ found.orLonger best = best := by
  cases best with
  | none => exact Or.inl rfl
  | some best =>
      rw [orLonger]
      split
      · exact Or.inl rfl
      · exact Or.inr rfl

namespace Control

variable {program : Program} {ctx : Context} {safe : Control → Prop} {c d : Control}
  {places : List Place}

/-- An exploration can go on from every control that is reached, until no choice is left. -/
theorem explores_goes (h : Explores program ctx safe c places) (hreach : Reaches program ctx c d) :
    (∃ regs, d = falling regs []) ∨ ∃ e, d.next program ctx = some e := by
  rcases explores_reaches h hreach with ⟨rest, -, hrest⟩
  cases hrest with
  | bottom regs => exact Or.inl ⟨regs, rfl⟩
  | step _ _ next => exact Or.inr ⟨_, next⟩
  | accept _ ends => exact Or.inr ⟨_, next_finish ends⟩

/-- A match that ends is among the places of the exploration. -/
theorem explores_finish (h : Explores program ctx safe c places) {pc : Int} {pos : Nat}
    {regs : Registers} {stack : List Entry}
    (hreach : Reaches program ctx c (running pc pos regs stack))
    (hends : program.instrAt pc = some .finish) : (⟨pos, regs.spans⟩ : Place) ∈ places := by
  rcases explores_reaches h hreach with ⟨rest, hsuffix, hrest⟩
  cases hrest with
  | step _ goes => exact absurd hends (goes _ _ _ _ rfl)
  | accept => exact hsuffix.subset List.mem_cons_self

end Control

/-- The status of an attempt that has ended. -/
def Verdict.status : Verdict → Status
  | matched m => .matched m
  | exhausted m => .exhausted m

/-- The matcher of a status. -/
def Status.machine : Status → Machine
  | running m | matched m | exhausted m => m

namespace Machine

variable {program : Program} {limits : Limits} {ctx : Context} {m after : Machine}

/-- A state that a matcher comes to. -/
def Reaches (program : Program) (limits : Limits) (ctx : Context) : Machine → Machine → Prop :=
  Relation.ReflTransGen fun m after => m.step program limits ctx = .ok (.running after)

/-- The control of a state that is reached is reached. -/
theorem reaches_control (h : Reaches program limits ctx m after) :
    Control.Reaches program ctx m.control after.control := by
  induction h with
  | refl => exact Relation.ReflTransGen.refl
  | tail _ hstep ih => exact Relation.ReflTransGen.trans ih (reaches_of_step hstep)

/-- Where every step from the states of a run is the same, so is the run. -/
theorem run_congr {other : Program} {ctx' : Context}
    (h : ∀ state, Reaches program limits ctx m state →
      state.step program limits ctx = state.step other limits ctx') (fuel : Nat) :
    run program limits ctx fuel m = run other limits ctx' fuel m := by
  induction fuel generalizing m with
  | zero => rfl
  | succ fuel ih =>
      rw [run_succ, run_succ, ← h m .refl]
      rcases hstep : m.step program limits ctx with cause | status
      · rfl
      · cases status with
        | running later => exact ih fun state hreach => h state (hreach.head hstep)
        | matched | exhausted => rfl

/-- Falling back fails by one of the limits on retries. -/
theorem fallBack_raises {cause : Cause} (h : m.fallBack limits = .error cause) :
    limits.Raises cause := by
  rw [fallBack] at h
  split at h
  · cases h
  · split at h
    · rename_i hmatch
      cases h
      exact Or.inr (Or.inl ⟨rfl, hmatch.1⟩)
    · split at h
      · rename_i hsearch
        cases h
        exact Or.inr (Or.inr ⟨rfl, hsearch.1⟩)
      · cases h

/-- A step from where the control can go on fails by a limit only. -/
theorem step_raises {d : Control} {cause : Cause} (hnext : m.control.next program ctx = some d)
    (h : m.step program limits ctx = .error cause) : limits.Raises cause := by
  -- The control goes on from here, so that there is an instruction.
  rcases hinstr : program.instrAt m.pc with _ | instr
  · rw [control, Control.next, hinstr] at hnext
    cases hnext
  rcases hobey : m.obey program limits ctx instr with failure | effect
  · rw [step_error hinstr hobey] at h
    cases h
    -- An instruction from which the control goes on fails only by a push on a stack that is full.
    by_cases hfinish : instr = .finish
    · subst hfinish
      cases hobey
    rcases obey_next limits m hinstr hfinish hnext with ⟨hon, hstops⟩ | hsame
    · rw [hstops] at hobey
      cases hobey
      exact Or.inl ⟨rfl, hon⟩
    · rw [hsame] at hobey
      cases hobey
  · rw [step_effect hinstr hobey] at h
    cases effect with
    | goOn | accept => cases h
    -- What is left is a step back to an older choice.
    | fallBack fallen => exact fallBack_raises h

/-- An attempt that can go on from every state fails by a limit only. -/
theorem run_raises {fuel : Nat} {cause : Cause}
    (hgoes : ∀ after, Reaches program limits ctx m after →
      ∃ d, after.control.next program ctx = some d)
    (h : run program limits ctx fuel m = .error (.failure cause)) : limits.Raises cause := by
  induction fuel generalizing m with
  | zero => cases h
  | succ fuel ih =>
      rw [run_succ] at h
      rcases hstep : m.step program limits ctx with failure | status
      · rw [hstep] at h
        cases h
        rcases hgoes m Relation.ReflTransGen.refl with ⟨d, hnext⟩
        exact step_raises hnext hstep
      · rw [hstep] at h
        cases status with
        | matched | exhausted => cases h
        | running later =>
            exact ih (fun after hafter => hgoes after (Relation.ReflTransGen.head hstep hafter)) h

/-- Falling back touches neither the start of the attempt nor the match that was noted. -/
theorem fallBack_keeps {status : Status} (h : m.fallBack limits = .ok status) :
    status.machine.start = m.start ∧ status.machine.best = m.best := by
  rw [fallBack] at h
  split at h
  · cases h
    exact ⟨rfl, rfl⟩
  · split at h
    · cases h
    · split at h
      · cases h
      · cases h
        exact ⟨rfl, rfl⟩

/-- An instruction other than the last leads to a control and does nothing else. -/
theorem obey_effectOn {instr : Instr} {effect : Effect} (hfinish : instr ≠ .finish)
    (hobey : m.obey program limits ctx instr = .ok effect) :
    ∃ d : Control, effect = d.effectOn m := by
  rcases obey_stopsOr m program limits ctx instr with ⟨-, hstops⟩ | hoff
  · rw [hstops] at hobey
    cases hobey
  rw [hoff, obey_standing m instr hfinish] at hobey
  rcases hstanding : (standing m.pc m.pos m.registers m.stack).obey program Limits.off ctx instr
    with cause | plain
  · rw [hstanding] at hobey
    cases hobey
  · rw [hstanding] at hobey
    cases hobey
    exact ⟨plain.control, rfl⟩

/-- A step keeps the start of the attempt, and keeps the match that was noted unless a match ends.
-/
theorem step_keeps {status : Status} (h : m.step program limits ctx = .ok status) :
    status.machine.start = m.start ∧ (status.machine.best = m.best ∨
      m.fetch program = some .finish ∧ status.machine.best = some m.found) := by
  rcases step_ok h with ⟨instr, effect, hinstr, hobey, h⟩
  -- Only the last instruction notes a match.
  by_cases hfinish : instr = .finish
  · subst hfinish
    simp only [obey, obeyFinish, Except.ok.injEq] at hobey
    subst hobey
    split at h
    · rcases fallBack_keeps h with ⟨hstart, hbest⟩
      exact ⟨hstart, Or.inl hbest⟩
    · split at h
      · rcases fallBack_keeps h with ⟨hstart, hbest⟩
        rw [noteBest_eq] at hstart hbest
        refine ⟨hstart, ?_⟩
        rcases Found.orLonger_cases m.found m.best with hnew | hold
        · exact Or.inr ⟨hinstr, hbest.trans hnew⟩
        · exact Or.inl (hbest.trans hold)
      · cases h
        exact ⟨rfl, Or.inl rfl⟩
  · rcases obey_effectOn hfinish hobey with ⟨d, rfl⟩
    cases d with
    | running =>
        cases h
        exact ⟨rfl, Or.inl rfl⟩
    | falling =>
        rcases fallBack_keeps h with ⟨hstart, hbest⟩
        exact ⟨hstart, Or.inl hbest⟩

/-- Falling back leads to no match. -/
theorem fallBack_ne_matched : m.fallBack limits ≠ .ok (.matched after) := by
  rw [fallBack]
  split
  · rintro ⟨⟩
  · split
    · rintro ⟨⟩
    · split
      · rintro ⟨⟩
      · rintro ⟨⟩

/-- An attempt matches where a match ends. -/
theorem matched_of_step (h : m.step program limits ctx = .ok (.matched after)) :
    after = m ∧ m.fetch program = some .finish := by
  rcases step_ok h with ⟨instr, effect, hinstr, hobey, h⟩
  -- A match that is refused or noted falls back, as everything else does that does not go on.
  by_cases hfinish : instr = .finish
  · subst hfinish
    simp only [obey, obeyFinish, Except.ok.injEq] at hobey
    subst hobey
    split at h
    · exact absurd h fallBack_ne_matched
    · split at h
      · exact absurd h fallBack_ne_matched
      · cases h
        exact ⟨rfl, hinstr⟩
  · rcases obey_effectOn hfinish hobey with ⟨d, rfl⟩
    cases d with
    | running => cases h
    | falling => exact absurd h fallBack_ne_matched

/-- Falling back with no choice left puts back values from the stack. -/
theorem inside_popChoice {stack : List Entry} {regs undone : Registers} {limit : Nat}
    (h : popChoice stack regs = .bottom undone) (hregs : regs.Inside program limit)
    (hstack : ∀ entry ∈ stack, entry.Inside program limit) : undone.Inside program limit := by
  induction stack generalizing regs with
  | nil =>
      cases h
      exact hregs
  | cons entry rest ih =>
      rw [List.forall_mem_cons] at hstack
      cases entry with
      | choice => cases h
      | mark | capture | counter | check => exact ih h (hregs.undo hstack.1) hstack.2

/-- An attempt that is exhausted leaves registers that are inside. -/
theorem inside_exhausted
    (hcode : ∀ pc instr, program.instrAt pc = some instr → instr.Inside program)
    (hinside : m.control.Inside program ctx.range)
    (h : m.step program limits ctx = .ok (.exhausted after)) :
    after.registers.Inside program ctx.range := by
  rcases step_ok h with ⟨instr, effect, hinstr, hobey, h⟩
  have hnext := Control.inside_next hcode hinside (next_obey hinstr hobey)
  -- Only a step that falls back with no choice left exhausts the attempt.
  cases effect with
  | goOn | accept => cases h
  | fallBack fallen =>
      simp only [Effect.status, fallBack] at h
      rcases hpop : popChoice fallen.stack fallen.registers with ⟨pc, pos, regs, stack⟩ | regs
      · rw [hpop] at h
        simp only at h
        split at h
        · cases h
        · split at h
          · cases h
          · cases h
      · rw [hpop] at h
        cases h
        exact inside_popChoice hpop hnext.1 hnext.2

/-- A run that has ended has ended with a step from a state that was reached. -/
theorem run_ends {fuel : Nat} {verdict : Verdict}
    (h : run program limits ctx fuel m = .ok verdict) :
    ∃ last, Reaches program limits ctx m last ∧
      last.step program limits ctx = .ok verdict.status := by
  induction fuel generalizing m with
  | zero => cases h
  | succ fuel ih =>
      rw [run_succ] at h
      rcases hstep : m.step program limits ctx with failure | status
      · rw [hstep] at h
        cases h
      · rw [hstep] at h
        cases status with
        | running later =>
            rcases ih h with ⟨last, hreach, hends⟩
            exact ⟨last, Relation.ReflTransGen.head hstep hreach, hends⟩
        | matched after | exhausted after =>
            cases h
            exact ⟨m, Relation.ReflTransGen.refl, hstep⟩

/-- What is safe about a state of an attempt that began in the state `first`. -/
structure Safe (program : Program) (ctx : Context) (m first : Machine) : Prop where
  /-- The matcher is at an instruction, whose operands name registers that there are. -/
  obeys : ∃ instr, m.fetch program = some instr ∧ instr.Inside program
  /-- No position lies behind the range, and what is saved on the stack belongs to registers that
  there are. -/
  inside : m.control.Inside program ctx.range
  /-- No span ends before it starts. -/
  spans : ∀ n start stop, m.registers.spans n = some (start, stop) →
    start ≤ stop ∧ stop ≤ ctx.range
  /-- An instruction that looks for a mark finds its own. -/
  marks : ∀ instr id, m.fetch program = some instr → instr.marker? = some id →
    Control.OwnsMark program ctx first.control id m.pc m.stack m.control
  /-- A match that ends does not end before it starts. -/
  ends : m.fetch program = some .finish → m.found.Inside program ctx.range
  /-- Nor does the match that was noted. -/
  best : ∀ found, m.best = some found → found.Inside program ctx.range

/-- What a matcher is like before an attempt. -/
structure Rests (program : Program) (limit : Nat) (m : Machine) : Prop where
  registers : m.registers.Inside program limit
  best : ∀ found, m.best = some found → found.Inside program limit

theorem rests_initial (program : Program) (limit start : Nat) :
    (initial program start).Rests program limit :=
  ⟨Registers.inside_fresh program limit, by rintro found ⟨⟩⟩

end Machine

namespace Registers

/-- A span of registers that are inside lies within the limit. -/
theorem Inside.stop_le {program : Program} {limit : Nat} {regs : Registers}
    (h : regs.Inside program limit) {n first last : Nat}
    (hspan : regs.spans n = some (first, last)) : last ≤ limit := by
  rcases Option.bind_eq_some_iff.mp hspan with ⟨capture, hcapture, hspan⟩
  have hcaptureOf : regs.captureOf n = capture := by
    rw [captureOf, Array.getD_eq_getD_getElem?, hcapture, Option.getD_some]
  refine (hcaptureOf ▸ h.captures n).stop last ?_
  rw [Capture.span?] at hspan
  split at hspan
  · rename_i hstop
    cases hspan
    exact hstop
  · cases hspan

end Registers

/-- The operands of the instructions name registers that there are, if the program has a register
for each of the numbers that its code uses. -/
theorem Program.instr_inside_of_numbered {program : Program} {code : Code} {ids : Ids}
    {groups : List Nat} (hcode : program.code = (code ++ [Instr.finish]).toArray)
    (hloops : program.loops = ids.loops) (hchecks : program.emptyChecks = ids.emptyChecks)
    (hgroups : ∀ n ∈ groups, n < program.slotCount) (hnumbered : code.Numbered {} ids groups)
    {pc : Int} {instr : Instr} (hinstr : program.instrAt pc = some instr) :
    instr.Inside program := by
  have hmem := mem_of_instrAt hinstr
  rw [hcode, List.mem_toArray] at hmem
  -- The instruction is one of the code, or the one that ends a match.
  rcases List.mem_append.mp hmem with hmem | hmem
  · have hnumber := hnumbered instr hmem
    cases instr with
    | openGroup number | closeGroup number => exact hgroups _ hnumber
    | enter id _ _ | again id _ _ =>
        rw [Instr.Inside, hloops]
        exact hnumber.2
    | emptyStart id | emptyEnd id =>
        rw [Instr.Inside, hchecks]
        exact hnumber.2
    | finish | bare _ => cases hnumber
    | leaf | fail | jump | fork | mark | cut | rewind | stepBack => trivial
  · cases List.mem_singleton.mp hmem
    trivial

namespace Program.Means

variable {program : Program} {tree : Tree} {ctx : Context} {limits : Limits} {m : Machine}
  {start : Nat}

/-- The operands of the instructions of a program name registers that there are. -/
theorem instr_inside (h : program.Means tree) {pc : Int} {instr : Instr}
    (hinstr : program.instrAt pc = some instr) : instr.Inside program := by
  rcases h.emits with ⟨code, ids, hemit, hcode, hloops, hchecks⟩
  exact instr_inside_of_numbered hcode hloops hchecks h.wellFormed.numbers
    (Node.numbered_emit tree hemit).2 hinstr

/-- An attempt keeps its start. -/
theorem start_reaches {state : Machine} (hreach : Machine.Reaches program limits ctx m state) :
    state.start = m.start := by
  induction hreach with
  | refl => rfl
  | tail _ hstep ih => exact (Machine.step_keeps hstep).1.trans ih

/-- A state of an attempt is safe if the match is that was noted. -/
theorem safe_of_best (h : program.Means tree) (hencoding : ctx.encoding = program.encoding)
    (hm : m.Rests program ctx.range) (hstart : start ≤ ctx.range) {state : Machine}
    (hreach : Machine.Reaches program limits ctx (m.restart start) state)
    (hbest : ∀ found, state.best = some found → found.Inside program ctx.range) :
    state.Safe program ctx (m.restart start) := by
  have hexplores := h.explores_start hencoding (Registers.records_clear _ hm.registers.fits start)
  have hcontrol := Machine.reaches_control hreach
  have hfirst : (m.restart start).control.Inside program ctx.range :=
    ⟨hstart, hm.registers.clear, List.forall_mem_nil _⟩
  have hinside : state.control.Inside program ctx.range :=
    Control.inside_reaches (fun _ _ => h.instr_inside) hfirst hcontrol
  rcases Control.explores_safe hexplores (fun _ => trivial) hcontrol with
    ⟨instr, hinstr, hordered, hmarks⟩
  have hspans : ∀ n first last, state.registers.spans n = some (first, last) →
      first ≤ last ∧ last ≤ ctx.range :=
    fun n first last hspan => ⟨hordered n first last hspan, hinside.2.1.stop_le hspan⟩
  refine ⟨⟨instr, hinstr, h.instr_inside hinstr⟩, hinside, hspans, ?_, ?_, hbest⟩
  · intro other id hother hid
    obtain rfl : instr = other := Option.some.inj (hinstr.symm.trans hother)
    exact hmarks id hid
  · intro hends
    -- The place is an outcome of the tree, which does not lie before the start.
    have hplace := Control.explores_finish hexplores hcontrol hends
    have hahead := Node.outcomes_advances ctx tree (.fresh start) _ hplace
    refine ⟨hinside.2.1.fits.captures, ?_, hinside.1, hspans⟩
    exact Nat.le_trans (Nat.le_of_eq (start_reaches hreach)) hahead.le

/-- Every state of an attempt is safe. -/
theorem attempt_safe (h : program.Means tree) (hencoding : ctx.encoding = program.encoding)
    (hm : m.Rests program ctx.range) (hstart : start ≤ ctx.range) {state : Machine}
    (hreach : Machine.Reaches program limits ctx (m.restart start) state) :
    state.Safe program ctx (m.restart start) := by
  -- All but the noted match follows from the state being reached; that match is carried along.
  induction hreach with
  | refl =>
      have hreach : Machine.Reaches program limits ctx (m.restart start) (m.restart start) :=
        Relation.ReflTransGen.refl
      exact h.safe_of_best hencoding hm hstart hreach hm.best
  | @tail before after hbefore hstep ih =>
      refine h.safe_of_best hencoding hm hstart (hbefore.tail hstep) fun found hfound => ?_
      -- The match that is noted is the one of before, or one that has ended in this step.
      rcases (Machine.step_keeps hstep).2 with hkept | ⟨hends, hnoted⟩
      · exact ih.best found (hkept.symm.trans hfound)
      · obtain rfl : before.found = found := Option.some.inj (hnoted.symm.trans hfound)
        exact ih.ends hends

/-- An attempt fails by a limit only. -/
theorem attempt_raises (h : program.Means tree) (hencoding : ctx.encoding = program.encoding)
    (hfits : m.registers.Fits program) {fuel : Nat} {cause : Cause}
    (hattempt : m.attempt program limits ctx fuel start = .error (.failure cause)) :
    limits.Raises cause := by
  refine Machine.run_raises (fun after hreach => ?_) hattempt
  have hexplores := h.explores_start hencoding (Registers.records_clear _ hfits start)
  rcases Control.explores_goes hexplores (Machine.reaches_control hreach) with
    ⟨regs, hfalls⟩ | hnext
  · -- A matcher is at an instruction, so its control is not that of falling back.
    cases hfalls
  · exact hnext

/-- What an attempt without a match leaves is ready for the next attempt. -/
theorem attempt_rests (h : program.Means tree) (hencoding : ctx.encoding = program.encoding)
    (hm : m.Rests program ctx.range) (hstart : start ≤ ctx.range) {fuel : Nat} {after : Machine}
    (hattempt : m.attempt program limits ctx fuel start = .ok (.exhausted after)) :
    after.Rests program ctx.range := by
  rcases Machine.run_ends hattempt with ⟨last, hreach, hstep⟩
  have hsafe := h.attempt_safe hencoding hm hstart hreach
  refine ⟨Machine.inside_exhausted (fun _ _ => h.instr_inside) hsafe.inside hstep, ?_⟩
  intro found hfound
  -- The last step may have ended a match that was noted and not answered with.
  rcases (Machine.step_keeps hstep).2 with hkept | ⟨hends, hnoted⟩
  · exact hsafe.best found (hkept.symm.trans hfound)
  · obtain rfl : last.found = found := Option.some.inj (hnoted.symm.trans hfound)
    exact hsafe.ends hends

/-- A match that an attempt comes to lies within the range. -/
theorem attempt_matched (h : program.Means tree) (hencoding : ctx.encoding = program.encoding)
    (hm : m.Rests program ctx.range) (hstart : start ≤ ctx.range) {fuel : Nat} {after : Machine}
    (hattempt : m.attempt program limits ctx fuel start = .ok (.matched after)) :
    after.found.Inside program ctx.range := by
  rcases Machine.run_ends hattempt with ⟨last, hreach, hstep⟩
  rcases Machine.matched_of_step hstep with ⟨rfl, hends⟩
  exact (h.attempt_safe hencoding hm hstart hreach).ends hends

end Program.Means

end RegexEngine
