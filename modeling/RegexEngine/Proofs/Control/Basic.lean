import RegexEngine.Matcher.Run

/-!
# Control of the Matcher

Where a matcher goes next depends on four things: the instruction it stands at, its position, its
registers and its stack. The retry counters and the longest match noted so far ride along and never
steer it, and the limits can only stop it. A `Control` is those four things. A matcher that is
falling back is a control of its own, so that falling back can be followed entry by entry:
`Control.next` undoes one saved value, or drops one mark, or resumes one choice.

At the end of a match `next` falls back, as if the match had been refused. A matcher that accepts
the match stops there instead; one that looks for the longest match does fall back. Every run of a
matcher is therefore a beginning of the run that `next` describes.

What `next` does at an instruction is read off `Machine.obey`, for a matcher with nothing counted
and no limits. `obey_stopsOr` and `obey_standing` say that this loses nothing: a matcher under
limits does the same or meets the stack limit. After these two lemmas no proof opens `obey` but
through `next`. `obey_atMost` compares two matchers under limits, one of them as strict as the other
or stricter; having no limits at all is the least strict case.

## Main definitions

* `Control`: A matcher without its counts.
* `Machine.control`, `Effect.control`: The control of a matcher, and of an effect on it.
* `Control.next`: The control after a step.
* `Control.effectOn`: What a control is as an effect on a matcher.
* `Limits.Off`: The limits on searches are switched off.
* `Limits.AtMost`: Some limits on searches are as strict as others.
* `StopsOr`: A computation that meets the stack limit or does what another one does.

## Theorems

* `obey_atMost`, `obey_stopsOr`: Limits can only stop an instruction.
* `obey_standing`: The counts do not steer an instruction.
-/

namespace RegexEngine

namespace Limits

/-- Limits that are never met. -/
def off : Limits :=
  { retriesPerMatch := 0, retriesPerSearch := 0, stackEntries := 0 }

/-- The limits on searches are switched off. -/
def Off (limits : Limits) : Prop :=
  limits.retriesPerMatch = 0 ∧ limits.retriesPerSearch = 0 ∧ limits.stackEntries = 0

/-- The cause belongs to a limit that is switched on. -/
def Raises (limits : Limits) (cause : Cause) : Prop :=
  (cause = .stackLimit ∧ limits.stackEntries ≠ 0) ∨
  (cause = .retryLimitInMatch ∧ limits.retriesPerMatch ≠ 0) ∨
  (cause = .retryLimitInSearch ∧ limits.retriesPerSearch ≠ 0)

/-- A bound allows no more than another one. Zero is no bound. -/
def Bounds (low high : Nat) : Prop :=
  high = 0 ∨ low ≠ 0 ∧ low ≤ high

/-- Every limit on searches allows no more than the other one of its kind. -/
structure AtMost (low high : Limits) : Prop where
  retriesPerMatch : Bounds low.retriesPerMatch high.retriesPerMatch
  retriesPerSearch : Bounds low.retriesPerSearch high.retriesPerSearch
  stackEntries : Bounds low.stackEntries high.stackEntries

theorem Off.not_raises {limits : Limits} (h : limits.Off) (cause : Cause) :
    ¬ limits.Raises cause := by
  rcases h with ⟨hmatch, hsearch, hstack⟩
  rintro (⟨-, hne⟩ | ⟨-, hne⟩ | ⟨-, hne⟩)
  · exact hne hstack
  · exact hne hmatch
  · exact hne hsearch

theorem atMost_off (limits : Limits) : limits.AtMost off :=
  ⟨Or.inl rfl, Or.inl rfl, Or.inl rfl⟩

/-- What is over the greater bound is over the smaller one. -/
theorem Bounds.over {low high n : Nat} (h : Bounds low high) (hover : high ≠ 0 ∧ high ≤ n) :
    low ≠ 0 ∧ low ≤ n := by
  rcases h with hnone | ⟨hne, hle⟩
  · exact absurd hnone hover.1
  · exact ⟨hne, Nat.le_trans hle hover.2⟩

end Limits

/-- What decides where a matcher goes next. -/
inductive Control where
  /-- The matcher is at an instruction. -/
  | running (pc : Int) (pos : Nat) (regs : Registers) (stack : List Entry)
  /-- The matcher is falling back. -/
  | falling (regs : Registers) (stack : List Entry)

namespace Machine

/-- The control of a matcher at an instruction. -/
def control (m : Machine) : Control :=
  .running m.pc m.pos m.registers m.stack

/-- A matcher with nothing counted. -/
def standing (pc : Int) (pos : Nat) (regs : Registers) (stack : List Entry) : Machine where
  pc := pc
  pos := pos
  start := 0
  registers := regs
  stack := stack

end Machine

/-- The control of a matcher on which an instruction had its effect. A match that ends is taken to
be refused. -/
def Effect.control : Effect → Control
  | goOn m => m.control
  | fallBack m | accept m => .falling m.registers m.stack

/-- The instruction at an address. -/
def Program.instrAt (program : Program) (pc : Int) : Option Instr :=
  if pc < 0 then none else program.code[pc.toNat]?

theorem Program.mem_of_instrAt {program : Program} {pc : Int} {instr : Instr}
    (h : program.instrAt pc = some instr) : instr ∈ program.code := by
  rw [instrAt] at h
  split at h
  · cases h
  · exact Array.mem_of_getElem? h

namespace Control

/-- The control after the next step, if there is one. -/
def next (program : Program) (ctx : Context) : Control → Option Control
  | running pc pos regs stack =>
    (program.instrAt pc).bind fun instr =>
      match (Machine.standing pc pos regs stack).obey program Limits.off ctx instr with
      | .ok effect => some effect.control
      | .error _ => none
  | falling _ [] => none
  | falling regs (.choice pc pos :: stack) => some (.running pc pos regs stack)
  | falling regs (entry :: stack) => some (.falling (regs.undo entry) stack)

/-- What it means for a matcher to come to a control. -/
def effectOn (m : Machine) : Control → Effect
  | running pc pos regs stack =>
    .goOn { m with pc := pc, pos := pos, registers := regs, stack := stack }
  | falling regs stack => .fallBack { m with registers := regs, stack := stack }

end Control

/-- A computation under limits that meets the stack limit or does what another one does. -/
def StopsOr {α : Type} (limits : Limits) (limited full : Except Cause α) : Prop :=
  (limits.stackEntries ≠ 0 ∧ limited = .error .stackLimit) ∨ limited = full

namespace StopsOr

variable {α β : Type} {limits : Limits}

theorem refl (x : Except Cause α) : StopsOr limits x x :=
  Or.inr rfl

theorem bind {x y : Except Cause α} {f g : α → Except Cause β} (h : StopsOr limits x y)
    (hf : ∀ a, StopsOr limits (f a) (g a)) : StopsOr limits (x >>= f) (y >>= g) := by
  rcases h with ⟨hon, rfl⟩ | rfl
  · exact Or.inl ⟨hon, rfl⟩
  · cases x with
    | error cause => exact Or.inr rfl
    | ok a => exact hf a

theorem ite {p : Prop} [Decidable p] {x y x' y' : Except Cause α} (h : StopsOr limits x y)
    (h' : StopsOr limits x' y') : StopsOr limits (if p then x else x') (if p then y else y') := by
  split
  · exact h
  · exact h'

end StopsOr

namespace Machine

variable {program : Program} {ctx : Context}

theorem push_off (m : Machine) (entry : Entry) :
    m.push Limits.off entry = .ok { m with stack := entry :: m.stack } :=
  rfl

section Stricter

variable {low high : Limits} (h : low.AtMost high)
include h

theorem push_atMost (m : Machine) (entry : Entry) :
    StopsOr low (m.push low entry) (m.push high entry) := by
  rw [push, push]
  split
  · rename_i hfull
    exact Or.inl ⟨hfull.1, rfl⟩
  · rename_i hroom
    rw [if_neg fun hfull => hroom (h.stackEntries.over hfull)]
    exact Or.inr rfl

theorem branch_atMost (m : Machine) (bodyFirst : Bool) (body exit : Int) :
    StopsOr low (m.branch low bodyFirst body exit) (m.branch high bodyFirst body exit) :=
  .ite ((push_atMost h ..).bind fun _ => .refl _) ((push_atMost h ..).bind fun _ => .refl _)

theorem changeCounter_atMost (m : Machine) (id : Nat) (value : Counter) :
    StopsOr low (m.changeCounter low id value) (m.changeCounter high id value) :=
  (push_atMost h ..).bind fun _ => .refl _

theorem obeyEnter_atMost (m : Machine) (program : Program) (id : Nat) (exit : Int)
    (greedy : Bool) :
    StopsOr low (m.obeyEnter program low id exit greedy)
      (m.obeyEnter program high id exit greedy) := by
  simp only [obeyEnter]
  split
  · exact .refl _
  · exact (changeCounter_atMost h ..).bind fun m => .ite (branch_atMost h ..) (.refl _)

theorem obeyAgain_atMost (m : Machine) (program : Program) (id : Nat) (body : Int)
    (greedy : Bool) :
    StopsOr low (m.obeyAgain program low id body greedy)
      (m.obeyAgain program high id body greedy) := by
  simp only [obeyAgain]
  split
  · exact .refl _
  · refine .ite ((changeCounter_atMost h ..).bind fun _ => .refl _) ?_
    exact (changeCounter_atMost h ..).bind fun m => .ite (branch_atMost h ..) (.refl _)

/-- Stricter limits can only stop an instruction, and only the limit on the stack does. -/
theorem obey_atMost (m : Machine) (program : Program) (ctx : Context) (instr : Instr) :
    StopsOr low (m.obey program low ctx instr) (m.obey program high ctx instr) := by
  -- An instruction that pushes does so before all else, so it meets the limit first or not at all.
  cases instr with
  | fork offset => exact (push_atMost h ..).bind fun _ => .refl _
  | mark id saves => exact (push_atMost h ..).bind fun _ => .refl _
  | openGroup number => exact ((push_atMost h ..).bind fun _ => .refl _).bind fun _ => .refl _
  | closeGroup number => exact ((push_atMost h ..).bind fun _ => .refl _).bind fun _ => .refl _
  | emptyStart id => exact ((push_atMost h ..).bind fun _ => .refl _).bind fun _ => .refl _
  | enter id exit greedy => exact (obeyEnter_atMost h ..).bind fun _ => .refl _
  | again id body greedy => exact (obeyAgain_atMost h ..).bind fun _ => .refl _
  | _ => exact .refl _

end Stricter

/-- Limits can only stop an instruction. -/
theorem obey_stopsOr (m : Machine) (program : Program) (limits : Limits) (ctx : Context)
    (instr : Instr) :
    StopsOr limits (m.obey program limits ctx instr) (m.obey program Limits.off ctx instr) :=
  obey_atMost limits.atMost_off m program ctx instr

/-- The counts do not steer an instruction other than the last. What it does to a matcher is what it
does to one with nothing counted. -/
theorem obey_standing (m : Machine) (instr : Instr) (hfinish : instr ≠ .finish) :
    m.obey program Limits.off ctx instr =
      ((standing m.pc m.pos m.registers m.stack).obey program Limits.off ctx instr).map
        fun effect => effect.control.effectOn m := by
  -- The fields become variables, since conditions on them must look alike on both sides.
  rcases m with ⟨pc, pos, start, regs, stack, retries, searchRetries, best⟩
  change _ = (obey ⟨pc, pos, 0, regs, stack, 0, 0, none⟩ program Limits.off ctx instr).map _
  cases instr with
  | finish => exact absurd rfl hfinish
  | leaf test =>
      simp only [obey]
      rcases test.accept ctx regs.captures pos with _ | next
      · rfl
      · rfl
  | stepBack n =>
      simp only [obey]
      rcases ctx.encoding.stepBack ctx.subject 0 n pos with _ | next
      · rfl
      · rfl
  | enter id exit greedy =>
      simp only [obey, obeyEnter]
      rcases program.loops[id]? with _ | bounds
      · rfl
      · simp only [changeCounter, push_off, branch, pushChoice, bind, Except.bind, pure,
          Except.pure]
        by_cases hlower : bounds.lower = 0
        · cases greedy <;> simp only [if_pos hlower] <;> rfl
        · simp only [if_neg hlower]
          rfl
  | again id body greedy =>
      simp only [obey, obeyAgain]
      rcases program.loops[id]? with _ | bounds
      · rfl
      · simp only [changeCounter, push_off, branch, pushChoice, bind, Except.bind, pure,
          Except.pure]
        by_cases hend : (pos = (regs.counterOf id).start ∧
            bounds.lower ≤ (regs.counterOf id).count + 1) ∨
            bounds.upper.any (· ≤ (regs.counterOf id).count + 1)
        · simp only [if_pos hend]
          rfl
        · by_cases henough : bounds.lower ≤ (regs.counterOf id).count + 1
          · cases greedy <;> simp only [if_neg hend, if_pos henough] <;> rfl
          · simp only [if_neg hend, if_neg henough]
            rfl
  | cut id returns =>
      simp only [obey, obeyCut]
      rcases cutTo id [] stack with _ | ⟨back, rest⟩
      · rfl
      · rfl
  | rewind id =>
      simp only [obey, obeyRewind]
      rcases rewindTo id stack regs with _ | ⟨rest, undone⟩
      · rfl
      · rfl
  | emptyEnd id =>
      simp only [obey]
      by_cases hcheck : regs.checkOf id = some pos
      · simp only [if_pos hcheck]
        rfl
      · simp only [if_neg hcheck]
        rfl
  | _ => rfl

/-- The end of a match falls back, as far as the control is concerned. -/
theorem obeyFinish_control (m : Machine) (ctx : Context) :
    (m.obeyFinish ctx).control = .falling m.registers m.stack := by
  rw [obeyFinish]
  split
  · rfl
  · split
    · simp only [Effect.control, noteBest]
      split
      · rfl
      · split
        · rfl
        · rfl
    · rfl

end Machine

end RegexEngine
