import RegexEngine.Proofs.Control.Step

/-!
# What a Step Has Made

The equations for the instructions tell where a step leads. Read backwards, they tell what a control
that a step has led to can be. An instruction changes little of what it finds: it moves the
position, or changes one register and saves the old value, or puts a choice or a mark on the stack,
or cuts the stack back to a mark. `Makes` lists these changes, without the places in the code where
they are made and where they lead. What every change keeps is kept by a step, so a proof that it is
has one case for each change and opens no instruction.

## Main definitions

* `Control.Makes`: What an instruction makes of a position, registers and a stack.

## Theorems

* `cutTo_some`, `rewindTo_some`: What is cut back was above a mark.
* `makes_of_next`: A step makes what its instruction makes.
-/

namespace RegexEngine

section Marks

variable {id : Nat} {stack rest : List Entry} {regs undone : Registers}

/-- Rewinding finds the newest mark with the number. -/
theorem rewindTo_some (h : rewindTo id stack regs = some (rest, undone)) :
    ∃ above pos, stack = above ++ .mark id pos :: rest ∧
      (∀ entry ∈ above, entry.isMark id = false) ∧ undone = regs.undoAll above := by
  induction stack generalizing regs with
  | nil => cases h
  | cons entry below ih =>
      rw [rewindTo] at h
      split at h
      · rename_i hmark
        cases h
        cases entry with
        | mark found pos =>
            obtain rfl : found = id := by simpa only [Entry.isMark, beq_iff_eq] using hmark
            exact ⟨[], pos, rfl, List.forall_mem_nil _, rfl⟩
        | choice | capture | counter | check => cases hmark
      · rename_i hmark
        rcases ih h with ⟨above, pos, rfl, hnone, rfl⟩
        exact ⟨entry :: above, pos, rfl,
          List.forall_mem_cons.mpr ⟨by simpa using hmark, hnone⟩, rfl⟩

/-- So does cutting, which leaves the saved values above the mark. -/
theorem cutTo_some {pos : Nat} (h : cutTo id [] stack = some (pos, rest)) :
    ∃ above below, stack = above ++ .mark id pos :: below ∧
      rest = above.filter Entry.isSaved ++ below := by
  -- What has been kept so far does not decide where the mark is, so the induction is over any
  -- `kept`.
  suffices hmark : ∀ kept, cutTo id kept stack = some (pos, rest) →
      ∃ above below, stack = above ++ .mark id pos :: below ∧
        ∀ entry ∈ above, entry.isMark id = false by
    rcases hmark [] h with ⟨above, below, rfl, hnone⟩
    rw [cutTo_mark hnone] at h
    cases h
    exact ⟨above, below, rfl, rfl⟩
  clear h
  induction stack with
  | nil =>
      rintro kept ⟨⟩
  | cons entry below ih =>
      intro kept h
      -- The first entry is the mark, or the mark is the newest one below it.
      by_cases hentry : entry.isMark id
      · cases entry with
        | mark found at_ =>
            obtain rfl : found = id := by simpa only [Entry.isMark, beq_iff_eq] using hentry
            rw [cutTo, if_pos rfl] at h
            cases h
            exact ⟨[], below, rfl, List.forall_mem_nil _⟩
        | choice | capture | counter | check => cases hentry
      -- An entry other than the mark is kept or dropped, and the cut goes on below it.
      · have hbelow : ∃ kept, cutTo id kept below = some (pos, rest) := by
          cases entry with
          | mark found at_ =>
              have hne : found ≠ id := by simpa only [Entry.isMark, beq_iff_eq] using hentry
              rw [cutTo, if_neg hne] at h
              exact ⟨_, h⟩
          | choice | capture | counter | check => exact ⟨_, h⟩
        rcases hbelow with ⟨kept, hcut⟩
        rcases ih kept hcut with ⟨above, rest, rfl, hnone⟩
        exact ⟨entry :: above, rest, rfl,
          List.forall_mem_cons.mpr ⟨by simpa using hentry, hnone⟩⟩

end Marks

/-- The loop that an instruction counts. -/
def Instr.loop? : Instr → Option Nat
  | enter id .. | again id .. => some id
  | _ => none

namespace Control

/-- What an instruction makes of a position, registers and a stack. -/
inductive Makes (ctx : Context) (pos : Nat) (regs : Registers) (stack : List Entry) :
    Instr → Control → Prop
  | falls (instr : Instr) : Makes ctx pos regs stack instr (falling regs stack)
  | stays (instr : Instr) (pc : Int) : Makes ctx pos regs stack instr (running pc pos regs stack)
  | accepts {test : Leaf} {last : Nat} (pc : Int)
      (haccept : test.accept ctx regs.captures pos = some last) :
      Makes ctx pos regs stack (.leaf test) (running pc last regs stack)
  | stepsBack {n last : Nat} (pc : Int)
      (hback : ctx.encoding.stepBack ctx.subject 0 n pos = some last) :
      Makes ctx pos regs stack (.stepBack n) (running pc last regs stack)
  | leaves (offset pc back : Int) :
      Makes ctx pos regs stack (.fork offset) (running pc pos regs (.choice back pos :: stack))
  | marks (id : Nat) (saves : Bool) (pc : Int) :
      Makes ctx pos regs stack (.mark id saves) (running pc pos regs (.mark id pos :: stack))
  | opens (number : Nat) (pc : Int) :
      Makes ctx pos regs stack (.openGroup number)
        (running pc pos (regs.setCapture number { regs.captureOf number with opened := some pos })
          (.capture number (regs.captureOf number) :: stack))
  | closes (number : Nat) (pc : Int) :
      Makes ctx pos regs stack (.closeGroup number)
        (running pc pos
          (regs.setCapture number { regs.captureOf number with
            start := (regs.captureOf number).opened, stop := some pos })
          (.capture number (regs.captureOf number) :: stack))
  | checks (id : Nat) (pc : Int) :
      Makes ctx pos regs stack (.emptyStart id)
        (running pc pos (regs.setCheck id (some pos)) (.check id (regs.checkOf id) :: stack))
  /-- An iteration begins here, or the loop is over and keeps where the last one began. -/
  | counts {instr : Instr} {id : Nat} {value : Counter} (pc : Int) (hloop : instr.loop? = some id)
      (hvalue : value.start = pos ∨ value.start = (regs.counterOf id).start) :
      Makes ctx pos regs stack instr
        (running pc pos (regs.setCounter id value) (.counter id (regs.counterOf id) :: stack))
  /-- A loop runs its body or leaves, and the other way is left as a choice. -/
  | decides {instr : Instr} {id : Nat} {value : Counter} (pc back : Int)
      (hloop : instr.loop? = some id) (hvalue : value.start = pos) :
      Makes ctx pos regs stack instr
        (running pc pos (regs.setCounter id value)
          (.choice back pos :: .counter id (regs.counterOf id) :: stack))
  | cuts {id back : Nat} {above below : List Entry} (returns : Bool) (pc : Int)
      (hstack : stack = above ++ .mark id back :: below) :
      Makes ctx pos regs stack (.cut id returns)
        (running pc (if returns then back else pos) regs (above.filter Entry.isSaved ++ below))
  | rewinds {id last : Nat} {above below : List Entry} (pc : Int)
      (hstack : stack = above ++ .mark id last :: below) :
      Makes ctx pos regs stack (.rewind id) (running pc pos (regs.undoAll above) below)

variable {program : Program} {ctx : Context} {pc : Int} {pos : Nat} {regs : Registers}
  {stack : List Entry} {d : Control}

/-- A loop decides to run its body or to leave. -/
theorem makes_branch {instr : Instr} {id : Nat} {value : Counter} (bodyFirst : Bool)
    (body exit : Int) (hloop : instr.loop? = some id) (hvalue : value.start = pos) :
    Makes ctx pos regs stack instr
      (branch bodyFirst body exit pos (regs.setCounter id value)
        (.counter id (regs.counterOf id) :: stack)) := by
  rw [branch]
  split
  · exact .decides body exit hloop hvalue
  · exact .decides exit body hloop hvalue

/-- A step makes what the instruction makes that it takes. -/
theorem makes_of_next (hnext : (running pc pos regs stack).next program ctx = some d) :
    ∃ instr, program.instrAt pc = some instr ∧ Makes ctx pos regs stack instr d := by
  rcases hinstr : program.instrAt pc with _ | instr
  · rw [next, hinstr] at hnext
    cases hnext
  refine ⟨instr, rfl, ?_⟩
  -- Each instruction makes one thing, or one of two where it tests something: a test that fails
  -- falls back, and a loop goes on or leaves. The equation of `next` for the instruction tells
  -- which.
  cases instr with
  | leaf test =>
      rw [next_leaf hinstr] at hnext
      split at hnext
      · rename_i last haccept
        cases hnext
        exact .accepts (pc + 1) haccept
      · cases hnext
        exact .falls _
  | stepBack n =>
      rw [next_stepBack hinstr] at hnext
      split at hnext
      · rename_i last hback
        cases hnext
        exact .stepsBack (pc + 1) hback
      · cases hnext
        exact .falls _
  | finish =>
      rw [next_finish hinstr] at hnext
      cases hnext
      exact .falls _
  | fail =>
      rw [next_fail hinstr] at hnext
      cases hnext
      exact .falls _
  | jump offset =>
      rw [next_jump hinstr] at hnext
      cases hnext
      exact .stays _ (pc + offset)
  | fork offset =>
      rw [next_fork hinstr] at hnext
      cases hnext
      exact .leaves offset (pc + 1) (pc + offset)
  | mark id saves =>
      rw [next_mark hinstr] at hnext
      cases hnext
      exact .marks id saves (pc + 1)
  | openGroup number =>
      rw [next_openGroup hinstr] at hnext
      cases hnext
      exact .opens number (pc + 1)
  | closeGroup number =>
      rw [next_closeGroup hinstr] at hnext
      cases hnext
      exact .closes number (pc + 1)
  | cut id returns =>
      -- The entries above the mark are those that the cut has passed.
      rw [next_cut hinstr] at hnext
      rcases Option.map_eq_some_iff.mp hnext with ⟨⟨back, rest⟩, hcut, hgoes⟩
      rcases cutTo_some hcut with ⟨above, below, hstack, rfl⟩
      cases hgoes
      exact .cuts returns (pc + 1) hstack
  | rewind id =>
      rw [next_rewind hinstr] at hnext
      rcases Option.map_eq_some_iff.mp hnext with ⟨⟨rest, undone⟩, hrewind, hgoes⟩
      rcases rewindTo_some hrewind with ⟨above, last, hstack, -, rfl⟩
      cases hgoes
      exact .rewinds (pc + 1) hstack
  | emptyStart id =>
      rw [next_emptyStart hinstr] at hnext
      cases hnext
      exact .checks id (pc + 1)
  | emptyEnd id =>
      rw [next_emptyEnd hinstr] at hnext
      cases hnext
      exact .stays _ _
  | enter id exit greedy =>
      -- Without bounds for the loop the matcher would stop, which is no step.
      rcases hbounds : program.loops[id]? with _ | bounds
      · rw [next_instr hinstr] at hnext
        simp only [Machine.obey, Machine.obeyEnter, hbounds] at hnext
        cases hnext
      · rw [next_enter hinstr hbounds] at hnext
        cases hnext
        split
        · exact makes_branch greedy (pc + 1) (pc + exit) rfl rfl
        · exact .counts (pc + 1) rfl (Or.inl rfl)
  | again id body greedy =>
      rcases hbounds : program.loops[id]? with _ | bounds
      · rw [next_instr hinstr] at hnext
        simp only [Machine.obey, Machine.obeyAgain, hbounds] at hnext
        cases hnext
      · rcases hold : regs.counterOf id with ⟨count, start⟩
        rw [next_again hinstr hbounds hold, ← hold] at hnext
        cases hnext
        -- Below the lower bound the body is run again. From there on both ways are open until the
        -- upper bound is reached.
        split
        · exact .counts (pc + 1) rfl (Or.inr (by rw [hold]))
        · split
          · exact makes_branch greedy (pc + body) (pc + 1) rfl rfl
          · exact .counts (pc + body) rfl (Or.inl rfl)
  | bare name =>
      rw [next_instr hinstr] at hnext
      cases hnext

end Control

end RegexEngine
