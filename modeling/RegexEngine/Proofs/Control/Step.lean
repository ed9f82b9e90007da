import RegexEngine.Proofs.Control.Basic

/-!
# Steps of the Control

One equation for each instruction and for each kind of stack entry. They are the rules by which
fragments of code are followed; what a fragment does is found by rewriting with them.

Falling back over entries that are no choices only puts saved values back, so it may be done in one
go. Cutting and rewinding look for the newest mark with a number. When the entries above that mark
are known, `cutTo_mark` and `rewindTo_mark` say what either leaves.

## Main definitions

* `Registers.undoAll`: Puts back everything that some entries saved.

## Theorems

* `next_leaf`, `next_fork`, …: What each instruction does.
* `undoAll_saved`: Choices and marks save nothing.
* `cutTo_mark`: Cutting to a mark keeps the saved values above it.
* `rewindTo_mark`: Rewinding to a mark puts them back.
-/

namespace RegexEngine

namespace Control

variable {program : Program} {ctx : Context} {pc : Int} {pos : Nat} {regs : Registers}
  {stack : List Entry}

theorem next_instr {instr : Instr} (h : program.instrAt pc = some instr) :
    (running pc pos regs stack).next program ctx =
      match (Machine.standing pc pos regs stack).obey program Limits.off ctx instr with
      | .ok effect => some effect.control
      | .error _ => none := by
  rw [next, h]
  rfl

theorem next_leaf {test : Leaf} (h : program.instrAt pc = some (.leaf test)) :
    (running pc pos regs stack).next program ctx =
      match test.accept ctx regs.captures pos with
      | some last => some (running (pc + 1) last regs stack)
      | none => some (falling regs stack) := by
  rw [next_instr h]
  simp only [Machine.obey, Machine.standing]
  rcases test.accept ctx regs.captures pos with _ | last
  · rfl
  · rfl

theorem next_stepBack {n : Nat} (h : program.instrAt pc = some (.stepBack n)) :
    (running pc pos regs stack).next program ctx =
      match ctx.encoding.stepBack ctx.subject 0 n pos with
      | some last => some (running (pc + 1) last regs stack)
      | none => some (falling regs stack) := by
  rw [next_instr h]
  simp only [Machine.obey, Machine.standing]
  rcases ctx.encoding.stepBack ctx.subject 0 n pos with _ | last
  · rfl
  · rfl

theorem next_finish (h : program.instrAt pc = some .finish) :
    (running pc pos regs stack).next program ctx = some (falling regs stack) := by
  rw [next_instr h]
  simp only [Machine.obey]
  rw [Machine.obeyFinish_control]
  rfl

theorem next_fail (h : program.instrAt pc = some .fail) :
    (running pc pos regs stack).next program ctx = some (falling regs stack) := by
  rw [next_instr h]
  rfl

theorem next_jump {offset : Int} (h : program.instrAt pc = some (.jump offset)) :
    (running pc pos regs stack).next program ctx =
      some (running (pc + offset) pos regs stack) := by
  rw [next_instr h]
  rfl

theorem next_fork {offset : Int} (h : program.instrAt pc = some (.fork offset)) :
    (running pc pos regs stack).next program ctx =
      some (running (pc + 1) pos regs (.choice (pc + offset) pos :: stack)) := by
  rw [next_instr h]
  rfl

theorem next_openGroup {n : Nat} (h : program.instrAt pc = some (.openGroup n)) :
    (running pc pos regs stack).next program ctx =
      some (running (pc + 1) pos
        (regs.setCapture n { regs.captureOf n with opened := some pos })
        (.capture n (regs.captureOf n) :: stack)) := by
  rw [next_instr h]
  rfl

theorem next_closeGroup {n : Nat} (h : program.instrAt pc = some (.closeGroup n)) :
    (running pc pos regs stack).next program ctx =
      some (running (pc + 1) pos
        (regs.setCapture n
          { regs.captureOf n with start := (regs.captureOf n).opened, stop := some pos })
        (.capture n (regs.captureOf n) :: stack)) := by
  rw [next_instr h]
  rfl

theorem next_mark {id : Nat} {saves : Bool} (h : program.instrAt pc = some (.mark id saves)) :
    (running pc pos regs stack).next program ctx =
      some (running (pc + 1) pos regs (.mark id pos :: stack)) := by
  rw [next_instr h]
  rfl

theorem next_cut {id : Nat} {returns : Bool} (h : program.instrAt pc = some (.cut id returns)) :
    (running pc pos regs stack).next program ctx =
      (cutTo id [] stack).map fun found =>
        running (pc + 1) (if returns then found.1 else pos) regs found.2 := by
  rw [next_instr h]
  simp only [Machine.obey, Machine.obeyCut, Machine.standing]
  rcases cutTo id [] stack with _ | ⟨back, rest⟩
  · rfl
  · rfl

theorem next_rewind {id : Nat} (h : program.instrAt pc = some (.rewind id)) :
    (running pc pos regs stack).next program ctx =
      (rewindTo id stack regs).map fun found => running (pc + 1) pos found.2 found.1 := by
  rw [next_instr h]
  simp only [Machine.obey, Machine.obeyRewind, Machine.standing]
  rcases rewindTo id stack regs with _ | ⟨rest, undone⟩
  · rfl
  · rfl

theorem next_emptyStart {id : Nat} (h : program.instrAt pc = some (.emptyStart id)) :
    (running pc pos regs stack).next program ctx =
      some (running (pc + 1) pos (regs.setCheck id (some pos))
        (.check id (regs.checkOf id) :: stack)) := by
  rw [next_instr h]
  rfl

theorem next_emptyEnd {id : Nat} (h : program.instrAt pc = some (.emptyEnd id)) :
    (running pc pos regs stack).next program ctx =
      some (running (if regs.checkOf id = some pos then pc + 2 else pc + 1) pos regs stack) := by
  rw [next_instr h]
  -- The fields of the matcher have to show for the two conditions to look alike.
  unfold Machine.standing
  simp only [Machine.obey]
  by_cases hcheck : regs.checkOf id = some pos
  · simp only [if_pos hcheck]
    rfl
  · simp only [if_neg hcheck]
    rfl

/-- Where a loop goes that may run its body or leave: one way is taken and the other left as a
choice. -/
def branch (bodyFirst : Bool) (body exit : Int) (pos : Nat) (regs : Registers)
    (stack : List Entry) : Control :=
  if bodyFirst then running body pos regs (.choice exit pos :: stack)
  else running exit pos regs (.choice body pos :: stack)

theorem next_enter {id : Nat} {exit : Int} {greedy : Bool} {bounds : Bounds}
    (h : program.instrAt pc = some (.enter id exit greedy))
    (hbounds : program.loops[id]? = some bounds) :
    (running pc pos regs stack).next program ctx =
      some (if bounds.lower = 0 then
          branch greedy (pc + 1) (pc + exit) pos (regs.setCounter id ⟨0, pos⟩)
            (.counter id (regs.counterOf id) :: stack)
        else
          running (pc + 1) pos (regs.setCounter id ⟨0, pos⟩)
            (.counter id (regs.counterOf id) :: stack)) := by
  rw [next_instr h]
  simp only [Machine.obey, Machine.obeyEnter, Machine.standing, hbounds, Machine.changeCounter,
    Machine.push_off, Machine.branch, Machine.pushChoice, bind, Except.bind, pure, Except.pure]
  by_cases hlower : bounds.lower = 0
  · cases greedy <;> simp only [if_pos hlower] <;> rfl
  · simp only [if_neg hlower]
    rfl

theorem next_again {id : Nat} {body : Int} {greedy : Bool} {bounds : Bounds} {count start : Nat}
    (h : program.instrAt pc = some (.again id body greedy))
    (hbounds : program.loops[id]? = some bounds) (hcounter : regs.counterOf id = ⟨count, start⟩) :
    (running pc pos regs stack).next program ctx =
      some (if (pos = start ∧ bounds.lower ≤ count + 1) ∨ bounds.upper.any (· ≤ count + 1) then
          running (pc + 1) pos (regs.setCounter id ⟨count + 1, start⟩)
            (.counter id ⟨count, start⟩ :: stack)
        else if bounds.lower ≤ count + 1 then
          branch greedy (pc + body) (pc + 1) pos (regs.setCounter id ⟨count + 1, pos⟩)
            (.counter id ⟨count, start⟩ :: stack)
        else
          running (pc + body) pos (regs.setCounter id ⟨count + 1, pos⟩)
            (.counter id ⟨count, start⟩ :: stack)) := by
  rw [next_instr h]
  -- With its fields written out, the matcher is rewritten in one place only.
  change (match Machine.obey ⟨pc, pos, 0, regs, stack, 0, 0, none⟩ program Limits.off ctx _ with
    | .ok effect => some effect.control
    | .error _ => none) = _
  simp only [Machine.obey, Machine.obeyAgain, hbounds, hcounter, Machine.changeCounter,
    Machine.push_off, Machine.branch, Machine.pushChoice, bind, Except.bind, pure, Except.pure]
  by_cases hend : (pos = start ∧ bounds.lower ≤ count + 1) ∨ bounds.upper.any (· ≤ count + 1)
  · simp only [if_pos hend]
    rfl
  · by_cases henough : bounds.lower ≤ count + 1
    · cases greedy <;> simp only [if_neg hend, if_pos henough] <;> rfl
    · simp only [if_neg hend, if_neg henough]
      rfl

theorem next_choice (back : Int) (last : Nat) :
    (falling regs (.choice back last :: stack)).next program ctx =
      some (running back last regs stack) :=
  rfl

/-- Falling back over anything but a choice puts back what was saved there. -/
theorem next_falling {entry : Entry} (h : ∀ back last, entry ≠ .choice back last) :
    (falling regs (entry :: stack)).next program ctx =
      some (falling (regs.undo entry) stack) := by
  cases entry with
  | choice back last => exact absurd rfl (h back last)
  | _ => rfl

end Control

namespace Registers

/-- Puts back everything that some entries saved, the newest first. -/
def undoAll (regs : Registers) (stack : List Entry) : Registers :=
  stack.foldl undo regs

@[simp] theorem undoAll_nil (regs : Registers) : regs.undoAll [] = regs :=
  rfl

@[simp] theorem undoAll_cons (regs : Registers) (entry : Entry) (stack : List Entry) :
    regs.undoAll (entry :: stack) = (regs.undo entry).undoAll stack :=
  rfl

@[simp] theorem undoAll_append (regs : Registers) (above below : List Entry) :
    regs.undoAll (above ++ below) = (regs.undoAll above).undoAll below := by
  rw [undoAll, List.foldl_append]
  rfl

theorem undo_of_not_saved {entry : Entry} (regs : Registers) (h : entry.isSaved = false) :
    regs.undo entry = regs := by
  cases entry with
  | choice | mark => rfl
  | _ => cases h

/-- Choices and marks save nothing. -/
theorem undoAll_saved (regs : Registers) (stack : List Entry) :
    regs.undoAll (stack.filter Entry.isSaved) = regs.undoAll stack := by
  induction stack generalizing regs with
  | nil => rfl
  | cons entry rest ih =>
      by_cases h : entry.isSaved
      · rw [List.filter_cons_of_pos h, undoAll_cons, undoAll_cons, ih]
      · rw [List.filter_cons_of_neg h, undoAll_cons, undo_of_not_saved regs (by simpa using h), ih]

end Registers

/-- Cutting to a mark drops the choices above it and keeps the saved values. -/
theorem cutTo_mark {id pos : Nat} {above below : List Entry}
    (h : ∀ entry ∈ above, entry.isMark id = false) (kept : List Entry) :
    cutTo id kept (above ++ .mark id pos :: below) =
      some (pos, kept.reverse ++ (above.filter Entry.isSaved ++ below)) := by
  -- `kept` holds the saved entries gone through so far, in reverse.
  induction above generalizing kept with
  | nil =>
      simp only [List.nil_append, cutTo, if_pos, List.reverseAux_eq, List.filter_nil]
  | cons entry rest ih =>
      have hentry := h entry List.mem_cons_self
      have hrest := ih fun e he => h e (List.mem_cons_of_mem _ he)
      cases entry with
      | mark found at_ =>
          simp only [Entry.isMark, beq_eq_false_iff_ne, ne_eq] at hentry
          rw [List.cons_append, cutTo, if_neg hentry, hrest]
          rfl
      | choice back last =>
          rw [List.cons_append, cutTo, hrest]
          · rfl
          · intro found at_ heq
            cases heq
      | capture number old | counter number old | check number old =>
          rw [List.cons_append, cutTo]
          · simp only [Entry.isSaved, if_true]
            rw [hrest, List.reverse_cons, List.filter_cons_of_pos (by rfl)]
            simp only [List.append_assoc, List.cons_append, List.nil_append]
          · intro found at_ heq
            cases heq

/-- Rewinding to a mark puts back everything saved above it. -/
theorem rewindTo_mark {id pos : Nat} {above below : List Entry} (regs : Registers)
    (h : ∀ entry ∈ above, entry.isMark id = false) :
    rewindTo id (above ++ .mark id pos :: below) regs = some (below, regs.undoAll above) := by
  induction above generalizing regs with
  | nil => simp only [List.nil_append, rewindTo, Entry.isMark, beq_self_eq_true, if_pos,
      Registers.undoAll_nil]
  | cons entry rest ih =>
      have hentry := h entry List.mem_cons_self
      rw [List.cons_append, rewindTo, hentry, if_neg Bool.false_ne_true,
        ih _ fun e he => h e (List.mem_cons_of_mem _ he), Registers.undoAll_cons]

end RegexEngine
