import RegexEngine.Proofs.Fragment.Registers
import RegexEngine.Proofs.Safety.Attempt

/-!
# Entries of the Stack

Choices, marks and saved values share one stack, and a cut takes choices and marks out of the middle
of it while it leaves the saved values. What a choice or a mark stands for must survive all of this.

It stands for the registers that are found by undoing all that lies above it. A step either puts the
choice or mark on top of the stack, or finds it there with the same entries below, and then undoing
what now lies above it leads to the same registers as undoing what lay above it before. This is
`Carries`, a statement about two moments only; it is proved for each thing that a step can do to
the stack, and then for a step.

The entries below belong to what identifies a choice or a mark, since two of them may look alike.

## Main definitions

* `Carries`: What a step does to the choices and marks on the stack.

## Theorems

* `popChoice_resume`: Where falling back leads.
* `carries_put`, `carries_drop`, `carries_cut`: The things that are done to a stack.
* `step_carries`: A step carries the choices and marks over.
-/

namespace RegexEngine

/-- Each choice or mark of the later stack is new and on top, or was on the earlier stack above the
same entries. In this case undoing all above it leads to the same registers at both moments. -/
def Carries (regs : Registers) (stack : List Entry) (regs' : Registers) (stack' : List Entry) :
    Prop :=
  ∀ above' entry below, entry.isSaved = false → stack' = above' ++ entry :: below →
    (above' = [] ∧ ¬ entry :: below <:+ stack) ∨
      ∃ above, stack = above ++ entry :: below ∧ regs.undoAll above = regs'.undoAll above'

section Stack

variable {regs regs' : Registers} {stack rest saved : List Entry}

/-- Where falling back leads. -/
theorem popChoice_resume {pc : Int} {pos : Nat}
    (h : popChoice stack regs = .resume pc pos regs' rest) :
    ∃ above, stack = above ++ .choice pc pos :: rest ∧
      (∀ entry ∈ above, ∀ back last, entry ≠ .choice back last) ∧ regs' = regs.undoAll above := by
  induction stack generalizing regs with
  | nil => cases h
  | cons entry below ih =>
      by_cases hchoice : ∃ back last, entry = .choice back last
      · rcases hchoice with ⟨back, last, rfl⟩
        cases h
        exact ⟨[], rfl, List.forall_mem_nil _, rfl⟩
      · have hentry : ∀ back last, entry ≠ .choice back last :=
          fun back last heq => hchoice ⟨back, last, heq⟩
        have hpop : popChoice below (regs.undo entry) = .resume pc pos regs' rest := by
          cases entry with
          | choice back last => exact absurd rfl (hentry back last)
          | mark | capture | counter | check => exact h
        rcases ih hpop with ⟨above, rfl, hnone, rfl⟩
        exact ⟨entry :: above, rfl, List.forall_mem_cons.mpr ⟨hentry, hnone⟩, rfl⟩

/-- A choice or mark is not among saved values, so it lies below them. -/
theorem below_saved {above below : List Entry} {entry : Entry}
    (hsaved : ∀ found ∈ saved, found.isSaved = true) (hentry : entry.isSaved = false)
    (h : saved ++ rest = above ++ entry :: below) :
    ∃ more, above = saved ++ more ∧ rest = more ++ entry :: below := by
  rcases List.append_eq_append_iff.mp h with ⟨more, rfl, hrest⟩ | ⟨more, rfl, hrest⟩
  · exact ⟨more, rfl, hrest⟩
  · cases more with
    | nil => exact ⟨[], by simp only [List.append_nil], hrest.symm⟩
    | cons found more =>
        obtain rfl : entry = found := (List.cons.inj hrest).1
        rw [hsaved entry (List.mem_append_right _ List.mem_cons_self)] at hentry
        cases hentry

/-- Saved values are put on the stack for changes that they undo. -/
theorem carries_saved (hsaved : ∀ found ∈ saved, found.isSaved = true)
    (hundo : regs'.undoAll saved = regs) : Carries regs stack regs' (saved ++ stack) := by
  intro above' entry below hentry h
  rcases below_saved hsaved hentry h with ⟨more, rfl, hstack⟩
  exact Or.inr ⟨more, hstack, by rw [Registers.undoAll_append, hundo]⟩

/-- One saved value is put on the stack for the change that it undoes. -/
theorem carries_save {entry : Entry} (hsaved : entry.isSaved = true)
    (hundo : regs'.undo entry = regs) : Carries regs stack regs' (entry :: stack) :=
  carries_saved (List.forall_mem_singleton.mpr hsaved) hundo

/-- There are no saved values to put on the stack. -/
theorem saved_nil : ∀ found ∈ ([] : List Entry), found.isSaved = true :=
  List.forall_mem_nil _

theorem carries_refl (regs : Registers) (stack : List Entry) : Carries regs stack regs stack :=
  carries_saved saved_nil rfl

/-- A choice or a mark is put on top of the saved values. -/
theorem carries_put {top : Entry} (htop : top.isSaved = false)
    (hsaved : ∀ found ∈ saved, found.isSaved = true) (hundo : regs'.undoAll saved = regs) :
    Carries regs stack regs' (top :: (saved ++ stack)) := by
  intro above' entry below hentry h
  cases above' with
  | nil =>
      cases h
      -- The stack cannot end with more than all of it.
      refine Or.inl ⟨rfl, fun hsuffix => ?_⟩
      have hle := hsuffix.length_le
      simp only [List.length_cons, List.length_append] at hle
      omega
  | cons other above' =>
      rcases List.cons.inj h with ⟨rfl, hrest⟩
      rcases below_saved hsaved hentry hrest with ⟨more, rfl, hstack⟩
      refine Or.inr ⟨more, hstack, ?_⟩
      rw [Registers.undoAll_cons, Registers.undo_of_not_saved regs' htop, Registers.undoAll_append,
        hundo]

/-- The newest entries are undone and dropped, and a choice or a mark below them. -/
theorem carries_drop (top : List Entry) {entry : Entry} (hentry : entry.isSaved = false) :
    Carries regs (top ++ entry :: stack) (regs.undoAll top) stack := by
  rintro above' found below - rfl
  refine Or.inr ⟨top ++ entry :: above', by rw [List.append_assoc, List.cons_append], ?_⟩
  rw [Registers.undoAll_append, Registers.undoAll_cons, Registers.undo_of_not_saved _ hentry]

/-- The choices and marks among the newest entries are dropped, and a mark below them. -/
theorem carries_cut (top : List Entry) {mark : Entry} (hmark : mark.isSaved = false) :
    Carries regs (top ++ mark :: stack) regs (top.filter Entry.isSaved ++ stack) := by
  intro above' entry below hentry h
  have hsaved : ∀ found ∈ top.filter Entry.isSaved, found.isSaved = true :=
    fun found hfound => (List.mem_filter.mp hfound).2
  rcases below_saved hsaved hentry h with ⟨more, rfl, rfl⟩
  refine Or.inr ⟨top ++ mark :: more, by rw [List.append_assoc, List.cons_append], ?_⟩
  -- The values that count are those that were saved, and these are the same.
  rw [Registers.undoAll_append, Registers.undoAll_append, Registers.undoAll_saved,
    Registers.undoAll_cons, Registers.undo_of_not_saved _ hmark]

end Stack

namespace Control

variable {program : Program} {ctx : Context} {pc : Int} {pos : Nat} {regs : Registers}
  {stack : List Entry} {d : Control}

/-- A control carries the choices and marks of some registers and stack over. One that falls back
has them as they were. -/
def CarriesFrom (regs : Registers) (stack : List Entry) : Control → Prop
  | running _ _ regs' stack' => Carries regs stack regs' stack'
  | falling regs' stack' => regs' = regs ∧ stack' = stack

/-- An instruction carries the choices and marks over. -/
theorem next_carries (hnext : (running pc pos regs stack).next program ctx = some d) :
    d.CarriesFrom regs stack := by
  rcases makes_of_next hnext with ⟨instr, -, hmakes⟩
  -- Where a move changes a register, undoing the entry that it puts on the stack gives the register
  -- its old value.
  cases hmakes with
  | falls => exact ⟨rfl, rfl⟩
  | stays | accepts | stepsBack => exact carries_refl regs stack
  | leaves | marks => exact carries_put rfl saved_nil rfl
  | opens number | closes number => exact carries_save rfl (Registers.undo_setCapture ..)
  | checks id => exact carries_save rfl (Registers.undo_setCheck ..)
  | counts => exact carries_save rfl (Registers.undo_setCounter ..)
  -- The counter is saved above the choice, if one is pushed at all.
  | @decides _ id value _ _ hloop hvalue =>
      have hsaved : ∀ found ∈ [Entry.counter id (regs.counterOf id)], found.isSaved = true :=
        List.forall_mem_singleton.mpr rfl
      exact carries_put rfl hsaved (Registers.undo_setCounter ..)
  | @cuts _ _ above below returns _ hstack =>
      rw [hstack]
      exact carries_cut above rfl
  | @rewinds _ _ above below _ hstack =>
      rw [hstack]
      exact carries_drop above rfl

end Control

namespace Machine

variable {program : Program} {limits : Limits} {ctx : Context} {m after : Machine} {instr : Instr}

/-- What falls back has changed neither the registers nor the stack. -/
theorem obey_fallen {fallen : Machine} (hinstr : m.fetch program = some instr)
    (hobey : m.obey program limits ctx instr = .ok (.fallBack fallen)) :
    fallen.registers = m.registers ∧ fallen.stack = m.stack :=
  Control.next_carries (next_obey hinstr hobey)

/-- Falling back to a choice undoes what lies above it and drops it. -/
theorem fallBack_running (h : m.fallBack limits = .ok (.running after)) :
    ∃ above, m.stack = above ++ .choice after.pc after.pos :: after.stack ∧
      (∀ entry ∈ above, ∀ back last, entry ≠ .choice back last) ∧
      after.registers = m.registers.undoAll above := by
  rw [fallBack] at h
  rcases hpop : popChoice m.stack m.registers with ⟨pc, pos, regs, stack⟩ | regs
  · rw [hpop] at h
    simp only at h
    split at h
    · cases h
    · split at h
      · cases h
      · cases h
        exact popChoice_resume hpop
  · rw [hpop] at h
    cases h

/-- A step carries the choices and marks over. -/
theorem step_carries (h : m.step program limits ctx = .ok (.running after)) :
    Carries m.registers m.stack after.registers after.stack := by
  rcases step_ok h with ⟨instr, effect, hinstr, hobey, h⟩
  cases effect with
  | accept ended => cases h
  | goOn gone =>
      cases h
      exact Control.next_carries (next_obey hinstr hobey)
  | fallBack fallen =>
      rcases fallBack_running h with ⟨above, hstack, -, hregs⟩
      rcases obey_fallen hinstr hobey with ⟨hsame, hstay⟩
      rw [← hstay, hstack, hregs, hsame]
      exact carries_drop above rfl

end Machine

end RegexEngine
