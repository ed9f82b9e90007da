import RegexEngine.Proofs.Control.Inversion
import RegexEngine.Proofs.Fragment.Basic
import RegexEngine.Proofs.Outcome.Progress

/-!
# Staying Inside

A matcher looks things up by number all the time: the subject by position, the registers by the
operands of instructions and by the saved values on the stack. `Inside` says that all these numbers
are small enough, the positions at most the end of the range and the others below the number of
registers. A step keeps it so, since tests accept nothing beyond the range, a step back leads
backwards, and every other position that a matcher goes to has been one of its positions before.

Whether a saved value ever comes to the wrong register is another question, and none that has to be
answered here.

## Main definitions

* `Instr.Inside`: The operands of an instruction name registers that there are.
* `Registers.Inside`: There are registers enough, and what they hold lies within the range.
* `Entry.Inside`: What an entry of the stack holds.
* `Control.Inside`: All that a control holds.

## Theorems

* `stepBack_le`: A step back leads backwards.
* `inside_next`: A step stays inside.
* `inside_reaches`: So does a run.
-/

namespace RegexEngine

namespace Encoding

variable {enc : Encoding} {data : Array UInt8} {start pos : Nat}

theorem tailsBack_le (data : Array UInt8) (start pos : Nat) : tailsBack data start pos ≤ pos := by
  induction pos with
  | zero => exact Nat.le_refl 0
  | succ pos ih =>
      rw [tailsBack]
      split
      · exact Nat.le_succ_of_le ih
      · exact Nat.le_refl _

theorem prevHead_lt {head : Nat} (h : enc.prevHead data start pos = some head) : head < pos := by
  rw [prevHead] at h
  split at h
  · cases h
  · cases h
    have hle : enc.charHead data start (pos - 1) ≤ pos - 1 := by
      cases enc with
      | utf8 => exact tailsBack_le data start (pos - 1)
      | ascii => exact Nat.le_refl _
    omega

/-- A step back leads backwards. -/
theorem stepBack_le {n last : Nat} (h : enc.stepBack data start n pos = some last) :
    last ≤ pos := by
  induction n generalizing pos with
  | zero =>
      cases h
      exact Nat.le_refl _
  | succ n ih =>
      rw [stepBack] at h
      split at h
      · cases h
      · rename_i head hhead
        exact Nat.le_trans (ih h) (Nat.le_of_lt (prevHead_lt hhead))

end Encoding

/-- The operands of an instruction name registers that there are, and the instruction can be obeyed.
-/
def Instr.Inside (program : Program) : Instr → Prop
  | openGroup number | closeGroup number => number < program.slotCount
  | enter id _ _ | again id _ _ => id < program.loops.size
  | emptyStart id | emptyEnd id => id < program.emptyChecks
  | bare _ => False
  | leaf _ | finish | fail | jump _ | fork _ | mark .. | cut .. | rewind _ | stepBack _ => True

theorem Instr.Inside.loop {program : Program} {instr : Instr} (h : instr.Inside program) {id : Nat}
    (hloop : instr.loop? = some id) : id < program.loops.size := by
  cases instr with
  | enter | again =>
      cases hloop
      exact h
  | _ => cases hloop

/-- The positions in a capture lie within a limit. -/
structure Capture.Inside (limit : Nat) (capture : Capture) : Prop where
  opened : ∀ pos, capture.opened = some pos → pos ≤ limit
  start : ∀ pos, capture.start = some pos → pos ≤ limit
  stop : ∀ pos, capture.stop = some pos → pos ≤ limit

/-- There are registers enough for a program, and the positions in them lie within a limit. -/
structure Registers.Inside (program : Program) (limit : Nat) (regs : Registers) : Prop where
  fits : regs.Fits program
  captures : ∀ n, (regs.captureOf n).Inside limit
  counters : ∀ n, (regs.counterOf n).start ≤ limit
  checks : ∀ n pos, regs.checkOf n = some pos → pos ≤ limit

/-- What an entry saves belongs to a register that there is, and its positions lie within a limit.
-/
def Entry.Inside (program : Program) (limit : Nat) : Entry → Prop
  | choice _ pos | mark _ pos => pos ≤ limit
  | capture number old => number < program.slotCount ∧ old.Inside limit
  | counter id old => id < program.loops.size ∧ old.start ≤ limit
  | check id old => id < program.emptyChecks ∧ ∀ pos, old = some pos → pos ≤ limit

/-- All positions and numbers that a control holds are in bounds. -/
def Control.Inside (program : Program) (limit : Nat) : Control → Prop
  | running _ pos regs stack =>
    pos ≤ limit ∧ regs.Inside program limit ∧ ∀ entry ∈ stack, entry.Inside program limit
  | falling regs stack => regs.Inside program limit ∧ ∀ entry ∈ stack, entry.Inside program limit

variable {program : Program} {limit : Nat}

theorem Capture.inside_empty (limit : Nat) : ({} : Capture).Inside limit :=
  ⟨by rintro pos ⟨⟩, by rintro pos ⟨⟩, by rintro pos ⟨⟩⟩

namespace Registers

variable {regs : Registers}

/-- A changed array holds the new value or the old one. -/
theorem getD_setIfInBounds_or {α : Type} (xs : Array α) (i j : Nat) (value default : α) :
    (xs.setIfInBounds i value).getD j default = value ∨
      (xs.setIfInBounds i value).getD j default = xs.getD j default := by
  by_cases hij : i = j
  · subst hij
    by_cases hsize : i < xs.size
    · exact Or.inl (getD_setIfInBounds_self xs value default hsize)
    · rw [Array.setIfInBounds_eq_of_size_le (Nat.le_of_not_lt hsize)]
      exact Or.inr rfl
  · exact Or.inr (getD_setIfInBounds_ne xs value default hij)

theorem Inside.setCapture (h : regs.Inside program limit) (number : Nat) {value : Capture}
    (hvalue : value.Inside limit) : (regs.setCapture number value).Inside program limit := by
  refine ⟨fits_setCapture.mpr h.fits, fun n => ?_, h.counters, h.checks⟩
  rcases getD_setIfInBounds_or regs.captures number n value {} with hnew | hold
  · rw [captureOf, Registers.setCapture, hnew]
    exact hvalue
  · rw [captureOf, Registers.setCapture, hold]
    exact h.captures n

theorem Inside.setCounter (h : regs.Inside program limit) (id : Nat) {value : Counter}
    (hvalue : value.start ≤ limit) : (regs.setCounter id value).Inside program limit := by
  refine ⟨fits_setCounter.mpr h.fits, h.captures, fun n => ?_, h.checks⟩
  rcases getD_setIfInBounds_or regs.counters id n value {} with hnew | hold
  · rw [counterOf, Registers.setCounter, hnew]
    exact hvalue
  · rw [counterOf, Registers.setCounter, hold]
    exact h.counters n

theorem Inside.setCheck (h : regs.Inside program limit) (id : Nat) {value : Option Nat}
    (hvalue : ∀ pos, value = some pos → pos ≤ limit) :
    (regs.setCheck id value).Inside program limit := by
  refine ⟨fits_setCheck.mpr h.fits, h.captures, h.counters, fun n => ?_⟩
  rcases getD_setIfInBounds_or regs.checks id n value none with hnew | hold
  · rw [checkOf, Registers.setCheck, hnew]
    exact hvalue
  · rw [checkOf, Registers.setCheck, hold]
    exact h.checks n

theorem Inside.undo {entry : Entry} (h : regs.Inside program limit)
    (hentry : entry.Inside program limit) : (regs.undo entry).Inside program limit := by
  cases entry with
  | choice | mark => exact h
  | capture number old => exact h.setCapture number hentry.2
  | counter id old => exact h.setCounter id hentry.2
  | check id old => exact h.setCheck id hentry.2

theorem Inside.undoAll {stack : List Entry} (h : regs.Inside program limit)
    (hstack : ∀ entry ∈ stack, entry.Inside program limit) :
    (regs.undoAll stack).Inside program limit := by
  induction stack generalizing regs with
  | nil => exact h
  | cons entry rest ih =>
      rw [List.forall_mem_cons] at hstack
      exact ih (h.undo hstack.1) hstack.2

theorem captureOf_replicate {n number : Nat} (counters : Array Counter)
    (checks : Array (Option Nat)) :
    captureOf ⟨Array.replicate n {}, counters, checks⟩ number = {} := by
  rw [captureOf, Array.getD_eq_getD_getElem?, Array.getElem?_replicate]
  split
  · rfl
  · rfl

theorem checkOf_replicate {n id : Nat} (captures : Array Capture) (counters : Array Counter) :
    checkOf ⟨captures, counters, Array.replicate n none⟩ id = none := by
  rw [checkOf, Array.getD_eq_getD_getElem?, Array.getElem?_replicate]
  split
  · rfl
  · rfl

theorem inside_fresh (program : Program) (limit : Nat) : (fresh program).Inside program limit := by
  refine ⟨fits_fresh program, fun n => ?_, fun n => ?_, fun n pos hpos => ?_⟩
  · rw [fresh, captureOf_replicate]
    exact Capture.inside_empty limit
  · rw [fresh, counterOf, Array.getD_eq_getD_getElem?, Array.getElem?_replicate]
    split
    · exact Nat.zero_le _
    · exact Nat.zero_le _
  · rw [fresh, checkOf_replicate] at hpos
    cases hpos

theorem Inside.clear (h : regs.Inside program limit) : regs.clear.Inside program limit := by
  refine ⟨h.fits.clear, fun n => ?_, h.counters, fun n pos hpos => ?_⟩
  · rw [Registers.clear, captureOf_replicate]
    exact Capture.inside_empty limit
  · rw [Registers.clear, checkOf_replicate] at hpos
    cases hpos

end Registers

namespace Control

variable {ctx : Context} {c d : Control}

/-- A step stays inside. -/
theorem inside_next (hcode : ∀ pc instr, program.instrAt pc = some instr → instr.Inside program)
    (h : c.Inside program ctx.range) (hnext : c.next program ctx = some d) :
    d.Inside program ctx.range := by
  cases c with
  | falling regs stack =>
      rcases h with ⟨hregs, hstack⟩
      cases stack with
      | nil => cases hnext
      | cons entry stack =>
          rw [List.forall_mem_cons] at hstack
          cases entry with
          | choice pc pos =>
              cases hnext
              exact ⟨hstack.1, hregs, hstack.2⟩
          | mark | capture | counter | check =>
              cases hnext
              exact ⟨hregs.undo hstack.1, hstack.2⟩
  | running pc pos regs stack =>
      rcases h with ⟨hpos, hregs, hstack⟩
      rcases makes_of_next hnext with ⟨instr, hinstr, hmakes⟩
      have hoperands := hcode pc instr hinstr
      have hpush : ∀ {entry : Entry}, entry.Inside program ctx.range →
          ∀ found ∈ entry :: stack, found.Inside program ctx.range :=
        fun hentry => List.forall_mem_cons.mpr ⟨hentry, hstack⟩
      -- A new position comes from a test or a step back. All others are taken from the control.
      cases hmakes with
      | falls => exact ⟨hregs, hstack⟩
      | stays => exact ⟨hpos, hregs, hstack⟩
      | accepts _ haccept =>
          have hsame : regs.spans = (⟨pos, regs.spans⟩ : Place).spans := rfl
          rw [Leaf.accept_eq_acceptWith hsame] at haccept
          refine ⟨?_, hregs, hstack⟩
          rcases Leaf.ahead_of_acceptWith haccept with rfl | ⟨-, hle⟩
          · exact hpos
          · exact hle
      | stepsBack _ hback => exact ⟨Nat.le_trans (Encoding.stepBack_le hback) hpos, hregs, hstack⟩
      | leaves | marks => exact ⟨hpos, hregs, hpush hpos⟩
      | opens number =>
          have hold := hregs.captures number
          refine ⟨hpos, hregs.setCapture number ⟨?_, hold.start, hold.stop⟩,
            hpush ⟨hoperands, hold⟩⟩
          rintro opened ⟨⟩
          exact hpos
      | closes number =>
          have hold := hregs.captures number
          -- The group starts where it was opened, and that was a position of the matcher before.
          refine ⟨hpos, hregs.setCapture number ⟨hold.opened, hold.opened, ?_⟩,
            hpush ⟨hoperands, hold⟩⟩
          rintro stop ⟨⟩
          exact hpos
      | checks id =>
          refine ⟨hpos, hregs.setCheck id ?_, hpush ⟨hoperands, hregs.checks id⟩⟩
          rintro first ⟨⟩
          exact hpos
      | @counts _ id value _ hloop hvalue =>
          have hstart : value.start ≤ ctx.range := by
            rcases hvalue with hnew | hold
            · rw [hnew]
              exact hpos
            · rw [hold]
              exact hregs.counters id
          exact ⟨hpos, hregs.setCounter id hstart,
            hpush ⟨hoperands.loop hloop, hregs.counters id⟩⟩
      | @decides _ id value _ _ hloop hvalue =>
          exact ⟨hpos, hregs.setCounter id (Nat.le_trans (Nat.le_of_eq hvalue) hpos),
            List.forall_mem_cons.mpr ⟨hpos, hpush ⟨hoperands.loop hloop, hregs.counters id⟩⟩⟩
      | cuts _ _ hcut =>
          subst hcut
          rw [List.forall_mem_append, List.forall_mem_cons] at hstack
          refine ⟨?_, hregs, List.forall_mem_append.mpr ⟨?_, hstack.2.2⟩⟩
          · split
            · exact hstack.2.1
            · exact hpos
          · exact fun entry hentry => hstack.1 entry (List.mem_filter.mp hentry).1
      | rewinds _ hcut =>
          subst hcut
          rw [List.forall_mem_append, List.forall_mem_cons] at hstack
          exact ⟨hpos, hregs.undoAll hstack.1, hstack.2.2⟩

/-- A run stays inside. -/
theorem inside_reaches (hcode : ∀ pc instr, program.instrAt pc = some instr → instr.Inside program)
    (h : c.Inside program ctx.range) (hreach : Reaches program ctx c d) :
    d.Inside program ctx.range := by
  induction hreach with
  | refl => exact h
  | tail _ hnext ih => exact inside_next hcode ih hnext

end Control

end RegexEngine
