import RegexEngine.Proofs.Control.Run

/-!
# What Code Does to Registers

A piece of code changes registers, and before it changes one it saves the old value on the stack.
Two things follow. Putting everything back that the code has saved gives the registers it started
with; and a register that no instruction of the code names keeps its value. The second is a
consequence of the first: putting back values of other registers does not touch this one.

Registers and marks are numbered from several counters. A `Slot` is a number together with the
counter it comes from, so that one statement covers them all.

A place in the subject, as the outcomes of a tree know it, has the spans of the groups. Registers
know more: where groups were opened, and the loops. `Registers.Records` says that the registers have
the spans of a place, and that the start and the end of every span are related, in whichever way:
one is not behind the other, or a walk leads from one to the other.

## Main definitions

* `Slot`: A numbered register, or a mark.
* `Code.slots`: The slots that a piece of code names.
* `Registers.SameAt`: Registers agree on a slot.
* `Saves`: Code has changed registers and saved what it changed.
* `Registers.Fits`: There are registers enough for a program.
* `Registers.Records`: Registers have the spans of a place.

## Theorems

* `undoAll_sameAt`: Putting values back elsewhere does not touch a slot.
* `Saves.sameAt`: Code keeps the slots that it does not name.
* `Saves.trans`: One piece of code after the other.
* `Records.openGroup`, `Records.closeGroup`: What opening and closing a group records.
-/

namespace RegexEngine

/-- A numbered register, or a mark. -/
inductive Slot where
  | group (number : Nat)
  | loop (id : Nat)
  | check (id : Nat)
  | mark (id : Nat)
  deriving DecidableEq

/-- The slot that an instruction names. -/
def Instr.slot? : Instr → Option Slot
  | openGroup number | closeGroup number => some (.group number)
  | enter id _ _ | again id _ _ => some (.loop id)
  | emptyStart id | emptyEnd id => some (.check id)
  | mark id _ | cut id _ | rewind id => some (.mark id)
  | _ => none

/-- The slot that an entry of the stack belongs to. -/
def Entry.slot? : Entry → Option Slot
  | choice .. => none
  | mark id _ => some (.mark id)
  | capture number _ => some (.group number)
  | counter id _ => some (.loop id)
  | check id _ => some (.check id)

/-- The slots that a piece of code names. -/
def Code.slots (code : Code) : List Slot :=
  code.filterMap Instr.slot?

namespace Code

variable {slot : Slot} {instr : Instr} {code first second : Code}

theorem mem_slots : slot ∈ slots code ↔ ∃ instr ∈ code, instr.slot? = some slot :=
  List.mem_filterMap

theorem slots_append (first second : Code) :
    slots (first ++ second) = slots first ++ slots second :=
  List.filterMap_append

theorem slots_cons_some (h : instr.slot? = some slot) :
    slots (instr :: code) = slot :: slots code :=
  List.filterMap_cons_some h

theorem mem_slots_left (h : slot ∈ slots first) : slot ∈ slots (first ++ second) := by
  rw [slots_append]
  exact List.mem_append_left _ h

theorem mem_slots_right (h : slot ∈ slots second) : slot ∈ slots (first ++ second) := by
  rw [slots_append]
  exact List.mem_append_right _ h

theorem mem_slots_cons (h : slot ∈ slots code) : slot ∈ slots (instr :: code) :=
  show slot ∈ slots ([instr] ++ code) from mem_slots_right h

theorem mem_slots_head (h : instr.slot? = some slot) : slot ∈ slots (instr :: code) := by
  rw [slots_cons_some h]
  exact List.mem_cons_self

end Code

namespace Registers

variable {program : Program} {regs : Registers} {place : Place}

/-- Registers agree on a slot. A mark is no register. -/
def SameAt (regs other : Registers) : Slot → Prop
  | .group number => regs.captureOf number = other.captureOf number
  | .loop id => regs.counterOf id = other.counterOf id
  | .check id => regs.checkOf id = other.checkOf id
  | .mark _ => True

theorem SameAt.refl (regs : Registers) (slot : Slot) : regs.SameAt regs slot := by
  cases slot with
  | mark => trivial
  | group | loop | check => rfl

theorem SameAt.trans {a b c : Registers} {slot : Slot} (h1 : a.SameAt b slot)
    (h2 : b.SameAt c slot) : a.SameAt c slot := by
  cases slot with
  | mark => trivial
  | group | loop | check => exact Eq.trans h1 h2

theorem getD_setIfInBounds_ne {α : Type} (xs : Array α) {i j : Nat} (value default : α)
    (h : i ≠ j) : (xs.setIfInBounds i value).getD j default = xs.getD j default := by
  rw [Array.getD_eq_getD_getElem?, Array.getD_eq_getD_getElem?, Array.getElem?_setIfInBounds_ne h]

theorem getD_setIfInBounds_self {α : Type} (xs : Array α) {i : Nat} (value default : α)
    (h : i < xs.size) : (xs.setIfInBounds i value).getD i default = value := by
  rw [Array.getD_eq_getD_getElem?, Array.getElem?_setIfInBounds_self_of_lt h, Option.getD_some]

theorem setIfInBounds_getD {α : Type} (xs : Array α) (i : Nat) (value default : α) :
    (xs.setIfInBounds i value).setIfInBounds i (xs.getD i default) = xs := by
  rw [Array.setIfInBounds_setIfInBounds]
  by_cases h : i < xs.size
  · rw [Array.getD_eq_getD_getElem?, Array.getElem?_eq_getElem h, Option.getD_some]
    refine Array.ext (by simp only [Array.size_setIfInBounds]) fun j hj _ => ?_
    rw [Array.getElem_setIfInBounds (by simpa only [Array.size_setIfInBounds] using hj)]
    split
    · rename_i heq
      subst heq
      rfl
    · rfl
  · exact Array.setIfInBounds_eq_of_size_le (by omega)

/-- Putting one value back does not touch another slot. -/
theorem undo_sameAt {entry : Entry} {slot : Slot} (regs : Registers)
    (h : entry.slot? ≠ some slot) : (regs.undo entry).SameAt regs slot := by
  -- Only an entry for a register of the same kind could touch the slot, and its number differs.
  cases entry with
  | choice | mark => exact SameAt.refl regs slot
  | capture number old =>
      cases slot with
      | group other => exact getD_setIfInBounds_ne _ _ _ (by rintro rfl; exact h rfl)
      | loop | check => rfl
      | mark => trivial
  | counter id old =>
      cases slot with
      | loop other => exact getD_setIfInBounds_ne _ _ _ (by rintro rfl; exact h rfl)
      | group | check => rfl
      | mark => trivial
  | check id old =>
      cases slot with
      | check other => exact getD_setIfInBounds_ne _ _ _ (by rintro rfl; exact h rfl)
      | group | loop => rfl
      | mark => trivial

/-- Putting values back elsewhere does not touch a slot. -/
theorem undoAll_sameAt {stack : List Entry} {slot : Slot} (regs : Registers)
    (h : ∀ entry ∈ stack, entry.slot? ≠ some slot) : (regs.undoAll stack).SameAt regs slot := by
  induction stack generalizing regs with
  | nil => exact SameAt.refl regs slot
  | cons entry rest ih =>
      have hentry := undo_sameAt regs (h entry List.mem_cons_self)
      exact (ih (regs.undo entry) fun e he => h e (List.mem_cons_of_mem _ he)).trans hentry

/-- A register that is changed and put back is what it was. -/
theorem undo_setCapture (regs : Registers) (number : Nat) (value : Capture) :
    (regs.setCapture number value).undo (.capture number (regs.captureOf number)) = regs := by
  rcases regs with ⟨captures, counters, checks⟩
  simp only [undo, setCapture, captureOf, setIfInBounds_getD]

theorem undo_setCounter (regs : Registers) (id : Nat) (value : Counter) :
    (regs.setCounter id value).undo (.counter id (regs.counterOf id)) = regs := by
  rcases regs with ⟨captures, counters, checks⟩
  simp only [undo, setCounter, counterOf, setIfInBounds_getD]

theorem undo_setCheck (regs : Registers) (id : Nat) (value : Option Nat) :
    (regs.setCheck id value).undo (.check id (regs.checkOf id)) = regs := by
  rcases regs with ⟨captures, counters, checks⟩
  simp only [undo, setCheck, checkOf, setIfInBounds_getD]

/-- There are as many registers as a program numbers. -/
structure Fits (program : Program) (regs : Registers) : Prop where
  captures : regs.captures.size = program.slotCount
  counters : regs.counters.size = program.loops.size
  checks : regs.checks.size = program.emptyChecks

theorem fits_fresh (program : Program) : (fresh program).Fits program :=
  ⟨Array.size_replicate, Array.size_replicate, Array.size_replicate⟩

theorem Fits.clear (h : regs.Fits program) : regs.clear.Fits program :=
  ⟨by rw [Registers.clear, Array.size_replicate, h.captures], h.counters,
    by rw [Registers.clear, Array.size_replicate, h.checks]⟩

theorem fits_setCapture {number : Nat} {value : Capture} :
    (regs.setCapture number value).Fits program ↔ regs.Fits program := by
  refine ⟨fun h => ⟨?_, h.counters, h.checks⟩, fun h => ⟨?_, h.counters, h.checks⟩⟩
  · rw [← h.captures, setCapture, Array.size_setIfInBounds]
  · rw [← h.captures, setCapture, Array.size_setIfInBounds]

theorem fits_setCounter {id : Nat} {value : Counter} :
    (regs.setCounter id value).Fits program ↔ regs.Fits program := by
  refine ⟨fun h => ⟨h.captures, ?_, h.checks⟩, fun h => ⟨h.captures, ?_, h.checks⟩⟩
  · rw [← h.counters, setCounter, Array.size_setIfInBounds]
  · rw [← h.counters, setCounter, Array.size_setIfInBounds]

theorem fits_setCheck {id : Nat} {value : Option Nat} :
    (regs.setCheck id value).Fits program ↔ regs.Fits program := by
  refine ⟨fun h => ⟨h.captures, h.counters, ?_⟩, fun h => ⟨h.captures, h.counters, ?_⟩⟩
  · rw [← h.checks, setCheck, Array.size_setIfInBounds]
  · rw [← h.checks, setCheck, Array.size_setIfInBounds]

end Registers

namespace Registers

variable {program : Program} {joins : Nat → Nat → Prop} {regs : Registers} {place : Place}

/-- Registers that fit a program have the spans of a place, each of which joins two positions that
are related. -/
structure Records (program : Program) (joins : Nat → Nat → Prop) (regs : Registers)
    (place : Place) : Prop where
  fits : regs.Fits program
  spans : regs.spans = place.spans
  joined : place.JoinedBy joins

theorem Records.moveTo (h : regs.Records program joins place) (pos : Nat) :
    regs.Records program joins (place.moveTo pos) :=
  ⟨h.fits, h.spans, h.joined⟩

theorem Records.setCounter (h : regs.Records program joins place) (id : Nat) (value : Counter) :
    (regs.setCounter id value).Records program joins place :=
  ⟨fits_setCounter.mpr h.fits, h.spans, h.joined⟩

theorem Records.setCheck (h : regs.Records program joins place) (id : Nat) (value : Option Nat) :
    (regs.setCheck id value).Records program joins place :=
  ⟨fits_setCheck.mpr h.fits, h.spans, h.joined⟩

theorem spans_setCapture (regs : Registers) {number : Nat} (value : Capture)
    (h : number < regs.captures.size) :
    (regs.setCapture number value).spans =
      fun n => if n = number then value.span? else regs.spans n := by
  funext n
  simp only [spans, setCapture]
  by_cases hn : n = number
  · rw [if_pos hn, hn, Array.getElem?_setIfInBounds_self_of_lt h, Option.bind_some]
  · rw [if_neg hn, Array.getElem?_setIfInBounds_ne (Ne.symm hn)]

/-- Opening a group changes no span. -/
theorem Records.openGroup (h : regs.Records program joins place) {number : Nat}
    (hnumber : number < program.slotCount) (pos : Option Nat) :
    (regs.setCapture number { regs.captureOf number with opened := pos }).Records program joins
      place := by
  have hlt : number < regs.captures.size := by rw [h.fits.captures]; exact hnumber
  refine ⟨fits_setCapture.mpr h.fits, ?_, h.joined⟩
  rw [spans_setCapture regs _ hlt, ← h.spans]
  -- The span that the group may have had is kept until it is closed again.
  funext n
  by_cases hn : n = number
  · rw [if_pos hn, hn, Registers.spans, Array.getElem?_eq_getElem hlt, Option.bind_some, captureOf,
      Array.getD_eq_getD_getElem?, Array.getElem?_eq_getElem hlt, Option.getD_some]
    rfl
  · rw [if_neg hn]

/-- Closing a group gives it the span from where it was opened. -/
theorem Records.closeGroup (h : regs.Records program joins place) {number start : Nat}
    (hnumber : number < program.slotCount) (hopened : (regs.captureOf number).opened = some start)
    (hjoins : joins start place.pos) :
    (regs.setCapture number
      { regs.captureOf number with
        start := (regs.captureOf number).opened, stop := some place.pos }).Records program joins
      (place.close number start) := by
  have hlt : number < regs.captures.size := by rw [h.fits.captures]; exact hnumber
  refine ⟨fits_setCapture.mpr h.fits, ?_, ?_⟩
  · rw [spans_setCapture regs _ hlt, h.spans]
    funext n
    simp only [Place.close, Capture.span?, hopened]
  · intro n first last hspan
    simp only [Place.close] at hspan
    split at hspan
    · cases hspan
      exact hjoins
    · exact h.joined n first last hspan

end Registers

/-- The registers `after` come from `before` by running a piece of code, which has put the entries
`above` on the stack. -/
structure Saves (code : Code) (before : Registers) (above : List Entry) (after : Registers) :
    Prop where
  undoes : after.undoAll above = before
  within : ∀ entry ∈ above, ∀ slot, entry.slot? = some slot → slot ∈ Code.slots code

namespace Saves

variable {code first second : Code} {before mid after : Registers} {above more : List Entry}

theorem refl (code : Code) (regs : Registers) : Saves code regs [] regs :=
  ⟨rfl, fun _ h => absurd h List.not_mem_nil⟩

theorem mono (h : Saves first before above after)
    (hslots : ∀ slot ∈ Code.slots first, slot ∈ Code.slots second) :
    Saves second before above after :=
  ⟨h.undoes, fun entry hentry slot hslot => hslots slot (h.within entry hentry slot hslot)⟩

theorem trans (h1 : Saves code before above mid) (h2 : Saves code mid more after) :
    Saves code before (more ++ above) after := by
  refine ⟨by rw [Registers.undoAll_append, h2.undoes, h1.undoes], fun entry hentry => ?_⟩
  rcases List.mem_append.mp hentry with hentry | hentry
  · exact h2.within entry hentry
  · exact h1.within entry hentry

/-- One entry that saves what was changed. -/
theorem single {entry : Entry} (hundo : after.undo entry = before)
    (hslot : ∀ slot, entry.slot? = some slot → slot ∈ Code.slots code) :
    Saves code before [entry] after := by
  refine ⟨hundo, fun found hfound => ?_⟩
  rw [List.mem_singleton.mp hfound]
  exact hslot

/-- A choice saves nothing. -/
theorem choice (code : Code) (regs : Registers) (pc : Int) (pos : Nat) :
    Saves code regs [.choice pc pos] regs :=
  single rfl fun _ h => nomatch h

/-- Dropping choices and marks keeps what was saved. -/
theorem saved (h : Saves code before above after) :
    Saves code before (above.filter Entry.isSaved) after :=
  ⟨by rw [Registers.undoAll_saved, h.undoes],
    fun entry hentry => h.within entry (List.mem_filter.mp hentry).1⟩

/-- Code keeps the slots that it does not name. -/
theorem sameAt (h : Saves code before above after) {slot : Slot}
    (hslot : slot ∉ Code.slots code) : before.SameAt after slot := by
  rw [← h.undoes]
  refine Registers.undoAll_sameAt after fun entry hentry heq => ?_
  exact hslot (h.within entry hentry slot heq)

/-- Code leaves no mark that it does not name. -/
theorem not_isMark (h : Saves code before above after) {id : Nat}
    (hid : .mark id ∉ Code.slots code) : ∀ entry ∈ above, entry.isMark id = false := by
  intro entry hentry
  cases entry with
  | mark found pos =>
      simp only [Entry.isMark, beq_eq_false_iff_ne]
      rintro rfl
      exact hid (h.within _ hentry _ rfl)
  | _ => rfl

end Saves

end RegexEngine
