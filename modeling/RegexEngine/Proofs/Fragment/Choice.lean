import Mathlib.Data.List.Forall2
import RegexEngine.Proofs.Fragment.Basic
import RegexEngine.Proofs.Outcome.Progress

/-!
# Choices, Optional Parts and Groups

Code that leaves a choice behind comes to the outcomes of one way and, when these are used up, to
those of the other. The claim for the first way is the claim for both with the outcomes of the
second way added to the list; the second way starts when the choice is resumed, with all that the
first one did undone.

A loop takes the same decision at the start of every iteration, so the decision itself is stated
apart: `CarriesBack.branch` is about going through a body before leaving, or leaving before going
through it.

## Theorems

* `CarriesBack.branch`: A body and an exit, in the order of greed.
* `claim_entrance`: The instructions in front of a body that may be left out.
* `realizes_optional`: A part or nothing.
* `realizes_either`, `realizes_choices`: Alternatives.
* `realizes_group`: A numbered group.
-/

namespace RegexEngine

variable {program : Program} {joins : Nat → Nat → Prop} {ctx : Context} {start : Control}

theorem suffix_above {α : Type} (above : List α) (x : α) (below : List α) :
    below <:+ above ++ x :: below :=
  (List.suffix_cons x below).trans (List.suffix_append above _)

/-- In either order of a body and an exit, the outcomes of the body are among those of both. -/
theorem mem_branch_of_mem {α : Type} {greedy : Bool} {x y : α} {more : List α} (h : y ∈ more) :
    y ∈ (if greedy then more ++ [x] else x :: more) := by
  cases greedy with
  | true => exact List.mem_append_left _ h
  | false => exact List.mem_cons_of_mem _ h

theorem mem_branch_self {α : Type} (greedy : Bool) (x : α) (more : List α) :
    x ∈ (if greedy then more ++ [x] else x :: more) := by
  cases greedy with
  | true => exact List.mem_append_right _ List.mem_cons_self
  | false => exact List.mem_cons_self

/-- A body and an exit. If greedy the body is tried first and the exit is left as a choice, and if
not it is the other way round. -/
theorem CarriesBack.branch {claim : Claim} {low high : Int} {stack : List Entry}
    (h : CarriesBack program joins ctx start (Control.Within low high stack) claim) {greedy : Bool}
    {body exit : Int} {place : Place} {regs : Registers} {more : List Place}
    (hbody : ∀ above tail, (∀ entry ∈ above, entry.slot? = none) → regs.undoAll above = regs →
      claim (.falling regs (above ++ stack)) tail →
      claim (.running body place.pos regs (above ++ stack)) (more ++ tail))
    (hexit : ∀ above tail, (∀ entry ∈ above, entry.slot? = none) → regs.undoAll above = regs →
      claim (.falling regs (above ++ stack)) tail →
      claim (.running exit place.pos regs (above ++ stack)) (place :: tail))
    (hfails : claim (.falling regs stack) []) :
    claim (Control.branch greedy body exit place.pos regs stack)
      (if greedy then more ++ [place] else place :: more) := by
  -- A choice on the stack saves nothing, so undoing it changes no register.
  have hnone : ∀ pc pos, ∀ entry ∈ [Entry.choice pc pos], entry.slot? = none := by
    intro pc pos entry hentry
    rw [List.mem_singleton.mp hentry]
    rfl
  -- The greedy order leaves the exit on the stack, and the lazy one leaves the body.
  cases greedy with
  | true =>
      refine hbody [.choice exit place.pos] [place] (hnone _ _) rfl ?_
      refine h.falling (List.suffix_cons _ _) (Control.next_choice _ _) ?_
      exact hexit [] [] (fun _ hmem => absurd hmem List.not_mem_nil) rfl hfails
  | false =>
      refine hexit [.choice body place.pos] more (hnone _ _) rfl ?_
      refine h.falling (List.suffix_cons _ _) (Control.next_choice _ _) ?_
      have hmore := hbody [] [] (fun _ hmem => absurd hmem List.not_mem_nil) rfl hfails
      rw [List.append_nil] at hmore
      exact hmore

/-- Entries that belong to no slot have been saved by any code. -/
theorem Saves.of_none {code : Code} {regs : Registers} {above : List Entry}
    (hnone : ∀ entry ∈ above, entry.slot? = none) (hundo : regs.undoAll above = regs) :
    Saves code regs above regs := by
  refine ⟨hundo, fun entry hentry slot hslot => ?_⟩
  rw [hnone entry hentry] at hslot
  cases hslot

/-- A body that may be left out stands behind one instruction or two. -/
theorem Program.CodeAt.entrance {base : Int} {greedy : Bool} {length : Nat} {rest : Code}
    (h : program.CodeAt base
      (if greedy then .fork (length + 1) :: rest else .fork 2 :: .jump (length + 1) :: rest)) :
    program.CodeAt (base + (if greedy then 1 else 2)) rest := by
  cases greedy with
  | true => exact h.tail
  | false =>
      refine h.tail.tail.of_eq ?_
      rw [if_neg Bool.false_ne_true]
      omega

theorem entrance_pos (greedy : Bool) : (0 : Int) < if greedy then 1 else 2 := by
  cases greedy with
  | true => decide
  | false => decide

/-- The instructions in front of a body that may be left out. The body has `length` instructions,
and the exit is behind them. -/
theorem claim_entrance {claim : Claim} {low high base : Int} {below : List Entry} {greedy : Bool}
    {length : Nat} {place : Place} {regs : Registers} {places : List Place} (rest : Code)
    (hcarries : CarriesBack program joins ctx start (Control.Within low high below) claim)
    (hcode : program.CodeAt base
      (if greedy then .fork (length + 1) :: rest else .fork 2 :: .jump (length + 1) :: rest))
    (hlow : low ≤ base) (hhigh : base + (if greedy then 1 else 2) + length ≤ high)
    (hrecords : regs.Records program joins place)
    (hclaim : claim (Control.branch greedy (base + (if greedy then 1 else 2))
      (base + (if greedy then 1 else 2) + length) place.pos regs below) places) :
    claim (.running base place.pos regs below) places := by
  -- The fork leads into the body and leaves the exit, or the other way round by way of the jump
  -- behind it.
  cases greedy with
  | true =>
      simp only [if_true] at hcode hhigh hclaim
      refine hcarries.running hcode.head rfl hrecords ⟨hlow, by omega, List.suffix_rfl⟩
        (Control.next_fork hcode.head) ?_
      rw [show base + ((length : Int) + 1) = base + 1 + length by omega]
      exact hclaim
  | false =>
      simp only [Bool.false_eq_true, if_false] at hcode hhigh hclaim
      refine hcarries.running hcode.head rfl hrecords ⟨hlow, by omega, List.suffix_rfl⟩
        (Control.next_fork hcode.head) ?_
      refine hcarries.running hcode.tail.head rfl hrecords
        ⟨by omega, by omega, List.suffix_cons _ _⟩ (Control.next_jump hcode.tail.head) ?_
      rw [show base + 1 + ((length : Int) + 1) = base + 2 + length by omega]
      exact hclaim

namespace Ways

/-- A part or nothing. -/
def optional (greedy : Bool) (body : Ways) : Ways := fun place =>
  if greedy then body place ++ [place] else place :: body place

end Ways

/-- A part or nothing, or nothing or a part. -/
theorem realizes_optional {body : Code} {ways : Ways} (greedy : Bool)
    (hbody : Realizes program joins ctx start body ways) :
    Realizes program joins ctx start (Code.optional greedy body) (Ways.optional greedy ways) := by
  intro base place before below claim hcode hrecords hsurrounds
  -- Where the code ends, and what the body saves, do not depend on which of the two is tried first.
  have hlength := Code.length_optional greedy body
  have hend : base + ((Code.optional greedy body).length : Int) =
      base + (if greedy then 1 else 2) + body.length := by
    rw [hlength]
    cases greedy <;> simp only [if_true, Bool.false_eq_true, if_false] <;> omega
  have hslots : ∀ slot ∈ Code.slots body, slot ∈ Code.slots (Code.optional greedy body) := by
    intro slot hslot
    cases greedy with
    | true => exact Code.mem_slots_cons hslot
    | false => exact Code.mem_slots_cons (Code.mem_slots_cons hslot)
  have hfront := entrance_pos greedy
  refine claim_entrance body hsurrounds.carries hcode (Int.le_refl base) (by omega) hrecords
    (hsurrounds.carries.branch ?_ ?_ hsurrounds.fails)
  · -- The part is tried, with `tail` what is left to try below it.
    intro above tail hnone hundo htail
    refine hbody _ place before (above ++ below) (fun c places => claim c (places ++ tail))
      (Program.CodeAt.entrance hcode) hrecords ⟨?_, ?_, htail⟩
    · refine (hsurrounds.carries.mono fun c hc => ?_).map (· ++ tail)
      exact hc.mono (by omega) (by omega) (List.suffix_append _ _)
    · intro last hlast after later rest hafter hsaves hclaim
      exact hsurrounds.leave (mem_branch_of_mem hlast) hafter hend.symm _
        (List.append_assoc ..).symm ((Saves.of_none hnone hundo).trans (hsaves.mono hslots)) hclaim
  · -- The part is left out.
    intro above tail hnone hundo htail
    exact hsurrounds.leave (mem_branch_self greedy place _) hrecords hend.symm _ rfl
      (Saves.of_none hnone hundo) htail

/-- A failure. -/
theorem realizes_fail : Realizes program joins ctx start [.fail] Ways.never := by
  intro base place before below claim hcode hrecords hsurrounds
  exact hsurrounds.running hcode.head rfl (Int.le_refl base)
    (by rw [List.length_singleton]; omega) List.suffix_rfl hrecords (Control.next_fail hcode.head)
    hsurrounds.fails

/-- Two alternatives. -/
theorem realizes_either {first second : Code} {ways more : Ways}
    (h1 : Realizes program joins ctx start first ways)
    (h2 : Realizes program joins ctx start second more) :
    Realizes program joins ctx start
      (.fork (first.length + 2) :: first ++ .jump (second.length + 1) :: second)
      (ways.orElse more) := by
  intro base place before below claim hcode hrecords hsurrounds
  have hlength : (Instr.fork (first.length + 2) :: first ++
      Instr.jump (second.length + 1) :: second).length = first.length + second.length + 2 := by
    simp only [List.length_append, List.length_cons]
    omega
  -- The jump stands behind the first alternative, and the second one behind the jump.
  have hjump := (hcode.right rfl).head
  have hsecond := (hcode.right rfl).tail
  rw [List.length_cons] at hjump hsecond
  refine hsurrounds.running hcode.left.head rfl (Int.le_refl base) (by omega) List.suffix_rfl
    hrecords (Control.next_fork hcode.left.head) ?_
  -- What is left to try below the first alternative are the outcomes of the second one.
  refine h1 (base + 1) place before (.choice (base + (first.length + 2)) place.pos :: below)
    (fun c places => claim c (places ++ more place)) hcode.left.tail hrecords ⟨?_, ?_, ?_⟩
  · refine (hsurrounds.carries.mono fun c hc => ?_).map (· ++ more place)
    exact hc.mono (by omega) (by omega) (List.suffix_cons _ _)
  · -- An outcome of the first alternative jumps over the second one.
    intro last hlast after above rest hafter hsaves hclaim
    rw [show base + 1 + (first.length : Int) = base + ((first.length + 1 : Nat) : Int) by omega]
    refine hsurrounds.running hjump rfl (by omega) (by omega) (suffix_above ..) hafter
      (Control.next_jump hjump) ?_
    refine hsurrounds.leave (List.mem_append_left _ hlast) hafter (by omega)
      (above ++ [.choice (base + (first.length + 2)) place.pos])
      (by rw [List.append_assoc]; rfl) ?_ hclaim
    refine (Saves.choice _ before _ _).trans (hsaves.mono fun slot hslot => ?_)
    exact Code.mem_slots_left (Code.mem_slots_cons hslot)
  · -- The first alternative is used up, and the choice below it leads to the second one.
    refine hsurrounds.falling (List.suffix_cons _ _) (Control.next_choice _ _) ?_
    refine h2 _ place before below claim (hsecond.of_eq (by omega)) hrecords
      ⟨?_, ?_, hsurrounds.fails⟩
    · refine hsurrounds.carries.mono fun c hc => ?_
      exact hc.mono (by omega) (by omega) List.suffix_rfl
    · intro last hlast after above rest hafter hsaves hclaim
      refine hsurrounds.leave (List.mem_append_right _ hlast) hafter (by omega) _ rfl ?_ hclaim
      refine hsaves.mono fun slot hslot => ?_
      exact Code.mem_slots_right (Code.mem_slots_cons hslot)

/-- Alternatives in order. The last one stands without a choice. -/
theorem realizes_choices {parts : List Code} {ways : List Ways}
    (h : List.Forall₂ (Realizes program joins ctx start) parts ways) :
    Realizes program joins ctx start (Code.choices parts) (ways.foldr Ways.orElse Ways.never) := by
  induction h with
  | nil => exact realizes_fail
  | @cons part way parts ways hpart hparts ih =>
      cases hparts with
      | nil =>
          have hway : Ways.orElse way Ways.never = way := by
            funext place
            exact List.append_nil _
          rw [List.foldr_cons, List.foldr_nil, hway]
          exact hpart
      | cons => exact realizes_either hpart ih

/-- Parts one after the other. -/
theorem realizes_flatten {parts : List Code} {ways : List Ways}
    (h : List.Forall₂ (Realizes program joins ctx start) parts ways) :
    Realizes program joins ctx start parts.flatten (ways.foldr Ways.andThen Ways.stay) := by
  induction h with
  | nil => exact realizes_nil
  | cons hpart hparts ih => exact realizes_append hpart ih

/-- A numbered group. Its number is not used inside, so that the group closes where it was opened.
-/
theorem realizes_group {body : Code} {ways : Ways} {number : Nat}
    (hbody : Realizes program joins ctx start body ways) (hleads : Ways.Leads joins joins ways)
    (hnumber : number < program.slotCount) (hslot : .group number ∉ Code.slots body) :
    Realizes program joins ctx start (Code.group number body) (Ways.group number ways) := by
  intro base place before below claim hcode hrecords hsurrounds
  have hlength : (Code.group number body).length = body.length + 2 := by
    simp only [Code.group, List.length_append, List.length_cons, List.length_nil]
  have hopen : program.instrAt base = some (.openGroup number) := hcode.left.head
  have hclose : program.instrAt (base + 1 + body.length) = some (.closeGroup number) := by
    refine (hcode.right ?_).head
    simp only [List.length_cons]
    omega
  have hin : ∀ slot ∈ Code.slots body, slot ∈ Code.slots (Code.group number body) :=
    fun slot hmem => Code.mem_slots_left (Code.mem_slots_cons hmem)
  have hopens : .group number ∈ Code.slots (Code.group number body) :=
    Code.mem_slots_left (Code.mem_slots_head rfl)
  have hold : ∀ slot, (Entry.capture number (before.captureOf number)).slot? = some slot →
      slot ∈ Code.slots (Code.group number body) := by
    rintro slot ⟨⟩
    exact hopens
  refine hsurrounds.running hopen rfl (Int.le_refl base) (by omega) List.suffix_rfl hrecords
    (Control.next_openGroup hopen) ?_
  refine hbody (base + 1) place _ _
    (fun c places => claim c (places.map fun last => last.close number place.pos)) hcode.left.tail
    (hrecords.openGroup hnumber (some place.pos)) ⟨?_, ?_, ?_⟩
  · refine (hsurrounds.carries.mono fun c hc => ?_).map _
    exact hc.mono (by omega) (by omega) (List.suffix_cons _ _)
  · intro last hlast after above rest hafter hsaves hclaim
    -- Inside the group its register has kept the place where it was opened.
    have hopened : (after.captureOf number).opened = some place.pos := by
      have hsame : Registers.captureOf _ number = after.captureOf number := hsaves.sameAt hslot
      rw [← hsame, Registers.captureOf, Registers.setCapture,
        Registers.getD_setIfInBounds_self _ _ _ (by rw [hrecords.fits.captures]; exact hnumber)]
    refine hsurrounds.running hclose rfl (by omega) (by omega) (suffix_above ..) hafter
      (Control.next_closeGroup hclose) ?_
    refine hsurrounds.leave (List.mem_map.mpr ⟨last, hlast, rfl⟩)
      (hafter.closeGroup hnumber hopened (hleads place last hlast hrecords.joined).1) (by omega)
      (.capture number (after.captureOf number) ::
        (above ++ [.capture number (before.captureOf number)]))
      (by simp only [List.cons_append, List.append_assoc, List.nil_append]) ?_ ?_
    · have hinner := (Saves.single (Registers.undo_setCapture ..) hold).trans (hsaves.mono hin)
      exact hinner.trans (Saves.single (Registers.undo_setCapture ..)
        (by rintro slot ⟨⟩; exact hopens))
    · -- Falling back over the end of the group opens it again, with the body not used up.
      refine hsurrounds.falling ?_ rfl ?_
      · exact (suffix_above ..).trans (List.suffix_cons _ _)
      · rw [Registers.undo_setCapture]
        exact hclaim
  · -- The body is used up, and the register is what it was before the group.
    refine hsurrounds.falling (List.suffix_cons _ _) rfl ?_
    rw [Registers.undo_setCapture]
    exact hsurrounds.fails

end RegexEngine
