import RegexEngine.Proofs.Fragment.Registers

/-!
# Fragments of Code

What it means that a piece of code does what a part of a pattern means. Code stands somewhere in a
program, with other code around it and other entries below it on the stack, and the outcomes of a
part are handed on one at a time: after the first one the code behind takes over, and only when that
falls back does the part come to its second outcome. So nothing can be said about a piece of code
alone that does not mention what becomes of its outcomes.

`Realizes` therefore speaks about any claim on controls and lists of places. A claim that can be
carried back over the steps within the code, that holds when the code has failed, and that holds
when the code has come to an outcome provided it holds for what is left to try, holds at the start
of the code with the list of all outcomes. In particular it holds of the claim that a run explores
the places in the list, which is what a program is about. The claims of the parts of a compound are
made from the claim of the compound, by changing the list.

The claim is carried back only over safe steps, and only from controls that are reached in a run
that is fixed throughout. Besides what is said about spans, safety is about marks: the mark that an
instruction finds has been put there by the code that the instruction ends, for the run of that code
which is going on. `OwnsMark` says so by pointing at the moment when the mark was put.

## Main definitions

* `Program.CodeAt`: Code stands at an address.
* `Control.OwnsMark`: The newest mark with a number has been put for the code that is running.
* `Control.Sound`: What is safe about a control.
* `Within`: A control is inside some code, and above some entries.
* `CarriesBack`: A claim can be carried back over the steps from some controls.
* `Surrounds`: What a claim says about the code around.
* `Realizes`: Code does what a part of a pattern means.

## Theorems

* `CarriesBack.running`, `CarriesBack.falling`: One step.
* `CarriesBack.unwind`: Falling back over entries that are no choices.
* `realizes_move`, `realizes_nil`: The smallest pieces of code.
* `realizes_append`: One piece of code after the other.
-/

namespace RegexEngine

namespace Program

/-- The code stands at an address. -/
def CodeAt (program : Program) (base : Int) (code : Code) : Prop :=
  ∃ before after, program.code.toList = before ++ code ++ after ∧ base = (before.length : Int)

namespace CodeAt

variable {program : Program} {base : Int} {instr : Instr} {code first second : Code}

theorem head (h : program.CodeAt base (instr :: code)) : program.instrAt base = some instr := by
  rcases h with ⟨before, after, hcode, rfl⟩
  rw [instrAt, if_neg (by omega), Int.toNat_natCast, ← Array.getElem?_toList, hcode,
    List.append_assoc, List.getElem?_append_right (Nat.le_refl _), Nat.sub_self]
  rfl

theorem left (h : program.CodeAt base (first ++ second)) : program.CodeAt base first := by
  rcases h with ⟨before, after, hcode, rfl⟩
  exact ⟨before, second ++ after, by simp only [hcode, List.append_assoc], rfl⟩

theorem right (h : program.CodeAt base (first ++ second)) {mid : Int}
    (hmid : mid = base + first.length) : program.CodeAt mid second := by
  rcases h with ⟨before, after, hcode, rfl⟩
  refine ⟨before ++ first, after, by simp only [hcode, List.append_assoc], ?_⟩
  rw [hmid, List.length_append, Int.natCast_add]

theorem tail (h : program.CodeAt base (instr :: code)) : program.CodeAt (base + 1) code :=
  right (show program.CodeAt base ([instr] ++ code) from h) rfl

theorem of_eq (h : program.CodeAt base code) {base' : Int} (hbase : base' = base) :
    program.CodeAt base' code :=
  hbase ▸ h

end CodeAt

end Program

namespace Control

/-- A control is at an instruction from `low` up to `high`, or falling back, with `below` at the
bottom of its stack. -/
def Within (low high : Int) (below : List Entry) : Control → Prop
  | running pc _ _ stack => low ≤ pc ∧ pc < high ∧ below <:+ stack
  | falling _ stack => below <:+ stack

theorem Within.mono {low high low' high' : Int} {below below' : List Entry} {c : Control}
    (h : Within low high below c) (hlow : low' ≤ low) (hhigh : high ≤ high')
    (hbelow : below' <:+ below) : Within low' high' below' c := by
  cases c with
  | running pc pos regs stack =>
      rcases h with ⟨hl, hh, hstack⟩
      exact ⟨by omega, by omega, hbelow.trans hstack⟩
  | falling regs stack => exact List.IsSuffix.trans hbelow h

/-- A run from one control to another that stays inside until it comes there. -/
def Stays (program : Program) (ctx : Context) (inside : Control → Prop) :
    Control → Control → Prop :=
  Relation.ReflTransGen fun c d => inside c ∧ c.next program ctx = some d

/-- The newest mark with the number on the stack has been put there at the beginning of code that
ends at the address, and since then the run has not left that code. -/
def OwnsMark (program : Program) (ctx : Context) (start : Control) (id : Nat) (pc : Int)
    (stack : List Entry) (here : Control) : Prop :=
  ∃ (first : Int) (saves : Bool) (pos : Nat) (regs : Registers) (above below : List Entry),
    program.instrAt first = some (.mark id saves) ∧
    Reaches program ctx start (running first pos regs below) ∧
    stack = above ++ .mark id pos :: below ∧ (∀ entry ∈ above, entry.isMark id = false) ∧
    Stays program ctx (Within (first + 1) pc (.mark id pos :: below))
      (running (first + 1) pos regs (.mark id pos :: below)) here

end Control

/-- The mark that an instruction looks for. -/
def Instr.marker? : Instr → Option Nat
  | cut id _ | rewind id => some id
  | _ => none

namespace Control

/-- What is safe about a control of a run from `start`: there is an instruction, the start and the
end of every span are related, and an instruction that looks for a mark finds its own. -/
def Sound (program : Program) (joins : Nat → Nat → Prop) (ctx : Context) (start : Control) :
    Control → Prop
  | running pc pos regs stack =>
    ∃ instr, program.instrAt pc = some instr ∧
      (∀ n first last, regs.spans n = some (first, last) → joins first last) ∧
      ∀ id, instr.marker? = some id →
        OwnsMark program ctx start id pc stack (running pc pos regs stack)
  | falling .. => True

/-- A control at an instruction that looks for no mark is safe if its spans are. -/
theorem sound_of_plain {program : Program} {joins : Nat → Nat → Prop} {ctx : Context}
    {start : Control} {pc : Int} {pos : Nat} {regs : Registers} {stack : List Entry} {place : Place}
    {instr : Instr}
    (hinstr : program.instrAt pc = some instr) (hmarker : instr.marker? = none)
    (hrecords : regs.Records program joins place) :
    Sound program joins ctx start (running pc pos regs stack) := by
  refine ⟨instr, hinstr, ?_, fun id hid => ?_⟩
  · rw [hrecords.spans]
    exact hrecords.joined
  · rw [hmarker] at hid
    cases hid

end Control

/-- A claim about the places that the run from a control comes to. -/
abbrev Claim := Control → List Place → Prop

/-- The claim can be carried back over every step from inside, if the step is safe whenever the run
from `start` comes there. -/
def CarriesBack (program : Program) (joins : Nat → Nat → Prop) (ctx : Context) (start : Control)
    (inside : Control → Prop) (claim : Claim) : Prop :=
  ∀ c d places, inside c → c.next program ctx = some d →
    (Control.Reaches program ctx start c →
      Control.Sound program joins ctx start c ∧ claim d places) →
    claim c places

/-- What a claim says about the code around a piece of code with the given outcomes. -/
structure Surrounds (program : Program) (joins : Nat → Nat → Prop) (ctx : Context) (start : Control)
    (base : Int) (code : Code) (before : Registers) (below : List Entry) (outcomes : List Place)
    (claim : Claim) : Prop where
  /-- The claim can be carried back over steps within the code. -/
  carries : CarriesBack program joins ctx start
    (Control.Within base (base + code.length) below) claim
  /-- The claim holds behind the code if it holds for what the code has not tried yet. -/
  leaves : ∀ last ∈ outcomes, ∀ after above rest, after.Records program joins last →
    Saves code before above after → claim (.falling after (above ++ below)) rest →
    claim (.running (base + code.length) last.pos after (above ++ below)) (last :: rest)
  /-- The claim holds when the code has failed. -/
  fails : claim (.falling before below) []

/-- The code comes to the outcomes of a part of a pattern, one after the other, wherever it stands.
-/
def Realizes (program : Program) (joins : Nat → Nat → Prop) (ctx : Context) (start : Control)
    (code : Code) (ways : Ways) : Prop :=
  ∀ base place before below claim, program.CodeAt base code → before.Records program joins place →
    Surrounds program joins ctx start base code before below (ways place) claim →
    claim (.running base place.pos before below) (ways place)

variable {program : Program} {joins : Nat → Nat → Prop} {ctx : Context} {start : Control}

namespace CarriesBack

variable {inside : Control → Prop} {claim : Claim} {pc : Int} {pos : Nat} {regs : Registers}
  {stack : List Entry} {d : Control} {place : Place} {places : List Place}

theorem mono {inside' : Control → Prop} (h : CarriesBack program joins ctx start inside claim)
    (hinside : ∀ c, inside' c → inside c) : CarriesBack program joins ctx start inside' claim :=
  fun c d places hc => h c d places (hinside c hc)

/-- The list may be changed under way. -/
theorem map (h : CarriesBack program joins ctx start inside claim)
    (change : List Place → List Place) :
    CarriesBack program joins ctx start inside fun c places => claim c (change places) :=
  fun c d places => h c d (change places)

/-- The claim may be restricted to controls that a run comes to without leaving a region, and the
list replaced as a whole. -/
theorem stays {region inside' : Control → Prop}
    (h : CarriesBack program joins ctx start inside claim)
    (hinside : ∀ c, inside' c → inside c) (hregion : ∀ c, inside' c → region c) (first : Control)
    (whole kept : List Place) :
    CarriesBack program joins ctx start inside' fun c places =>
      Control.Stays program ctx region first c → places = whole → claim c kept := by
  intro c d places hc hnext hstep hstays hwhole
  refine h c d kept (hinside c hc) hnext fun hreach => ?_
  rcases hstep hreach with ⟨hsound, hclaim⟩
  exact ⟨hsound, hclaim (hstays.tail ⟨hregion c hc, hnext⟩) hwhole⟩

/-- A step from an instruction that looks for no mark. -/
theorem running (h : CarriesBack program joins ctx start inside claim) {instr : Instr}
    (hinstr : program.instrAt pc = some instr) (hmarker : instr.marker? = none)
    (hrecords : regs.Records program joins place) (hinside : inside (.running pc pos regs stack))
    (hnext : (Control.running pc pos regs stack).next program ctx = some d)
    (hclaim : claim d places) : claim (.running pc pos regs stack) places :=
  h _ d places hinside hnext fun _ => ⟨Control.sound_of_plain hinstr hmarker hrecords, hclaim⟩

/-- A step from an instruction that looks for a mark, which is its own. -/
theorem looking (h : CarriesBack program joins ctx start inside claim) {instr : Instr} {id : Nat}
    (hinstr : program.instrAt pc = some instr) (hmarker : instr.marker? = some id)
    (hrecords : regs.Records program joins place) (hinside : inside (.running pc pos regs stack))
    (hnext : (Control.running pc pos regs stack).next program ctx = some d)
    (hown : Control.OwnsMark program ctx start id pc stack (.running pc pos regs stack))
    (hclaim : claim d places) : claim (.running pc pos regs stack) places := by
  refine h _ d places hinside hnext fun _ => ⟨⟨instr, hinstr, ?_, fun other hother => ?_⟩, hclaim⟩
  · rw [hrecords.spans]
    exact hrecords.joined
  · rw [hmarker, Option.some.injEq] at hother
    exact hother ▸ hown

/-- A step of falling back. -/
theorem falling (h : CarriesBack program joins ctx start inside claim)
    (hinside : inside (.falling regs stack))
    (hnext : (Control.falling regs stack).next program ctx = some d) (hclaim : claim d places) :
    claim (.falling regs stack) places :=
  h _ d places hinside hnext fun _ => ⟨trivial, hclaim⟩

/-- Falling back over entries that are no choices puts back what they saved. -/
theorem unwind {low high : Int} {above below : List Entry}
    (h : CarriesBack program joins ctx start (Control.Within low high below) claim)
    (habove : ∀ entry ∈ above, ∀ pc pos, entry ≠ .choice pc pos)
    (hclaim : claim (.falling (regs.undoAll above) below) places) :
    claim (.falling regs (above ++ below)) places := by
  -- One entry at a time, since each of them is a step over which the claim is carried back.
  induction above generalizing regs with
  | nil => exact hclaim
  | cons entry rest ih =>
      refine h.falling (List.suffix_append _ _)
        (Control.next_falling (habove entry List.mem_cons_self)) ?_
      exact ih (fun e he => habove e (List.mem_cons_of_mem _ he)) hclaim

end CarriesBack

namespace Surrounds

variable {base : Int} {code : Code} {before : Registers} {below : List Entry}
  {outcomes : List Place} {claim : Claim} {pc : Int} {pos : Nat} {regs : Registers}
  {stack : List Entry} {d : Control} {place : Place} {places : List Place}

/-- A step from an instruction of the code that looks for no mark. -/
theorem running (h : Surrounds program joins ctx start base code before below outcomes claim)
    {instr : Instr} (hinstr : program.instrAt pc = some instr) (hmarker : instr.marker? = none)
    (hlow : base ≤ pc) (hhigh : pc < base + code.length) (hstack : below <:+ stack)
    (hrecords : regs.Records program joins place)
    (hnext : (Control.running pc pos regs stack).next program ctx = some d)
    (hclaim : claim d places) : claim (.running pc pos regs stack) places :=
  h.carries.running hinstr hmarker hrecords ⟨hlow, hhigh, hstack⟩ hnext hclaim

/-- A step of falling back within the code. -/
theorem falling (h : Surrounds program joins ctx start base code before below outcomes claim)
    (hstack : below <:+ stack) (hnext : (Control.falling regs stack).next program ctx = some d)
    (hclaim : claim d places) : claim (.falling regs stack) places :=
  h.carries.falling hstack hnext hclaim

/-- Coming to an outcome. -/
theorem leave (h : Surrounds program joins ctx start base code before below outcomes claim)
    {last : Place} (hlast : last ∈ outcomes) (hrecords : regs.Records program joins last)
    (hpc : pc = base + code.length) (above : List Entry) (hstack : stack = above ++ below)
    (hsaves : Saves code before above regs) (hclaim : claim (.falling regs stack) places) :
    claim (.running pc last.pos regs stack) (last :: places) := by
  subst hpc hstack
  exact h.leaves last hlast regs above places hrecords hsaves hclaim

end Surrounds

/-- Registers with the spans of a place are all that a test looks at. -/
theorem Leaf.accept_eq_acceptWith {regs : Registers} {place : Place}
    (h : regs.spans = place.spans) (leaf : Leaf) (pos : Nat) :
    leaf.accept ctx regs.captures pos = leaf.acceptWith ctx place.spans pos := by
  rw [← h]
  cases leaf <;> rfl

/-- An instruction that moves to another position or fails. -/
theorem realizes_move {instr : Instr} {target : Place → Option Nat} (hmarker : instr.marker? = none)
    (hnext : ∀ (pc : Int) (place : Place) (regs : Registers) (stack : List Entry),
      program.instrAt pc = some instr → regs.spans = place.spans →
      (Control.running pc place.pos regs stack).next program ctx =
        match target place with
        | some last => some (.running (pc + 1) last regs stack)
        | none => some (.falling regs stack)) :
    Realizes program joins ctx start [instr]
      fun place => ((target place).map place.moveTo).toList := by
  intro base place before below claim hcode hrecords hsurrounds
  have hstep := hnext base place before below hcode.head hrecords.spans
  have hlt : base < base + (([instr] : Code).length : Int) := by
    rw [List.length_singleton]
    omega
  -- The place either falls, which gives no outcome, or leads to one behind the instruction.
  rcases htarget : target place with _ | last
  · rw [htarget] at hstep
    simp only [htarget, Option.map_none, Option.toList_none]
    exact hsurrounds.running hcode.head hmarker (Int.le_refl base) hlt List.suffix_rfl hrecords
      hstep hsurrounds.fails
  · rw [htarget] at hstep
    simp only [htarget, Option.map_some, Option.toList_some] at hsurrounds ⊢
    refine hsurrounds.running hcode.head hmarker (Int.le_refl base) hlt List.suffix_rfl hrecords
      hstep ?_
    exact hsurrounds.leaves _ List.mem_cons_self before [] [] (hrecords.moveTo last)
      (Saves.refl _ _) hsurrounds.fails

/-- A test. -/
theorem realizes_test (leaf : Leaf) :
    Realizes program joins ctx start [.leaf leaf] (Ways.test ctx leaf) := by
  refine realizes_move rfl fun pc place regs stack hinstr hspans => ?_
  have hnext : (Control.running pc place.pos regs stack).next program ctx = _ :=
    Control.next_leaf hinstr
  rw [Leaf.accept_eq_acceptWith hspans] at hnext
  exact hnext

/-- A step back over characters. -/
theorem realizes_stepBack (count : Nat) :
    Realizes program joins ctx start [.stepBack count] (Ways.stepBack ctx count) := by
  refine realizes_move rfl fun pc place regs stack hinstr _ => ?_
  exact Control.next_stepBack hinstr

/-- No code at all. -/
theorem realizes_nil : Realizes program joins ctx start [] Ways.stay := by
  intro base place before below claim hcode hrecords hsurrounds
  have hleave := hsurrounds.leaves place List.mem_cons_self before [] [] hrecords
    (Saves.refl _ _) hsurrounds.fails
  rw [List.length_nil, Int.natCast_zero, Int.add_zero] at hleave
  exact hleave

/-- One piece of code after the other. -/
theorem realizes_append {first second : Code} {ways more : Ways}
    (h1 : Realizes program joins ctx start first ways)
    (h2 : Realizes program joins ctx start second more) :
    Realizes program joins ctx start (first ++ second) (ways.andThen more) := by
  intro base place before below claim hcode hrecords hsurrounds
  have hlength : base + ((first ++ second).length : Int) = base + first.length + second.length := by
    rw [List.length_append, Int.natCast_add, Int.add_assoc]
  -- What the first part comes to counts as what the second part makes of it.
  refine h1 base place before below (fun c places => claim c (places.flatMap more)) hcode.left
    hrecords ⟨?_, ?_, hsurrounds.fails⟩
  · refine (hsurrounds.carries.mono fun c hc => ?_).map _
    exact hc.mono (by omega) (by omega) List.suffix_rfl
  · -- An outcome of the first part is where the second one starts; what is left to try comes after.
    intro mid hmid regs above rest hregs hsaves hclaim
    have hdone : Saves (first ++ second) before above regs :=
      hsaves.mono fun _ => Code.mem_slots_left
    refine h2 _ mid regs (above ++ below) (fun c places => claim c (places ++ rest.flatMap more))
      (hcode.right rfl) hregs ⟨?_, ?_, hclaim⟩
    · refine (hsurrounds.carries.mono fun c hc => ?_).map (· ++ rest.flatMap more)
      exact hc.mono (by omega) (by omega) (List.suffix_append _ _)
    · intro last hlast after later left hafter hsaves2 hclaim2
      have hall : Saves (first ++ second) before (later ++ above) after :=
        hdone.trans (hsaves2.mono fun _ => Code.mem_slots_right)
      exact hsurrounds.leave (List.mem_flatMap.mpr ⟨mid, hmid, hlast⟩) hafter hlength.symm
        _ (List.append_assoc ..).symm hall hclaim2

end RegexEngine
