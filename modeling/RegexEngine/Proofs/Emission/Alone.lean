import RegexEngine.Proofs.Emission.Correct
import RegexEngine.Proofs.Fragment.HandsOn

/-!
# Code on Its Own

Wherever the code of a tree stands in a program, and whatever the registers and the stack are when
the run comes there, the code hands on the outcomes of the tree. Nothing is asked of the program but
that it has registers enough for what has been numbered.

The parts of a tree that is well-formed are well-formed, so this can be said of each of them.

## Main definitions

* `Node.PartOf`: A tree stands somewhere in another one.

## Theorems

* `PartOf.wellFormed`, `PartOf.leaves`: What the parts of a tree have from the whole.
* `handsOn_emit`: The code of a tree hands on the outcomes of the tree.
* `runsAlone_emit`: A run of the code alone comes to those outcomes.
-/

namespace RegexEngine

namespace Node

section Parts

variable {ρ : Type}

/-- A tree is another one, or stands somewhere in it. -/
inductive PartOf (part : Node ρ) : Node ρ → Prop
  | whole : PartOf part part
  | repeated {lower : Nat} {upper : Option Nat} {greedy : Bool} {body : Node ρ}
      (inner : PartOf part body) : PartOf part (.repeated lower upper greedy body)
  | group {number : Nat} {body : Node ρ} (inner : PartOf part body) :
      PartOf part (.group number body)
  | atomic {body : Node ρ} (inner : PartOf part body) : PartOf part (.atomic body)
  | look {direction : Direction} {negated : Bool} {body : Node ρ} (inner : PartOf part body) :
      PartOf part (.look direction negated body)
  | item {items : List (Node ρ)} {node : Node ρ} (mem : node ∈ items) (inner : PartOf part node) :
      PartOf part (.sequence items)
  | alternative {items : List (Node ρ)} {node : Node ρ} (mem : node ∈ items)
      (inner : PartOf part node) : PartOf part (.alternation items)

/-- A part of a well-formed tree is well-formed. -/
theorem PartOf.wellFormed {part tree : Node ρ} {slots : Nat} (h : part.PartOf tree)
    (hwell : tree.WellFormed slots) : part.WellFormed slots := by
  induction h with
  | whole => exact hwell
  | repeated _ ih => exact ih ⟨hwell.bounded.2, hwell.distinct, hwell.numbers⟩
  | group _ ih =>
      exact ih ⟨hwell.bounded, (List.nodup_cons.mp hwell.distinct).2,
        fun n hn => hwell.numbers n (List.mem_cons_of_mem _ hn)⟩
  | atomic _ ih | look _ ih => exact ih ⟨hwell.bounded, hwell.distinct, hwell.numbers⟩
  | item mem _ ih => exact ih (wellFormed_item hwell mem)
  | alternative mem _ ih =>
      exact ih (wellFormed_item ⟨hwell.bounded, hwell.distinct, hwell.numbers⟩ mem)

end Parts

/-- The tests of a part are tests of the tree. -/
theorem PartOf.leaves {enc : Encoding} {part tree : Tree} (h : part.PartOf tree) :
    part.leaves enc ⊆ tree.leaves enc := by
  induction h with
  | whole => exact List.Subset.refl _
  | repeated _ ih | group _ ih | atomic _ ih | look _ ih => exact ih
  | item mem _ ih | alternative mem _ ih =>
      exact fun test htest => mem_leavesOf.mpr ⟨_, mem, ih htest⟩

variable {program : Program} {ctx : Context} {tree : Tree} {ids later : Ids} {code : Code}
  {base : Int} {regs : Registers}

/-- Wherever the code of a tree stands, it hands on the outcomes of the tree. -/
theorem handsOn_emit (hwell : tree.WellFormed program.slotCount)
    (hemit : tree.emit ctx.encoding ids = .ok (code, later)) (hprovides : program.Provides later)
    (hat : program.CodeAt base code) (hfits : regs.Fits program) (pos : Nat) (below : List Entry) :
    Control.HandsOn program ctx base code regs below (.running base pos regs below)
      (tree.outcomes ctx ⟨pos, regs.spans⟩) := by
  have hleading : Leading ctx (fun _ => True) (fun _ _ => True) fun _ _ => True :=
    ⟨fun _ => trivial, fun _ _ _ _ _ => trivial, fun _ _ _ => trivial, fun _ _ _ _ _ _ => trivial⟩
  have hrecords : regs.Records program (fun _ _ => True) ⟨pos, regs.spans⟩ :=
    ⟨hfits, rfl, fun _ _ _ _ => trivial⟩
  have hended : (program.endedAt (base + code.length)).Provides later :=
    ⟨hprovides.loops, hprovides.checks⟩
  have hslots : tree.WellFormed (program.endedAt (base + code.length)).slotCount := hwell
  refine handsOn_of_realizes hat hrecords ?_
  exact realizes_emit hleading tree hslots (fun _ _ => trivial) hemit hended

/-- A run of the code of a tree alone comes to outcomes of the tree. -/
theorem runsAlone_emit (hwell : tree.WellFormed program.slotCount)
    (hemit : tree.emit ctx.encoding ids = .ok (code, later)) (hprovides : program.Provides later)
    (hat : program.CodeAt base code) (hfits : regs.Fits program) {pos last : Nat}
    {after : Registers} {above below : List Entry}
    (hrun : Control.RunsAlone program ctx base code below (.running base pos regs below)
      (.running (base + code.length) last after (above ++ below))) :
    (⟨last, after.spans⟩ : Place) ∈ tree.outcomes ctx ⟨pos, regs.spans⟩ := by
  rcases (handsOn_emit hwell hemit hprovides hat hfits pos below).comes hrun with
    ⟨found, hfound, rfl, hspans⟩
  rw [hspans]
  exact hfound

end Node

end RegexEngine
