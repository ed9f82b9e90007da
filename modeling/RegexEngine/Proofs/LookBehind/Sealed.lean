import RegexEngine.Proofs.Emission.Exists
import RegexEngine.Proofs.LookBehind.Parts
import RegexEngine.Proofs.Unrolled.Answer

/-!
# Sealed Look-Behinds

A look-behind that is divided may be sealed: a mark is put before its parts, and the first part that
holds drops everything above the mark, so that no other part is tried. What is lost are the places
that the other parts would lead to. They have the position of the look-behind as well, so they
differ from the first one at most in the spans of groups.

If all parts that hold leave the same spans, nothing is lost but places that come again, and sealing
cannot be noticed. This is so of every look-behind without groups.

## Main definitions

* `Node.LeavesOne`: All parts of a look-behind that hold lead to the same place.
* `Node.Seals`: Look-behinds of a kind may be sealed, anywhere in a tree.

## Theorems

* `leavesOne_of_groupless`: A look-behind without groups leads to one place.
* `charLength_seals`, `wellFormed_seals`, `hasCode_seals`: What sealing keeps.
* `alike_seals`: Sealing keeps the outcomes of a tree, up to those that come again.
-/

namespace RegexEngine

/-- If a list has no two different items, its first item is all that matters. -/
theorem SameFirsts.take_one_of_same {α : Type} {xs : List α} (h : ∀ x ∈ xs, ∀ y ∈ xs, x = y) :
    SameFirsts xs (xs.take 1) := by
  intro p
  cases xs with
  | nil => rfl
  | cons x rest =>
      rw [List.take_succ_cons, List.take_zero, List.find?_cons, List.find?_cons]
      cases hx : p x with
      | true => rfl
      | false =>
          refine List.find?_eq_none.mpr fun y hy => ?_
          rw [← h x List.mem_cons_self y (List.mem_cons_of_mem _ hy), hx]
          exact Bool.false_ne_true

namespace Node

/-- All parts of a look-behind that hold lead to the same place. -/
def LeavesOne (enc : Encoding) (body : Tree) : Prop :=
  ∀ (ctx : Context) (place : Place), ctx.encoding = enc →
    ∀ last ∈ foundParts ctx place body, ∀ other ∈ foundParts ctx place body, last = other

/-- A look-behind without groups leads to one place, which is its own. -/
theorem leavesOne_of_groupless (enc : Encoding) {body : Tree} (h : body.groupNumbers = []) :
    LeavesOne enc body := by
  intro ctx place _ last hlast other hother
  exact (foundParts_of_groupless h last hlast).trans (foundParts_of_groupless h other hother).symm

/-- A positive look-behind whose body is of a certain kind, as it is divided, may be sealed, at one
place in a tree. What is sealed must not be so large that a repeat around it is run by another
scheme. -/
inductive Seals (enc : Encoding) (kind : Tree → Prop) : Tree → Tree → Prop
  | here {body : Tree} (allowed : kind body) :
      Seals enc kind (divide enc false body) (.atomic (divide enc false body))
  | repeated {lower : Nat} {upper : Option Nat} {greedy : Bool} {body body' : Tree}
      (inner : Seals enc kind body body')
      (scheme : Scheme.choose lower upper (body.codeLength enc) =
        Scheme.choose lower upper (body'.codeLength enc)) :
      Seals enc kind (.repeated lower upper greedy body) (.repeated lower upper greedy body')
  | group {number : Nat} {body body' : Tree} (inner : Seals enc kind body body') :
      Seals enc kind (.group number body) (.group number body')
  | atomic {body body' : Tree} (inner : Seals enc kind body body') :
      Seals enc kind (.atomic body) (.atomic body')
  | look {direction : Direction} {negated : Bool} {body body' : Tree}
      (inner : Seals enc kind body body') :
      Seals enc kind (.look direction negated body) (.look direction negated body')
  | item {before behind : List Tree} {node node' : Tree} (inner : Seals enc kind node node') :
      Seals enc kind (.sequence (before ++ node :: behind)) (.sequence (before ++ node' :: behind))
  | alternative {before behind : List Tree} {node node' : Tree}
      (inner : Seals enc kind node node') :
      Seals enc kind (.alternation (before ++ node :: behind))
        (.alternation (before ++ node' :: behind))

variable {enc : Encoding} {kind : Tree → Prop} {node node' : Tree}

/-- Sealing keeps the number of characters. -/
theorem charLength_seals (h : Seals enc kind node node') :
    charLength enc node = charLength enc node' := by
  induction h with
  | here => rfl
  | repeated _ _ ih => simp only [charLength, ih]
  | group _ ih | atomic _ ih => exact ih
  | look => rfl
  | item _ ih => exact charLengthSum_item ih
  | alternative _ ih =>
      refine charLengthCommon_congr ?_ fun n => ?_
      · simp only [List.append_eq_nil_iff, reduceCtorEq, and_false]
      · simp only [List.forall_mem_append, List.forall_mem_cons, ih]

/-- It keeps the bounds of repeats, and it leaves the groups where they are. -/
theorem wellFormed_seals {slots : Nat} (h : Seals enc kind node node')
    (hwell : node.WellFormed slots) : node'.WellFormed slots := by
  -- The place where a look-behind is sealed lies in one part of each construct, and the other parts
  -- are the same. So both facts go up from there by induction.
  have hbounded : node.Bounded ↔ node'.Bounded := by
    clear hwell
    induction h with
    | here => exact Iff.rfl
    | repeated _ _ ih => simp only [Bounded, ih]
    | group _ ih | atomic _ ih | look _ ih => exact ih
    | item _ ih | alternative _ ih =>
        simp only [Bounded, boundedAll_iff]
        exact forall_mem_item ih
  have hgroups : node'.groupNumbers = node.groupNumbers := by
    clear hwell hbounded
    induction h with
    | here => rfl
    | repeated _ _ ih | atomic _ ih | look _ ih => exact ih
    | group _ ih => simp only [groupNumbers, ih]
    | item _ ih | alternative _ ih =>
        simp only [groupNumbers, groupNumbersOf_append, groupNumbersOf, ih]
  exact ⟨hbounded.mp hwell.bounded, hgroups ▸ hwell.distinct, hgroups ▸ hwell.numbers⟩

/-- A tree whose look-behinds are sealed has code if the tree has. -/
theorem hasCode_seals (h : Seals enc kind node node') : node.HasCode enc ↔ node'.HasCode enc := by
  induction h with
  | here => exact Iff.rfl
  | repeated _ _ ih => simp only [HasCode, ih]
  | group _ ih | atomic _ ih => exact ih
  | @look direction _ _ _ inner ih =>
      cases direction with
      | ahead => exact ih
      | behind => simp only [HasCode, ih, charLength_seals inner]
  | item _ ih =>
      simp only [HasCode, hasCodeAll_iff]
      exact forall_mem_item ih
  | alternative _ ih =>
      simp only [HasCode, hasCodeAll_iff, ne_eq, List.append_eq_nil_iff, reduceCtorEq, and_false,
        not_false_eq_true, true_and]
      exact forall_mem_item ih

/-- Lists of trees that are like each other, item by item, are so if they differ in one item. -/
theorem forall₂_item {like : Ways → Ways → Prop} (hrefl : ∀ ways, like ways ways) {ctx : Context}
    (before behind : List Tree) (h : like (node.outcomes ctx) (node'.outcomes ctx)) :
    List.Forall₂ like ((before ++ node :: behind).map (outcomes ctx))
      ((before ++ node' :: behind).map (outcomes ctx)) := by
  induction before with
  | nil => exact .cons h (List.forall₂_same.mpr fun ways _ => hrefl ways)
  | cons first rest ih => exact .cons (hrefl _) ih

/-- Sealing look-behinds that lead to one place keeps the outcomes of a tree, up to those that come
again. -/
theorem alike_seals {ctx : Context} (hencoding : ctx.encoding = enc)
    (h : Seals enc (LeavesOne enc) node node') :
    Ways.Alike (node.outcomes ctx) (node'.outcomes ctx) := by
  -- Where the look-behind stands, its outcomes are cut to the first one, which is the only one but
  -- for repetitions. Every construct around it keeps outcomes that differ in repetitions alone.
  induction h with
  | here leaves =>
      intro place
      have hlist := @outcomes_divide ctx place
      rw [hencoding] at hlist
      refine SameFirsts.take_one_of_same ?_
      rw [hlist]
      exact leaves ctx place hencoding
  | repeated _ scheme ih =>
      rw [outcomes, outcomes, hencoding, scheme]
      exact Ways.alike_repeated ih
  | group _ ih => exact Ways.alike_group _ ih
  | atomic _ ih => exact Ways.alike_atomic ih
  -- A look-behind around it steps back as far as before, since sealing keeps lengths.
  | @look direction negated _ _ inner ih =>
      cases direction with
      | ahead => exact Ways.alike_look negated ih
      | behind =>
          rw [outcomes, outcomes, hencoding, charLength_seals inner]
          split
          · exact .refl _
          · exact Ways.alike_look negated (Ways.alike_andThen (.refl _) ih)
  | item _ ih =>
      rw [outcomes, outcomes, outcomesInOrder_eq, outcomesInOrder_eq]
      exact Ways.congruence_alike.inOrder (forall₂_item Ways.Alike.refl _ _ ih)
  | alternative _ ih =>
      rw [outcomes, outcomes, outcomesOfAny_eq, outcomesOfAny_eq]
      exact Ways.congruence_alike.ofAny (forall₂_item Ways.Alike.refl _ _ ih)

/-- What any number of look-behinds that are sealed keep of a tree: that it is well-formed, whether
there is code for it, and its outcomes, up to those that come again. -/
theorem keeps_seals {slots : Nat}
    (h : Relation.ReflTransGen (Seals enc (LeavesOne enc)) node node')
    (hwell : node.WellFormed slots) :
    node'.WellFormed slots ∧ (node.HasCode enc ↔ node'.HasCode enc) ∧
      ∀ ctx : Context, ctx.encoding = enc →
        Ways.Alike (node.outcomes ctx) (node'.outcomes ctx) := by
  induction h with
  | refl => exact ⟨hwell, Iff.rfl, fun ctx _ => .refl _⟩
  | tail _ hstep ih =>
      rcases ih with ⟨hmid, hcode, halike⟩
      exact ⟨wellFormed_seals hstep hmid, hcode.trans (hasCode_seals hstep),
        fun ctx hencoding => (halike ctx hencoding).trans (alike_seals hencoding hstep)⟩

end Node

end RegexEngine
