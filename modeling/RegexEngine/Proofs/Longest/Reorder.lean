import RegexEngine.Program.Compile
import RegexEngine.Proofs.Emission.Correct

/-!
# Trees in Another Order

Two changes to a tree leave alone what there is to try and change the order in which it is tried:
making a repeat greedy or not, and putting alternatives into another order. They may be made
anywhere in a tree, any number of times.

Dividing look-behinds does not keep to such changes. A negated look-behind becomes a sequence with
an item for each alternative, so alternatives in another order become items in another order. The
items are tests, and tests may be made in any order; so that is a third change, which `Rearranges`
adds. What is shown of it holds of the other two as well.

## Main definitions

* `Node.plain`: No part of a tree looks at the text of a group or gives nothing back.
* `Node.Somewhere`: A change at one place in a tree.
* `Node.Reordered`: Greediness and the order of alternatives may have changed anywhere.
* `Node.Rearranges`: The changes that are left when look-behinds have been divided.
* `Node.mirror`: A tree with all of it changed.

## Theorems

* `reordered_mirror`: A tree with all of it changed is one in another order.
* `charLength_rearranged`, `wellFormed_rearranged`, `plain_rearranged`: What a change keeps.
* `rearranged_prepare`: What becomes of a change when look-behinds are divided.
-/

namespace RegexEngine

namespace Node

variable {ρ : Type}

mutual

/-- No part of the tree looks at the text of a group, and none gives nothing back. -/
def plain : Node ρ → Bool
  | literal .. | set .. | anyChar .. | word .. | anchor .. => true
  | backref .. | atomic _ => false
  | repeated _ _ _ body | group _ body | look _ _ body => plain body
  | sequence items | alternation items => plainAll items

/-- No part of several trees does. -/
def plainAll : List (Node ρ) → Bool
  | [] => true
  | node :: rest => plain node && plainAll rest

end

theorem plainAll_iff (items : List (Node ρ)) :
    plainAll items = true ↔ ∀ node ∈ items, plain node = true := by
  induction items with
  | nil => simp only [plainAll, List.not_mem_nil, false_implies, implies_true]
  | cons node rest ih => simp only [plainAll, Bool.and_eq_true, List.forall_mem_cons, ih]

/-- A change that a rule allows, at one place in a tree. -/
inductive Somewhere (rule : Node ρ → Node ρ → Prop) : Node ρ → Node ρ → Prop
  | here {node other : Node ρ} (change : rule node other) : Somewhere rule node other
  | repeated {lower : Nat} {upper : Option Nat} {greedy : Bool} {body body' : Node ρ}
      (inner : Somewhere rule body body') :
      Somewhere rule (.repeated lower upper greedy body) (.repeated lower upper greedy body')
  | group {number : Nat} {body body' : Node ρ} (inner : Somewhere rule body body') :
      Somewhere rule (.group number body) (.group number body')
  | atomic {body body' : Node ρ} (inner : Somewhere rule body body') :
      Somewhere rule (.atomic body) (.atomic body')
  | look {direction : Direction} {negated : Bool} {body body' : Node ρ}
      (inner : Somewhere rule body body') :
      Somewhere rule (.look direction negated body) (.look direction negated body')
  | item {before behind : List (Node ρ)} {node node' : Node ρ}
      (inner : Somewhere rule node node') :
      Somewhere rule (.sequence (before ++ node :: behind)) (.sequence (before ++ node' :: behind))
  | alternative {before behind : List (Node ρ)} {node node' : Node ρ}
      (inner : Somewhere rule node node') :
      Somewhere rule (.alternation (before ++ node :: behind))
        (.alternation (before ++ node' :: behind))

/-- The changes that concern the order in which matches are tried, and nothing else. -/
inductive Reorders : Node ρ → Node ρ → Prop
  /-- A repeat may be greedy or not. -/
  | greediness (lower : Nat) (upper : Option Nat) (greedy greedy' : Bool) (body : Node ρ) :
      Reorders (.repeated lower upper greedy body) (.repeated lower upper greedy' body)
  /-- Alternatives may stand in any order. -/
  | alternatives {items items' : List (Node ρ)} (order : items.Perm items') :
      Reorders (.alternation items) (.alternation items')

/-- A tree that differs from another one in the greediness of any repeats and in the order of any
alternatives. -/
def Reordered : Node ρ → Node ρ → Prop :=
  Relation.ReflTransGen (Somewhere Reorders)

section Mirror

mutual

/-- The tree in which every repeat has changed its greediness, and all alternatives stand in the
opposite order. -/
def mirror : Node ρ → Node ρ
  | .repeated lower upper greedy body => .repeated lower upper (!greedy) (mirror body)
  | .group number body => .group number (mirror body)
  | .atomic body => .atomic (mirror body)
  | .look direction negated body => .look direction negated (mirror body)
  | .sequence items => .sequence (mirrorEach items)
  | .alternation items => .alternation (mirrorEach items).reverse
  | leaf => leaf

/-- Each of several trees. -/
def mirrorEach : List (Node ρ) → List (Node ρ)
  | [] => []
  | node :: rest => mirror node :: mirrorEach rest

end

/-- A change within a part is one within the whole. -/
theorem Reordered.within (whole : Node ρ → Node ρ) {node other : Node ρ}
    (h : ∀ {a b}, Somewhere Reorders a b → Somewhere Reorders (whole a) (whole b))
    (hchange : node.Reordered other) : (whole node).Reordered (whole other) :=
  hchange.lift whole fun _ _ => h

/-- Items may be changed one after the other. -/
theorem reordered_each {whole : List (Node ρ) → Node ρ} {items : List (Node ρ)}
    (h : ∀ {before behind a b}, Somewhere Reorders a b →
      Somewhere Reorders (whole (before ++ a :: behind)) (whole (before ++ b :: behind)))
    (ih : ∀ node ∈ items, node.Reordered node.mirror) :
    (whole items).Reordered (whole (mirrorEach items)) := by
  -- The items before the one at hand have been changed, those behind it have not.
  have hfrom : ∀ before, (whole (before ++ items)).Reordered
      (whole (before ++ mirrorEach items)) := by
    induction items with
    | nil => exact fun _ => .refl
    | cons node rest ihrest =>
        intro before
        have hfirst : (whole (before ++ node :: rest)).Reordered
            (whole (before ++ node.mirror :: rest)) :=
          Reordered.within (fun node => whole (before ++ node :: rest)) h
            (ih node List.mem_cons_self)
        have hrest := ihrest (fun t ht => ih t (List.mem_cons_of_mem _ ht))
          (before ++ [node.mirror])
        simp only [List.append_assoc, List.singleton_append] at hrest
        exact hfirst.trans hrest
  exact hfrom []

/-- A tree with all of it changed is one in another order. -/
theorem reordered_mirror (node : Node ρ) : node.Reordered node.mirror := by
  induction node with
  | repeated lower upper greedy body ih =>
      exact (Reordered.within _ .repeated ih).tail (.here (.greediness lower upper greedy _ _))
  | group number body ih => exact Reordered.within _ .group ih
  | atomic body ih => exact Reordered.within _ .atomic ih
  | look direction negated body ih => exact Reordered.within _ .look ih
  | sequence items ih => exact reordered_each .item ih
  | alternation items ih =>
      exact (reordered_each .alternative ih).tail
        (.here (.alternatives (List.reverse_perm _).symm))
  | _ => exact .refl

end Mirror

/-- A test that holds if something is not found: a negated look-around, or several of them. -/
inductive Negative : Node ρ → Prop
  | look (direction : Direction) (body : Node ρ) : Negative (.look direction true body)
  | sequence {items : List (Node ρ)} (each : ∀ node ∈ items, Negative node) :
      Negative (.sequence items)

/-- The changes that concern the order in which matches are tried or tests are made. -/
inductive Rearranges : Node ρ → Node ρ → Prop
  | priorities {node other : Node ρ} (change : Reorders node other) : Rearranges node other
  /-- Tests may be made in any order. -/
  | tests {items items' : List (Node ρ)} (order : items.Perm items')
      (each : ∀ node ∈ items, Negative node) :
      Rearranges (.sequence items) (.sequence items')

theorem Somewhere.mono {rule rule' : Node ρ → Node ρ → Prop} {node other : Node ρ}
    (h : ∀ node other, rule node other → rule' node other) (hchange : Somewhere rule node other) :
    Somewhere rule' node other := by
  induction hchange with
  | here change => exact .here (h _ _ change)
  | repeated _ ih => exact .repeated ih
  | group _ ih => exact .group ih
  | atomic _ ih => exact .atomic ih
  | look _ ih => exact .look ih
  | item _ ih => exact .item ih
  | alternative _ ih => exact .alternative ih

section Lengths

variable {enc : Encoding} {items items' before behind : List (Node ρ)} {node node' : Node ρ}

/-- Several trees share a length if all of them have it. -/
theorem charLengthCommon_eq_some {n : Nat} :
    charLengthCommon enc items = some n ↔
      items ≠ [] ∧ ∀ node ∈ items, charLength enc node = some n := by
  -- The common length is computed from the end of the list. A list of one tree has its length; a
  -- longer one has it if the first tree and the others agree.
  induction items with
  | nil => simp only [charLengthCommon, ne_eq, not_true_eq_false, false_and, reduceCtorEq]
  | cons node rest ih =>
      cases rest with
      | nil =>
          simp only [charLengthCommon, ne_eq, reduceCtorEq, not_false_eq_true, true_and,
            List.mem_singleton, forall_eq]
      | cons second more =>
          rw [List.forall_mem_cons]
          constructor
          · intro h
            rw [charLengthCommon] at h
            · split at h
              · rename_i m k hnode hrest
                split at h
                · rename_i hsame
                  cases h
                  exact ⟨List.cons_ne_nil _ _, hnode, (ih.mp (hsame ▸ hrest)).2⟩
                · cases h
              · cases h
            · exact List.cons_ne_nil _ _
          · rintro ⟨-, hnode, hrest⟩
            have hcommon := ih.mpr ⟨List.cons_ne_nil _ _, hrest⟩
            rw [charLengthCommon]
            · simp only [hnode, hcommon, if_true]
            · exact List.cons_ne_nil _ _

theorem charLengthCommon_congr (hnil : items = [] ↔ items' = [])
    (h : ∀ n, (∀ node ∈ items, charLength enc node = some n) ↔
      ∀ node ∈ items', charLength enc node = some n) :
    charLengthCommon enc items = charLengthCommon enc items' := by
  refine Option.ext fun n => ?_
  rw [charLengthCommon_eq_some, charLengthCommon_eq_some, h n, ne_eq, hnil]

theorem charLengthSum_item (h : charLength enc node = charLength enc node') :
    charLengthSum enc (before ++ node :: behind) =
      charLengthSum enc (before ++ node' :: behind) := by
  induction before with
  | nil => simp only [List.nil_append, charLengthSum, h]
  | cons first rest ih => simp only [List.cons_append, charLengthSum, ih]

/-- Tests have no length. -/
theorem charLengthSum_of_zero (h : ∀ node ∈ items, charLength enc node = some 0) :
    charLengthSum enc items = some 0 := by
  induction items with
  | nil => rfl
  | cons node rest ih =>
      rw [List.forall_mem_cons] at h
      rw [charLengthSum, h.1, ih h.2]
      rfl

theorem Negative.charLength (h : Negative node) : charLength enc node = some 0 := by
  induction h with
  | look => rfl
  | sequence _ ih => exact charLengthSum_of_zero ih

/-- A change keeps the number of characters. -/
theorem charLength_rearranged (h : Somewhere Rearranges node node') :
    charLength enc node = charLength enc node' := by
  -- The greediness of a repeat does not count for its length, alternatives have one length in any
  -- order, and tests have none.
  induction h with
  | here change =>
      rcases change with ⟨⟨⟩ | ⟨order⟩⟩ | ⟨order, each⟩
      · rfl
      · refine charLengthCommon_congr ?_ fun n => ?_
        · exact ⟨fun h => (h ▸ order).nil_eq.symm, fun h => (h ▸ order).eq_nil⟩
        · exact ⟨fun h node hnode => h node (order.mem_iff.mpr hnode),
            fun h node hnode => h node (order.mem_iff.mp hnode)⟩
      · have hleft := @charLengthSum_of_zero _ enc _ fun node hnode => (each node hnode).charLength
        have hright := @charLengthSum_of_zero _ enc _
          fun node hnode => (each node (order.mem_iff.mpr hnode)).charLength
        exact hleft.trans hright.symm
  | repeated _ ih => simp only [charLength, ih]
  | group _ ih | atomic _ ih => exact ih
  | look => rfl
  | item _ ih => exact charLengthSum_item ih
  | alternative _ ih =>
      refine charLengthCommon_congr ?_ fun n => ?_
      · simp only [List.append_eq_nil_iff, reduceCtorEq, and_false]
      · simp only [List.forall_mem_append, List.forall_mem_cons, ih]

end Lengths

section Kept

variable {items items' before behind : List (Node ρ)} {node node' : Node ρ}

/-- What holds of a list of trees if it holds of each does not depend on their order. -/
theorem forall_mem_perm {holds : Node ρ → Prop} (h : items.Perm items') :
    (∀ node ∈ items, holds node) ↔ ∀ node ∈ items', holds node :=
  ⟨fun hall node hnode => hall node (h.mem_iff.mpr hnode),
    fun hall node hnode => hall node (h.mem_iff.mp hnode)⟩

theorem forall_mem_item {holds : Node ρ → Prop} (h : holds node ↔ holds node') :
    (∀ item ∈ before ++ node :: behind, holds item) ↔
      ∀ item ∈ before ++ node' :: behind, holds item := by
  simp only [List.forall_mem_append, List.forall_mem_cons, h]

theorem plain_rearranged (h : Somewhere Rearranges node node') :
    node.plain = true ↔ node'.plain = true := by
  induction h with
  | here change =>
      rcases change with ⟨⟨⟩ | ⟨order⟩⟩ | ⟨order, each⟩
      · exact Iff.rfl
      · simp only [plain, plainAll_iff]
        exact forall_mem_perm order
      · simp only [plain, plainAll_iff]
        exact forall_mem_perm order
  | repeated _ ih | group _ ih | look _ ih => exact ih
  | atomic => exact Iff.rfl
  | item _ ih | alternative _ ih =>
      simp only [plain, plainAll_iff]
      exact forall_mem_item ih

theorem bounded_rearranged (h : Somewhere Rearranges node node') :
    node.Bounded ↔ node'.Bounded := by
  induction h with
  | here change =>
      rcases change with ⟨⟨⟩ | ⟨order⟩⟩ | ⟨order, each⟩
      · exact Iff.rfl
      · simp only [Bounded, boundedAll_iff]
        exact forall_mem_perm order
      · simp only [Bounded, boundedAll_iff]
        exact forall_mem_perm order
  | repeated _ ih => simp only [Bounded, ih]
  | group _ ih | atomic _ ih | look _ ih => exact ih
  | item _ ih | alternative _ ih =>
      simp only [Bounded, boundedAll_iff]
      exact forall_mem_item ih

theorem groupNumbersOf_eq (items : List (Node ρ)) :
    groupNumbersOf items = items.flatMap groupNumbers := by
  induction items with
  | nil => rfl
  | cons node rest ih => rw [groupNumbersOf, ih, List.flatMap_cons]

/-- A change may bring the groups into another order. -/
theorem groupNumbers_rearranged (h : Somewhere Rearranges node node') :
    node.groupNumbers.Perm node'.groupNumbers := by
  induction h with
  | here change =>
      rcases change with ⟨⟨⟩ | ⟨order⟩⟩ | ⟨order, each⟩
      · exact .refl _
      · simp only [groupNumbers, groupNumbersOf_eq]
        exact order.flatMap_right _
      · simp only [groupNumbers, groupNumbersOf_eq]
        exact order.flatMap_right _
  | repeated _ ih | atomic _ ih | look _ ih => exact ih
  | group _ ih => exact ih.cons _
  | item _ ih | alternative _ ih =>
      simp only [groupNumbers, groupNumbersOf_append, groupNumbersOf]
      exact (ih.append_right _).append_left _

theorem wellFormed_rearranged {slots : Nat} (h : Somewhere Rearranges node node')
    (hwell : node.WellFormed slots) : node'.WellFormed slots :=
  ⟨(bounded_rearranged h).mp hwell.bounded,
    (groupNumbers_rearranged h).nodup_iff.mp hwell.distinct,
    fun n hn => hwell.numbers n ((groupNumbers_rearranged h).mem_iff.mpr hn)⟩

end Kept

section Divided

variable {enc : Encoding} {node node' : Node ρ}

/-- What a negated look-behind is divided into is a test that something is not found. -/
theorem negative_divide (enc : Encoding) (node : Node ρ) : Negative (divide enc true node) := by
  induction node with
  | alternation items ih =>
      rw [divide]
      split
      · exact .look _ _
      · rw [if_pos rfl, divideEach_eq_map]
        exact .sequence (List.forall_mem_map.mpr ih)
  | _ => exact .look _ _

/-- A change to the body of a look-behind is one to what it is divided into. -/
theorem rearranged_divide (negated : Bool) (h : Somewhere Rearranges node node') :
    Somewhere Rearranges (divide enc negated node) (divide enc negated node') := by
  have hlength := @charLength_rearranged _ enc _ _ h
  -- A change above the alternatives is one to the undivided body. A change to an alternative may be
  -- one to the look-behind that it becomes.
  induction h with
  | here change =>
      rcases change with ⟨⟨⟩ | ⟨order⟩⟩ | ⟨order, each⟩
      · exact .look (.here (.priorities (.greediness _ _ _ _ _)))
      · rw [divide, divide, ← hlength]
        split
        · exact .look (.here (.priorities (.alternatives order)))
        -- Divided, the alternatives stand one after the other, as tests if they are negated.
        · simp only [divideEach_eq_map]
          cases negated with
          | true =>
              refine .here (.tests (order.map _) ?_)
              exact List.forall_mem_map.mpr fun node _ => negative_divide enc node
          | false => exact .here (.priorities (.alternatives (order.map _)))
      · exact .look (.here (.tests order each))
  | repeated inner => exact .look (.repeated inner)
  | group inner => exact .look (.group inner)
  | atomic inner => exact .look (.atomic inner)
  | look inner => exact .look (.look inner)
  | item inner => exact .look (.item inner)
  | alternative inner ih =>
      rw [divide, divide, ← hlength]
      split
      · exact .look (.alternative inner)
      · simp only [divideEach_eq_map, List.map_append, List.map_cons]
        have hitem := ih (charLength_rearranged inner)
        cases negated with
        | true => exact .item hitem
        | false => exact .alternative hitem

/-- A change to a tree is one to the tree with its look-behinds divided. -/
theorem rearranged_divideAll (h : Somewhere Reorders node node') :
    Somewhere Rearranges (divideAll enc node) (divideAll enc node') := by
  -- What is not a look-behind keeps its construct.
  induction h with
  | here change =>
      rcases change with ⟨⟩ | ⟨order⟩
      · exact .here (.priorities (.greediness _ _ _ _ _))
      · rw [divideAll, divideAll, divideAllOf_eq_map, divideAllOf_eq_map]
        exact .here (.priorities (.alternatives (order.map _)))
  | repeated _ ih => exact .repeated ih
  | group _ ih => exact .group ih
  | atomic _ ih => exact .atomic ih
  | @look direction negated _ _ _ ih =>
      cases direction with
      | ahead => exact .look ih
      | behind => exact rearranged_divide negated ih
  | item _ ih =>
      simp only [divideAll, divideAllOf_eq_map, List.map_append, List.map_cons]
      exact .item ih
  | alternative _ ih =>
      simp only [divideAll, divideAllOf_eq_map, List.map_append, List.map_cons]
      exact .alternative ih

/-- A look-behind that is divided is as plain as before. -/
theorem plain_divide (negated : Bool) (node : Node ρ) (h : node.plain = true) :
    (divide enc negated node).plain = true := by
  induction node with
  | alternation items ih =>
      have hitems : plainAll (divideEach enc negated items) = true := by
        rw [plain, plainAll_iff] at h
        rw [divideEach_eq_map, plainAll_iff, List.forall_mem_map]
        exact fun node hnode => ih node hnode (h node hnode)
      rw [divide]
      split
      · exact h
      · split
        · exact hitems
        · exact hitems
  | _ => exact h

theorem plain_divideAll (node : Node ρ) (h : node.plain = true) :
    (divideAll enc node).plain = true := by
  induction node with
  | look direction negated body ih =>
      cases direction with
      | ahead => exact ih h
      | behind => exact plain_divide negated _ (ih h)
  | repeated lower upper greedy body ih | group number body ih => exact ih h
  | sequence items ih | alternation items ih =>
      rw [plain, plainAll_iff] at h
      rw [divideAll, divideAllOf_eq_map, plain, plainAll_iff, List.forall_mem_map]
      exact fun node hnode => ih node hnode (h node hnode)
  | _ => exact h

end Divided

end Node

namespace Program

variable {enc : Encoding} {dialect : Dialect} {tree tree' : Tree}

theorem plain_prepare (h : tree.plain = true) : (prepare enc dialect tree).plain = true := by
  rw [prepare]
  split
  · exact Node.plain_divideAll tree h
  · exact h

/-- Trees that differ in order only are prepared to trees that do. -/
theorem rearranged_prepare (h : tree.Reordered tree') :
    Relation.ReflTransGen (Node.Somewhere Node.Rearranges) (prepare enc dialect tree)
      (prepare enc dialect tree') := by
  refine h.lift (prepare enc dialect) fun node node' hchange => ?_
  simp only [Function.onFun, prepare]
  split
  · exact Node.rearranged_divideAll hchange
  · exact hchange.mono fun _ _ => .priorities

end Program

end RegexEngine
