import RegexEngine.Pattern.LookBehind
import RegexEngine.Pattern.Parse

/-!
# Induction over Pattern Trees

A tree nests in lists of trees, so the principle that comes with the type speaks about lists as
well. `Node.induct` hides them: a sequence or an alternation may be taken to satisfy what is proved
as soon as all of its items do. Every induction over trees goes by it.

The numbers of the groups are the part of a tree that its code turns into registers. `groupNumbers`
lists them in the order of the opening parentheses, and dividing look-behinds does not change the
list.

## Main definitions

* `Node.groupNumbers`: The numbers of the groups of a tree, from left to right.

## Theorems

* `Node.induct`: Induction over a tree.
* `groupNumbers_divideAll`: Dividing look-behinds keeps the groups.
-/

namespace RegexEngine

namespace Node

variable {ρ : Type}

/-- Induction over a tree, in which the items of a list may be assumed one by one. -/
@[elab_as_elim, induction_eliminator]
theorem induct {motive : Node ρ → Prop}
    (literal : ∀ bytes ignoreCase, motive (.literal bytes ignoreCase))
    (set : ∀ chars, motive (.set chars))
    (anyChar : ∀ newlines, motive (.anyChar newlines))
    (word : ∀ negated, motive (.word negated))
    (backref : ∀ target ignoreCase offset, motive (.backref target ignoreCase offset))
    (repeated : ∀ lower upper greedy body, motive body →
      motive (.repeated lower upper greedy body))
    (group : ∀ number body, motive body → motive (.group number body))
    (atomic : ∀ body, motive body → motive (.atomic body))
    (anchor : ∀ kind multiline, motive (.anchor kind multiline))
    (look : ∀ direction negated body, motive body → motive (.look direction negated body))
    (sequence : ∀ items, (∀ node ∈ items, motive node) → motive (.sequence items))
    (alternation : ∀ items, (∀ node ∈ items, motive node) → motive (.alternation items))
    (node : Node ρ) : motive node := by
  -- The recursor of a nested type has a second motive, for the lists of items.
  refine @Node.rec ρ motive (fun items => ∀ node ∈ items, motive node)
    literal set anyChar word backref repeated group atomic anchor look sequence alternation
    ?_ ?_ node
  · intro node hmem
    exact absurd hmem List.not_mem_nil
  · intro first rest hfirst hrest node hmem
    rcases List.mem_cons.mp hmem with rfl | hmem
    · exact hfirst
    · exact hrest node hmem

theorem divideEach_eq_map (enc : Encoding) (negated : Bool) (items : List (Node ρ)) :
    divideEach enc negated items = items.map (divide enc negated) := by
  induction items with
  | nil => rfl
  | cons node rest ih => rw [divideEach, ih, List.map_cons]

theorem divideAllOf_eq_map (enc : Encoding) (items : List (Node ρ)) :
    divideAllOf enc items = items.map (divideAll enc) := by
  induction items with
  | nil => rfl
  | cons node rest ih => rw [divideAllOf, ih, List.map_cons]

mutual

/-- The numbers of the groups of a tree, in the order of their opening parentheses. -/
def groupNumbers : Node ρ → List Nat
  | literal .. | set .. | anyChar .. | word .. | backref .. | anchor .. => []
  | repeated _ _ _ body | atomic body | look _ _ body => groupNumbers body
  | group number body => number :: groupNumbers body
  | sequence items | alternation items => groupNumbersOf items

/-- The numbers of the groups of several trees. -/
def groupNumbersOf : List (Node ρ) → List Nat
  | [] => []
  | node :: rest => groupNumbers node ++ groupNumbersOf rest

end

theorem groupNumbers_sublist {items : List (Node ρ)} {node : Node ρ} (h : node ∈ items) :
    node.groupNumbers.Sublist (groupNumbersOf items) := by
  induction items with
  | nil => exact absurd h List.not_mem_nil
  | cons first rest ih =>
      rcases List.mem_cons.mp h with rfl | h
      · exact List.sublist_append_left _ _
      · exact (ih h).trans (List.sublist_append_right _ _)

/-- The groups of several trees stay where they are if those of each tree do. -/
theorem groupNumbersOf_map {f : Node ρ → Node ρ} {items : List (Node ρ)}
    (ih : ∀ node ∈ items, groupNumbers (f node) = groupNumbers node) :
    groupNumbersOf (items.map f) = groupNumbersOf items := by
  induction items with
  | nil => rfl
  | cons node rest ihrest =>
      rw [List.forall_mem_cons] at ih
      rw [List.map_cons, groupNumbersOf, groupNumbersOf, ih.1, ihrest ih.2]

theorem groupNumbersOf_append (items more : List (Node ρ)) :
    groupNumbersOf (items ++ more) = groupNumbersOf items ++ groupNumbersOf more := by
  induction items with
  | nil => rfl
  | cons node rest ih =>
      simp only [List.cons_append, groupNumbersOf, ih, List.append_assoc]

/-- A look-behind that is divided leaves the groups where they are. -/
theorem groupNumbers_divide (enc : Encoding) (negated : Bool) (node : Node ρ) :
    groupNumbers (divide enc negated node) = groupNumbers node := by
  induction node with
  | alternation items ih =>
      have hitems : groupNumbersOf (divideEach enc negated items) = groupNumbersOf items := by
        rw [divideEach_eq_map, groupNumbersOf_map ih]
      rw [divide]
      split
      · rfl
      · split
        · exact hitems
        · exact hitems
  | _ => rfl

theorem groupNumbers_divideAll (enc : Encoding) (node : Node ρ) :
    groupNumbers (divideAll enc node) = groupNumbers node := by
  induction node with
  | look direction negated body ih =>
      cases direction with
      | ahead => exact ih
      | behind =>
          rw [divideAll, groupNumbers_divide, ih]
          rfl
  | repeated lower upper greedy body ih => exact ih
  | atomic body ih => exact ih
  | group number body ih =>
      simp only [divideAll, groupNumbers]
      rw [ih]
  | sequence items ih | alternation items ih =>
      rw [divideAll, divideAllOf_eq_map, groupNumbers, groupNumbers, groupNumbersOf_map ih]
  | _ => rfl

end Node

end RegexEngine
