import RegexEngine.Proofs.Emission.Leaves

/-!
# References of a Program

A reference is read as a name or a number, turned into group numbers when all names are known, and
compiled into a test for the texts of these groups. Nothing else makes such a test. So every test of
a program for the text of a group has a reference in the pattern that it comes from: the groups are
all groups that were given the name, in the order they were given it, or the one group that has the
number; and they are groups of the program.

## Main definitions

* `Node.references`: The references of a tree.
* `Pattern.Reference.Names`: The groups that a reference stands for.
* `Pattern.draftOf`: The tree of a pattern before its references are resolved.

## Theorems

* `mem_references_of_leaf`: The tests of a tree for the texts of groups are its references.
* `references_resolve`: Where the references of a resolved tree come from.
* `reference_compiled`: Where the references of a program come from.
-/

namespace RegexEngine

namespace Node

variable {ρ : Type}

mutual

/-- What the references of a tree give for their groups, and whether they ignore case, from left to
right. -/
def references : Node ρ → List (ρ × Bool)
  | literal .. | set .. | anyChar .. | word .. | anchor .. => []
  | backref target ignoreCase _ => [(target, ignoreCase)]
  | repeated _ _ _ body | group _ body | atomic body | look _ _ body => references body
  | sequence items | alternation items => referencesOf items

/-- The references of several trees. -/
def referencesOf : List (Node ρ) → List (ρ × Bool)
  | [] => []
  | node :: rest => references node ++ referencesOf rest

end

theorem mem_referencesOf {items : List (Node ρ)} {reference : ρ × Bool} :
    reference ∈ referencesOf items ↔ ∃ node ∈ items, reference ∈ node.references := by
  induction items with
  | nil => simp [referencesOf]
  | cons node rest ih => simp [referencesOf, ih]

/-- The tests of a tree for the texts of groups are its references. -/
theorem mem_references_of_leaf {enc : Encoding} {groups : List Nat} {ignoreCase : Bool}
    (tree : Tree) (h : .backref groups ignoreCase ∈ tree.leaves enc) :
    (groups, ignoreCase) ∈ tree.references := by
  induction tree using Node.induct with
  | literal bytes folds =>
      have hleaf := List.mem_singleton.mp h
      rw [literalLeaf] at hleaf
      split at hleaf
      · cases hleaf
      · cases hleaf
  | set | anyChar | word | anchor => cases List.mem_singleton.mp h
  | backref =>
      cases List.mem_singleton.mp h
      exact List.mem_singleton.mpr rfl
  | repeated _ _ _ body ih | group _ body ih | atomic body ih | look _ _ body ih => exact ih h
  | sequence items ih | alternation items ih =>
      rcases mem_leavesOf.mp h with ⟨node, hnode, hleaf⟩
      exact mem_referencesOf.mpr ⟨node, hnode, ih node hnode hleaf⟩

end Node

namespace Pattern

/-- The groups that a reference stands for when the names of all groups are known. -/
inductive Reference.Names (names : GroupNames) : Reference → List Nat → Prop where
  | number (n : Nat) : Names names (.number n) [n]
  | name {name : List UInt8} {groups : List Nat} (found : names.find? name = some groups) :
      Names names (.name name) groups

/-- The tree of a pattern as it is read, and the state that reading ends in. -/
def draftOf (pattern : List UInt8) (options : Options) (encoding : Encoding) (dialect : Dialect)
    (limits : Limits) : Except Failure (Draft × State) :=
  let env : Setting :=
    { pattern := pattern, encoding := encoding, dialect := dialect,
      captureLimit := limits.captures, nestingLimit := limits.nesting }
  alternatives env (groupsWithin env limits.nesting) false
    { rest := pattern, options := options }

section Resolving

variable {groups : Nat} {names : GroupNames}

theorem names_of_resolveReference {offset : Nat} {target : Reference} {numbers : List Nat}
    (h : resolveReference names offset target = .ok numbers) : target.Names names numbers := by
  cases target with
  | number n =>
      cases h
      exact .number n
  | name name =>
      rw [resolveReference] at h
      split at h
      · rename_i found hfound
        cases h
        exact .name hfound
      · cases h

/-- The references of a tree come from references of the draft, and stand for groups that there are.
-/
def Resolves (groups : Nat) (names : GroupNames) (drafted : List (Reference × Bool))
    (resolved : List (List Nat × Bool)) : Prop :=
  ∀ numbers ignoreCase, (numbers, ignoreCase) ∈ resolved →
    (∀ n ∈ numbers, 0 < n ∧ n ≤ groups) ∧
      ∃ target : Reference, (target, ignoreCase) ∈ drafted ∧ target.Names names numbers

theorem references_resolveAll {items : List Draft} {trees : List Tree}
    (ih : ∀ draft ∈ items, ∀ {tree : Tree}, resolve groups names draft = .ok tree →
      Resolves groups names draft.references tree.references)
    (h : resolveAll groups names items = .ok trees) :
    Resolves groups names (Node.referencesOf items) (Node.referencesOf trees) := by
  -- The references of a list are those of its first item and those of the others.
  induction items generalizing trees with
  | nil =>
      cases h
      intro numbers ignoreCase hmem
      cases hmem
  | cons draft rest ihrest =>
      rcases bind_ok h with ⟨tree, htree, h⟩
      rcases bind_ok h with ⟨more, hmore, h⟩
      cases h
      intro numbers ignoreCase hmem
      rcases List.mem_append.mp hmem with hfirst | hlater
      · rcases ih draft List.mem_cons_self htree numbers ignoreCase hfirst with
          ⟨hgroups, target, hdrafted, hnames⟩
        exact ⟨hgroups, target, List.mem_append_left _ hdrafted, hnames⟩
      · rcases ihrest (fun t ht => ih t (List.mem_cons_of_mem _ ht)) hmore numbers ignoreCase hlater
          with ⟨hgroups, target, hdrafted, hnames⟩
        exact ⟨hgroups, target, List.mem_append_right _ hdrafted, hnames⟩

/-- Where the references of a resolved tree come from. -/
theorem references_resolve (draft : Draft) : ∀ {tree : Tree},
    resolve groups names draft = .ok tree →
      Resolves groups names draft.references tree.references := by
  -- Only a reference is resolved to numbers. The references of every other construct are those of
  -- its parts.
  induction draft using Node.induct with
  | backref target ignoreCase offset =>
      intro tree h
      rcases bind_ok h with ⟨numbers, hnumbers, h⟩
      split at h
      · cases h
      · -- No number is that of no group, or the reference would have been refused.
        rename_i hgroups
        cases h
        intro others folds hmem
        cases List.mem_singleton.mp hmem
        refine ⟨?_, target, List.mem_singleton.mpr rfl, names_of_resolveReference hnumbers⟩
        intro n hn
        simp only [List.any_eq_true, Bool.or_eq_true, beq_iff_eq, decide_eq_true_eq, not_exists,
          not_and] at hgroups
        have hin := hgroups n hn
        omega
  | repeated lower upper greedy body ih | group number body ih | atomic body ih
  | look direction negated body ih =>
      intro tree h
      rcases bind_ok h with ⟨inner, hinner, h⟩
      cases h
      have hresolves := ih hinner
      exact hresolves
  | sequence items ih | alternation items ih =>
      intro tree h
      rcases bind_ok h with ⟨inner, hinner, h⟩
      cases h
      have hresolves := references_resolveAll ih hinner
      exact hresolves
  | _ =>
      intro tree h
      cases h
      intro numbers ignoreCase hmem
      cases hmem

/-- A pattern that was read has a draft, whose references were resolved with the groups and names
that there were at the end. Where nothing is left of the pattern, it was read to its end. -/
theorem parse_resolves {pattern : List UInt8} {options : Options} {enc : Encoding}
    {dialect : Dialect} {limits : Limits} {parsed : Parsed}
    (h : parse pattern options enc dialect limits = .ok parsed) :
    ∃ draft after, draftOf pattern options enc dialect limits = .ok (draft, after) ∧
      resolve parsed.groups parsed.names draft = .ok parsed.tree ∧
      after.groups = parsed.groups ∧ after.names = parsed.names ∧
      (after.rest = [] → parsed.offset = pattern.length) := by
  rw [parse] at h
  simp only at h
  split at h
  · cases h
  · rcases bind_ok h with ⟨⟨draft, after⟩, hdraft, h⟩
    rcases bind_ok h with ⟨tree, htree, h⟩
    cases h
    refine ⟨draft, after, hdraft, htree, rfl, rfl, fun hrest => ?_⟩
    simp only [hrest]
    exact offset_add_length (List.nil_suffix)

end Resolving

end Pattern

namespace Program

variable {pattern : List UInt8} {asked : Options} {enc : Encoding} {dialect : Dialect}
  {limits : Limits} {program : Program}

/-- Every test of a program for the text of a group comes from a reference that was read, whose name
or number stands for the groups of the test. All of these are groups of the program. -/
theorem reference_compiled (h : compile pattern asked enc dialect limits = .ok program) {pc : Int}
    {groups : List Nat} {ignoreCase : Bool}
    (hinstr : program.instrAt pc = some (.leaf (.backref groups ignoreCase))) :
    (∀ n ∈ groups, 0 < n ∧ n ≤ program.groups) ∧
      ∃ draft after, Pattern.draftOf pattern (optionsFor asked dialect) enc dialect limits =
          .ok (draft, after) ∧
        ∃ target : Pattern.Reference, (target, ignoreCase) ∈ draft.references ∧
          target.Names program.names groups := by
  rcases compile_ok h with ⟨parsed, hparse, hprogram⟩
  -- The test has come from a reference in the tree, and this from one in the draft.
  have hleaf := Node.mem_references_of_leaf _ (mem_leaves_of_instrAt hparse hprogram hinstr)
  rcases Pattern.parse_resolves hparse with ⟨draft, after, hdraft, hresolve, -⟩
  rcases Pattern.references_resolve draft hresolve groups ignoreCase hleaf with
    ⟨hgroups, target, hdrafted, hnames⟩
  -- The program has the groups and the names that were read.
  have hsame : program.groups = parsed.groups ∧ program.names = parsed.names := by
    rw [ofParsed] at hprogram
    split at hprogram
    · cases hprogram
    · cases hprogram
      exact ⟨rfl, rfl⟩
  rw [hsame.1, hsame.2]
  exact ⟨hgroups, draft, after, hdraft, target, hdrafted, hnames⟩

end Program

end RegexEngine
