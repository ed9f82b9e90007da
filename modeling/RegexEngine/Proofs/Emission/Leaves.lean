import RegexEngine.Proofs.Program.Compile

/-!
# Tests of a Program

The code of a tree tests what the leaves of the tree ask for and nothing else. Loops, groups and
look-arounds put instructions of other kinds around the tests, copies repeat them, and dividing a
look-behind moves them; no test is made up. What holds of the leaves of a tree therefore holds of
the tests that a matcher comes to.

The case at hand is that of the literals. Every literal of a program is a text of its encoding.

## Theorems

* `leaves_divideAll`: Dividing look-behinds keeps the tests.
* `mem_leaves_of_emit`: The tests in the code of a tree are those of the tree.
* `mem_leaves_of_instrAt`: The tests of a program are those of the tree that was read.
* `isValid_literal`: The literals of a program are texts of its encoding.
-/

namespace RegexEngine

namespace Code

variable {test : Leaf} {body : Code}

theorem leaf_mem_star {greedy : Bool} {check : Option Nat} :
    .leaf test ∈ star greedy check body ↔ .leaf test ∈ body := by
  cases greedy <;> cases check <;> simp [star, checked]

theorem leaf_mem_optional {greedy : Bool} :
    .leaf test ∈ optional greedy body ↔ .leaf test ∈ body := by
  cases greedy <;> simp [optional]

theorem leaf_mem_counted {id : Nat} {greedy : Bool} :
    .leaf test ∈ counted id greedy body ↔ .leaf test ∈ body := by
  simp [counted]

theorem leaf_mem_group {number : Nat} : .leaf test ∈ group number body ↔ .leaf test ∈ body := by
  simp [group]

theorem leaf_mem_atomic {id : Nat} : .leaf test ∈ atomic id body ↔ .leaf test ∈ body := by
  simp [atomic]

theorem leaf_mem_look {id : Nat} {negated : Bool} :
    .leaf test ∈ look id negated body ↔ .leaf test ∈ body := by
  cases negated <;> simp [look]

theorem leaf_mem_copies {n : Nat} (h : .leaf test ∈ copies n body) : .leaf test ∈ body := by
  induction n with
  | zero => cases h
  | succ n ih => exact (List.mem_append.mp h).elim id ih

theorem leaf_mem_choices {parts : List Code} (h : .leaf test ∈ choices parts) :
    ∃ part ∈ parts, .leaf test ∈ part := by
  induction parts with
  | nil =>
      cases List.mem_singleton.mp h
  | cons part rest ih =>
      cases rest with
      | nil => exact ⟨part, List.mem_cons_self, h⟩
      | cons next more =>
          rw [choices] at h
          · simp only [List.cons_append, List.mem_cons, reduceCtorEq, List.mem_append, false_or]
              at h
            rcases h with hpart | hrest
            · exact ⟨part, List.mem_cons_self, hpart⟩
            · rcases ih hrest with ⟨other, hother, htest⟩
              exact ⟨other, List.mem_cons_of_mem _ hother, htest⟩
          · exact List.cons_ne_nil _ _

end Code

namespace Node

variable {enc : Encoding} {test : Leaf}

/-- The tests of several trees stay the same if those of each tree do. -/
theorem leavesOf_map {f : Tree → Tree} {items : List Tree}
    (ih : ∀ node ∈ items, (f node).leaves enc = node.leaves enc) :
    leavesOf enc (items.map f) = leavesOf enc items := by
  induction items with
  | nil => rfl
  | cons node rest ihrest =>
      rw [List.forall_mem_cons] at ih
      rw [List.map_cons, leavesOf, leavesOf, ih.1, ihrest ih.2]

theorem leaves_divide (negated : Bool) (node : Tree) :
    (divide enc negated node).leaves enc = node.leaves enc := by
  induction node using Node.induct with
  | alternation items ih =>
      have hitems : leavesOf enc (divideEach enc negated items) = leavesOf enc items := by
        rw [divideEach_eq_map, leavesOf_map ih]
      rw [divide]
      split
      · rfl
      · split
        · exact hitems
        · exact hitems
  | _ => rfl

/-- Dividing look-behinds keeps the tests. -/
theorem leaves_divideAll (node : Tree) : (divideAll enc node).leaves enc = node.leaves enc := by
  induction node using Node.induct with
  | look direction negated body ih =>
      cases direction with
      | ahead => exact ih
      | behind =>
          rw [divideAll, leaves_divide, ih]
          rfl
  | repeated lower upper greedy body ih | group number body ih | atomic body ih => exact ih
  | sequence items ih | alternation items ih =>
      rw [divideAll, divideAllOf_eq_map, leaves, leaves, leavesOf_map ih]
  | _ => rfl

/-- The tests in the code of a repeat are those of its body. -/
theorem leaf_mem_emitRepeat {bounds : Bounds} {greedy mayBeEmpty : Bool} {body code : Code}
    {ids later : Ids} (h : emitRepeat bounds greedy mayBeEmpty body ids = .ok (code, later))
    (htest : .leaf test ∈ code) : .leaf test ∈ body := by
  have hrepeat := emitRepeat_ok h
  generalize Scheme.choose bounds.lower bounds.upper body.length = scheme at hrepeat
  cases hrepeat with
  | never => cases htest
  | once => exact htest
  | optional => exact Code.leaf_mem_optional.mp htest
  | star hstar =>
      rcases emitStar_ok hstar with ⟨check, rfl, -⟩
      exact Code.leaf_mem_star.mp htest
  | plus hstar =>
      rcases emitStar_ok hstar with ⟨check, rfl, -⟩
      exact (List.mem_append.mp htest).elim id Code.leaf_mem_star.mp
  | copies n => exact Code.leaf_mem_copies htest
  | counted => exact Code.leaf_mem_counted.mp htest

/-- The tests in the codes of several trees are those of the trees. -/
theorem mem_leavesOf_of_emit {items : List Tree} {ids later : Ids} {parts : List Code}
    {part : Code}
    (ih : ∀ node ∈ items, ∀ {ids later code}, node.emit enc ids = .ok (code, later) →
      .leaf test ∈ code → test ∈ node.leaves enc)
    (h : EmitsEach (Emits enc) items ids parts later) (hpart : part ∈ parts)
    (htest : .leaf test ∈ part) :
    test ∈ leavesOf enc items := by
  induction h with
  | nil => cases hpart
  | cons first others ihothers =>
      rw [leavesOf, List.mem_append]
      rcases List.mem_cons.mp hpart with rfl | hpart
      · exact Or.inl (ih _ List.mem_cons_self first htest)
      · exact Or.inr (ihothers (fun t ht => ih t (List.mem_cons_of_mem _ ht)) hpart)

/-- The tests in the code of a tree are those of the tree. -/
theorem mem_leaves_of_emit (tree : Tree) : ∀ {ids later code},
    tree.emit enc ids = .ok (code, later) → .leaf test ∈ code → test ∈ tree.leaves enc := by
  -- By induction on the tree, with the code taken apart into that of the parts. The instructions
  -- that a construct adds are no tests.
  induction tree using Node.induct with
  | literal bytes ignoreCase =>
      intro ids later code h htest
      rcases Emit.pure_ok h with ⟨rfl, rfl⟩
      split at htest
      · cases htest
      · cases List.mem_singleton.mp htest
        exact List.mem_singleton_self _
  | set | anyChar | word | backref | anchor =>
      intro ids later code h htest
      rcases Emit.pure_ok h with ⟨rfl, rfl⟩
      cases List.mem_singleton.mp htest
      exact List.mem_singleton_self _
  | repeated lower upper greedy body ih =>
      intro ids later code h htest
      rcases emit_repeated h with ⟨rfl, rfl, rfl⟩ | ⟨-, inner, mid, hinner, hrepeat⟩
      · cases htest
      · exact ih hinner (leaf_mem_emitRepeat hrepeat htest)
  | group number body ih =>
      intro ids later code h htest
      rcases emit_group h with ⟨inner, hinner, rfl⟩
      exact ih hinner (Code.leaf_mem_group.mp htest)
  | atomic body ih =>
      intro ids later code h htest
      rcases emit_atomic h with ⟨inner, hinner, rfl⟩
      exact ih hinner (Code.leaf_mem_atomic.mp htest)
  | look direction negated body ih =>
      intro ids later code h htest
      cases direction with
      | ahead =>
          rcases emit_ahead h with ⟨inner, hinner, rfl⟩
          exact ih hinner (Code.leaf_mem_look.mp htest)
      | behind =>
          rcases emit_behind h with ⟨n, inner, -, hinner, rfl⟩
          -- The step back before the body is no test either.
          have hbody := Code.leaf_mem_look.mp htest
          exact ih hinner ((List.mem_cons.mp hbody).resolve_left (by rintro ⟨⟩))
  | sequence items ih =>
      intro ids later code h htest
      rcases emit_sequence h with ⟨parts, hparts, rfl⟩
      rcases List.mem_flatten.mp htest with ⟨part, hpart, htest⟩
      exact mem_leavesOf_of_emit ih hparts hpart htest
  | alternation items ih =>
      intro ids later code h htest
      rcases emit_alternation h with ⟨parts, hparts, rfl⟩
      rcases Code.leaf_mem_choices htest with ⟨part, hpart, htest⟩
      exact mem_leavesOf_of_emit ih hparts hpart htest

/-- The literals among the tests of a tree are texts of the encoding if those of the tree are. -/
theorem isValid_of_mem_leaves {bytes : List UInt8} (tree : Tree) (h : tree.LiteralsValid enc)
    (hmem : .literal bytes ∈ tree.leaves enc) : enc.isValid bytes = true := by
  induction tree using Node.induct with
  | literal found ignoreCase =>
      have hleaf := List.mem_singleton.mp hmem
      rw [literalLeaf] at hleaf
      split at hleaf
      · cases hleaf
      · cases hleaf
        exact h
  | set | anyChar | word | backref | anchor => cases List.mem_singleton.mp hmem
  | repeated _ _ _ body ih | group _ body ih | atomic body ih | look _ _ body ih => exact ih h hmem
  | sequence items ih | alternation items ih =>
      rcases mem_leavesOf.mp hmem with ⟨node, hnode, hmem⟩
      exact ih node hnode ((literalsValidAll_iff enc items).mp h node hnode) hmem

end Node

namespace Program

variable {pattern : List UInt8} {options : Options} {enc : Encoding} {dialect : Dialect}
  {limits : Limits} {parsed : Pattern.Parsed} {program : Program}

/-- The tree that is prepared has the tests of the tree that was read. -/
theorem leaves_prepare (enc : Encoding) (dialect : Dialect) (tree : Tree) :
    (prepare enc dialect tree).leaves enc = tree.leaves enc := by
  rw [prepare]
  split
  · exact Node.leaves_divideAll tree
  · rfl

/-- The tests of a program are those of the tree that was read. -/
theorem mem_leaves_of_instrAt
    (hparse : Pattern.parse pattern options enc dialect limits = .ok parsed)
    (hprogram : ofParsed pattern options enc dialect parsed = .ok program) {pc : Int} {test : Leaf}
    (hinstr : program.instrAt pc = some (.leaf test)) :
    test ∈ parsed.tree.leaves program.encoding := by
  rcases ofParsed_ok hparse hprogram with ⟨hmeans, hencoding, -⟩
  rcases hmeans.emits with ⟨code, ids, hemit, hcode, -, -⟩
  have hmem := mem_of_instrAt hinstr
  rw [hcode, List.mem_toArray] at hmem
  have htest := (List.mem_append.mp hmem).resolve_right (by simp)
  have hleaf := Node.mem_leaves_of_emit _ hemit htest
  rw [hencoding] at hleaf ⊢
  rwa [leaves_prepare] at hleaf

/-- A program is that of a tree whose literals are texts of its encoding. -/
theorem exists_means (hparse : Pattern.parse pattern options enc dialect limits = .ok parsed)
    (hprogram : ofParsed pattern options enc dialect parsed = .ok program) :
    ∃ tree, program.Means tree ∧ ∀ bytes, .literal bytes ∈ tree.leaves program.encoding →
      program.encoding.isValid bytes = true := by
  rcases ofParsed_ok hparse hprogram with ⟨hmeans, hencoding, -⟩
  refine ⟨_, hmeans, fun bytes hbytes => ?_⟩
  rw [hencoding] at hbytes ⊢
  rw [leaves_prepare] at hbytes
  exact Node.isValid_of_mem_leaves parsed.tree (Pattern.parse_ok hparse).2.2 hbytes

/-- The literals of a program are texts of its encoding. -/
theorem isValid_literal (hparse : Pattern.parse pattern options enc dialect limits = .ok parsed)
    (hprogram : ofParsed pattern options enc dialect parsed = .ok program) {pc : Int}
    {bytes : List UInt8} (hinstr : program.instrAt pc = some (.leaf (.literal bytes))) :
    program.encoding.isValid bytes = true := by
  have hencoding := (ofParsed_ok hparse hprogram).2.1
  have hleaf := mem_leaves_of_instrAt hparse hprogram hinstr
  exact Node.isValid_of_mem_leaves _ (hencoding ▸ (Pattern.parse_ok hparse).2.2) hleaf

end Program

end RegexEngine
