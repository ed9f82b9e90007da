import RegexEngine.Proofs.Emission.Basic

/-!
# Layouts

Several schemes may suit the bounds of a repeat. A layout of a tree is code that the tree has if
each of its repeats is run by some scheme that is allowed for it; the code that is made is the
layout in which the size of the body has decided on every scheme.

Numbers are given out in order and never twice, so a layout uses the numbers between those given out
before and those given out after it, and no others. The number of a part that is still open is
therefore not among those of its body. Copies of a body share the numbers of the body, which does no
harm, since one copy has ended before the next one begins.

## Main definitions

* `Node.Layout`: Code that a tree may have.
* `Scheme.Chosen`: A scheme is the one that the size of the body decides on.

## Theorems

* `layout_emit`: The code that is made is a layout.
* `Layout.mono`: A layout of schemes all of which are allowed elsewhere.
* `Layout.numbered`, `numbered_emit`: The numbers in a layout, and in the code of a tree.
-/

namespace RegexEngine

/-- A scheme is the one that the size of the code of the body decides on. -/
def Scheme.Chosen (enc : Encoding) (lower : Nat) (upper : Option Nat) (body : Tree)
    (scheme : Scheme) : Prop :=
  scheme = choose lower upper (body.codeLength enc)

namespace Node

/-- Code that a tree may have if each of its repeats is run by a scheme that is allowed for its
bounds and its body. -/
inductive Layout (enc : Encoding) (allows : Nat → Option Nat → Tree → Scheme → Prop) :
    Tree → Ids → Code → Ids → Prop
  | literal (bytes : List UInt8) (ignoreCase : Bool) (ids : Ids) :
      Layout enc allows (.literal bytes ignoreCase) ids
        (if bytes.isEmpty then [] else [.leaf (literalLeaf enc bytes ignoreCase)]) ids
  | set (chars : CharSet) (ids : Ids) : Layout enc allows (.set chars) ids [.leaf (.set chars)] ids
  | anyChar (newlines : Bool) (ids : Ids) :
      Layout enc allows (.anyChar newlines) ids [.leaf (.anyChar newlines)] ids
  | word (negated : Bool) (ids : Ids) :
      Layout enc allows (.word negated) ids [.leaf (.word negated)] ids
  | backref (groups : List Nat) (ignoreCase : Bool) (offset : Nat) (ids : Ids) :
      Layout enc allows (.backref groups ignoreCase offset) ids
        [.leaf (.backref groups ignoreCase)] ids
  | anchor (kind : Anchor) (multiline : Bool) (ids : Ids) :
      Layout enc allows (.anchor kind multiline) ids [.leaf (.anchor kind multiline)] ids
  | never (lower : Nat) (greedy : Bool) (body : Tree) (ids : Ids) :
      Layout enc allows (.repeated lower (some 0) greedy body) ids [] ids
  | repeated {lower : Nat} {upper : Option Nat} {greedy : Bool} {body : Tree} {scheme : Scheme}
      {ids mid later : Ids} {inner code : Code} (runs : upper ≠ some 0)
      (inside : Layout enc allows body ids inner mid) (allowed : allows lower upper body scheme)
      (made : EmitsRepeat ⟨lower, upper⟩ greedy (body.minLength == 0) inner mid scheme code later) :
      Layout enc allows (.repeated lower upper greedy body) ids code later
  | group {number : Nat} {body : Tree} {ids later : Ids} {inner : Code}
      (inside : Layout enc allows body ids inner later) :
      Layout enc allows (.group number body) ids (Code.group number inner) later
  | atomic {body : Tree} {ids later : Ids} {inner : Code}
      (inside : Layout enc allows body { ids with marks := ids.marks + 1 } inner later) :
      Layout enc allows (.atomic body) ids (Code.atomic ids.marks inner) later
  | ahead {negated : Bool} {body : Tree} {ids later : Ids} {inner : Code}
      (inside : Layout enc allows body { ids with marks := ids.marks + 1 } inner later) :
      Layout enc allows (.look .ahead negated body) ids (Code.look ids.marks negated inner) later
  | behind {negated : Bool} {body : Tree} {ids later : Ids} {inner : Code} {n : Nat}
      (length : body.charLength enc = some n)
      (inside : Layout enc allows body { ids with marks := ids.marks + 1 } inner later) :
      Layout enc allows (.look .behind negated body) ids
        (Code.look ids.marks negated (.stepBack n :: inner)) later
  | sequence {items : List Tree} {ids later : Ids} {parts : List Code}
      (inside : EmitsEach (Layout enc allows) items ids parts later) :
      Layout enc allows (.sequence items) ids parts.flatten later
  | alternation {items : List Tree} {ids later : Ids} {parts : List Code}
      (inside : EmitsEach (Layout enc allows) items ids parts later) :
      Layout enc allows (.alternation items) ids (Code.choices parts) later

variable {enc : Encoding} {ids later : Ids} {code : Code}
  {allows more : Nat → Option Nat → Tree → Scheme → Prop}

theorem emitsEach_mono {emits emits' : Tree → Ids → Code → Ids → Prop} {items : List Tree}
    {parts : List Code}
    (ih : ∀ node ∈ items, ∀ {ids code later}, emits node ids code later →
      emits' node ids code later)
    (h : EmitsEach emits items ids parts later) : EmitsEach emits' items ids parts later := by
  induction h with
  | nil => exact .nil _
  | cons first others ihothers =>
      rw [List.forall_mem_cons] at ih
      exact .cons (ih.1 first) (ihothers ih.2)

/-- A layout of schemes all of which are allowed elsewhere. -/
theorem Layout.mono
    (hmore : ∀ lower upper body scheme, allows lower upper body scheme →
      more lower upper body scheme) (tree : Tree) :
    ∀ {ids code later}, tree.Layout enc allows ids code later →
      tree.Layout enc more ids code later := by
  -- The only rule with a scheme is that of repeats. All others hand the induction on.
  induction tree using Node.induct with
  | literal | set | anyChar | word | backref | anchor =>
      intro ids code later h
      cases h
      constructor
  | repeated lower upper greedy body ih =>
      intro ids code later h
      cases h with
      | never => exact .never lower greedy body ids
      | repeated runs inside allowed made =>
          exact .repeated runs (ih inside) (hmore _ _ _ _ allowed) made
  | group number body ih =>
      intro ids code later h
      cases h with
      | group inside => exact .group (ih inside)
  | atomic body ih =>
      intro ids code later h
      cases h with
      | atomic inside => exact .atomic (ih inside)
  | look direction negated body ih =>
      intro ids code later h
      cases h with
      | ahead inside => exact .ahead (ih inside)
      | behind length inside => exact .behind length (ih inside)
  | sequence items ih =>
      intro ids code later h
      cases h with
      | sequence inside => exact .sequence (emitsEach_mono ih inside)
  | alternation items ih =>
      intro ids code later h
      cases h with
      | alternation inside => exact .alternation (emitsEach_mono ih inside)

/-- The code that is made is the layout in which the size of the body decides on every scheme. -/
theorem layout_emit (tree : Tree) : ∀ {ids code later}, tree.Emits enc ids code later →
    tree.Layout enc (Scheme.Chosen enc) ids code later := by
  -- By induction on the tree. For a repeat the code of the body has the length that the scheme was
  -- chosen by.
  induction tree using Node.induct with
  | literal | set | anyChar | word | backref | anchor =>
      intro ids code later h
      rcases Emit.pure_ok h with ⟨rfl, rfl⟩
      constructor
  | repeated lower upper greedy body ih =>
      intro ids code later h
      rcases emit_repeated h with ⟨rfl, rfl, rfl⟩ | ⟨hupper, inner, mid, hinner, hrepeat⟩
      · exact .never lower greedy body _
      · have hmade := emitRepeat_ok hrepeat
        rw [length_emit body hinner] at hmade
        exact .repeated hupper (ih hinner) rfl hmade
  | group number body ih =>
      intro ids code later h
      rcases emit_group h with ⟨inner, hinner, rfl⟩
      exact .group (ih hinner)
  | atomic body ih =>
      intro ids code later h
      rcases emit_atomic h with ⟨inner, hinner, rfl⟩
      exact .atomic (ih hinner)
  | look direction negated body ih =>
      intro ids code later h
      cases direction with
      | ahead =>
          rcases emit_ahead h with ⟨inner, hinner, rfl⟩
          exact .ahead (ih hinner)
      | behind =>
          rcases emit_behind h with ⟨n, inner, hlength, hinner, rfl⟩
          exact .behind hlength (ih hinner)
  | sequence items ih =>
      intro ids code later h
      rcases emit_sequence h with ⟨parts, hparts, rfl⟩
      exact .sequence (emitsEach_mono ih hparts)
  | alternation items ih =>
      intro ids code later h
      rcases emit_alternation h with ⟨parts, hparts, rfl⟩
      exact .alternation (emitsEach_mono ih hparts)

/-- The numbers in the code of a loop that does not count. The check is numbered after the body. -/
theorem numbered_emitStar {greedy mayBeEmpty : Bool} {body : Code} {mid : Ids} {groups : List Nat}
    (h : emitStar greedy mayBeEmpty body mid = .ok (code, later)) (hids : ids.Extends mid)
    (hbody : body.Numbered ids mid groups) :
    mid.Extends later ∧ code.Numbered ids later groups := by
  rcases emitStar_ok h with ⟨check, rfl, hlater, -, hcheck⟩
  refine ⟨hlater, Code.numbered_star (hbody.mono (.refl _) hlater (List.Subset.refl _)) ?_⟩
  intro id hid
  rcases hcheck id hid with ⟨-, rfl, hlt⟩
  exact ⟨hids.emptyChecks, hlt⟩

/-- The numbers in the code of a repeat, whatever scheme it is run by. The loop and the check are
numbered after the body. -/
theorem numbered_repeat {bounds : Bounds} {greedy mayBeEmpty : Bool} {body : Code} {mid : Ids}
    {scheme : Scheme} {groups : List Nat}
    (h : EmitsRepeat bounds greedy mayBeEmpty body mid scheme code later)
    (hids : ids.Extends mid) (hbody : body.Numbered ids mid groups) :
    mid.Extends later ∧ code.Numbered ids later groups := by
  cases h with
  | never => exact ⟨.refl _, Code.numbered_nil⟩
  | once => exact ⟨.refl _, hbody⟩
  | optional => exact ⟨.refl _, Code.numbered_optional hbody⟩
  | star hstar => exact numbered_emitStar hstar hids hbody
  | plus hstar =>
      rcases numbered_emitStar hstar hids hbody with ⟨hlater, hnumbered⟩
      refine ⟨hlater, Code.numbered_append.mpr ⟨?_, hnumbered⟩⟩
      exact hbody.mono (.refl _) hlater (List.Subset.refl _)
  | copies n => exact ⟨.refl _, Code.numbered_copies hbody n⟩
  | counted =>
      -- The loop is numbered last, after everything in the body.
      have hlater := Ids.Extends.newLoop mid bounds
      refine ⟨hlater, Code.numbered_counted (hbody.mono (.refl _) hlater (List.Subset.refl _)) ?_⟩
      refine ⟨hids.size_le, ?_⟩
      rw [Array.size_push]
      exact Nat.lt_succ_self _

/-- The layouts of several trees use the numbers that are given out while all of them are made. -/
theorem numbered_each {items : List Tree} {parts : List Code}
    (ih : ∀ node ∈ items, ∀ {ids code later}, node.Layout enc allows ids code later →
      ids.Extends later ∧ code.Numbered ids later node.groupNumbers)
    (h : EmitsEach (Layout enc allows) items ids parts later) :
    ids.Extends later ∧ ∀ part ∈ parts, part.Numbered ids later (groupNumbersOf items) := by
  induction h with
  | nil => exact ⟨.refl _, fun _ hpart => absurd hpart List.not_mem_nil⟩
  | cons first others ihothers =>
      rcases ih _ List.mem_cons_self first with ⟨hmid, hfirst⟩
      rcases ihothers fun t ht => ih t (List.mem_cons_of_mem _ ht) with ⟨hlater, hothers⟩
      -- The first code stops using numbers where the others begin.
      refine ⟨hmid.trans hlater, List.forall_mem_cons.mpr ⟨?_, fun part hpart => ?_⟩⟩
      · exact hfirst.mono (.refl _) hlater (List.subset_append_left _ _)
      · exact (hothers part hpart).mono hmid (.refl _) (List.subset_append_right _ _)

/-- A layout uses the numbers that are given out while it is made, and the numbers of the groups. -/
theorem Layout.numbered (tree : Tree) : ∀ {ids code later}, tree.Layout enc allows ids code later →
    ids.Extends later ∧ code.Numbered ids later tree.groupNumbers := by
  -- In every case the numbers are those of the body, and one before or after them.
  induction tree using Node.induct with
  | literal bytes ignoreCase =>
      intro ids code later h
      cases h
      refine ⟨.refl _, ?_⟩
      split
      · exact Code.numbered_nil
      · exact Code.numbered_cons.mpr ⟨trivial, Code.numbered_nil⟩
  | set | anyChar | word | backref | anchor =>
      intro ids code later h
      cases h
      exact ⟨.refl _, Code.numbered_cons.mpr ⟨trivial, Code.numbered_nil⟩⟩
  | repeated lower upper greedy body ih =>
      intro ids code later h
      cases h with
      | never => exact ⟨.refl _, Code.numbered_nil⟩
      | repeated runs inside allowed made =>
          rcases ih inside with ⟨hmid, hbody⟩
          rcases numbered_repeat made hmid hbody with ⟨hlater, hcode⟩
          exact ⟨hmid.trans hlater, hcode⟩
  | group number body ih =>
      intro ids code later h
      cases h with
      | group inside =>
          rcases ih inside with ⟨hlater, hbody⟩
          refine ⟨hlater, Code.numbered_group ?_ List.mem_cons_self⟩
          exact hbody.mono (.refl _) (.refl _) (List.subset_cons_self _ _)
  | atomic body ih =>
      intro ids code later h
      cases h with
      | atomic inside =>
          rcases ih inside with ⟨hlater, hbody⟩
          -- The mark is numbered before the body, so it is new to it.
          have hmark := Ids.Extends.newMark ids
          refine ⟨hmark.trans hlater, Code.numbered_atomic ?_ ⟨Nat.le_refl _, hlater.marks⟩⟩
          exact hbody.mono hmark (.refl _) (List.Subset.refl _)
  | look direction negated body ih =>
      intro ids code later h
      have hmark := Ids.Extends.newMark ids
      cases h with
      | ahead inside =>
          rcases ih inside with ⟨hlater, hbody⟩
          refine ⟨hmark.trans hlater, Code.numbered_look ?_ ⟨Nat.le_refl _, hlater.marks⟩⟩
          exact hbody.mono hmark (.refl _) (List.Subset.refl _)
      | behind length inside =>
          rcases ih inside with ⟨hlater, hbody⟩
          refine ⟨hmark.trans hlater, Code.numbered_look ?_ ⟨Nat.le_refl _, hlater.marks⟩⟩
          refine Code.numbered_cons.mpr ⟨trivial, ?_⟩
          exact hbody.mono hmark (.refl _) (List.Subset.refl _)
  | sequence items ih =>
      intro ids code later h
      cases h with
      | sequence inside =>
          rcases numbered_each ih inside with ⟨hlater, hnumbered⟩
          exact ⟨hlater, Code.numbered_flatten hnumbered⟩
  | alternation items ih =>
      intro ids code later h
      cases h with
      | alternation inside =>
          rcases numbered_each ih inside with ⟨hlater, hnumbered⟩
          exact ⟨hlater, Code.numbered_choices hnumbered⟩

/-- The code of a tree uses the numbers that are given out while it is made, and the numbers of the
groups. -/
theorem numbered_emit (tree : Tree) (h : tree.emit enc ids = .ok (code, later)) :
    ids.Extends later ∧ code.Numbered ids later tree.groupNumbers :=
  Layout.numbered tree (layout_emit tree h)

end Node

/-- While layouts of several trees are made, numbers are given out. -/
theorem EmitsEach.extends {enc : Encoding} {allows : Nat → Option Nat → Tree → Scheme → Prop}
    {items : List Tree} {ids later : Ids} {parts : List Code}
    (h : EmitsEach (Node.Layout enc allows) items ids parts later) : ids.Extends later := by
  induction h with
  | nil => exact .refl _
  | cons first others ih => exact (Node.Layout.numbered _ first).1.trans ih

end RegexEngine
