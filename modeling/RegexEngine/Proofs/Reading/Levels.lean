import RegexEngine.Proofs.Reading.Parse
import RegexEngine.Proofs.Tree.Induction

/-!
# How Deep a Tree Is

The limit on nesting is compared with the levels that are open, of groups and of repeats. A tree can
still be deeper than the limit. The operators on a group are counted only when the group has been
read and its level has been left, and so they do not take anything from what the inside of the group
may use. Each level of groups may be wrapped as often as levels may be opened around it, and the
depths add up.

With `n` levels left a tree has at most `n` repeats around a group whose inside was read with
`n - 1` levels left, which makes `n + 1` levels, then `n`, and so on: `n * (n + 3) / 2` in all.

## Main definitions

* `Node.levels`: the depth of a tree in groups and repeats.

## Theorems

* `levels_repeats`, `levels_parenthesis`, `levels_alternatives`: How deep the readers' trees are.
* `levels_resolve`: Resolving references keeps the depth.
* `parse_levels`: The depth of a pattern's tree is bounded by the limit on nesting.
* `parse_tooDeep`: It may exceed that limit.
-/

namespace RegexEngine

namespace Node

variable {ρ : Type}

/-- Whether a tree is a repeat. -/
def isRepeated : Node ρ → Bool
  | repeated .. => true
  | _ => false

mutual

/-- The greatest number of groups, look-arounds and repeats on a path from the root. A repeat that
gives nothing back is one level: `a*+` counts once, and so does `(?>a*)`, of which the same tree is
made. -/
def levels : Node ρ → Nat
  | literal .. | set .. | anyChar .. | word .. | backref .. | anchor .. => 0
  | repeated _ _ _ body | group _ body | look _ _ body => levels body + 1
  | atomic body => if body.isRepeated then levels body else levels body + 1
  | sequence items | alternation items => levelsOf items

/-- The greatest number of levels of several trees. -/
def levelsOf : List (Node ρ) → Nat
  | [] => 0
  | node :: rest => max (levels node) (levelsOf rest)

end

variable {node : Node ρ} {items : List (Node ρ)} {n : Nat}

theorem levelsOf_le : levelsOf items ≤ n ↔ ∀ node ∈ items, node.levels ≤ n := by
  induction items with
  | nil => simp [levelsOf]
  | cons node rest ih => rw [levelsOf, Nat.max_le, ih, List.forall_mem_cons]

theorem levels_atomic_le (node : Node ρ) : (atomic node).levels ≤ node.levels + 1 := by
  rw [levels]
  split
  · exact Nat.le_succ _
  · exact Nat.le_refl _

end Node

namespace Pattern

open Node

variable {env : Setting} {st after : State} {draft : Draft} {n : Nat}

/-- An operator adds a level. -/
theorem levels_apply {ρ : Type} (q : Quantifier) (node : Node ρ) :
    (q.apply node).levels = node.levels + 1 := by
  rw [Quantifier.apply]
  split
  · rfl
  · rfl

section Joining

variable {ρ : Type} {items : List (Node ρ)}

theorem levels_branchNode (h : ∀ node ∈ items, node.levels ≤ n) :
    (branchNode items).levels ≤ n := by
  have hjoined : ∀ node ∈ joinLiterals items, node.levels ≤ n :=
    forall_joinLiterals (fun _ _ => Nat.zero_le n) h
  rw [branchNode]
  split
  · exact Nat.zero_le n
  · rename_i node hsingle
    rw [hsingle] at hjoined
    exact hjoined node List.mem_cons_self
  · exact levelsOf_le.mpr hjoined

theorem levels_alternationNode (h : ∀ node ∈ items, node.levels ≤ n) :
    (alternationNode items).levels ≤ n := by
  rw [alternationNode.eq_def]
  split
  · exact h _ List.mem_cons_self
  · exact levelsOf_le.mpr h

end Joining

theorem levels_kindNode (kind : CharKind) (negated : Bool) :
    (kindNode env kind negated).levels = 0 := by
  rw [kindNode.eq_def]
  split <;> rfl

theorem levels_numberEscape {esc : List UInt8}
    (hread : numberEscape env esc st = .ok (draft, after)) : draft.levels = 0 := by
  rw [numberEscape] at hread
  simp only at hread
  split at hread
  · split at hread
    · cases hread
    · cases hread
      rfl
  · split at hread
    · cases hread
    · split at hread
      · cases hread
        rfl
      · rcases bind_ok hread with ⟨bytes, -, hpair⟩
        cases hpair
        rfl

theorem levels_characterEscape {esc : List UInt8} {b : UInt8}
    (hread : characterEscape env esc b st = .ok (draft, after)) : draft.levels = 0 := by
  rcases bind_ok hread with ⟨⟨code, rest⟩, -, hread⟩
  simp only at hread
  split at hread
  · rcases bind_ok hread with ⟨bytes, -, hpair⟩
    cases hpair
    rfl
  · rcases bind_ok hread with ⟨bytes, -, hpair⟩
    cases hpair
    rfl

theorem levels_escape (hread : escape env st = .ok (draft, after)) : draft.levels = 0 := by
  rw [escape] at hread
  simp only at hread
  split at hread
  · cases hread
  · split at hread
    · cases hread
      exact levels_kindNode _ _
    · split at hread
      · cases hread
        rfl
      · split at hread
        · rcases bind_ok hread with ⟨⟨target, rest⟩, -, hpair⟩
          cases hpair
          rfl
        · split at hread
          · exact levels_numberEscape hread
          · exact levels_characterEscape hread

/-- An item without parentheses has no levels. -/
theorem levels_simpleItem (hread : simpleItem env st = .ok (draft, after)) : draft.levels = 0 := by
  rw [simpleItem] at hread
  split at hread
  · cases hread
  · simp only at hread
    -- Classes, dots and anchors are leaves, and so is whatever an escape stands for.
    split at hread
    · rcases bind_ok hread with ⟨⟨set, rest⟩, -, hpair⟩
      cases hpair
      rfl
    · cases hread
      rfl
    · cases hread
      rfl
    · cases hread
      rfl
    · exact levels_escape hread
    · split at hread
      · cases hread
      · cases hread
        rfl

section Groups

variable {inside : Reader Draft} {draft? : Option Draft}

theorem levels_leavesNode {reader : Reader Draft}
    (hreads : ∀ draft, reader st = .ok (draft, after) → draft.levels ≤ n)
    (hread : leavesNode reader st = .ok (draft?, after)) : ∀ draft ∈ draft?, draft.levels ≤ n := by
  rcases bind_ok hread with ⟨⟨draft, last⟩, hdraft, hpair⟩
  cases hpair
  rintro _ ⟨⟩
  exact hreads draft hdraft

/-- What is read inside of a group, with so many levels open, has at most `n` levels. -/
def LevelsAtMost (inside : Reader Draft) (depth n : Nat) : Prop :=
  ∀ {st after : State} {draft : Draft}, inside st = .ok (draft, after) → st.depth = depth →
    draft.levels ≤ n

variable {depth : Nat} (hinside : LevelsAtMost inside depth n)
include hinside

theorem levels_groupBody : LevelsAtMost (groupBody inside) depth n := by
  intro st after draft hread hdepth
  rcases bind_ok hread with ⟨⟨body, last⟩, hbody, hpair⟩
  cases hpair
  exact hinside hbody hdepth

theorem levels_namedGroup {start : List UInt8} {close : Char} :
    LevelsAtMost (namedGroup env inside start close) depth (n + 1) := by
  intro st after draft hread hdepth
  rcases bind_ok hread with ⟨⟨name, rest⟩, -, hread⟩
  rcases bind_ok hread with ⟨⟨number, opened⟩, hopen, hread⟩
  rcases bind_ok hread with ⟨named, hnamed, hread⟩
  rcases bind_ok hread with ⟨⟨body, last⟩, hbody, hpair⟩
  cases hpair
  have hsame := (Passes.groups_of_named hopen hnamed).2.1
  exact Nat.succ_le_succ (levels_groupBody hinside hbody (hsame.trans hdepth))

theorem levels_lookAround {direction : Direction} {negated : Bool} :
    LevelsAtMost (lookAround inside direction negated) depth (n + 1) := by
  intro st after draft hread hdepth
  rcases bind_ok hread with ⟨⟨body, last⟩, hbody, hpair⟩
  cases hpair
  exact Nat.succ_le_succ (levels_groupBody hinside hbody hdepth)

theorem levels_atomicGroup : LevelsAtMost (atomicGroup inside) depth (n + 1) := by
  intro st after draft hread hdepth
  rcases bind_ok hread with ⟨⟨body, last⟩, hbody, hpair⟩
  cases hpair
  exact Nat.le_trans (levels_atomic_le body)
    (Nat.succ_le_succ (levels_groupBody hinside hbody hdepth))

theorem levels_optionGroup (hread : optionGroup env inside st = .ok (draft?, after))
    (hdepth : st.depth = depth) :
    ∀ draft ∈ draft?, draft.levels ≤ n := by
  rcases bind_ok hread with ⟨⟨options, hasGroup, rest⟩, -, hread⟩
  simp only at hread
  split at hread
  · rcases bind_ok hread with ⟨⟨body, last⟩, hbody, hpair⟩
    cases hpair
    rintro _ ⟨⟩
    exact levels_groupBody hinside hbody hdepth
  · cases hread
    rintro _ ⟨⟩

theorem levels_angleGroup {start : List UInt8} :
    LevelsAtMost (angleGroup env inside start) depth (n + 1) := by
  intro st after draft hread hdepth
  rw [angleGroup] at hread
  split at hread
  · exact levels_lookAround hinside hread hdepth
  · split at hread
    · cases hread
    · split at hread
      · exact levels_namedGroup hinside hread hdepth
      · cases hread

theorem levels_capitalGroup {start : List UInt8} :
    LevelsAtMost (capitalGroup env inside start) depth (n + 1) := by
  intro st after draft hread hdepth
  rw [capitalGroup] at hread
  split at hread
  · cases hread
  · split at hread
    · exact levels_namedGroup hinside hread hdepth
    · rcases bind_ok hread with ⟨⟨name, rest⟩, -, hpair⟩
      cases hpair
      exact Nat.zero_le _
    · cases hread

theorem levels_specialGroup {start : List UInt8}
    (hread : specialGroup env inside start st = .ok (draft?, after)) (hdepth : st.depth = depth) :
    ∀ draft ∈ draft?, draft.levels ≤ n + 1 := by
  have hplain : ∀ draft : Draft, draft.levels ≤ n → draft.levels ≤ n + 1 :=
    fun _ hdraft => Nat.le_succ_of_le hdraft
  rw [specialGroup] at hread
  split at hread
  · cases hread
  · rename_i b rest htext
    simp only at hread
    -- The state behind the sign is named, since every kind of group reads on from it.
    obtain ⟨next, hnext⟩ : ∃ next : State, next = { st with rest := rest } := ⟨_, rfl⟩
    rw [← hnext] at hread
    have hnextDepth : next.depth = depth := by
      rw [hnext]
      exact hdepth
    split at hread
    · rw [commentGroup] at hread
      split at hread
      · cases hread
      · cases hread
        rintro _ ⟨⟩
    · exact levels_leavesNode (fun _ h => hplain _ (levels_groupBody hinside h hnextDepth)) hread
    · exact levels_leavesNode (fun _ h => levels_lookAround hinside h hnextDepth) hread
    · exact levels_leavesNode (fun _ h => levels_atomicGroup hinside h hnextDepth) hread
    · exact levels_leavesNode (fun _ h => levels_angleGroup hinside h hnextDepth) hread
    · exact levels_leavesNode (fun _ h => levels_namedGroup hinside h hnextDepth) hread
    · exact levels_leavesNode (fun _ h => levels_capitalGroup hinside h hnextDepth) hread
    · exact fun draft hdraft => hplain _ (levels_optionGroup hinside hread hdepth draft hdraft)
    · cases hread

/-- A parenthesis adds at most a level. -/
theorem levels_parenthesis (hread : parenthesis env inside st = .ok (draft?, after))
    (hdepth : st.depth = depth) :
    ∀ draft ∈ draft?, draft.levels ≤ n + 1 := by
  rw [parenthesis] at hread
  simp only at hread
  split at hread
  · exact levels_specialGroup hinside hread hdepth
  · rcases bind_ok hread with ⟨⟨number, opened⟩, hopen, hread⟩
    rcases bind_ok hread with ⟨⟨body, last⟩, hbody, hpair⟩
    rcases openGroup_ok hopen with ⟨-, rfl⟩
    cases hpair
    rintro _ ⟨⟩
    exact Nat.succ_le_succ (levels_groupBody hinside hbody hdepth)

end Groups

/-- The repeat operators after an item wrap it at most as often as levels may be opened. -/
theorem levels_repeats {room fuel wraps : Nat} {node : Draft}
    (hread : repeats env fuel wraps node st = .ok (draft, after)) (hnode : node.levels ≤ n + wraps)
    (hwraps : wraps ≤ room) (hroom : st.depth + room = env.nestingLimit + wraps) :
    draft.levels ≤ n + room := by
  -- The levels of the operators that were read count twice: in the depth, and as wraps.
  induction fuel generalizing wraps node st with
  | zero => cases hread
  | succ fuel ih =>
      rw [repeats] at hread
      rcases bind_ok hread with ⟨found, -, hread⟩
      split at hread
      · cases hread
        omega
      · rename_i q rest
        split at hread
        · cases hread
        · split at hread
          · exact ih hread hnode hwraps hroom
          · split at hread
            · cases hread
            · rename_i hlimit
              have hwrapped : (q.apply node).levels ≤ n + (wraps + 1) := by
                rw [levels_apply]
                omega
              exact ih hread hwrapped (by simp only at hlimit; omega) (by simp only; omega)

section Branches

variable {depth room : Nat} {group : Reader (Option Draft)} {draft? : Option Draft}

/-- What a parenthesis opens, with so many levels open, has at most `n` levels. -/
def ParenthesesAtMost (group : Reader (Option Draft)) (depth n : Nat) : Prop :=
  ∀ {st after : State} {draft? : Option Draft}, group st = .ok (draft?, after) →
    st.depth = depth → ∀ draft ∈ draft?, draft.levels ≤ n

variable (hgroup : ParenthesesAtMost group (depth + 1) n) (hpassing : Passing env group)
  (hroom : depth + room = env.nestingLimit)

include hgroup in
theorem levels_item (hread : item env group st = .ok (draft?, after)) (hdepth : st.depth = depth) :
    ∀ draft ∈ draft?, draft.levels ≤ n := by
  rw [item] at hread
  split at hread
  · rcases deeper_ok hread with ⟨-, last, hinner, -⟩
    exact hgroup hinner (congrArg Nat.succ hdepth)
  · exact levels_leavesNode (fun _ h => levels_simpleItem h ▸ Nat.zero_le n) hread

include hgroup hpassing hroom

theorem levels_branchItems {fuel : Nat} {items found : List Draft}
    (hread : branchItems env group fuel items st = .ok (found, after)) (hdepth : st.depth = depth)
    (hitems : ∀ draft ∈ items, draft.levels ≤ n + room) :
    ∀ draft ∈ found, draft.levels ≤ n + room := by
  -- The fuel is used up by one for each item. The levels of all items that have been read stay in
  -- the bound.
  induction fuel generalizing items st with
  | zero => cases hread
  | succ fuel ih =>
      rw [branchItems] at hread
      simp only at hread
      split at hread
      · cases hread
        exact fun draft hdraft => hitems draft (List.mem_reverse.mp hdraft)
      · rcases bind_ok hread with ⟨quantifier, -, hread⟩
        split at hread
        · cases hread
        · rcases bind_ok hread with ⟨⟨node?, mid⟩, hitem, hread⟩
          have hnode := levels_item hgroup hitem hdepth
          -- As many levels are open behind the item as before, so the repeats behind it have the
          -- same room.
          have hmid : mid.depth = depth := (passing_item hpassing hitem).depth_eq.trans hdepth
          simp only at hread
          split at hread
          · exact ih hread hmid hitems
          · rename_i node
            rcases bind_ok hread with ⟨⟨wrapped, last⟩, hrepeats, hread⟩
            have hwrapped : wrapped.levels ≤ n + room :=
              levels_repeats hrepeats (hnode node rfl) (Nat.zero_le room) (hmid ▸ hroom)
            rcases repeats_ok hrepeats with ⟨rest, rfl⟩
            exact ih hread hmid (List.forall_mem_cons.mpr ⟨hwrapped, hitems⟩)

theorem levels_branches {inGroup : Bool} {fuel : Nat} {nodes found : List Draft}
    (hread : branches env group inGroup fuel nodes st = .ok (found, after))
    (hdepth : st.depth = depth) (hnodes : ∀ draft ∈ nodes, draft.levels ≤ n + room) :
    ∀ draft ∈ found, draft.levels ≤ n + room := by
  -- A branch has the levels of its items, and the other branches are read at the same depth.
  induction fuel generalizing nodes st with
  | zero => cases hread
  | succ fuel ih =>
      rw [branches] at hread
      rcases bind_ok hread with ⟨⟨node, mid⟩, hbranch, hread⟩
      have hmid : mid.depth = depth := (passing_branch hpassing hbranch).depth_eq.trans hdepth
      rcases bind_ok hbranch with ⟨⟨items, last⟩, hitems, hpair⟩
      cases hpair
      have hall : ∀ draft ∈ branchNode items :: nodes, draft.levels ≤ n + room :=
        List.forall_mem_cons.mpr
          ⟨levels_branchNode
            (levels_branchItems hgroup hpassing hroom hitems hdepth (List.forall_mem_nil _)),
            hnodes⟩
      have hdone : ∀ draft ∈ (branchNode items :: nodes).reverse, draft.levels ≤ n + room :=
        fun draft hdraft => hall draft (List.mem_reverse.mp hdraft)
      simp only at hread
      split at hread
      · split at hread
        · cases hread
        · cases hread
          exact hdone
      · split at hread
        · exact ih hread hmid hall
        · split at hread
          · cases hread
            exact hdone
          · cases hread
        · cases hread

/-- An alternation is as deep as a parenthesis in it with all the operators there is room for. -/
theorem levels_alternatives {inGroup : Bool} :
    LevelsAtMost (alternatives env group inGroup) depth (n + room) := by
  intro st after draft hread hdepth
  rcases bind_ok hread with ⟨⟨nodes, last⟩, hnodes, hpair⟩
  cases hpair
  exact levels_alternationNode
    (levels_branches hgroup hpassing hroom hnodes hdepth (List.forall_mem_nil _))

end Branches

/-- The greatest depth that a limit on nesting allows. -/
def deepest : Nat → Nat
  | 0 => 0
  | room + 1 => deepest room + 1 + (room + 1)

theorem two_mul_deepest (room : Nat) : 2 * deepest room = room * (room + 3) := by
  induction room with
  | zero => rfl
  | succ room ih =>
      simp only [deepest, Nat.mul_add, Nat.add_mul] at ih ⊢
      omega

/-- Groups inside of groups, as many as levels may be opened. Each may be wrapped as often as there
is room around it. -/
theorem levels_groupsWithin (env : Setting) {depth : Nat} (room : Nat)
    (hroom : depth + room = env.nestingLimit) :
    ∃ n, ParenthesesAtMost (groupsWithin env room) (depth + 1) n ∧ n + room = deepest room := by
  induction room generalizing depth with
  | zero =>
      refine ⟨0, fun hread _ => ?_, rfl⟩
      cases hread
  | succ room ih =>
      have hinside : depth + 1 + room = env.nestingLimit := by omega
      rcases ih hinside with ⟨n, hgroup, hsum⟩
      refine ⟨n + room + 1, fun hread hdepth => ?_, by rw [hsum, deepest]⟩
      exact levels_parenthesis
        (levels_alternatives hgroup (passing_groupsWithin env room) hinside) hread hdepth

section Resolving

variable {groups : Nat} {names : GroupNames}

theorem levelsOf_resolveAll {items : List Draft} {trees : List Tree}
    (ih : ∀ draft ∈ items, ∀ {tree : Tree}, resolve groups names draft = .ok tree →
      tree.levels = draft.levels ∧ tree.isRepeated = draft.isRepeated)
    (h : resolveAll groups names items = .ok trees) : levelsOf trees = levelsOf items := by
  induction items generalizing trees with
  | nil =>
      cases h
      rfl
  | cons draft rest ihrest =>
      rcases bind_ok h with ⟨tree, htree, h⟩
      rcases bind_ok h with ⟨more, hmore, h⟩
      cases h
      have hrest := ihrest (fun t ht => ih t (List.mem_cons_of_mem _ ht)) hmore
      rw [levelsOf, levelsOf, (ih draft List.mem_cons_self htree).1, hrest]

/-- Resolving references keeps the depth. -/
theorem levels_resolve (draft : Draft) : ∀ {tree : Tree}, resolve groups names draft = .ok tree →
    tree.levels = draft.levels ∧ tree.isRepeated = draft.isRepeated := by
  -- References have no levels, and whether a tree is a repeat, on which possessive repeats depend,
  -- is not changed either.
  induction draft using Node.induct with
  | backref target ignoreCase offset =>
      intro tree h
      rcases bind_ok h with ⟨numbers, -, h⟩
      split at h
      · cases h
      · cases h
        exact ⟨rfl, rfl⟩
  | repeated lower upper greedy body ih | group number body ih | look direction negated body ih =>
      intro tree h
      rcases bind_ok h with ⟨inner, hinner, h⟩
      cases h
      exact ⟨congrArg (· + 1) (ih hinner).1, rfl⟩
  | atomic body ih =>
      intro tree h
      rcases bind_ok h with ⟨inner, hinner, h⟩
      cases h
      refine ⟨?_, rfl⟩
      rw [levels, levels, (ih hinner).1, (ih hinner).2]
  | sequence items ih | alternation items ih =>
      intro tree h
      rcases bind_ok h with ⟨inner, hinner, h⟩
      cases h
      exact ⟨levelsOf_resolveAll ih hinner, rfl⟩
  | _ =>
      intro tree h
      cases h
      exact ⟨rfl, rfl⟩

end Resolving

variable {pattern : List UInt8} {options : Options} {enc : Encoding} {dialect : Dialect}
  {limits : Limits} {parsed : Parsed}

/-- The tree of a pattern that is read under a limit of `n` on nesting has at most `n * (n + 3) / 2`
levels. -/
theorem parse_levels (h : parse pattern options enc dialect limits = .ok parsed) :
    2 * parsed.tree.levels ≤ limits.nesting * (limits.nesting + 3) := by
  rw [parse] at h
  simp only at h
  split at h
  · cases h
  · rcases bind_ok h with ⟨⟨draft, after⟩, hdraft, h⟩
    rcases bind_ok h with ⟨tree, htree, h⟩
    cases h
    have hroom := Nat.zero_add limits.nesting
    rcases levels_groupsWithin ⟨pattern, enc, dialect, limits.captures, limits.nesting⟩
      limits.nesting hroom with ⟨n, hgroups, hsum⟩
    have hlevels : draft.levels ≤ deepest limits.nesting :=
      hsum ▸ levels_alternatives hgroups (passing_groupsWithin _ _) hroom hdraft rfl
    rw [(levels_resolve draft htree).1, ← two_mul_deepest]
    exact Nat.mul_le_mul_left 2 hlevels

/-- What a computation shows of a pattern that is read. -/
theorem exists_parsed {holds : Parsed → Bool}
    (h : (parse pattern options enc dialect limits).toOption.any holds = true) :
    ∃ parsed, parse pattern options enc dialect limits = .ok parsed ∧ holds parsed = true := by
  rcases hparse : parse pattern options enc dialect limits with failure | parsed
  · rw [hparse] at h
    cases h
  · rw [hparse] at h
    exact ⟨parsed, rfl, h⟩

/-- The theorem at `((a)*)**` and a limit of two, where the bound is attained. -/
theorem parse_levels_attained : ∃ parsed,
    parse [40, 40, 97, 41, 42, 41, 42, 42] {} .utf8 Dialect.standard (({} : Limits).withNesting 2) =
        .ok parsed ∧
      parsed.tree.levels = 5 ∧ 2 * parsed.tree.levels ≤ 2 * (2 + 3) := by
  have hread : ((parse [40, 40, 97, 41, 42, 41, 42, 42] {} .utf8 Dialect.standard
      (({} : Limits).withNesting 2)).toOption.any (·.tree.levels == 5)) = true := by
    decide +kernel
  rcases exists_parsed hread with ⟨parsed, hparsed, hlevels⟩
  exact ⟨parsed, hparsed, eq_of_beq hlevels, parse_levels hparsed⟩

/-- The tree of `(a)*` has two levels, and it is read under a limit of one. -/
theorem parse_tooDeep : ∃ parsed,
    parse [40, 97, 41, 42] {} .utf8 Dialect.standard (({} : Limits).withNesting 1) = .ok parsed ∧
      (({} : Limits).withNesting 1).nesting < parsed.tree.levels := by
  have hread : ((parse [40, 97, 41, 42] {} .utf8 Dialect.standard
      (({} : Limits).withNesting 1)).toOption.any fun parsed =>
        decide ((({} : Limits).withNesting 1).nesting < parsed.tree.levels)) = true := by
    decide +kernel
  rcases exists_parsed hread with ⟨parsed, hparsed, hlevels⟩
  exact ⟨parsed, hparsed, of_decide_eq_true hlevels⟩

end Pattern

end RegexEngine
