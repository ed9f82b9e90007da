import RegexEngine.Proofs.Emission.Layout

/-!
# Emitted Code is Right

The code of a tree comes to the outcomes of the tree. Every construct has been dealt with as a
fragment; what is left is to see that the numbers are as the fragments want them. A number that a
construct takes before its body is made is smaller than all numbers of the body, one that it takes
afterwards is greater, and the number of a group occurs in a pattern once.

A repeat needs more: the scheme it is run by has to mean what the bounds say. Four of the seven
schemes are loops in disguise, and `loop_once` and its companions say which.

All this holds of any layout of the tree, not only of the code that is made. What may change with
the schemes is the outcomes, and how much is for a relation between outcomes to say. The constructs
have to keep the relation, and it must not tell the allowed schemes apart.

## Main definitions

* `Program.Provides`: A program has the loops and checks that have been numbered.
* `Ways.Congruence`: A relation between parts that the constructs keep.
* `Node.WellFormed`: What a tree has to be like.

## Theorems

* `realizes_repeat`: The code of a repeat.
* `realizes_layout`: Every layout of a tree.
* `realizes_emit`: The code of a tree.
-/

namespace RegexEngine

/-- The program has a place for each loop and each check that has been numbered. -/
structure Program.Provides (program : Program) (ids : Ids) : Prop where
  loops : ids.loops.toList <+: program.loops.toList
  checks : ids.emptyChecks ≤ program.emptyChecks

theorem Program.Provides.of_extends {program : Program} {ids later : Ids}
    (h : program.Provides later) (hids : ids.Extends later) : program.Provides ids :=
  ⟨hids.loops.trans h.loops, Nat.le_trans hids.emptyChecks h.checks⟩

namespace Ways

variable {ctx : Context} {body : Ways} {greedy : Bool}

theorem loop_never (lower : Nat) : loop ctx lower (some 0) greedy body = stay := by
  funext place
  exact if_pos rfl

/-- The first iteration of a loop that may run once is the last one. -/
theorem more_once {lower rounds : Nat} {place : Place} :
    more lower (some 1) greedy body rounds 0 place = body place := by
  have hafter : afterRound lower (some 1) greedy body rounds 0 place = fun last => [last] := by
    funext last
    exact afterRound_ends greedy body rounds (Or.inr rfl)
  rw [more, hafter]
  exact List.flatMap_singleton' _

theorem loop_once : loop ctx 1 (some 1) greedy body = body := by
  funext place
  rw [loop, if_neg (by decide), iterate_succ, if_pos Nat.one_pos, more_once]

theorem loop_optional : loop ctx 0 (some 1) greedy body = optional greedy body := by
  funext place
  rw [loop, if_neg (by decide), iterate_succ, if_neg (Nat.lt_irrefl 0), more_once]
  rfl

/-- A literal without bytes is no test at all. -/
theorem test_literal_nil (enc : Encoding) (ignoreCase : Bool) :
    test ctx (literalLeaf enc [] ignoreCase) = stay := by
  funext place
  cases ignoreCase <;> rfl

end Ways

variable {program : Program} {joins : Nat → Nat → Prop} {ctx : Context} {start : Control}

/-- The code of a loop that does not count. The check is numbered after the body, so it is none of
the checks in the body. -/
theorem realizes_emitStar {greedy mayBeEmpty : Bool} {body code : Code} {ways : Ways}
    {ids mid later : Ids} {groups : List Nat}
    (hbody : Realizes program joins ctx start body ways) (hadvances : Ways.Advances ctx ways)
    (hconsumes : mayBeEmpty = false → Ways.Consumes ways)
    (hnumbered : body.Numbered ids mid groups) (hprovides : program.Provides later)
    (h : emitStar greedy mayBeEmpty body mid = .ok (code, later)) :
    Realizes program joins ctx start code (Ways.loop ctx 0 none greedy ways) := by
  rcases emitStar_ok h with ⟨check, rfl, -, hnone, hsome⟩
  refine realizes_star greedy hbody hadvances (fun id hid => ?_) fun hid => hconsumes (hnone hid)
  rcases hsome id hid with ⟨-, rfl, hlt⟩
  refine ⟨Nat.lt_of_lt_of_le hlt hprovides.checks, fun hslot => ?_⟩
  exact Nat.lt_irrefl _ (hnumbered.slot hslot).2

/-- The bounds of the loop that is numbered last. -/
theorem Program.Provides.bounds {ids : Ids} {bounds : Bounds}
    (h : program.Provides { ids with loops := ids.loops.push bounds }) :
    program.loops[ids.loops.size]? = some bounds := by
  have hloops := h.loops
  rw [Array.toList_push] at hloops
  rw [← Array.getElem?_toList]
  rcases hloops with ⟨more, hmore⟩
  rw [← hmore, List.append_assoc, List.getElem?_append_right (by simp), Array.length_toList,
    Nat.sub_self]
  rfl

/-- The code of a repeat that is run by a scheme which suits its bounds, if the numbers of the body
have been given out before. -/
theorem realizes_repeat {lower : Nat} {upper : Option Nat} {greedy mayBeEmpty : Bool}
    {scheme : Scheme} {body code : Code} {ways : Ways} {ids mid later : Ids} {groups : List Nat}
    (hbody : Realizes program joins ctx start body ways) (hadvances : Ways.Advances ctx ways)
    (hconsumes : mayBeEmpty = false → Ways.Consumes ways)
    (hnumbered : body.Numbered ids mid groups) (hprovides : program.Provides later)
    (hsuits : scheme.Suits lower upper)
    (h : EmitsRepeat ⟨lower, upper⟩ greedy mayBeEmpty body mid scheme code later) :
    Realizes program joins ctx start code (Ways.repeated ctx scheme lower upper greedy ways) := by
  -- What suits a scheme are the bounds that it means. With them in place the loop of the tree
  -- becomes the fragment that the scheme is made of.
  cases h with
  | never =>
      obtain rfl : upper = some 0 := hsuits
      change Realizes program joins ctx start [] (Ways.loop ctx lower (some 0) greedy ways)
      rw [Ways.loop_never]
      exact realizes_nil
  | once =>
      rcases hsuits with ⟨rfl, rfl⟩
      change Realizes program joins ctx start _ (Ways.loop ctx 1 (some 1) greedy ways)
      rw [Ways.loop_once]
      exact hbody
  | optional =>
      rcases hsuits with ⟨rfl, rfl⟩
      change Realizes program joins ctx start _ (Ways.loop ctx 0 (some 1) greedy ways)
      rw [Ways.loop_optional]
      exact realizes_optional greedy hbody
  | star hstar =>
      rcases hsuits with ⟨rfl, rfl⟩
      exact realizes_emitStar hbody hadvances hconsumes hnumbered hprovides hstar
  | plus hstar =>
      exact realizes_append hbody
        (realizes_emitStar hbody hadvances hconsumes hnumbered hprovides hstar)
  | copies n => exact realizes_copies hbody n
  | counted =>
      refine realizes_counted greedy hbody hadvances hprovides.bounds hsuits fun hslot => ?_
      exact Nat.lt_irrefl _ (hnumbered.slot hslot).2

namespace Ways

/-- A relation between parts that all constructs but the repeats keep, and that keeps outcomes. -/
structure Congruence (like : Ways → Ways → Prop) : Prop where
  refl : ∀ ways, like ways ways
  mem : ∀ {ways other : Ways} {place last : Place}, like ways other → last ∈ ways place →
    last ∈ other place
  andThen : ∀ {first first' second second' : Ways}, like first first' → like second second' →
    like (andThen first second) (andThen first' second')
  orElse : ∀ {first first' second second' : Ways}, like first first' → like second second' →
    like (orElse first second) (orElse first' second')
  group : ∀ {body body' : Ways} (number : Nat), like body body' →
    like (group number body) (group number body')
  atomic : ∀ {body body' : Ways}, like body body' → like (atomic body) (atomic body')
  look : ∀ {body body' : Ways} (negated : Bool), like body body' →
    like (look negated body) (look negated body')

theorem congruence_eq : Congruence Eq where
  refl _ := rfl
  mem h hlast := h ▸ hlast
  andThen := by
    rintro _ _ _ _ rfl rfl
    rfl
  orElse := by
    rintro _ _ _ _ rfl rfl
    rfl
  group := by
    rintro _ _ _ rfl
    rfl
  atomic := by
    rintro _ _ rfl
    rfl
  look := by
    rintro _ _ _ rfl
    rfl

namespace Congruence

variable {like : Ways → Ways → Prop} {each each' : List Ways}

/-- What relates the outcomes of a part to its place relates those of all parts like it. -/
theorem relates (h : Congruence like) {rel : Place → Place → Prop} {ways other : Ways}
    (hlike : like ways other) (hrel : Relates rel other) : Relates rel ways :=
  fun place last hlast => hrel place last (h.mem hlike hlast)

theorem inOrder (h : Congruence like) (heach : List.Forall₂ like each each') :
    like (each.foldr Ways.andThen stay) (each'.foldr Ways.andThen stay) := by
  induction heach with
  | nil => exact h.refl _
  | cons hfirst _ ih => exact h.andThen hfirst ih

theorem ofAny (h : Congruence like) (heach : List.Forall₂ like each each') :
    like (each.foldr Ways.orElse never) (each'.foldr Ways.orElse never) := by
  induction heach with
  | nil => exact h.refl _
  | cons hfirst _ ih => exact h.orElse hfirst ih

end Congruence

end Ways

namespace Node

theorem outcomesInOrder_eq (ctx : Context) (items : List Tree) :
    outcomesInOrder ctx items = (items.map (outcomes ctx)).foldr Ways.andThen Ways.stay := by
  induction items with
  | nil => rfl
  | cons node rest ih => rw [outcomesInOrder, ih, List.map_cons, List.foldr_cons]

theorem outcomesOfAny_eq (ctx : Context) (items : List Tree) :
    outcomesOfAny ctx items = (items.map (outcomes ctx)).foldr Ways.orElse Ways.never := by
  induction items with
  | nil => rfl
  | cons node rest ih => rw [outcomesOfAny, ih, List.map_cons, List.foldr_cons]

/-- What a tree has to be like for its code to be right: the bounds of its repeats are in order, no
two of its groups have the same number, and there is a slot for each of them. -/
structure WellFormed {ρ : Type} (slots : Nat) (node : Node ρ) : Prop where
  bounded : node.Bounded
  distinct : node.groupNumbers.Nodup
  numbers : ∀ n ∈ node.groupNumbers, n < slots

/-- Every item of a list of trees is as the list is. -/
theorem wellFormed_item {ρ : Type} {slots : Nat} {items : List (Node ρ)}
    (h : WellFormed slots (.sequence items)) {node : Node ρ} (hnode : node ∈ items) :
    WellFormed slots node :=
  ⟨(boundedAll_iff items).mp h.bounded node hnode, h.distinct.sublist (groupNumbers_sublist hnode),
    fun n hn => h.numbers n ((groupNumbers_sublist hnode).subset hn)⟩

/-- Layouts of several trees come to outcomes that are like those of the trees. -/
theorem realizes_each {like : Ways → Ways → Prop} {items : List Tree} {ids later : Ids}
    {parts : List Code} {allows : Nat → Option Nat → Tree → Scheme → Prop}
    (ih : ∀ node ∈ items, ∀ {ids code later}, node.Layout ctx.encoding allows ids code later →
      program.Provides later → ∃ ways, like ways (node.outcomes ctx) ∧
        ∀ start, Realizes program joins ctx start code ways)
    (h : EmitsEach (Layout ctx.encoding allows) items ids parts later)
    (hprovides : program.Provides later) :
    ∃ each, List.Forall₂ like each (items.map (outcomes ctx)) ∧
      ∀ start, List.Forall₂ (Realizes program joins ctx start) parts each := by
  induction h with
  | nil => exact ⟨[], .nil, fun _ => .nil⟩
  | cons first others ihothers =>
      rw [List.forall_mem_cons] at ih
      rcases ih.1 first (hprovides.of_extends others.extends) with ⟨ways, hlike, hways⟩
      rcases ihothers ih.2 hprovides with ⟨each, hlikes, heach⟩
      exact ⟨ways :: each, .cons hlike hlikes, fun start => .cons (hways start) (heach start)⟩

/-- A layout of a tree comes to outcomes that are like those of the tree, if it does not matter for
any repeat by which of the allowed schemes it is run, the tree is well formed and the program has a
place for everything that has been numbered. Spans are related as the positions are between which
the tests of the tree lead. -/
theorem realizes_layout {allowed : Leaf → Prop} {like : Ways → Ways → Prop}
    {allows : Nat → Option Nat → Tree → Scheme → Prop} (hlike : Ways.Congruence like)
    (hleading : Leading ctx allowed joins joins)
    (hallows : ∀ {lower upper greedy body scheme ways}, allows lower upper body scheme →
      body.Bounded → like ways (body.outcomes ctx) → scheme.Suits lower upper ∧
        like (Ways.repeated ctx scheme lower upper greedy ways)
          ((repeated lower upper greedy body).outcomes ctx))
    (tree : Tree) (hwell : tree.WellFormed program.slotCount)
    (hallowed : ∀ test ∈ tree.leaves ctx.encoding, allowed test) :
    ∀ {ids code later}, tree.Layout ctx.encoding allows ids code later → program.Provides later →
      ∃ ways, like ways (tree.outcomes ctx) ∧
        ∀ start, Realizes program joins ctx start code ways := by
  induction tree using Node.induct with
  | literal bytes ignoreCase =>
      intro ids code later h _
      cases h
      refine ⟨_, hlike.refl _, fun start => ?_⟩
      cases bytes with
      | nil =>
          rw [outcomes, Ways.test_literal_nil]
          exact realizes_nil
      | cons b rest => exact realizes_test _
  | set | anyChar | word | backref | anchor =>
      intro ids code later h _
      cases h
      exact ⟨_, hlike.refl _, fun start => realizes_test _⟩
  | repeated lower upper greedy body ih =>
      intro ids code later h hprovides
      cases h with
      | never =>
          refine ⟨_, hlike.refl _, fun start => ?_⟩
          rw [outcomes, show Scheme.choose lower (some 0) _ = .never from if_pos rfl]
          change Realizes program joins ctx start [] (Ways.loop ctx lower (some 0) greedy _)
          rw [Ways.loop_never]
          exact realizes_nil
      | repeated runs inside chosen made =>
          rcases Layout.numbered body inside with ⟨hmid, hnumbered⟩
          have hlater := (numbered_repeat made hmid hnumbered).1
          rcases ih ⟨hwell.bounded.2, hwell.distinct, hwell.numbers⟩ hallowed inside
            (hprovides.of_extends hlater) with ⟨ways, hways, hbody⟩
          rcases hallows chosen hwell.bounded.2 hways with ⟨hsuits, hrepeat⟩
          refine ⟨_, hrepeat, fun start => ?_⟩
          refine realizes_repeat (hbody start)
            (hlike.relates hways (outcomes_advances ctx body)) (fun hmin => ?_) hnumbered hprovides
            hsuits made
          refine hlike.relates hways (outcomes_consumes ctx body hwell.bounded.2 ?_)
          refine Nat.pos_of_ne_zero fun hzero => ?_
          rw [hzero] at hmin
          cases hmin
  | group number body ih =>
      intro ids code later h hprovides
      cases h with
      | group inside =>
          -- The number of the group does not occur inside of it, or it would occur twice.
          have hdistinct := List.nodup_cons.mp hwell.distinct
          have hbody : body.WellFormed program.slotCount :=
            ⟨hwell.bounded, hdistinct.2, fun n hn => hwell.numbers n (List.mem_cons_of_mem _ hn)⟩
          rcases ih hbody hallowed inside hprovides with ⟨ways, hways, hrealizes⟩
          refine ⟨_, hlike.group number hways, fun start => ?_⟩
          refine realizes_group (hrealizes start)
            (hlike.relates hways (outcomes_leads hleading body hallowed))
            (hwell.numbers number List.mem_cons_self) fun hslot => ?_
          exact hdistinct.1 ((Layout.numbered body inside).2.slot hslot)
  | atomic body ih =>
      intro ids code later h hprovides
      cases h with
      | atomic inside =>
          rcases ih ⟨hwell.bounded, hwell.distinct, hwell.numbers⟩ hallowed inside hprovides with
            ⟨ways, hways, hrealizes⟩
          -- The mark is smaller than every mark in the body.
          refine ⟨_, hlike.atomic hways, fun start => ?_⟩
          refine realizes_atomic (hrealizes start) fun hslot => ?_
          exact Nat.not_succ_le_self _ ((Layout.numbered body inside).2.slot hslot).1
  | look direction negated body ih =>
      intro ids code later h hprovides
      have hbody : body.WellFormed program.slotCount :=
        ⟨hwell.bounded, hwell.distinct, hwell.numbers⟩
      cases h with
      | ahead inside =>
          rcases ih hbody hallowed inside hprovides with ⟨ways, hways, hrealizes⟩
          refine ⟨_, hlike.look negated hways, fun start => ?_⟩
          refine realizes_look negated (hrealizes start) fun hslot => ?_
          exact Nat.not_succ_le_self _ ((Layout.numbered body inside).2.slot hslot).1
      | behind length inside =>
          rcases ih hbody hallowed inside hprovides with ⟨ways, hways, hrealizes⟩
          rw [outcomes, length]
          refine ⟨_, hlike.look negated (hlike.andThen (hlike.refl _) hways), fun start => ?_⟩
          refine realizes_look negated (realizes_append (realizes_stepBack _) (hrealizes start))
            fun hslot => ?_
          exact Nat.not_succ_le_self _ ((Layout.numbered body inside).2.slot hslot).1
  | sequence items ih =>
      intro ids code later h hprovides
      cases h with
      | sequence inside =>
          rcases realizes_each (fun node hnode => ih node hnode (wellFormed_item hwell hnode)
            fun test htest => hallowed test (mem_leavesOf.mpr ⟨node, hnode, htest⟩)) inside
            hprovides with ⟨each, heach, hrealizes⟩
          rw [outcomes, outcomesInOrder_eq]
          exact ⟨_, hlike.inOrder heach, fun start => realizes_flatten (hrealizes start)⟩
  | alternation items ih =>
      intro ids code later h hprovides
      cases h with
      | alternation inside =>
          have hitems : WellFormed program.slotCount (.sequence items) :=
            ⟨hwell.bounded, hwell.distinct, hwell.numbers⟩
          rcases realizes_each (fun node hnode => ih node hnode (wellFormed_item hitems hnode)
            fun test htest => hallowed test (mem_leavesOf.mpr ⟨node, hnode, htest⟩)) inside
            hprovides with ⟨each, heach, hrealizes⟩
          rw [outcomes, outcomesOfAny_eq]
          exact ⟨_, hlike.ofAny heach, fun start => realizes_choices (hrealizes start)⟩

/-- The code of a tree comes to the outcomes of the tree, if the tree is well formed and the program
has a place for everything that has been numbered. -/
theorem realizes_emit {allowed : Leaf → Prop} (hleading : Leading ctx allowed joins joins)
    (tree : Tree) (hwell : tree.WellFormed program.slotCount)
    (hallowed : ∀ test ∈ tree.leaves ctx.encoding, allowed test) {ids later : Ids} {code : Code}
    (h : tree.emit ctx.encoding ids = .ok (code, later)) (hprovides : program.Provides later) :
    Realizes program joins ctx start code (tree.outcomes ctx) := by
  have hchosen : ∀ {lower upper greedy body scheme ways},
      Scheme.Chosen ctx.encoding lower upper body scheme → body.Bounded →
      ways = body.outcomes ctx → scheme.Suits lower upper ∧
        Ways.repeated ctx scheme lower upper greedy ways =
          (repeated lower upper greedy body).outcomes ctx := by
    rintro lower upper greedy body scheme ways rfl - rfl
    exact ⟨Scheme.choose_suits _ _ _, by rw [outcomes]⟩
  rcases realizes_layout Ways.congruence_eq hleading hchosen tree hwell hallowed
    (layout_emit tree h) hprovides with ⟨ways, rfl, hrealizes⟩
  exact hrealizes start

end Node

end RegexEngine
