import RegexEngine.Proofs.Emission.Basic

/-!
# Trees with Code

There is code for a tree if the bodies of its look-behinds have a known length and its alternations
have alternatives. The body of a repeat that never runs need not have any. Which numbers have been
given out before does not matter.

## Main definitions

* `Node.HasCode`: What a tree needs to have code.
* `Emit.Makes`: Something is made, whatever numbers have been given out.

## Theorems

* `emit_iff`: For which trees there is code.
-/

namespace RegexEngine

namespace Emit

variable {α β : Type}

/-- Something is made, whatever numbers have been given out. -/
def Makes (make : Emit α) : Prop :=
  ∀ ids, ∃ a later, make ids = .ok (a, later)

theorem makes_pure (a : α) : Makes (pure a) :=
  fun ids => ⟨a, ids, rfl⟩

theorem Makes.bind {make : Emit α} {next : α → Emit β} (h : Makes make)
    (hnext : ∀ a, Makes (next a)) : Makes (make >>= next) := by
  intro ids
  rcases h ids with ⟨a, mid, hmake⟩
  rcases hnext a mid with ⟨b, later, hrest⟩
  refine ⟨b, later, ?_⟩
  simp only [Bind.bind, StateT.bind, hmake, Except.bind, hrest]

theorem makes_newMark : Makes newMark :=
  fun ids => ⟨ids.marks, _, rfl⟩

theorem makes_star (greedy mayBeEmpty : Bool) (body : Code) :
    Makes (emitStar greedy mayBeEmpty body) := by
  intro ids
  cases mayBeEmpty with
  | false => exact ⟨_, _, rfl⟩
  | true => exact ⟨_, _, rfl⟩

theorem makes_repeat (bounds : Bounds) (greedy mayBeEmpty : Bool) (body : Code) :
    Makes (emitRepeat bounds greedy mayBeEmpty body) := by
  rw [emitRepeat]
  split
  · exact makes_pure _
  · exact makes_pure _
  · exact makes_pure _
  · exact makes_star greedy mayBeEmpty body
  · exact (makes_star greedy mayBeEmpty body).bind fun _ => makes_pure _
  · exact makes_pure _
  · exact fun ids => ⟨_, _, rfl⟩

end Emit

namespace Node

open Emit

mutual

/-- What a tree needs to have code: a known length wherever a look-behind has to step back, and an
alternative wherever one is to be chosen. -/
def HasCode (enc : Encoding) : Tree → Prop
  | literal .. | set .. | anyChar .. | word .. | backref .. | anchor .. => True
  | repeated _ upper _ body => upper ≠ some 0 → HasCode enc body
  | group _ body | atomic body | look .ahead _ body => HasCode enc body
  | look .behind _ body => charLength enc body ≠ none ∧ HasCode enc body
  | sequence items => HasCodeAll enc items
  | alternation items => items ≠ [] ∧ HasCodeAll enc items

/-- What several trees need to have code. -/
def HasCodeAll (enc : Encoding) : List Tree → Prop
  | [] => True
  | node :: rest => HasCode enc node ∧ HasCodeAll enc rest

end

variable {enc : Encoding} {items : List Tree}

theorem hasCodeAll_iff (items : List Tree) :
    HasCodeAll enc items ↔ ∀ node ∈ items, HasCode enc node := by
  induction items with
  | nil => simp only [HasCodeAll, List.not_mem_nil, false_implies, implies_true]
  | cons node rest ih => simp only [HasCodeAll, List.forall_mem_cons, ih]

theorem makes_emitEach (ih : ∀ node ∈ items, Makes (node.emit enc)) :
    Makes (emitEach enc items) := by
  induction items with
  | nil => exact makes_pure _
  | cons node rest ihrest =>
      rw [List.forall_mem_cons] at ih
      exact ih.1.bind fun _ => (ihrest ih.2).bind fun _ => makes_pure _

/-- There is code for a tree that has what it needs. -/
theorem makes_emit (tree : Tree) (h : tree.HasCode enc) : Makes (tree.emit enc) := by
  -- Code is made unless a look-behind has no length or an alternation has no alternatives. The
  -- hypothesis excludes both, here and in all parts.
  induction tree using Node.induct with
  | literal | set | anyChar | word | backref | anchor => exact makes_pure _
  | repeated lower upper greedy body ih =>
      rw [emit]
      split
      · exact makes_pure _
      · rename_i hupper
        exact (ih (h hupper)).bind fun _ => makes_repeat _ _ _ _
  | group number body ih => exact (ih h).bind fun _ => makes_pure _
  | atomic body ih => exact makes_newMark.bind fun _ => (ih h).bind fun _ => makes_pure _
  | look direction negated body ih =>
      cases direction with
      | ahead => exact makes_newMark.bind fun _ => (ih h).bind fun _ => makes_pure _
      | behind =>
          rw [emit]
          split
          · rename_i hnone
            exact absurd hnone h.1
          · exact makes_newMark.bind fun _ => (ih h.2).bind fun _ => makes_pure _
  | sequence items ih =>
      refine (makes_emitEach fun node hnode => ?_).bind fun _ => makes_pure _
      exact ih node hnode ((hasCodeAll_iff items).mp h node hnode)
  | alternation items ih =>
      rw [emit, if_neg (mt List.isEmpty_iff.mp h.1)]
      refine (makes_emitEach fun node hnode => ?_).bind fun _ => makes_pure _
      exact ih node hnode ((hasCodeAll_iff items).mp h.2 node hnode)

theorem hasCodeAll_of_emitsEach {ids later : Ids} {parts : List Code}
    (ih : ∀ node ∈ items, ∀ {ids later code}, node.emit enc ids = .ok (code, later) →
      node.HasCode enc) (h : EmitsEach (Emits enc) items ids parts later) :
    HasCodeAll enc items := by
  induction h with
  | nil => trivial
  | cons first others ihothers =>
      rw [List.forall_mem_cons] at ih
      exact ⟨ih.1 first, ihothers ih.2⟩

/-- A tree that there is code for has what it needs. -/
theorem hasCode_of_emit (tree : Tree) :
    ∀ {ids later code}, tree.emit enc ids = .ok (code, later) → tree.HasCode enc := by
  -- The converse: what the maker has come through had the length or the alternatives that are asked
  -- for.
  induction tree using Node.induct with
  | literal | set | anyChar | word | backref | anchor => exact fun _ => trivial
  | repeated lower upper greedy body ih =>
      intro ids later code h hupper
      rcases emit_repeated h with ⟨rfl, -, -⟩ | ⟨-, inner, mid, hinner, -⟩
      · exact absurd rfl hupper
      · exact ih hinner
  | group number body ih =>
      intro ids later code h
      rcases emit_group h with ⟨inner, hinner, -⟩
      exact ih hinner
  | atomic body ih =>
      intro ids later code h
      rcases emit_atomic h with ⟨inner, hinner, -⟩
      exact ih hinner
  | look direction negated body ih =>
      intro ids later code h
      cases direction with
      | ahead =>
          rcases emit_ahead h with ⟨inner, hinner, -⟩
          exact ih hinner
      | behind =>
          rcases emit_behind h with ⟨n, inner, hlength, hinner, -⟩
          exact ⟨hlength ▸ Option.some_ne_none n, ih hinner⟩
  | sequence items ih =>
      intro ids later code h
      rcases emit_sequence h with ⟨parts, hparts, -⟩
      exact hasCodeAll_of_emitsEach ih hparts
  | alternation items ih =>
      intro ids later code h
      rcases emit_alternation h with ⟨parts, hparts, -⟩
      refine ⟨?_, hasCodeAll_of_emitsEach ih hparts⟩
      rintro rfl
      rw [emit, List.isEmpty_nil, if_pos rfl] at h
      cases h

/-- For which trees there is code. -/
theorem emit_iff (tree : Tree) (ids : Ids) :
    (∃ code later, tree.emit enc ids = .ok (code, later)) ↔ tree.HasCode enc :=
  ⟨fun ⟨_, _, h⟩ => hasCode_of_emit tree h, fun h => makes_emit tree h ids⟩

end Node

end RegexEngine
