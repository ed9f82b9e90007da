import RegexEngine.Proofs.Fragment.Loop

/-!
# Emitted Code

What can be said about the code of a tree without running it: what it is made of, how long it is,
and which numbers its pieces use.

`Emit` passes the numbers along; `bind_ok` and the lemmas `emit_group`, `emit_atomic` and so on take
the code of a tree apart into the code of its parts, and everything else goes by them.

## Main definitions

* `Ids.Extends`: Numbers given out later.
* `Instr.Numbered`: An instruction uses numbers from a stretch.
* `EmitsRepeat`: The code of a repeat that is run by a scheme.
* `EmitsEach`: The code of several trees, made one after the other.

## Theorems

* `numbered_group`, `numbered_star`, …: The numbers in a piece of code.
* `emit_group`, `emit_atomic`, …: The parts of the code of a tree.
* `length_emit`: The length of the code of a tree.
-/

namespace RegexEngine

namespace Ids

/-- More numbers have been given out, and the loops numbered before have kept their bounds. -/
structure Extends (ids later : Ids) : Prop where
  loops : ids.loops.toList <+: later.loops.toList
  emptyChecks : ids.emptyChecks ≤ later.emptyChecks
  marks : ids.marks ≤ later.marks

namespace Extends

variable {ids mid later : Ids}

theorem refl (ids : Ids) : ids.Extends ids :=
  ⟨List.prefix_rfl, Nat.le_refl _, Nat.le_refl _⟩

theorem trans (h1 : ids.Extends mid) (h2 : mid.Extends later) : ids.Extends later :=
  ⟨h1.loops.trans h2.loops, Nat.le_trans h1.emptyChecks h2.emptyChecks,
    Nat.le_trans h1.marks h2.marks⟩

theorem size_le (h : ids.Extends later) : ids.loops.size ≤ later.loops.size := by
  have hle := h.loops.length_le
  simp only [Array.length_toList] at hle
  exact hle

theorem newMark (ids : Ids) : ids.Extends { ids with marks := ids.marks + 1 } :=
  ⟨List.prefix_rfl, Nat.le_refl _, Nat.le_succ _⟩

theorem newCheck (ids : Ids) : ids.Extends { ids with emptyChecks := ids.emptyChecks + 1 } :=
  ⟨List.prefix_rfl, Nat.le_succ _, Nat.le_refl _⟩

theorem newLoop (ids : Ids) (bounds : Bounds) :
    ids.Extends { ids with loops := ids.loops.push bounds } :=
  ⟨by rw [Array.toList_push]; exact List.prefix_append _ _, Nat.le_refl _, Nat.le_refl _⟩

end Extends

end Ids

/-- The instruction uses only numbers that have been given out between `ids` and `later`, and the
numbers of the groups. It is one that code of a tree may have. -/
def Instr.Numbered (ids later : Ids) (groups : List Nat) : Instr → Prop
  | openGroup number | closeGroup number => number ∈ groups
  | enter id _ _ | again id _ _ => ids.loops.size ≤ id ∧ id < later.loops.size
  | emptyStart id | emptyEnd id => ids.emptyChecks ≤ id ∧ id < later.emptyChecks
  | mark id _ | cut id _ | rewind id => ids.marks ≤ id ∧ id < later.marks
  | finish | bare _ => False
  | leaf _ | fail | jump _ | fork _ | stepBack _ => True

/-- All instructions of the code use only these numbers. -/
def Code.Numbered (ids later : Ids) (groups : List Nat) (code : Code) : Prop :=
  ∀ instr ∈ code, instr.Numbered ids later groups

theorem Instr.Numbered.mono {ids later ids' later' : Ids} {groups groups' : List Nat}
    {instr : Instr} (h : instr.Numbered ids later groups) (hids : ids'.Extends ids)
    (hlater : later.Extends later') (hgroups : groups ⊆ groups') :
    instr.Numbered ids' later' groups' := by
  have hloops := hids.size_le
  have hloops' := hlater.size_le
  have hchecks := hids.emptyChecks
  have hchecks' := hlater.emptyChecks
  have hmarks := hids.marks
  have hmarks' := hlater.marks
  cases instr with
  | openGroup number | closeGroup number => exact hgroups h
  | enter id _ _ | again id _ _ => exact ⟨Nat.le_trans hloops h.1, Nat.lt_of_lt_of_le h.2 hloops'⟩
  | emptyStart id | emptyEnd id =>
      exact ⟨Nat.le_trans hchecks h.1, Nat.lt_of_lt_of_le h.2 hchecks'⟩
  | mark id _ | cut id _ | rewind id =>
      exact ⟨Nat.le_trans hmarks h.1, Nat.lt_of_lt_of_le h.2 hmarks'⟩
  | finish | bare _ => exact h
  | leaf _ | fail | jump _ | fork _ | stepBack _ => trivial

namespace Code

variable {ids later ids' later' : Ids} {groups groups' : List Nat} {code first second : Code}

theorem Numbered.mono (h : code.Numbered ids later groups) (hids : ids'.Extends ids)
    (hlater : later.Extends later') (hgroups : groups ⊆ groups') :
    code.Numbered ids' later' groups' :=
  fun instr hinstr => (h instr hinstr).mono hids hlater hgroups

theorem numbered_nil : Numbered ids later groups [] :=
  fun _ h => absurd h List.not_mem_nil

theorem numbered_cons {instr : Instr} :
    Numbered ids later groups (instr :: code) ↔
      instr.Numbered ids later groups ∧ code.Numbered ids later groups :=
  List.forall_mem_cons

theorem numbered_append :
    Numbered ids later groups (first ++ second) ↔
      first.Numbered ids later groups ∧ second.Numbered ids later groups :=
  List.forall_mem_append

theorem numbered_group {number : Nat} (h : code.Numbered ids later groups)
    (hnumber : number ∈ groups) : (group number code).Numbered ids later groups := by
  rw [group, numbered_append, numbered_cons, numbered_cons]
  exact ⟨⟨hnumber, h⟩, hnumber, numbered_nil⟩

theorem numbered_atomic {id : Nat} (h : code.Numbered ids later groups)
    (hid : ids.marks ≤ id ∧ id < later.marks) : (atomic id code).Numbered ids later groups := by
  rw [atomic, numbered_append, numbered_cons, numbered_cons]
  exact ⟨⟨hid, h⟩, hid, numbered_nil⟩

theorem numbered_look {id : Nat} {negated : Bool} (h : code.Numbered ids later groups)
    (hid : ids.marks ≤ id ∧ id < later.marks) :
    (look id negated code).Numbered ids later groups := by
  rw [look]
  split
  · simp only [numbered_append, numbered_cons]
    exact ⟨⟨hid, trivial, h⟩, hid, trivial, numbered_nil⟩
  · simp only [numbered_append, numbered_cons]
    exact ⟨⟨hid, h⟩, hid, numbered_nil⟩

theorem numbered_optional {greedy : Bool} (h : code.Numbered ids later groups) :
    (optional greedy code).Numbered ids later groups := by
  rw [optional]
  split
  · exact numbered_cons.mpr ⟨trivial, h⟩
  · exact numbered_cons.mpr ⟨trivial, numbered_cons.mpr ⟨trivial, h⟩⟩

theorem numbered_checked {check : Option Nat} (h : code.Numbered ids later groups)
    (hcheck : ∀ id, check = some id → ids.emptyChecks ≤ id ∧ id < later.emptyChecks) :
    (checked check code).Numbered ids later groups := by
  cases check with
  | none => exact h
  | some id =>
      rw [checked, numbered_append, numbered_cons, numbered_cons]
      exact ⟨⟨hcheck id rfl, h⟩, hcheck id rfl, numbered_nil⟩

theorem numbered_star {check : Option Nat} {greedy : Bool} (h : code.Numbered ids later groups)
    (hcheck : ∀ id, check = some id → ids.emptyChecks ≤ id ∧ id < later.emptyChecks) :
    (star greedy check code).Numbered ids later groups := by
  have hchecked := numbered_checked h hcheck
  rw [star]
  split
  · simp only [numbered_append, numbered_cons]
    exact ⟨⟨trivial, hchecked⟩, trivial, numbered_nil⟩
  · simp only [numbered_append, numbered_cons]
    exact ⟨⟨trivial, trivial, hchecked⟩, trivial, numbered_nil⟩

theorem numbered_counted {id : Nat} {greedy : Bool} (h : code.Numbered ids later groups)
    (hid : ids.loops.size ≤ id ∧ id < later.loops.size) :
    (counted id greedy code).Numbered ids later groups := by
  rw [counted, numbered_append, numbered_cons, numbered_cons]
  exact ⟨⟨hid, h⟩, hid, numbered_nil⟩

theorem numbered_copies (h : code.Numbered ids later groups) (n : Nat) :
    (copies n code).Numbered ids later groups := by
  induction n with
  | zero => exact numbered_nil
  | succ n ih => exact numbered_append.mpr ⟨h, ih⟩

theorem numbered_flatten {parts : List Code} (h : ∀ part ∈ parts, Numbered ids later groups part) :
    Numbered ids later groups parts.flatten := by
  intro instr hinstr
  rcases List.mem_flatten.mp hinstr with ⟨part, hpart, hinstr⟩
  exact h part hpart instr hinstr

theorem numbered_choices {parts : List Code} (h : ∀ part ∈ parts, Numbered ids later groups part) :
    (choices parts).Numbered ids later groups := by
  induction parts with
  | nil => exact numbered_cons.mpr ⟨trivial, numbered_nil⟩
  | cons part rest ih =>
      have hpart := h part List.mem_cons_self
      have hrest := ih fun p hp => h p (List.mem_cons_of_mem _ hp)
      cases rest with
      | nil => exact hpart
      | cons next more =>
          rw [choices]
          · simp only [numbered_append, numbered_cons]
            exact ⟨⟨trivial, hpart⟩, trivial, hrest⟩
          · exact List.cons_ne_nil _ _

/-- The slots of code lie in the stretch of its numbers. -/
theorem Numbered.slot {slot : Slot} (h : code.Numbered ids later groups)
    (hslot : slot ∈ code.slots) :
    match slot with
    | .group number => number ∈ groups
    | .loop id => ids.loops.size ≤ id ∧ id < later.loops.size
    | .check id => ids.emptyChecks ≤ id ∧ id < later.emptyChecks
    | .mark id => ids.marks ≤ id ∧ id < later.marks := by
  rcases mem_slots.mp hslot with ⟨instr, hinstr, hslot⟩
  have hnumbered := h instr hinstr
  cases instr <;> cases hslot <;> exact hnumbered

end Code

namespace Emit

variable {α β : Type} {ids later : Ids}

theorem bind_ok {x : Emit α} {f : α → Emit β} {b : β} (h : (x >>= f) ids = .ok (b, later)) :
    ∃ a mid, x ids = .ok (a, mid) ∧ f a mid = .ok (b, later) := by
  change (x ids >>= fun found => f found.1 found.2) = _ at h
  rcases hx : x ids with cause | ⟨a, mid⟩
  · rw [hx] at h
    cases h
  · rw [hx] at h
    exact ⟨a, mid, rfl, h⟩

theorem pure_ok {a b : α} (h : (pure a : Emit α) ids = .ok (b, later)) : b = a ∧ later = ids := by
  cases h
  exact ⟨rfl, rfl⟩

theorem newMark_ok {id : Nat} (h : newMark ids = .ok (id, later)) :
    id = ids.marks ∧ later = { ids with marks := ids.marks + 1 } := by
  cases h
  exact ⟨rfl, rfl⟩

end Emit

/-- The code of a loop that does not count, and the check it uses. -/
theorem emitStar_ok {greedy mayBeEmpty : Bool} {body code : Code} {ids later : Ids}
    (h : emitStar greedy mayBeEmpty body ids = .ok (code, later)) :
    ∃ check, code = Code.star greedy check body ∧ ids.Extends later ∧
      (check = none → mayBeEmpty = false) ∧
      ∀ id, check = some id →
        mayBeEmpty = true ∧ id = ids.emptyChecks ∧ id < later.emptyChecks := by
  cases mayBeEmpty with
  | false =>
      cases h
      exact ⟨none, rfl, Ids.Extends.refl _, fun _ => rfl, by rintro id ⟨⟩⟩
  | true =>
      cases h
      refine ⟨some ids.emptyChecks, rfl, Ids.Extends.newCheck ids, by rintro ⟨⟩, fun id hid => ?_⟩
      cases hid
      exact ⟨rfl, rfl, Nat.lt_succ_self _⟩

/-- The code of a repeat that is run by a scheme. -/
inductive EmitsRepeat (bounds : Bounds) (greedy mayBeEmpty : Bool) (body : Code) (ids : Ids) :
    Scheme → Code → Ids → Prop
  | never : EmitsRepeat bounds greedy mayBeEmpty body ids .never [] ids
  | once : EmitsRepeat bounds greedy mayBeEmpty body ids .once body ids
  | optional :
      EmitsRepeat bounds greedy mayBeEmpty body ids .optional (Code.optional greedy body) ids
  | star {code : Code} {later : Ids}
      (loops : emitStar greedy mayBeEmpty body ids = .ok (code, later)) :
      EmitsRepeat bounds greedy mayBeEmpty body ids .star code later
  | plus {code : Code} {later : Ids}
      (loops : emitStar greedy mayBeEmpty body ids = .ok (code, later)) :
      EmitsRepeat bounds greedy mayBeEmpty body ids .plus (body ++ code) later
  | copies (n : Nat) :
      EmitsRepeat bounds greedy mayBeEmpty body ids (.copies n) (Code.copies n body) ids
  | counted :
      EmitsRepeat bounds greedy mayBeEmpty body ids .counted
        (Code.counted ids.loops.size greedy body) { ids with loops := ids.loops.push bounds }

/-- The code of a repeat is that of the scheme which is chosen for it. -/
theorem emitRepeat_ok {bounds : Bounds} {greedy mayBeEmpty : Bool} {body code : Code}
    {ids later : Ids} (h : emitRepeat bounds greedy mayBeEmpty body ids = .ok (code, later)) :
    EmitsRepeat bounds greedy mayBeEmpty body ids
      (Scheme.choose bounds.lower bounds.upper body.length) code later := by
  rw [emitRepeat] at h
  generalize Scheme.choose bounds.lower bounds.upper body.length = scheme at h ⊢
  -- The scheme is chosen by the bounds and the length of the body. Each has a layout of its own,
  -- and only stars and what is made from them number a check.
  cases scheme with
  | never =>
      cases h
      exact .never
  | once =>
      cases h
      exact .once
  | optional =>
      cases h
      exact .optional
  | star => exact .star h
  | plus =>
      rcases Emit.bind_ok h with ⟨star, mid, hstar, h⟩
      rcases Emit.pure_ok h with ⟨rfl, rfl⟩
      exact .plus hstar
  | copies n =>
      cases h
      exact .copies n
  | counted =>
      cases h
      exact .counted

/-- The code is that of a tree, with the numbers that have been given out before and after. -/
def Node.Emits (enc : Encoding) (tree : Tree) (ids : Ids) (code : Code) (later : Ids) : Prop :=
  tree.emit enc ids = .ok (code, later)

/-- The code of several trees, made one after the other in some way. -/
inductive EmitsEach (emits : Tree → Ids → Code → Ids → Prop) :
    List Tree → Ids → List Code → Ids → Prop
  | nil (ids : Ids) : EmitsEach emits [] ids [] ids
  | cons {node : Tree} {rest : List Tree} {ids mid later : Ids} {code : Code} {parts : List Code}
      (first : emits node ids code mid) (others : EmitsEach emits rest mid parts later) :
      EmitsEach emits (node :: rest) ids (code :: parts) later

namespace Node

variable {enc : Encoding} {ids later : Ids} {code : Code}

theorem emitEach_ok {items : List Tree} {parts : List Code}
    (h : emitEach enc items ids = .ok (parts, later)) :
    EmitsEach (Emits enc) items ids parts later := by
  induction items generalizing ids parts with
  | nil =>
      rcases Emit.pure_ok h with ⟨rfl, rfl⟩
      exact .nil _
  | cons node rest ih =>
      rcases Emit.bind_ok h with ⟨first, mid, hfirst, h⟩
      rcases Emit.bind_ok h with ⟨others, last, hothers, h⟩
      rcases Emit.pure_ok h with ⟨rfl, rfl⟩
      exact .cons hfirst (ih hothers)

theorem emit_repeated {lower : Nat} {upper : Option Nat} {greedy : Bool} {body : Tree}
    (h : (repeated lower upper greedy body).emit enc ids = .ok (code, later)) :
    (upper = some 0 ∧ code = [] ∧ later = ids) ∨
      upper ≠ some 0 ∧ ∃ inner mid, body.emit enc ids = .ok (inner, mid) ∧
        emitRepeat ⟨lower, upper⟩ greedy (body.minLength == 0) inner mid = .ok (code, later) := by
  rw [emit] at h
  by_cases hupper : upper = some 0
  · rw [if_pos hupper] at h
    exact Or.inl ⟨hupper, Emit.pure_ok h⟩
  · rw [if_neg hupper] at h
    exact Or.inr ⟨hupper, Emit.bind_ok h⟩

theorem emit_group {number : Nat} {body : Tree}
    (h : (group number body).emit enc ids = .ok (code, later)) :
    ∃ inner, body.emit enc ids = .ok (inner, later) ∧ code = Code.group number inner := by
  rcases Emit.bind_ok h with ⟨inner, mid, hinner, h⟩
  rcases Emit.pure_ok h with ⟨rfl, rfl⟩
  exact ⟨inner, hinner, rfl⟩

theorem emit_atomic {body : Tree} (h : (atomic body).emit enc ids = .ok (code, later)) :
    ∃ inner, body.emit enc { ids with marks := ids.marks + 1 } = .ok (inner, later) ∧
      code = Code.atomic ids.marks inner := by
  rcases Emit.bind_ok h with ⟨id, mid, hid, h⟩
  rcases Emit.newMark_ok hid with ⟨rfl, rfl⟩
  rcases Emit.bind_ok h with ⟨inner, last, hinner, h⟩
  rcases Emit.pure_ok h with ⟨rfl, rfl⟩
  exact ⟨inner, hinner, rfl⟩

theorem emit_ahead {negated : Bool} {body : Tree}
    (h : (look .ahead negated body).emit enc ids = .ok (code, later)) :
    ∃ inner, body.emit enc { ids with marks := ids.marks + 1 } = .ok (inner, later) ∧
      code = Code.look ids.marks negated inner := by
  rcases Emit.bind_ok h with ⟨id, mid, hid, h⟩
  rcases Emit.newMark_ok hid with ⟨rfl, rfl⟩
  rcases Emit.bind_ok h with ⟨inner, last, hinner, h⟩
  rcases Emit.pure_ok h with ⟨rfl, rfl⟩
  exact ⟨inner, hinner, rfl⟩

theorem emit_behind {negated : Bool} {body : Tree}
    (h : (look .behind negated body).emit enc ids = .ok (code, later)) :
    ∃ n inner, body.charLength enc = some n ∧
      body.emit enc { ids with marks := ids.marks + 1 } = .ok (inner, later) ∧
      code = Code.look ids.marks negated (.stepBack n :: inner) := by
  rw [emit] at h
  rcases hlength : body.charLength enc with _ | n
  · rw [hlength] at h
    cases h
  · rw [hlength] at h
    rcases Emit.bind_ok h with ⟨id, mid, hid, h⟩
    rcases Emit.newMark_ok hid with ⟨rfl, rfl⟩
    rcases Emit.bind_ok h with ⟨inner, last, hinner, h⟩
    rcases Emit.pure_ok h with ⟨rfl, rfl⟩
    exact ⟨n, inner, rfl, hinner, rfl⟩

theorem emit_sequence {items : List Tree}
    (h : (sequence items).emit enc ids = .ok (code, later)) :
    ∃ parts, EmitsEach (Emits enc) items ids parts later ∧ code = parts.flatten := by
  rcases Emit.bind_ok h with ⟨parts, mid, hparts, h⟩
  rcases Emit.pure_ok h with ⟨rfl, rfl⟩
  exact ⟨parts, emitEach_ok hparts, rfl⟩

theorem emit_alternation {items : List Tree}
    (h : (alternation items).emit enc ids = .ok (code, later)) :
    ∃ parts, EmitsEach (Emits enc) items ids parts later ∧ code = Code.choices parts := by
  rw [emit] at h
  split at h
  · cases h
  · rcases Emit.bind_ok h with ⟨parts, mid, hparts, h⟩
    rcases Emit.pure_ok h with ⟨rfl, rfl⟩
    exact ⟨parts, emitEach_ok hparts, rfl⟩

theorem length_emitStar {greedy mayBeEmpty : Bool} {body : Code}
    (h : emitStar greedy mayBeEmpty body ids = .ok (code, later)) :
    code.length = Scheme.star.codeLength greedy mayBeEmpty body.length := by
  cases mayBeEmpty with
  | false =>
      cases h
      rw [Code.length_star]
      rfl
  | true =>
      cases h
      rw [Code.length_star, Code.length_checked_some]
      rfl

/-- The length of the code of a repeat. -/
theorem length_emitRepeat {bounds : Bounds} {greedy mayBeEmpty : Bool} {body : Code}
    (h : emitRepeat bounds greedy mayBeEmpty body ids = .ok (code, later)) :
    code.length = (Scheme.choose bounds.lower bounds.upper body.length).codeLength greedy mayBeEmpty
      body.length := by
  have hrepeat := emitRepeat_ok h
  generalize Scheme.choose bounds.lower bounds.upper body.length = scheme at hrepeat ⊢
  cases hrepeat with
  | never | once => rfl
  | optional => exact Code.length_optional greedy body
  | star hstar => exact length_emitStar hstar
  | plus hstar =>
      rw [List.length_append, length_emitStar hstar]
      rfl
  | copies n => exact Code.length_copies n body
  | counted => exact Code.length_counted _ greedy body

/-- One after the other, the codes of several trees are as long as the trees say. -/
theorem length_flatten_emitEach {items : List Tree} {parts : List Code}
    (ih : ∀ node ∈ items, ∀ {ids later code}, node.emit enc ids = .ok (code, later) →
      code.length = node.codeLength enc)
    (h : EmitsEach (Emits enc) items ids parts later) :
    parts.flatten.length = codeLengthInOrder enc items := by
  induction h with
  | nil => rfl
  | cons first others ihothers =>
      rw [List.flatten_cons, List.length_append, codeLengthInOrder,
        ih _ List.mem_cons_self first, ihothers fun t ht => ih t (List.mem_cons_of_mem _ ht)]

/-- As choices, the codes of several trees have a fork and a jump for each choice but the last. -/
theorem length_choices_emitEach {items : List Tree} {parts : List Code}
    (ih : ∀ node ∈ items, ∀ {ids later code}, node.emit enc ids = .ok (code, later) →
      code.length = node.codeLength enc)
    (h : EmitsEach (Emits enc) items ids parts later) :
    (Code.choices parts).length = codeLengthOfAny enc items := by
  induction h with
  | nil => rfl
  | cons first others ihothers =>
      have hnode := ih _ List.mem_cons_self first
      have hrest := ihothers fun t ht => ih t (List.mem_cons_of_mem _ ht)
      -- The last choice stands alone, so it matters whether another one follows.
      cases others with
      | nil => exact hnode
      | cons =>
          rw [Code.choices, codeLengthOfAny, List.length_append, List.length_cons,
            List.length_cons, hnode, hrest]
          · omega
          · exact List.cons_ne_nil _ _
          · exact List.cons_ne_nil _ _

/-- The length of the code of a tree is known before the code is made. -/
theorem length_emit (tree : Tree) : ∀ {ids later code}, tree.emit enc ids = .ok (code, later) →
    code.length = tree.codeLength enc := by
  -- The code of each construct is that of its parts and a fixed number of instructions, which is
  -- how the length is computed.
  induction tree using Node.induct with
  | literal bytes ignoreCase =>
      intro ids later code h
      rcases Emit.pure_ok h with ⟨rfl, rfl⟩
      rw [codeLength]
      split
      · rfl
      · rfl
  | set | anyChar | word | backref | anchor =>
      intro ids later code h
      rcases Emit.pure_ok h with ⟨rfl, rfl⟩
      rfl
  | repeated lower upper greedy body ih =>
      intro ids later code h
      rcases emit_repeated h with ⟨rfl, rfl, rfl⟩ | ⟨hupper, inner, mid, hinner, hrepeat⟩
      · rfl
      · rw [codeLength, length_emitRepeat hrepeat, ih hinner]
  | group number body ih =>
      intro ids later code h
      rcases emit_group h with ⟨inner, hinner, rfl⟩
      rw [codeLength, ← ih hinner, Code.group, List.length_append, List.length_cons]
      rfl
  | atomic body ih =>
      intro ids later code h
      rcases emit_atomic h with ⟨inner, hinner, rfl⟩
      rw [codeLength, ← ih hinner, Code.atomic, List.length_append, List.length_cons]
      rfl
  | look direction negated body ih =>
      intro ids later code h
      cases direction with
      | ahead =>
          rcases emit_ahead h with ⟨inner, hinner, rfl⟩
          rw [codeLength, ← ih hinner, Code.length_look]
      | behind =>
          rcases emit_behind h with ⟨n, inner, hlength, hinner, rfl⟩
          rw [codeLength, ← ih hinner, Code.length_look, List.length_cons]
  | sequence items ih =>
      intro ids later code h
      rcases emit_sequence h with ⟨parts, hparts, rfl⟩
      rw [codeLength]
      exact length_flatten_emitEach ih hparts
  | alternation items ih =>
      intro ids later code h
      rcases emit_alternation h with ⟨parts, hparts, rfl⟩
      rw [codeLength]
      exact length_choices_emitEach ih hparts

end Node

end RegexEngine
