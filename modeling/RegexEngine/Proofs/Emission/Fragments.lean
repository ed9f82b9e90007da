import RegexEngine.Proofs.Emission.Targets
import RegexEngine.Proofs.Reference.Compiled
import RegexEngine.Proofs.Safety.Attempt

/-!
# Fragments of a Program

A program is made of the code of a tree, and in it stands the code of every part of the tree, unless
the part is in a repeat that never runs. Such a fragment may stand in several places, since repeats
copy it. Wherever it stands, its offsets lead to its own instructions or just behind them.

With that, every instruction of a program is in order: it can be obeyed, it leads to an instruction,
the numbers it names are those of groups, loops and checks that there are, the bounds of its loop
can be kept, and the end of a check has the jump back of its loop behind it. The program ends with
the only instruction that ends a match.

## Main definitions

* `Bounds.Ordered`: Bounds that can be kept.
* `Node.RunPartOf`: A part of a tree that is not in a repeat which never runs.
* `Program.ClosesLoop`: The end of a check is that of a loop of the program.
* `Instr.WellPlaced`: An instruction that is in order.

## Theorems

* `obey_malformed`: Only an instruction without operands is refused for what it is.
* `ordered_emit`: The bounds of the loops that are numbered can be kept.
* `RunPartOf.standsIn`: The code of a part stands in the code of the tree.
* `instrs_wellPlaced`: Every instruction of a program is in order, and so is every fragment.
-/

namespace RegexEngine

/-- The lower bound of a loop is at most its upper bound, if it has one. -/
def Bounds.Ordered (bounds : Bounds) : Prop :=
  ∀ n, bounds.upper = some n → bounds.lower ≤ n

namespace Instr

/-- The groups that an instruction names. -/
def groups : Instr → List Nat
  | openGroup number | closeGroup number => [number]
  | leaf (.backref groups _) => groups
  | _ => []

/-- The empty check that an instruction belongs to. -/
def check? : Instr → Option Nat
  | emptyStart id | emptyEnd id => some id
  | _ => none

end Instr

/-- The end of an empty check is the last but one instruction of a loop with this check, and the one
behind it jumps back to where the loop starts. -/
def Program.ClosesLoop (program : Program) (pc : Int) (id : Nat) : Prop :=
  ∃ head greedy inner, program.CodeAt head (Code.star greedy (some id) inner) ∧
    pc + 2 = head + (Code.star greedy (some id) inner).length ∧
    program.instrAt (pc + 1) = some (.jump (head - (pc + 1)))

/-- An instruction that is in order where it stands in a program. -/
structure Instr.WellPlaced (program : Program) (pc : Int) (instr : Instr) : Prop where
  /-- It has the operands that a matcher needs to obey it. -/
  operands : ∀ (m : Machine) (limits : Limits) (ctx : Context),
    m.obey program limits ctx instr ≠ .error .malformedInstruction
  target : ∀ offset, instr.target? = some offset →
    0 ≤ pc + offset ∧ pc + offset < program.code.size
  groups : ∀ n ∈ instr.groups, 0 < n ∧ n ≤ program.groups
  loop : ∀ id, instr.loop? = some id → ∃ bounds, program.loops[id]? = some bounds ∧ bounds.Ordered
  check : ∀ id, instr.check? = some id → id < program.emptyChecks
  closes : ∀ id, instr = .emptyEnd id → program.ClosesLoop pc id
  finish : instr = .finish ↔ pc + 1 = program.code.size

section Operands

namespace Machine

variable {program : Program} {limits : Limits} {ctx : Context} {m : Machine} {cause : Cause}

theorem ok_ne {α : Type} {a : α} : Except.ok a ≠ .error cause := by
  rintro ⟨⟩

theorem error_ne {α : Type} {e : Cause} (h : e ≠ cause) :
    (.error e : Except Cause α) ≠ .error cause :=
  fun heq => h (Except.error.inj heq)

theorem bind_ne {α β : Type} {x : Except Cause α} {f : α → Except Cause β} (hx : x ≠ .error cause)
    (hf : ∀ a, f a ≠ .error cause) : (x >>= f) ≠ .error cause := by
  cases x with
  | error e => exact error_ne fun heq => hx (congrArg Except.error heq)
  | ok a => exact hf a

theorem push_ne (hcause : cause ≠ .stackLimit) (entry : Entry) :
    m.push limits entry ≠ .error cause := by
  rw [push]
  split
  · exact error_ne hcause.symm
  · exact ok_ne

theorem changeCounter_ne (hcause : cause ≠ .stackLimit) (id : Nat) (value : Counter) :
    m.changeCounter limits id value ≠ .error cause :=
  bind_ne (push_ne hcause _) fun _ => ok_ne

theorem branch_ne (hcause : cause ≠ .stackLimit) (bodyFirst : Bool) (body exit : Int) :
    m.branch limits bodyFirst body exit ≠ .error cause := by
  rw [branch]
  split
  · exact bind_ne (push_ne hcause _) fun _ => ok_ne
  · exact bind_ne (push_ne hcause _) fun _ => ok_ne

/-- Only an instruction without operands is refused for what it is. -/
theorem obey_malformed {instr : Instr}
    (h : m.obey program limits ctx instr = .error .malformedInstruction) :
    ∃ name, instr = .bare name := by
  -- Pushing can only run into the stack limit, and what cannot be looked up has causes of its own.
  -- So no part of an instruction's work gives this cause.
  have hcause : Cause.malformedInstruction ≠ .stackLimit := by decide
  by_contra hbare
  revert h
  cases instr with
  | bare name => exact absurd ⟨name, rfl⟩ hbare
  | leaf | finish | fail | stepBack | jump | emptyEnd => exact ok_ne
  | fork | mark => exact bind_ne (push_ne hcause _) fun _ => ok_ne
  | openGroup | closeGroup | emptyStart =>
      exact bind_ne (bind_ne (push_ne hcause _) fun _ => ok_ne) fun _ => ok_ne
  | cut id returns =>
      refine bind_ne ?_ fun _ => ok_ne
      rw [obeyCut]
      split
      · exact error_ne (by decide)
      · exact ok_ne
  | rewind id =>
      refine bind_ne ?_ fun _ => ok_ne
      rw [obeyRewind]
      split
      · exact error_ne (by decide)
      · exact ok_ne
  | enter id exit greedy =>
      refine bind_ne ?_ fun _ => ok_ne
      -- A loop that is missing has another cause.
      rw [obeyEnter]
      split
      · exact error_ne (by decide)
      · refine bind_ne (changeCounter_ne hcause _ _) fun _ => ?_
        split
        · exact branch_ne hcause _ _ _
        · exact ok_ne
  | again id body greedy =>
      refine bind_ne ?_ fun _ => ok_ne
      rw [obeyAgain]
      split
      · exact error_ne (by decide)
      · simp only
        split
        · exact bind_ne (changeCounter_ne hcause _ _) fun _ => ok_ne
        · refine bind_ne (changeCounter_ne hcause _ _) fun _ => ?_
          split
          · exact branch_ne hcause _ _ _
          · exact ok_ne

end Machine

end Operands

/-- The bounds of the loops that have been numbered can be kept. -/
def Ids.Ordered (ids : Ids) : Prop :=
  ∀ bounds ∈ ids.loops, bounds.Ordered

namespace Node

variable {enc : Encoding} {ids later : Ids} {code : Code}

section Loops

variable {allows : Nat → Option Nat → Tree → Scheme → Prop}

/-- Only a counted loop is numbered, with the bounds of the repeat. -/
theorem ordered_repeat {bounds : Bounds} {greedy mayBeEmpty : Bool} {body : Code} {scheme : Scheme}
    (h : EmitsRepeat bounds greedy mayBeEmpty body ids scheme code later)
    (hbounds : bounds.Ordered) (hids : ids.Ordered) : later.Ordered := by
  have hstar : ∀ {loop : Code}, emitStar greedy mayBeEmpty body ids = .ok (loop, later) →
      later.Ordered := by
    intro loop hloop
    cases mayBeEmpty with
    | true | false =>
        cases hloop
        exact hids
  cases h with
  | never | once | optional | copies => exact hids
  | star hloop => exact hstar hloop
  | plus hloop => exact hstar hloop
  | counted =>
      intro found hfound
      rcases Array.mem_push.mp hfound with hold | rfl
      · exact hids found hold
      · exact hbounds

theorem ordered_each {items : List Tree} {parts : List Code}
    (ih : ∀ node ∈ items, ∀ {ids code later}, node.Bounded →
      node.Layout enc allows ids code later → ids.Ordered → later.Ordered)
    (hbounded : BoundedAll items) (h : EmitsEach (Layout enc allows) items ids parts later)
    (hids : ids.Ordered) : later.Ordered := by
  induction h with
  | nil => exact hids
  | cons first others ihothers =>
      rw [List.forall_mem_cons] at ih
      exact ihothers ih.2 hbounded.2 (ih.1 hbounded.1 first hids)

theorem ordered_layout (tree : Tree) : ∀ {ids code later}, tree.Bounded →
    tree.Layout enc allows ids code later → ids.Ordered → later.Ordered := by
  -- The bounds that are numbered come from repeats, and those of the tree are in order. So each
  -- construct hands on what its parts have kept.
  induction tree using Node.induct with
  | literal | set | anyChar | word | backref | anchor =>
      intro ids code later hbounded h hids
      cases h
      exact hids
  | repeated lower upper greedy body ih =>
      intro ids code later hbounded h hids
      cases h with
      | never => exact hids
      | repeated runs inside allowed made =>
          exact ordered_repeat made hbounded.1 (ih hbounded.2 inside hids)
  | group number body ih =>
      intro ids code later hbounded h hids
      cases h with
      | group inside => exact ih hbounded inside hids
  | atomic body ih =>
      intro ids code later hbounded h hids
      cases h with
      | atomic inside => exact ih hbounded inside hids
  | look direction negated body ih =>
      intro ids code later hbounded h hids
      cases h with
      | ahead inside => exact ih hbounded inside hids
      | behind length inside => exact ih hbounded inside hids
  | sequence items ih =>
      intro ids code later hbounded h hids
      cases h with
      | sequence inside => exact ordered_each ih hbounded inside hids
  | alternation items ih =>
      intro ids code later hbounded h hids
      cases h with
      | alternation inside => exact ordered_each ih hbounded inside hids

/-- The bounds of the loops that are numbered for a tree can be kept if those of its repeats can. -/
theorem ordered_emit (tree : Tree) (hbounded : tree.Bounded)
    (h : tree.emit enc {} = .ok (code, later)) : later.Ordered := by
  have hnone : Ids.Ordered {} := fun _ hmem => absurd hmem (Array.not_mem_empty _)
  exact ordered_layout tree hbounded (layout_emit tree h) hnone

end Loops

section Parts

/-- A tree is another one, or stands somewhere in it where no repeat keeps it from running. -/
inductive RunPartOf {ρ : Type} (part : Node ρ) : Node ρ → Prop
  | whole : RunPartOf part part
  | repeated {lower : Nat} {upper : Option Nat} {greedy : Bool} {body : Node ρ}
      (runs : upper ≠ some 0) (inner : RunPartOf part body) :
      RunPartOf part (.repeated lower upper greedy body)
  | group {number : Nat} {body : Node ρ} (inner : RunPartOf part body) :
      RunPartOf part (.group number body)
  | atomic {body : Node ρ} (inner : RunPartOf part body) : RunPartOf part (.atomic body)
  | look {direction : Direction} {negated : Bool} {body : Node ρ} (inner : RunPartOf part body) :
      RunPartOf part (.look direction negated body)
  | item {items : List (Node ρ)} {node : Node ρ} (mem : node ∈ items)
      (inner : RunPartOf part node) : RunPartOf part (.sequence items)
  | alternative {items : List (Node ρ)} {node : Node ρ} (mem : node ∈ items)
      (inner : RunPartOf part node) : RunPartOf part (.alternation items)

theorem infix_star (greedy : Bool) (check : Option Nat) (body : Code) :
    body <:+: Code.star greedy check body := by
  have hchecked : body <:+: Code.checked check body := by
    cases check with
    | none => exact List.infix_rfl
    | some id => exact ⟨[.emptyStart id], [.emptyEnd id], rfl⟩
  rw [Code.star]
  split
  · exact hchecked.trans ⟨[.fork _], [.jump _], rfl⟩
  · exact hchecked.trans ⟨[.fork 2, .jump _], [.jump _], rfl⟩

/-- The code of a repeat that runs has the code of its body in it. -/
theorem infix_repeat {bounds : Bounds} {greedy mayBeEmpty : Bool} {body : Code}
    (h : emitRepeat bounds greedy mayBeEmpty body ids = .ok (code, later))
    (hruns : bounds.upper ≠ some 0) : body <:+: code := by
  -- The scheme that is chosen suits the bounds; without that, there might be no copy at all.
  have hmade := emitRepeat_ok h
  have hsuits := Scheme.choose_suits bounds.lower bounds.upper body.length
  generalize Scheme.choose bounds.lower bounds.upper body.length = scheme at hmade hsuits
  cases hmade with
  | never => exact absurd hsuits hruns
  | once => exact List.infix_rfl
  | optional =>
      rw [Code.optional]
      split
      · exact (List.suffix_cons _ _).isInfix
      · exact ((List.suffix_cons _ _).trans (List.suffix_cons _ _)).isInfix
  | star hstar =>
      rcases emitStar_ok hstar with ⟨check, rfl, -⟩
      exact infix_star greedy check body
  | plus hstar => exact (List.prefix_append _ _).isInfix
  | copies n =>
      -- There is a copy, since the upper bound is their number.
      rcases hsuits with ⟨rfl, hupper⟩
      cases hlower : bounds.lower with
      | zero => exact absurd (hupper.trans (congrArg some hlower)) hruns
      | succ n => exact (List.prefix_append _ _).isInfix
  | counted => exact ⟨[.enter _ _ _], [.again _ _ _], rfl⟩

theorem infix_look (id : Nat) (negated : Bool) (body : Code) :
    body <:+: Code.look id negated body := by
  rw [Code.look]
  split
  · exact ⟨[.mark id false, .fork _], [.rewind id, .fail], rfl⟩
  · exact ⟨[.mark id true], [.cut id true], rfl⟩

theorem infix_choices {parts : List Code} {part : Code} (h : part ∈ parts) :
    part <:+: Code.choices parts := by
  induction parts with
  | nil => cases h
  | cons first rest ih =>
      cases rest with
      | nil =>
          cases List.mem_singleton.mp h
          exact List.infix_rfl
      | cons next more =>
          rw [Code.choices]
          · rcases List.mem_cons.mp h with rfl | hmem
            · exact List.infix_append [.fork _] part (.jump _ :: Code.choices (next :: more))
            · exact (ih hmem).trans ((List.suffix_cons _ _).trans (List.suffix_append _ _)).isInfix
          · exact List.cons_ne_nil _ _

/-- Among the codes of several trees is that of each one. -/
theorem mem_of_emitsEach {items : List Tree} {parts : List Code} {node : Tree}
    (h : EmitsEach (Emits enc) items ids parts later) (hmem : node ∈ items) :
    ∃ before inner after, node.emit enc before = .ok (inner, after) ∧ inner ∈ parts := by
  induction h with
  | nil => cases hmem
  | @cons _ _ before mid _ inner _ first others ih =>
      rcases List.mem_cons.mp hmem with rfl | hmem
      · exact ⟨before, inner, mid, first, List.mem_cons_self⟩
      · rcases ih hmem with ⟨before, inner, after, hemit, hpart⟩
        exact ⟨before, inner, after, hemit, List.mem_cons_of_mem _ hpart⟩

/-- The code of a tree, with whatever numbers, stands in some code. -/
def StandsIn (enc : Encoding) (part : Tree) (code : Code) : Prop :=
  ∃ before inner after, part.emit enc before = .ok (inner, after) ∧ inner <:+: code

theorem StandsIn.mono {part : Tree} {body : Code} (h : part.StandsIn enc body)
    (hstands : body <:+: code) : part.StandsIn enc code := by
  rcases h with ⟨before, inner, after, hpart, hinner⟩
  exact ⟨before, inner, after, hpart, hinner.trans hstands⟩

/-- The code of a part stands in the code of the tree. -/
theorem RunPartOf.standsIn {part tree : Tree} (h : part.RunPartOf tree) :
    ∀ {ids code later}, tree.emit enc ids = .ok (code, later) → part.StandsIn enc code := by
  -- By induction on the way down to the part. The code of each construct has the code of its parts
  -- inside, between instructions of its own.
  induction h with
  | whole => exact fun hemit => ⟨_, _, _, hemit, List.infix_rfl⟩
  | repeated runs _ ih =>
      intro ids code later hemit
      -- A repeat that runs not at all has no code, but then nothing inside is part of the run.
      rcases emit_repeated hemit with ⟨hupper, -, -⟩ | ⟨-, body, mid, hbody, hrepeat⟩
      · exact absurd hupper runs
      · exact (ih hbody).mono (infix_repeat hrepeat runs)
  | group _ ih =>
      intro ids code later hemit
      rcases emit_group hemit with ⟨body, hbody, rfl⟩
      exact (ih hbody).mono ⟨[.openGroup _], [.closeGroup _], rfl⟩
  | atomic _ ih =>
      intro ids code later hemit
      rcases emit_atomic hemit with ⟨body, hbody, rfl⟩
      exact (ih hbody).mono ⟨[.mark _ _], [.cut _ _], rfl⟩
  | @look direction negated _ _ ih =>
      intro ids code later hemit
      cases direction with
      | ahead =>
          rcases emit_ahead hemit with ⟨body, hbody, rfl⟩
          exact (ih hbody).mono (infix_look _ negated body)
      | behind =>
          rcases emit_behind hemit with ⟨n, body, -, hbody, rfl⟩
          exact (ih hbody).mono ((List.suffix_cons _ _).isInfix.trans (infix_look _ negated _))
  | item mem _ ih =>
      intro ids code later hemit
      rcases emit_sequence hemit with ⟨parts, hparts, rfl⟩
      rcases mem_of_emitsEach hparts mem with ⟨_, body, _, hbody, hmem⟩
      exact (ih hbody).mono (List.infix_of_mem_flatten hmem)
  | alternative mem _ ih =>
      intro ids code later hemit
      rcases emit_alternation hemit with ⟨parts, hparts, rfl⟩
      rcases mem_of_emitsEach hparts mem with ⟨_, body, _, hbody, hmem⟩
      exact (ih hbody).mono (infix_choices hmem)

end Parts

end Node

namespace Program

variable {pattern : List UInt8} {options : Options} {enc : Encoding} {dialect : Dialect}
  {limits : Limits} {parsed : Pattern.Parsed} {program : Program} {code : Code} {base pc : Int}
  {instr : Instr}

/-- What stands where in some code of a program. -/
theorem CodeAt.instrAt_add (h : program.CodeAt base code) {i : Nat} (hi : i < code.length) :
    program.instrAt (base + i) = code[i]? := by
  rcases h with ⟨before, after, hcode, rfl⟩
  rw [instrAt, if_neg (by omega), ← Array.getElem?_toList, hcode,
    List.getElem?_append_left (by rw [List.length_append]; omega),
    List.getElem?_append_right (by omega)]
  congr 1
  omega

/-- Code that stands in the code of a program stands somewhere in the program. -/
theorem CodeAt.of_infix {inner : Code} (h : program.CodeAt base code) (hstands : inner <:+: code) :
    ∃ mid, program.CodeAt mid inner := by
  rcases hstands with ⟨before, after, rfl⟩
  exact ⟨_, h.left.right rfl⟩

/-- The instructions of a program are those of its code, and the one behind that ends a match. -/
theorem instrAt_cases (hcode : program.code = (code ++ [Instr.finish]).toArray)
    (hinstr : program.instrAt pc = some instr) :
    ∃ i : Nat, pc = i ∧ (code[i]? = some instr ∨ i = code.length ∧ instr = .finish) := by
  rw [instrAt] at hinstr
  split at hinstr
  · cases hinstr
  · refine ⟨pc.toNat, by omega, ?_⟩
    rw [hcode, List.getElem?_toArray, List.getElem?_append] at hinstr
    split at hinstr
    · exact Or.inl hinstr
    · have hend : pc.toNat - code.length = 0 := by
        have hlt := (List.getElem?_eq_some_iff.mp hinstr).1
        rw [List.length_singleton] at hlt
        omega
      rw [hend] at hinstr
      cases hinstr
      exact Or.inr ⟨by omega, rfl⟩

/-- What the program of a pattern that was read is made of. -/
theorem ofParsed_code (h : ofParsed pattern options enc dialect parsed = .ok program) :
    ∃ code ids, (prepare enc dialect parsed.tree).emit enc {} = .ok (code, ids) ∧
      program.code = (code ++ [Instr.finish]).toArray ∧ program.groups = parsed.groups ∧
      program.loops = ids.loops := by
  rw [ofParsed] at h
  split at h
  · cases h
  · rename_i code ids hemit
    cases h
    exact ⟨code, ids, hemit, rfl, rfl, rfl⟩

/-- The offsets of code that can be put anywhere lead to its instructions or just behind them, where
it stands in a program. -/
theorem CodeAt.leads (h : program.CodeAt base code) (hcode : code.SelfContained) {offset : Int}
    (hlow : base ≤ pc) (hhigh : pc < base + code.length) (hinstr : program.instrAt pc = some instr)
    (htarget : instr.target? = some offset) :
    base ≤ pc + offset ∧ pc + offset ≤ base + code.length := by
  obtain ⟨i, rfl⟩ : ∃ i : Nat, pc = base + i := ⟨(pc - base).toNat, by omega⟩
  rw [h.instrAt_add (by omega)] at hinstr
  have hbounds := hcode.leads i instr offset hinstr htarget
  omega

/-- A check that ends with a loop of some code ends with one of the program. -/
theorem CodeAt.closesLoop (h : program.CodeAt base code) {i id : Nat}
    (hcloses : code.ClosesLoop i id) : program.ClosesLoop (base + i) id := by
  rcases hcloses with ⟨before, greedy, inner, after, rfl, hend⟩
  have hat : program.CodeAt (base + before.length) (Code.star greedy (some id) inner) :=
    h.left.right rfl
  refine ⟨_, greedy, inner, hat, by omega, ?_⟩
  -- The jump back stands last, and leads over all the rest of the loop.
  rcases Code.star_some greedy id inner with ⟨first, -, hstar⟩
  rw [hstar] at hat hend
  have hback := (hat.right rfl).tail.head
  rw [List.length_append] at hend
  have hpc : base + i + 1 = base + before.length + (first ++ inner).length + 1 := by
    simp only [List.length_cons, List.length_nil] at hend
    omega
  rw [hpc, hback]
  congr 2
  omega

/-- The groups that an instruction names are groups of the program. -/
theorem groups_of_instrAt
    (hparse : Pattern.parse pattern options enc dialect limits = .ok parsed)
    (hprogram : ofParsed pattern options enc dialect parsed = .ok program)
    (hinstr : program.instrAt pc = some instr) : ∀ n ∈ instr.groups, 0 < n ∧ n ≤ parsed.groups := by
  intro n hn
  rcases ofParsed_code hprogram with ⟨code, ids, hemit, hcode, -, -⟩
  -- The groups of a tree are numbered from 1 on, without gaps.
  have hmember : n ∈ parsed.tree.groupNumbers → 0 < n ∧ n ≤ parsed.groups := by
    intro hmem
    rw [(Pattern.parse_ok hparse).1, List.mem_range'_1] at hmem
    omega
  rcases instrAt_cases hcode hinstr with ⟨i, rfl, hinside | ⟨-, rfl⟩⟩
  · have hnumbered := (Node.numbered_emit _ hemit).2 instr (List.mem_of_getElem? hinside)
    rw [groupNumbers_prepare] at hnumbered
    cases instr with
    | openGroup number | closeGroup number =>
        cases List.mem_singleton.mp hn
        exact hmember hnumbered
    | leaf test =>
        cases test with
        | backref groups ignoreCase =>
            -- What a reference may mean has been looked up when the whole pattern was read.
            have hleaf := Node.mem_references_of_leaf _
              (mem_leaves_of_instrAt hparse hprogram hinstr)
            rcases Pattern.parse_resolves hparse with ⟨draft, after, -, hresolve, -⟩
            exact (Pattern.references_resolve draft hresolve groups ignoreCase hleaf).1 n hn
        | _ => cases hn
    | _ => cases hn
  · cases hn

/-- Every instruction of the program of a pattern that was read is in order. -/
theorem wellPlaced_of_instrAt
    (hparse : Pattern.parse pattern options enc dialect limits = .ok parsed)
    (hprogram : ofParsed pattern options enc dialect parsed = .ok program)
    (hinstr : program.instrAt pc = some instr) : instr.WellPlaced program pc := by
  -- What is known of the program as a whole: its code with the end behind it, its groups and its
  -- loops.
  have hmeans := (ofParsed_ok hparse hprogram).1
  have hinside := hmeans.instr_inside hinstr
  rcases ofParsed_code hprogram with ⟨code, ids, hemit, hcode, hgroups, hloops⟩
  have hat : program.CodeAt 0 code := ⟨[], [.finish], by rw [hcode]; rfl, rfl⟩
  have hself := Node.selfContained_emit _ hemit
  have hordered := Node.ordered_emit _ hmeans.wellFormed.bounded hemit
  have hsize : program.code.size = code.length + 1 := by
    rw [hcode, List.size_toArray, List.length_append, List.length_singleton]
  -- The instruction is one of the tree's code, or the end of the match.
  have hplace := instrAt_cases hcode hinstr
  refine
    { operands := fun m limits ctx hobey => ?operands
      target := fun offset htarget => ?target
      groups := hgroups ▸ groups_of_instrAt hparse hprogram hinstr
      loop := fun id hloop => ?loop
      check := fun id hcheck => ?check
      closes := fun id hend => ?closes
      finish := ?finish }
  case operands =>
    rcases Machine.obey_malformed hobey with ⟨name, rfl⟩
    exact hinside
  case target =>
    rcases hplace with ⟨i, rfl, hcode | ⟨-, rfl⟩⟩
    · -- Just behind the code there is one more instruction, so that it may lead there.
      have hbounds := hself.leads i instr offset hcode htarget
      omega
    · cases htarget
  case loop =>
    have hid := hinside.loop hloop
    refine ⟨program.loops[id], Array.getElem?_eq_getElem hid, hordered _ ?_⟩
    rw [← hloops]
    exact Array.getElem_mem hid
  case check =>
    cases instr with
    | emptyStart found | emptyEnd found =>
        cases hcheck
        exact hinside
    | _ => cases hcheck
  case closes =>
    subst hend
    rcases hplace with ⟨i, rfl, hcode | ⟨-, hfinish⟩⟩
    · have hcloses := hat.closesLoop (hself.closes i id hcode)
      rwa [Int.zero_add] at hcloses
    · cases hfinish
  case finish =>
    rcases hplace with ⟨i, rfl, hcode | ⟨rfl, rfl⟩⟩
    · -- The code of a tree ends no match.
      have hends : instr ≠ .finish := by
        rintro rfl
        exact (Node.numbered_emit _ hemit).2 _ (List.mem_of_getElem? hcode)
      have hlt := (List.getElem?_eq_some_iff.mp hcode).1
      exact iff_of_false hends (by omega)
    · exact iff_of_true rfl (by omega)

/-- Every instruction of the program of a pattern that was read is in order. The code of every part
of the tree stands in the program, unless the part is in a repeat that never runs, and wherever such
code stands, its offsets lead to its own instructions or just behind them. -/
theorem instrs_wellPlaced
    (hparse : Pattern.parse pattern options enc dialect limits = .ok parsed)
    (hprogram : ofParsed pattern options enc dialect parsed = .ok program) :
    (∀ pc instr, program.instrAt pc = some instr → instr.WellPlaced program pc) ∧
    (∀ part : Tree, part.RunPartOf (prepare enc dialect parsed.tree) →
      ∃ ids code later base, part.emit enc ids = .ok (code, later) ∧ program.CodeAt base code) ∧
    ∀ (part : Tree) ids code later base, part.emit enc ids = .ok (code, later) →
      program.CodeAt base code → ∀ pc instr offset, base ≤ pc → pc < base + code.length →
        program.instrAt pc = some instr → instr.target? = some offset →
          base ≤ pc + offset ∧ pc + offset ≤ base + code.length := by
  refine ⟨fun pc instr => wellPlaced_of_instrAt hparse hprogram, fun part hpart => ?_, ?_⟩
  · rcases ofParsed_code hprogram with ⟨code, ids, hemit, hcode, -, -⟩
    have hat : program.CodeAt 0 code := ⟨[], [.finish], by rw [hcode]; rfl, rfl⟩
    rcases hpart.standsIn hemit with ⟨before, inner, after, hinner, hstands⟩
    rcases hat.of_infix hstands with ⟨base, hbase⟩
    exact ⟨before, inner, after, base, hinner, hbase⟩
  · intro part ids code later base hpart hbase pc instr offset hlow hhigh hinstr htarget
    exact hbase.leads (Node.selfContained_emit part hpart) hlow hhigh hinstr htarget

/-- The pattern `(a?)*b{65,}` has a loop with a check and a loop that counts. -/
theorem instrs_wellPlaced_loops :
    let pattern : List UInt8 := [40, 97, 63, 41, 42, 98, 123, 54, 53, 44, 125]
    ∃ parsed program,
      Pattern.parse pattern {} .utf8 Dialect.standard {} = .ok parsed ∧
      ofParsed pattern {} .utf8 Dialect.standard parsed = .ok program ∧
      program.code.toList = [.fork 8, .emptyStart 0, .openGroup 1, .fork 2, .leaf (.literal [97]),
        .closeGroup 1, .emptyEnd 0, .jump (-7), .enter 0 3 true, .leaf (.literal [98]),
        .again 0 (-1) true, .finish] ∧
      (Instr.emptyEnd 0).WellPlaced program 6 ∧ (Instr.again 0 (-1) true).WellPlaced program 10 ∧
      ∃ ids code later base,
        (prepare .utf8 Dialect.standard parsed.tree).emit .utf8 ids = .ok (code, later) ∧
        program.CodeAt base code := by
  intro pattern
  -- The code of the program is computed.
  have hcomputed : ((Pattern.parse pattern {} .utf8 Dialect.standard {}).toOption.any fun parsed =>
      (ofParsed pattern {} .utf8 Dialect.standard parsed).toOption.any fun program =>
        decide (program.code.toList = [.fork 8, .emptyStart 0, .openGroup 1, .fork 2,
          .leaf (.literal [97]), .closeGroup 1, .emptyEnd 0, .jump (-7), .enter 0 3 true,
          .leaf (.literal [98]), .again 0 (-1) true, .finish] ∧
        program.instrAt 6 = some (.emptyEnd 0) ∧
        program.instrAt 10 = some (.again 0 (-1) true))) = true := by
    decide +kernel
  rcases exists_program hcomputed with ⟨parsed, program, hparse, hprogram, hholds⟩
  rcases of_decide_eq_true hholds with ⟨hcode, hcheck, hcounts⟩
  -- The theorem tells what its instructions owe.
  rcases instrs_wellPlaced hparse hprogram with ⟨hplaced, hfragments, -⟩
  exact ⟨parsed, program, hparse, hprogram, hcode, hplaced 6 _ hcheck, hplaced 10 _ hcounts,
    hfragments _ .whole⟩

end Program

end RegexEngine
