import RegexEngine.Proofs.Lines.Code
import RegexEngine.Proofs.LookBehind.Ends

/-!
# Loops that Advance

No code of a tree leads backwards. What a look-behind steps back over is taken again or left to the
position where the look-behind has started, and everything else moves ahead if it moves at all. A
tree that needs a byte moves ahead.

The least length of a tree is counted in bytes of the pattern, and what the tree consumes may be
shorter: a character that is folded to a letter of the pattern need not have as many bytes. But it
has one, so it is enough that the least length is not 0.

Therefore a loop around a body that needs a byte has no check for empty iterations. Whenever a run
of such a loop is at its start again, it is further on than it was.

## Main definitions

* `Control.ReturnsBehind`: Whenever a run is at the start of a loop, it is further on than at some
  position.

## Theorems

* `minLength_prepare`: Dividing look-behinds keeps the least length.
* `returnsBehind_iteration`, `returnsBehind_start`: A loop comes back further on.
* `part_advances`: No part of a pattern leads backwards, and loops without a check advance.
-/

namespace RegexEngine

namespace Node

variable {ρ : Type} {enc : Encoding}

section Lengths

theorem minLengthSum_eq_zero {items : List (Node ρ)} (h : ∀ node ∈ items, node.minLength = 0) :
    minLengthSum items = 0 := by
  induction items with
  | nil => rfl
  | cons node rest ih =>
      rw [List.forall_mem_cons] at h
      rw [minLengthSum, h.1, ih h.2]

theorem minLengthMin_eq_zero {items : List (Node ρ)} (h : ∀ node ∈ items, node.minLength = 0) :
    minLengthMin items = 0 := by
  cases items with
  | nil => rfl
  | cons node rest =>
      rw [List.forall_mem_cons] at h
      cases rest with
      | nil => exact h.1
      | cons other more => rw [minLengthMin_cons, h.1, Nat.zero_min]

/-- What a look-behind is divided into consumes nothing, as the look-behind does. -/
theorem minLength_divide (negated : Bool) (node : Node ρ) :
    (divide enc negated node).minLength = 0 := by
  induction node with
  | alternation items ih =>
      have hitems : ∀ node ∈ divideEach enc negated items, node.minLength = 0 := by
        rw [divideEach_eq_map]
        exact List.forall_mem_map.mpr ih
      rw [divide]
      split
      · rfl
      · split
        · exact minLengthSum_eq_zero hitems
        · exact minLengthMin_eq_zero hitems
  | _ => rfl

/-- Dividing look-behinds keeps the least length. -/
theorem minLength_divideAll (node : Node ρ) : (divideAll enc node).minLength = node.minLength := by
  induction node with
  | look direction negated body ih =>
      cases direction with
      | ahead => rfl
      | behind => exact minLength_divide negated _
  | repeated lower upper greedy body ih => rw [divideAll, minLength, minLength, ih]
  | group number body ih | atomic body ih => exact ih
  | sequence items ih =>
      rw [divideAll, divideAllOf_eq_map, minLength, minLength, minLengthSum_map ih]
  | alternation items ih =>
      rw [divideAll, divideAllOf_eq_map, minLength, minLength, minLengthMin_map ih]
  | _ => rfl

end Lengths

end Node

/-- A tree that is prepared has the least length that it had before. -/
theorem Program.minLength_prepare (enc : Encoding) (dialect : Dialect) (tree : Tree) :
    (prepare enc dialect tree).minLength = tree.minLength := by
  rw [prepare]
  split
  · exact Node.minLength_divideAll tree
  · rfl

namespace Registers

variable {program : Program} {regs : Registers}

theorem fits_undo {entry : Entry} : (regs.undo entry).Fits program ↔ regs.Fits program := by
  cases entry with
  | choice | mark => exact Iff.rfl
  | capture number old => exact fits_setCapture
  | counter id old => exact fits_setCounter
  | check id old => exact fits_setCheck

theorem fits_undoAll {stack : List Entry} :
    (regs.undoAll stack).Fits program ↔ regs.Fits program := by
  induction stack generalizing regs with
  | nil => exact Iff.rfl
  | cons entry rest ih => exact ih.trans fits_undo

end Registers

namespace Control

/-- Whenever a run of some code alone is at the start of the code, it is further on than at a
position. -/
def ReturnsBehind (program : Program) (ctx : Context) (base : Int) (code : Code)
    (below : List Entry) (limit : Nat) (c : Control) : Prop :=
  ∀ pos regs above,
    RunsAlone program ctx base code below c (.running base pos regs (above ++ below)) → limit < pos

namespace ReturnsBehind

variable {program : Program} {ctx : Context} {base first : Int} {code inner : Code}
  {below stack : List Entry} {limit pos : Nat} {regs : Registers} {c d : Control}

/-- Steps do not matter, unless they start where the code does. -/
theorem step (h : ReturnsBehind program ctx base code below limit d)
    (hinside : Within base (base + code.length) below c) (hnext : c.next program ctx = some d)
    (hstart : ∀ pos regs stack, c = .running base pos regs stack → limit < pos) :
    ReturnsBehind program ctx base code below limit c := by
  intro pos regs above hrun
  by_cases heq : .running base pos regs (above ++ below) = c
  · exact hstart pos regs _ heq.symm
  · exact h pos regs above (hrun.next heq hinside hnext)

/-- A run that stays in code behind the start comes to it only afterwards. -/
theorem stays (h : ReturnsBehind program ctx base code below limit d)
    (hstays : Stays program ctx (Within first (first + inner.length) stack) c d)
    (hlow : base < first) (hhigh : first + inner.length ≤ base + code.length)
    (hbelow : below <:+ stack) : ReturnsBehind program ctx base code below limit c := by
  intro pos regs above hrun
  refine h pos regs above (hrun.through hstays (fun c hc => hc.mono (by omega) hhigh hbelow) ?_)
  rintro ⟨hle, -, -⟩
  omega

/-- Behind the code a run alone falls back. -/
theorem exit (h : ReturnsBehind program ctx base code below limit (.falling regs stack))
    (hcode : 0 < code.length) (hbelow : below <:+ stack) (pos : Nat) :
    ReturnsBehind program ctx base code below limit
      (.running (base + code.length) pos regs stack) := by
  rcases hbelow with ⟨above, rfl⟩
  intro last after more hrun
  exact h last after more (hrun.left (running_ne (by omega)))

/-- What falls back below the code never comes to its start. -/
theorem bottom : ReturnsBehind program ctx base code below limit (.falling regs below) :=
  fun _ _ _ hrun =>
    absurd hrun (RunsAlone.not_running [] fun _ hmem => absurd hmem List.not_mem_nil)

/-- Code that stands behind the start is done when it has handed on all its places. -/
theorem handsOn {places : List Place}
    (hhands : HandsOn program ctx first inner regs stack c places)
    (hlow : base < first) (hhigh : first + inner.length ≤ base + code.length)
    (hbelow : below <:+ stack)
    (hleaves : ∀ place ∈ places, ∀ after above, Saves inner regs above after →
      ReturnsBehind program ctx base code below limit (.falling after (above ++ stack)) →
      ReturnsBehind program ctx base code below limit
        (.running (first + inner.length) place.pos after (above ++ stack)))
    (hfails : ReturnsBehind program ctx base code below limit (.falling regs stack)) :
    ReturnsBehind program ctx base code below limit c := by
  induction hhands with
  | fails comes => exact hfails.stays comes hlow hhigh hbelow
  | leaves comes _ saves _ ih =>
      rw [List.forall_mem_cons] at hleaves
      exact (hleaves.1 _ _ saves (ih hleaves.2)).stays comes hlow hhigh hbelow

section Loop

variable {greedy : Bool} (hat : program.CodeAt base (Code.star greedy none inner))

include hat

/-- The start of a loop leads to its body, at once or when what follows the loop has failed. -/
theorem start
    (hbody : ∀ stack, below <:+ stack →
      ReturnsBehind program ctx base (Code.star greedy none inner) below limit
        (.falling regs stack) →
      ReturnsBehind program ctx base (Code.star greedy none inner) below limit
        (.running (base + if greedy then 1 else 2) pos regs stack))
    (hbelow : below <:+ stack)
    (hfails : ReturnsBehind program ctx base (Code.star greedy none inner) below limit
      (.falling regs stack))
    (hnext : (running base pos regs stack).next program ctx = some d) :
    ReturnsBehind program ctx base (Code.star greedy none inner) below limit d := by
  -- A greedy loop pushes its exit and runs into the body. A lazy one pushes the body and jumps to
  -- the exit.
  have hlength : (Code.star greedy none inner).length = inner.length + if greedy then 2 else 3 :=
    Code.length_star greedy none inner
  have hpush : ∀ back last, below <:+ .choice back last :: stack :=
    fun _ _ => hbelow.trans (List.suffix_cons _ _)
  cases greedy with
  | true =>
      rw [if_pos rfl] at hlength hbody
      have hfork : program.instrAt base = some (.fork (inner.length + 2)) := hat.left.head
      rw [next_fork hfork] at hnext
      cases hnext
      -- Falling back to the exit leaves the loop, and what follows it has to fail first.
      have hexit := hfails.exit (by omega) hbelow pos
      rw [hlength, Int.natCast_add] at hexit
      exact hbody _ (hpush _ _) (hexit.step (hpush _ _) (next_choice _ _) nofun)
  | false =>
      rw [if_neg Bool.false_ne_true] at hlength hbody
      have hfork : program.instrAt base = some (.fork 2) := hat.left.head
      have hjump : program.instrAt (base + 1) = some (.jump (inner.length + 2)) :=
        hat.left.tail.head
      rw [next_fork hfork] at hnext
      cases hnext
      -- The body is tried when the exit has failed.
      have hlater : ReturnsBehind program ctx base (Code.star false none inner) below limit
          (.falling regs (.choice (base + 2) pos :: stack)) :=
        (hbody stack hbelow hfails).step (hpush _ pos) (next_choice _ _) nofun
      have hexit := hlater.exit (by omega) (hpush _ _) pos
      rw [show base + ((Code.star false none inner).length : Int) =
        base + 1 + (inner.length + 2) by omega] at hexit
      -- The exit lies behind the code, so it is not the start of the loop.
      refine hexit.step ⟨by omega, by omega, hpush _ _⟩ (next_jump hjump) ?_
      rintro _ _ _ heq
      have hpc := (running.inj heq).1
      omega

end Loop

end ReturnsBehind

end Control

section Loop

variable {program : Program} {ctx : Context} {body : Tree} {ids mid : Ids} {inner : Code}
  {base : Int} {greedy : Bool} {below : List Entry} {limit : Nat}
  (hwell : body.WellFormed program.slotCount)
  (hemit : body.emit ctx.encoding ids = .ok (inner, mid)) (hprovides : program.Provides mid)
  (hmin : 0 < body.minLength) (hat : program.CodeAt base (Code.star greedy none inner))

include hwell hemit hprovides hmin hat

/-- A loop whose body needs a byte comes back to its start further on. -/
theorem Control.returnsBehind_start (left : Nat) :
    ∀ {pos regs stack d}, ctx.range - pos < left → limit ≤ pos → regs.Fits program →
      below <:+ stack →
      ReturnsBehind program ctx base (Code.star greedy none inner) below limit
        (.falling regs stack) →
      (running base pos regs stack).next program ctx = some d →
      ReturnsBehind program ctx base (Code.star greedy none inner) below limit d := by
  have hlength : (Code.star greedy none inner).length = inner.length + if greedy then 2 else 3 :=
    Code.length_star greedy none inner
  have hfront := entrance_pos greedy
  have hend : base + ((Code.star greedy none inner).length : Int) =
      base + (if greedy then 1 else 2) + inner.length + 1 := by
    rw [hlength]
    split <;> omega
  have hentrance := hat
  rw [Code.star_eq] at hentrance
  obtain ⟨offset, hfork⟩ : ∃ offset, program.instrAt base = some (.fork offset) := by
    cases greedy with
    | true => exact ⟨_, hentrance.head⟩
    | false => exact ⟨_, hentrance.head⟩
  have hinner : program.CodeAt (base + if greedy then 1 else 2) inner := hentrance.entrance.left
  have hjump : program.instrAt (base + (if greedy then 1 else 2) + inner.length) =
      some (.jump (-(inner.length + if greedy then 1 else 2))) :=
    (hentrance.entrance.right rfl).head
  have hback : base + (if greedy then 1 else 2) + (inner.length : Int) +
      -(inner.length + if greedy then 1 else 2) = base := by omega
  -- What is left of the range bounds the iterations, since each of them consumes some of it.
  induction left with
  | zero =>
      intro pos regs stack d hleft
      omega
  | succ left ih =>
      intro pos regs stack d hleft hpos hfits hbelow hfails hnext
      refine ReturnsBehind.start hat (fun stack hbelow hfails => ?_) hbelow hfails hnext
      have hhands := Node.handsOn_emit hwell hemit hprovides hinner hfits pos stack
      refine hfails.handsOn hhands (by omega) (by omega) hbelow ?_
      intro place hplace after above hsaves hfell
      -- The body has consumed some of the range, so that less is left for the next round.
      have hconsumes : pos < place.pos :=
        Node.outcomes_consumes ctx body hwell.bounded hmin _ _ hplace
      have hahead : place.pos = pos ∨ pos < place.pos ∧ place.pos ≤ ctx.range :=
        Node.outcomes_advances ctx body _ _ hplace
      have hafter : after.Fits program := Registers.fits_undoAll.mp (hsaves.undoes ▸ hfits)
      have hmore : below <:+ above ++ stack := hbelow.trans (List.suffix_append _ _)
      have hagain : ReturnsBehind program ctx base (Code.star greedy none inner) below limit
          (.running base place.pos after (above ++ stack)) := by
        have hlater := @ih place.pos after (above ++ stack) _ (by omega) (by omega) hafter hmore
          hfell (next_fork hfork)
        refine hlater.step ⟨Int.le_refl _, by omega, hmore⟩ (next_fork hfork) ?_
        rintro _ _ _ ⟨⟩
        omega
      -- The jump behind the body only leads back to the start.
      refine ReturnsBehind.step ?_ ⟨by omega, by omega, hmore⟩ (next_jump hjump) ?_
      · rw [hback]
        exact hagain
      · rintro _ _ _ heq
        have hpc := (running.inj heq).1
        omega

end Loop

namespace Program

variable {pattern : List UInt8} {options : Options} {enc : Encoding} {dialect : Dialect}
  {limits : Limits} {parsed : Pattern.Parsed} {program : Program} {ctx : Context}
  {regs : Registers}

/-- A loop has no check only if its body needs a byte. -/
theorem minLength_pos_of_star {body : Tree} {greedy : Bool} {inner : Code} {mid later : Ids}
    (h : emitStar greedy (body.minLength == 0) inner mid =
      .ok (Code.star greedy none inner, later)) : 0 < body.minLength := by
  rcases emitStar_ok h with ⟨check, hcode, -, hneeded, -⟩
  cases check with
  | none => exact Nat.pos_of_ne_zero (ne_of_beq_false (hneeded rfl))
  | some id =>
      -- With a check the code would be longer.
      have hlength := congrArg List.length hcode
      rw [Code.length_star, Code.length_star, Code.length_checked_some, Code.checked] at hlength
      omega

/-- No part of a pattern leads backwards, and a part that needs a byte leads ahead. This is so for
all runs of its code alone, wherever it stands, from any position, with any registers and stack, and
whatever the subject and the range are.

A loop has no check for empty iterations only if its body needs a byte. Whenever a run of such a
loop, having left its start, is there again, it is further on. -/
theorem part_advances (hparse : Pattern.parse pattern options enc dialect limits = .ok parsed)
    (hslots : parsed.groups < program.slotCount) (hencoding : ctx.encoding = enc)
    (hfits : regs.Fits program) :
    (∀ (part : Tree) (ids later : Ids) (code : Code) (base : Int),
      part.PartOf parsed.tree → (prepare enc dialect part).emit enc ids = .ok (code, later) →
      program.Provides later → program.CodeAt base code →
      ∀ (pos last : Nat) (after : Registers) (above below : List Entry),
        Control.RunsAlone program ctx base code below (.running base pos regs below)
          (.running (base + code.length) last after (above ++ below)) →
        pos ≤ last ∧ (0 < part.minLength → pos < last)) ∧
    ∀ (body : Tree) (greedy : Bool) (ids mid later : Ids) (inner : Code) (base : Int),
      body.PartOf (prepare enc dialect parsed.tree) → body.emit enc ids = .ok (inner, mid) →
      emitStar greedy (body.minLength == 0) inner mid =
        .ok (Code.star greedy none inner, later) →
      program.Provides later → program.CodeAt base (Code.star greedy none inner) →
      ∀ (pos last : Nat) (after : Registers) (above below : List Entry) (next : Control),
        (Control.running base pos regs below).next program ctx = some next →
        Control.RunsAlone program ctx base (Code.star greedy none inner) below next
          (.running base last after (above ++ below)) →
        pos < last := by
  subst hencoding
  have htree := wellFormed_parsed hparse hslots
  constructor
  · intro part ids later code base hpart hemit hprovides hat pos last after above below hrun
    have hwell : (prepare ctx.encoding dialect part).WellFormed program.slotCount :=
      wellFormed_prepared (hpart.wellFormed htree)
    have hlast := Node.runsAlone_emit hwell hemit hprovides hat hfits hrun
    refine ⟨(Node.outcomes_advances ctx _ _ _ hlast).le, fun hmin => ?_⟩
    -- The code is that of the prepared part, but its least length is the same.
    rw [← minLength_prepare ctx.encoding dialect part] at hmin
    exact Node.outcomes_consumes ctx _ hwell.bounded hmin _ _ hlast
  · intro body greedy ids mid later inner base hpart hemit hstar hprovides hat pos last after above
      below next hnext hrun
    have hwell := hpart.wellFormed (wellFormed_prepared htree)
    rcases emitStar_ok hstar with ⟨-, -, hlater, -⟩
    have hbehind : Control.ReturnsBehind program ctx base (Code.star greedy none inner) below pos
        next :=
      Control.returnsBehind_start hwell hemit (hprovides.of_extends hlater)
        (minLength_pos_of_star hstar) hat _ (Nat.lt_succ_self _) (Nat.le_refl pos) hfits
        List.suffix_rfl .bottom hnext
    exact hbehind last after above hrun

/-- The text that a pattern repeats any number of times. -/
def textRepeated : Tree → Option (List UInt8)
  | .repeated 0 none true (.literal bytes false) => some bytes
  | _ => none

theorem textRepeated_eq_some {tree : Tree} {bytes : List UInt8}
    (h : textRepeated tree = some bytes) : tree = .repeated 0 none true (.literal bytes false) := by
  rw [textRepeated.eq_def] at h
  split at h
  · cases h
    rfl
  · cases h

/-- The loop of the pattern `(?:ab)*` takes the first two letters of `abab`, and is at its start
again behind them. -/
theorem part_advances_letters :
    let pattern : List UInt8 := [40, 63, 58, 97, 98, 41, 42]
    let body : Tree := .literal [97, 98] false
    let inner : Code := [.leaf (.literal [97, 98])]
    ∃ parsed program,
      Pattern.parse pattern {} .utf8 Dialect.standard {} = .ok parsed ∧
      ofParsed pattern {} .utf8 Dialect.standard parsed = .ok program ∧
      body.PartOf parsed.tree ∧ body.PartOf (prepare .utf8 Dialect.standard parsed.tree) ∧
      body.emit .utf8 {} = .ok (inner, {}) ∧
      emitStar true (body.minLength == 0) inner {} = .ok (Code.star true none inner, {}) ∧
      program.CodeAt 0 (Code.star true none inner) ∧
      let ctx := Context.make program #[97, 98, 97, 98] 4 4 {}
      let regs := Registers.fresh program
      Control.RunsAlone program ctx 1 inner [] (.running 1 0 regs []) (.running 2 2 regs []) ∧
      (0 ≤ 2 ∧ (0 < body.minLength → 0 < 2)) ∧
      (Control.running 0 0 regs []).next program ctx = some (.running 1 0 regs [.choice 3 0]) ∧
      Control.RunsAlone program ctx 0 (Code.star true none inner) []
        (.running 1 0 regs [.choice 3 0]) (.running 0 2 regs ([.choice 3 0] ++ [])) ∧ 0 < 2 := by
  intro pattern body inner
  -- What is computed: the trees, the program, and how many groups it has.
  have hcomputed : ((Pattern.parse pattern {} .utf8 Dialect.standard {}).toOption.any fun parsed =>
      (ofParsed pattern {} .utf8 Dialect.standard parsed).toOption.any fun program =>
        decide (textRepeated parsed.tree = some [97, 98] ∧
          textRepeated (prepare .utf8 Dialect.standard parsed.tree) = some [97, 98] ∧
          program.code.toList = Code.star true none inner ++ [.finish] ∧
          parsed.groups < program.slotCount)) = true := by
    decide +kernel
  rcases exists_program hcomputed with ⟨parsed, program, hparse, hprogram, hholds⟩
  rcases of_decide_eq_true hholds with ⟨hread, hprepared, hcode, hslots⟩
  -- The body is found again in both trees.
  have hbody : body.PartOf parsed.tree := by
    rw [textRepeated_eq_some hread]
    exact .repeated .whole
  have hloop : body.PartOf (prepare .utf8 Dialect.standard parsed.tree) := by
    rw [textRepeated_eq_some hprepared]
    exact .repeated .whole
  have hat : program.CodeAt 0 (Code.star true none inner) := ⟨[], _, hcode, rfl⟩
  have hinner : program.CodeAt 1 (inner ++ [.jump (-2)]) := hat.tail
  have hprovides : program.Provides {} := ⟨List.nil_prefix, Nat.zero_le _⟩
  let ctx := Context.make program #[97, 98, 97, 98] 4 4 {}
  let regs := Registers.fresh program
  have hutf8 : ctx.encoding = .utf8 := (ofParsed_ok hparse hprogram).2.1
  -- The two steps of the loop: over the literal, and back from the jump to the fork.
  have hliteral : ∀ stack, (Control.running 1 0 regs stack).next program ctx =
      some (.running 2 2 regs stack) := fun _ => Control.next_leaf hinner.head
  have hfork : (Control.running 0 0 regs []).next program ctx =
      some (.running 1 0 regs [.choice 3 0]) := Control.next_fork hat.head
  have halone : Control.RunsAlone program ctx 1 inner [] (.running 1 0 regs [])
      (.running 2 2 regs []) :=
    .single (.inl ⟨⟨by decide, by decide, List.nil_suffix⟩, hliteral _⟩)
  have hagain : Control.RunsAlone program ctx 0 (Code.star true none inner) []
      (.running 1 0 regs [.choice 3 0]) (.running 0 2 regs ([.choice 3 0] ++ [])) := by
    refine .head (.inl ⟨⟨by decide, by decide, List.nil_suffix⟩, hliteral _⟩) ?_
    exact .single (.inl ⟨⟨by decide, by decide, List.nil_suffix⟩,
      Control.next_jump hinner.tail.head⟩)
  have hadvances := part_advances hparse hslots hutf8 (Registers.fits_fresh program)
  -- Both halves of the theorem, applied at these runs.
  have hahead := hadvances.1 body {} {} inner 1 hbody rfl hprovides hinner.left 0 2 regs [] []
    halone
  have hfurther := hadvances.2 body true {} {} {} inner 0 hloop rfl rfl hprovides hat 0 2 regs
    [.choice 3 0] [] _ hfork hagain
  exact ⟨parsed, program, hparse, hprogram, hbody, hloop, rfl, rfl, hat, halone, hahead, hfork,
    hagain, hfurther⟩

end Program

end RegexEngine
