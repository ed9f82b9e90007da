import RegexEngine.Proofs.Emission.Alone
import RegexEngine.Proofs.LookBehind.Length

/-!
# Where Look-Behinds End

A look-behind steps back over the characters of its body, runs the body from there, and takes it for
granted that the body ends where the look-behind has started. No instruction checks this.

It is so if the subject is a text of the encoding and the look-behind starts between two of its
characters. Then the steps back are undone by as many steps ahead, and the body of a look-behind has
a known length, so it takes just these.

## Main definitions

* `Node.EndsHere`: A text that a body takes ends where the steps back over it have started.
* `Node.bodyDone`: Where the code of a look-behind has its body behind it.

## Theorems

* `runsAlone_length`: A run of the code of a tree with a known length ends so many characters ahead.
* `lookBehind_stop`: The body of a look-behind ends where the look-behind has started.
* `outcomes_behind_iff`: A look-behind tells whether there is a text for its body that ends there.
* `part_ends`: All of this, for the trees that a pattern is read to.
-/

namespace RegexEngine

namespace Control

variable {program : Program} {ctx : Context} {base : Int} {code : Code} {below : List Entry}
  {c d e : Control}

/-- Controls at different addresses are different. -/
theorem running_ne {pc pc' : Int} {pos pos' : Nat} {regs regs' : Registers}
    {stack stack' : List Entry} (h : pc ≠ pc') :
    running pc pos regs stack ≠ running pc' pos' regs' stack' :=
  fun heq => h (running.inj heq).1

/-- A run of some code alone that does not end at a control goes on with the next step. -/
theorem RunsAlone.next (h : RunsAlone program ctx base code below c d) (hne : d ≠ c)
    (hinside : Within base (base + code.length) below c) (hnext : c.next program ctx = some e) :
    RunsAlone program ctx base code below e d := by
  have hone : Stays program ctx (· = c) c e := .single ⟨rfl, hnext⟩
  refine h.through hone ?_ hne
  rintro c rfl
  exact hinside

/-- Having left the code, the run falls back. -/
theorem RunsAlone.left {pos : Nat} {regs : Registers} {stack : List Entry}
    (h : RunsAlone program ctx base code below (.running (base + code.length) pos regs stack) d)
    (hne : d ≠ .running (base + code.length) pos regs stack) :
    RunsAlone program ctx base code below (.falling regs stack) d := by
  rcases Relation.ReflTransGen.cases_head h with
    rfl | ⟨e, ⟨hinside, -⟩ | ⟨_, _, _, heq, rfl⟩, hlater⟩
  · exact absurd rfl hne
  · exact absurd hinside.2.1 (Int.lt_irrefl _)
  · injection heq with _ _ hregs hstack
    rw [hregs, hstack]
    exact hlater

/-- What falls back over entries that are no choices, and then below the code, never runs again. -/
theorem RunsAlone.not_running {regs after : Registers} {above : List Entry} {pc : Int} {last : Nat}
    (saved : List Entry) (hsaved : ∀ entry ∈ saved, ∀ pc pos, entry ≠ .choice pc pos) :
    ¬ RunsAlone program ctx base code below (.falling regs (saved ++ below))
      (.running pc last after (above ++ below)) := by
  intro h
  induction saved generalizing regs with
  | nil => cases h.not_below (List.suffix_append _ _)
  | cons entry rest ih =>
      rw [List.forall_mem_cons] at hsaved
      exact ih hsaved.2 (h.next nofun (List.suffix_append _ _) (next_falling hsaved.1))

end Control

namespace Node

variable {program : Program} {ctx : Context} {tree body : Tree} {n : Nat} {ids later : Ids}
  {code inner : Code} {base : Int} {regs : Registers} {below stack : List Entry}

/-- The text that a body takes when it starts `n` characters back ends where the way back has
started. -/
def EndsHere (ctx : Context) (n : Nat) (body : Tree) (place last : Place) : Prop :=
  last.pos = place.pos ∧ ∃ first, ctx.encoding.stepBack ctx.subject 0 n place.pos = some first ∧
    last ∈ body.outcomes ctx (place.moveTo first)

/-- Whatever the literals of a body with a known length are, if they are texts of the encoding, the
body ends where the steps back over its characters have started. -/
theorem endsHere_of_outcomes (hclean : ctx.Clean) {place last : Place} {first : Nat}
    (hbetween : ctx.Between place.pos) (hliterals : body.TestsTexts ctx.encoding)
    (hlength : body.charLength ctx.encoding = some n)
    (hback : ctx.encoding.stepBack ctx.subject 0 n place.pos = some first)
    (hlast : last ∈ body.outcomes ctx (place.moveTo first)) : EndsHere ctx n body place last := by
  have hahead := outcomes_measures hclean.range body hliterals hlength _ _ hlast
  have hundone := Encoding.stepAhead_stepBack hclean.valid hbetween hback
  exact ⟨(Option.some.inj (hundone.symm.trans hahead)).symm, first, hback, hlast⟩

/-- Where the code of a look-behind has its body behind it. Then a positive one cuts back to its
mark, and a negated one undoes everything and fails. -/
def bodyDone (negated : Bool) (base : Int) (code : Code) : Int :=
  base + code.length - if negated then 2 else 1

/-- A run of the code of a tree with a known length ends so many characters ahead. -/
theorem runsAlone_length (hwell : tree.WellFormed program.slotCount)
    (hemit : tree.emit ctx.encoding ids = .ok (code, later)) (hprovides : program.Provides later)
    (hat : program.CodeAt base code) (hfits : regs.Fits program) (hrange : ctx.range ≤ ctx.stop)
    (hliterals : tree.TestsTexts ctx.encoding) (hlength : tree.charLength ctx.encoding = some n)
    {pos last : Nat} {after : Registers} {above : List Entry}
    (hrun : Control.RunsAlone program ctx base code below (.running base pos regs below)
      (.running (base + code.length) last after (above ++ below))) :
    ctx.encoding.stepAhead ctx.subject n pos = some last :=
  outcomes_measures hrange tree hliterals hlength _ _
    (runsAlone_emit hwell hemit hprovides hat hfits hrun)

section Body

variable (hwell : body.WellFormed program.slotCount)
  (hemit : body.emit ctx.encoding ids = .ok (inner, later)) (hprovides : program.Provides later)
  (hfits : regs.Fits program) (hclean : ctx.Clean) (hliterals : body.TestsTexts ctx.encoding)
  (hlength : body.charLength ctx.encoding = some n) {pos : Nat} (hbetween : ctx.Between pos)

include hwell hemit hprovides hfits hclean hliterals hlength hbetween

/-- A run that steps back and comes through a body with a known length either falls back to where it
was, or comes to the end of the body at the position where it has started. It does not matter in
which code the body stands. -/
theorem runsAlone_back {back mid : Int} (hback : program.instrAt back = some (.stepBack n))
    (hinner : program.CodeAt (back + 1) inner) (hmid : mid = back + 1 + inner.length)
    (hlow : base ≤ back) (hhigh : mid < base + code.length) (hbelow : below <:+ stack)
    {last : Nat} {final : Registers} {top : List Entry}
    (hrun : Control.RunsAlone program ctx base code below (.running back pos regs stack)
      (.running mid last final top)) :
    Control.RunsAlone program ctx base code below (.falling regs stack)
        (.running mid last final top) ∨
      ∃ after above, EndsHere ctx n body ⟨pos, regs.spans⟩ ⟨pos, after.spans⟩ ∧
        Saves inner regs above after ∧
        Control.RunsAlone program ctx base code below (.running mid pos after (above ++ stack))
          (.running mid last final top) := by
  subst hmid
  -- The run starts inside of the code, at the step back.
  have hstart : Control.Within base (base + code.length) below (.running back pos regs stack) :=
    ⟨hlow, by omega, hbelow⟩
  have hnext : (Control.running back pos regs stack).next program ctx = _ :=
    Control.next_stepBack hback
  -- Near the start of the text there are not enough characters, and the run falls back at once.
  rcases hstep : ctx.encoding.stepBack ctx.subject 0 n pos with _ | first
  · rw [hstep] at hnext
    exact .inl (hrun.next (Control.running_ne (by omega)) hstart hnext)
  · rw [hstep] at hnext
    replace hrun := hrun.next (Control.running_ne (by omega)) hstart hnext
    -- What the body runs through is part of what the run runs through, and the end of the body is
    -- not.
    have hinside : ∀ c, Control.Within (back + 1) (back + 1 + inner.length) stack c →
        Control.Within base (base + code.length) below c :=
      fun c hc => hc.mono (by omega) (by omega) hbelow
    have houtside : ¬ Control.Within (back + 1) (back + 1 + inner.length) stack
        (.running (back + 1 + inner.length) last final top) := by
      rintro ⟨-, hlt, -⟩
      omega
    have hhands := handsOn_emit hwell hemit hprovides hinner hfits first stack
    -- If the body fails, the run falls back to where it was. If it hands on a place, that place is
    -- the one where the run has started, since the body is as long as the step back.
    generalize hplaces : body.outcomes ctx ⟨first, regs.spans⟩ = places at hhands
    cases hhands with
    | fails comes => exact .inl (hrun.through comes hinside houtside)
    | @leaves _ found after above rest comes spans saves again =>
        have hmem : found ∈ body.outcomes ctx ((⟨pos, regs.spans⟩ : Place).moveTo first) :=
          hplaces ▸ List.mem_cons_self
        have hends := endsHere_of_outcomes hclean hbetween hliterals hlength hstep hmem
        have hfound : found = ⟨pos, after.spans⟩ := by
          rw [spans]
          exact congrArg (Place.mk · found.spans) hends.1
        rw [hfound] at hends comes
        exact .inr ⟨after, above, hends, saves, hrun.through comes hinside houtside⟩

variable {id last : Nat} {after : Registers} {above : List Entry}
  (hslot : .mark id ∉ Code.slots inner)

include hslot

/-- The run of a positive look-behind comes to the cut where it has started. -/
theorem runsAlone_cut (hat : program.CodeAt base (Code.look id false (.stepBack n :: inner)))
    (hrun : Control.RunsAlone program ctx base (Code.look id false (.stepBack n :: inner)) below
      (.running base pos regs below)
      (.running (base + 2 + inner.length) last after (above ++ below))) :
    EndsHere ctx n body ⟨pos, regs.spans⟩ ⟨last, after.spans⟩ := by
  have hsize := Code.length_look id false (.stepBack n :: inner)
  rw [if_neg Bool.false_ne_true, List.length_cons] at hsize
  -- The instructions of the look-behind are the mark, the step back, the body and the cut.
  have hmark : program.instrAt base = some (.mark id true) := hat.left.head
  have hcut : program.instrAt (base + 2 + inner.length) = some (.cut id true) := by
    refine (hat.right ?_).head
    simp only [List.length_cons]
    omega
  have hback : program.instrAt (base + 1) = some (.stepBack n) := hat.left.tail.head
  have hinner : program.CodeAt (base + 1 + 1) inner := hat.left.tail.tail
  replace hrun := hrun.next (Control.running_ne (by omega))
    ⟨Int.le_refl _, by omega, List.suffix_rfl⟩ (Control.next_mark hmark)
  rcases runsAlone_back hwell hemit hprovides hfits hclean hliterals hlength hbetween hback hinner
    (by omega) (by omega) (by omega) (List.suffix_cons _ _) hrun with
      hfalls | ⟨found, more, hends, hsaves, hcomes⟩
  · -- The body has failed, and there is only the mark.
    exact absurd hfalls (Control.RunsAlone.not_running [.mark id pos] (by simp))
  · by_cases heq : Control.running (base + 2 + inner.length) last after (above ++ below) =
        .running (base + 2 + inner.length) pos found (more ++ .mark id pos :: below)
    · injection heq with _ hlast hafter
      rw [hlast, hafter]
      exact hends
    · -- Behind the cut the run falls back, and the choices of the body are dropped.
      have hnext : (Control.running (base + 2 + inner.length) pos found
          (more ++ .mark id pos :: below)).next program ctx =
            some (.running (base + 2 + inner.length + 1) pos found
              (more.filter Entry.isSaved ++ below)) := by
        rw [Control.next_cut hcut, cutTo_mark (hsaves.not_isMark hslot) []]
        rfl
      replace hcomes := hcomes.next heq ⟨by omega, by omega, suffix_above ..⟩ hnext
      rw [show base + 2 + (inner.length : Int) + 1 =
        base + (Code.look id false (.stepBack n :: inner)).length by omega] at hcomes
      refine absurd (hcomes.left (Control.running_ne (by omega)))
        (Control.RunsAlone.not_running _ fun entry hentry => ?_)
      rintro pc pos rfl
      cases (List.mem_filter.mp hentry).2

/-- The run of a negated look-behind comes to where its body is undone where it has started. -/
theorem runsAlone_rewind (hat : program.CodeAt base (Code.look id true (.stepBack n :: inner)))
    (hrun : Control.RunsAlone program ctx base (Code.look id true (.stepBack n :: inner)) below
      (.running base pos regs below)
      (.running (base + 3 + inner.length) last after (above ++ below))) :
    EndsHere ctx n body ⟨pos, regs.spans⟩ ⟨last, after.spans⟩ := by
  have hsize := Code.length_look id true (.stepBack n :: inner)
  rw [if_pos rfl, List.length_cons] at hsize
  -- The instructions are the mark, the choice to go on, the step back, the body, and the two that
  -- undo it and fail.
  have hmark : program.instrAt base = some (.mark id false) := hat.left.head
  have hfork : program.instrAt (base + 1) = some (.fork (inner.length + 1 + 3)) :=
    hat.left.tail.head
  have hback : program.instrAt (base + 1 + 1) = some (.stepBack n) := hat.left.tail.tail.head
  have hinner : program.CodeAt (base + 1 + 1 + 1) inner := hat.left.tail.tail.tail
  have hend : program.CodeAt (base + 3 + inner.length) [.rewind id, .fail] := by
    refine hat.right ?_
    simp only [List.length_cons]
    omega
  obtain ⟨exit, hexit⟩ : ∃ exit : Int, exit = base + 1 + (inner.length + 1 + 3) := ⟨_, rfl⟩
  replace hrun := hrun.next (Control.running_ne (by omega))
    ⟨Int.le_refl _, by omega, List.suffix_rfl⟩ (Control.next_mark hmark)
  replace hrun := hrun.next (Control.running_ne (by omega))
    ⟨by omega, by omega, List.suffix_cons _ _⟩ (Control.next_fork hfork)
  rw [← hexit] at hrun
  rcases runsAlone_back hwell hemit hprovides hfits hclean hliterals hlength hbetween hback hinner
    (by omega) (by omega) (by omega) ((List.suffix_cons _ _).trans (List.suffix_cons _ _)) hrun with
      hfalls | ⟨found, more, hends, hsaves, hcomes⟩
  · -- The body has failed, the run leaves the code, and falls back over the mark.
    replace hfalls := hfalls.next nofun ((List.suffix_cons _ _).trans (List.suffix_cons _ _))
      (Control.next_choice _ _)
    rw [show exit = base + (Code.look id true (.stepBack n :: inner)).length by omega] at hfalls
    exact absurd (hfalls.left (Control.running_ne (by omega)))
      (Control.RunsAlone.not_running [.mark id pos] (by simp))
  · by_cases heq : Control.running (base + 3 + inner.length) last after (above ++ below) =
        .running (base + 3 + inner.length) pos found
          (more ++ .choice exit pos :: .mark id pos :: below)
    · injection heq with _ hlast hafter
      rw [hlast, hafter]
      exact hends
    · -- Everything is undone down to the mark, and the look-behind fails.
      have hall : Saves inner regs (more ++ [.choice exit pos]) found :=
        (Saves.choice inner regs exit pos).trans hsaves
      have hstack : more ++ Entry.choice exit pos :: .mark id pos :: below =
          (more ++ [.choice exit pos]) ++ .mark id pos :: below := by
        rw [List.append_assoc]
        rfl
      rw [hstack] at heq hcomes
      have hnext : (Control.running (base + 3 + inner.length) pos found
          ((more ++ [.choice exit pos]) ++ .mark id pos :: below)).next program ctx =
            some (.running (base + 3 + inner.length + 1) pos regs below) := by
        rw [Control.next_rewind hend.head, rewindTo_mark found (hall.not_isMark hslot), hall.undoes]
        rfl
      replace hcomes := hcomes.next heq ⟨by omega, by omega, suffix_above ..⟩ hnext
      replace hcomes := hcomes.next (Control.running_ne (by omega))
        ⟨by omega, by omega, List.suffix_rfl⟩ (Control.next_fail hend.tail.head)
      exact absurd hcomes (Control.RunsAlone.not_running [] nofun)

end Body

/-- The run of a look-behind comes to where its body has succeeded, and there the body has ended
where the look-behind has started. -/
theorem lookBehind_stop {negated : Bool}
    (hwell : (look .behind negated body).WellFormed program.slotCount)
    (hemit : (look .behind negated body).emit ctx.encoding ids = .ok (code, later))
    (hprovides : program.Provides later) (hat : program.CodeAt base code)
    (hfits : regs.Fits program) (hclean : ctx.Clean) (hliterals : body.TestsTexts ctx.encoding)
    {pos : Nat} (hbetween : ctx.Between pos) :
    ∃ n id, body.charLength ctx.encoding = some n ∧
      program.instrAt (bodyDone negated base code) =
        some (if negated then .rewind id else .cut id true) ∧
      ∀ last after above below, Control.RunsAlone program ctx base code below
          (.running base pos regs below)
          (.running (bodyDone negated base code) last after (above ++ below)) →
        EndsHere ctx n body ⟨pos, regs.spans⟩ ⟨last, after.spans⟩ := by
  rcases emit_behind hemit with ⟨n, inner, hlength, hinner, rfl⟩
  have hbody : body.WellFormed program.slotCount := ⟨hwell.bounded, hwell.distinct, hwell.numbers⟩
  -- The mark is smaller than every mark in the body.
  have hslot : Slot.mark ids.marks ∉ Code.slots inner := fun hslot =>
    Nat.not_succ_le_self _ ((numbered_emit body hinner).2.slot hslot).1
  have hsize := Code.length_look ids.marks negated (.stepBack n :: inner)
  refine ⟨n, ids.marks, hlength, ?_⟩
  cases negated with
  | false =>
      have hdone : bodyDone false base (Code.look ids.marks false (.stepBack n :: inner)) =
          base + 2 + inner.length := by
        rw [bodyDone, hsize]
        simp only [List.length_cons, Bool.false_eq_true, if_false]
        omega
      rw [hdone]
      refine ⟨(hat.right ?_).head, fun last after above below hrun => ?_⟩
      · simp only [List.length_cons]
        omega
      · exact runsAlone_cut hbody hinner hprovides hfits hclean hliterals hlength hbetween hslot hat
          hrun
  | true =>
      have hdone : bodyDone true base (Code.look ids.marks true (.stepBack n :: inner)) =
          base + 3 + inner.length := by
        rw [bodyDone, hsize]
        simp only [List.length_cons, if_true]
        omega
      rw [hdone]
      refine ⟨(hat.right ?_).head, fun last after above below hrun => ?_⟩
      · simp only [List.length_cons]
        omega
      · exact runsAlone_rewind hbody hinner hprovides hfits hclean hliterals hlength hbetween hslot
          hat hrun

/-- A look-behind holds, or if negated fails, just where a text that ends there is one for its body.
-/
theorem outcomes_behind_iff {negated : Bool} (hclean : ctx.Clean) {place : Place}
    (hbetween : ctx.Between place.pos) (hliterals : body.TestsTexts ctx.encoding)
    (hlength : body.charLength ctx.encoding = some n) :
    ((look .behind negated body).outcomes ctx place).isEmpty = negated ↔
      ∃ last, EndsHere ctx n body place last := by
  -- Negated or not, what the test finds out is whether the body has an outcome.
  have hholds : ∀ ways : Ways, (Ways.look negated ways place).isEmpty = negated ↔
      ∃ last, last ∈ ways place := by
    intro ways
    rw [Ways.look]
    cases ways place <;> cases negated <;> simp
  rw [outcomes, hlength, hholds]
  refine exists_congr fun last => ⟨fun hlast => ?_, fun hends => ?_⟩
  -- The body has been tried from the place that lies as many characters back.
  · rcases List.mem_flatMap.mp hlast with ⟨mid, hmid, hlast⟩
    rw [Ways.stepBack, Option.mem_toList, Option.map_eq_some_iff] at hmid
    rcases hmid with ⟨first, hback, rfl⟩
    exact endsHere_of_outcomes hclean hbetween hliterals hlength hback hlast
  · rcases hends.2 with ⟨first, hback, hlast⟩
    refine List.mem_flatMap.mpr ⟨place.moveTo first, ?_, hlast⟩
    rw [Ways.stepBack, hback]
    exact List.mem_singleton_self _

end Node

namespace Program

variable {pattern : List UInt8} {options : Options} {enc : Encoding} {dialect : Dialect}
  {limits : Limits} {parsed : Pattern.Parsed} {program : Program} {ctx : Context} {pos : Nat}
  {regs : Registers}

/-- Where parts of a pattern end. Of a tree that is read from a pattern, take any part, and take any
subject that is a text of the encoding and a position between two of its characters.

If the part has a known length, then wherever its code stands in a program, a run of the code ends
as many characters ahead. The code of a look-behind has its body behind it only if the body, having
stepped back over its own length, has ended where the look-behind has started; and the look-behind
holds, or if negated fails, just if there is such a text. -/
theorem part_ends (hparse : Pattern.parse pattern options enc dialect limits = .ok parsed)
    (hslots : parsed.groups < program.slotCount) (hencoding : ctx.encoding = enc)
    (hclean : ctx.Clean) (hbetween : ctx.Between pos) (hfits : regs.Fits program) :
    (∀ (part : Tree) (n : Nat) (ids later : Ids) (code : Code) (base : Int),
      part.PartOf parsed.tree → part.charLength enc = some n →
      (prepare enc dialect part).emit enc ids = .ok (code, later) →
      program.Provides later → program.CodeAt base code →
      ∀ (last : Nat) (after : Registers) (above below : List Entry),
        Control.RunsAlone program ctx base code below (.running base pos regs below)
          (.running (base + code.length) last after (above ++ below)) →
        enc.stepAhead ctx.subject n pos = some last) ∧
    ∀ (negated : Bool) (body : Tree) (ids later : Ids) (code : Code) (base : Int),
      (Node.look .behind negated body).PartOf (prepare enc dialect parsed.tree) →
      (Node.look .behind negated body).emit enc ids = .ok (code, later) →
      program.Provides later → program.CodeAt base code →
      ∃ n id, body.charLength enc = some n ∧
        program.instrAt (Node.bodyDone negated base code) =
          some (if negated then .rewind id else .cut id true) ∧
        (∀ (last : Nat) (after : Registers) (above below : List Entry),
          Control.RunsAlone program ctx base code below (.running base pos regs below)
            (.running (Node.bodyDone negated base code) last after (above ++ below)) →
          Node.EndsHere ctx n body ⟨pos, regs.spans⟩ ⟨last, after.spans⟩) ∧
        (((Node.look .behind negated body).outcomes ctx ⟨pos, regs.spans⟩).isEmpty = negated ↔
          ∃ last, Node.EndsHere ctx n body ⟨pos, regs.spans⟩ last) := by
  subst hencoding
  -- The literals of a pattern are texts of its encoding, since the pattern is one.
  have hliterals : parsed.tree.TestsTexts ctx.encoding := fun bytes hmem =>
    Node.isValid_of_mem_leaves parsed.tree (Pattern.parse_ok hparse).2.2 hmem
  constructor
  -- The first half is about the part as it is compiled, with look-behinds divided, which keeps the
  -- length and the literals.
  · intro part n ids later code base hpart hlength hemit hprovides hat last after above below hrun
    have hwell := hpart.wellFormed (wellFormed_parsed hparse hslots)
    refine Node.runsAlone_length (wellFormed_prepared hwell) hemit hprovides hat hfits hclean.range
      ?_ ?_ hrun
    · rw [Node.TestsTexts, leaves_prepare]
      exact fun bytes hmem => hliterals bytes (hpart.leaves hmem)
    · rw [charLength_prepare (Node.hasCode_of_emit _ hemit), hlength]
  · intro negated body ids later code base hpart hemit hprovides hat
    -- A look-behind of the compiled tree is well formed as part of it, and its literals are among
    -- those of the pattern.
    have hwell := hpart.wellFormed (wellFormed_prepared (wellFormed_parsed hparse hslots))
    have hbody : body.TestsTexts ctx.encoding := fun bytes hmem =>
      hliterals bytes (leaves_prepare _ dialect parsed.tree ▸ hpart.leaves hmem)
    rcases Node.lookBehind_stop hwell hemit hprovides hat hfits hclean hbody hbetween with
      ⟨n, id, hlength, hinstr, hstop⟩
    exact ⟨n, id, hlength, hinstr, hstop,
      Node.outcomes_behind_iff hclean hbetween hbody hlength⟩

/-- The text that a pattern starts with a look-behind for. -/
def textBehind : Tree → Option (List UInt8)
  | .sequence (.look .behind false (.literal bytes false) :: _) => some bytes
  | _ => none

theorem textBehind_eq_some {tree : Tree} {bytes : List UInt8} (h : textBehind tree = some bytes) :
    ∃ rest, tree = .sequence (.look .behind false (.literal bytes false) :: rest) := by
  rw [textBehind.eq_def] at h
  split at h
  · cases h
    exact ⟨_, rfl⟩
  · cases h

/-- The pattern `(?<=ab)c` at the end of the first two letters of `abc`. -/
theorem part_ends_letters :
    let pattern : List UInt8 := [40, 63, 60, 61, 97, 98, 41, 99]
    let body : Tree := .literal [97, 98] false
    let look : Tree := .look .behind false body
    let code : Code := [.mark 0 true, .stepBack 2, .leaf (.literal [97, 98]), .cut 0 true]
    ∃ parsed program,
      Pattern.parse pattern {} .utf8 Dialect.standard {} = .ok parsed ∧
      ofParsed pattern {} .utf8 Dialect.standard parsed = .ok program ∧
      look.PartOf (prepare .utf8 Dialect.standard parsed.tree) ∧ body.PartOf parsed.tree ∧
      look.emit .utf8 {} = .ok (code, { marks := 1 }) ∧
      program.CodeAt 0 code ∧
      let ctx := Context.make program #[97, 98, 99] 2 3 {}
      let regs := Registers.fresh program
      ctx.Clean ∧ ctx.Between 0 ∧ ctx.Between 2 ∧
      Control.RunsAlone program ctx 2 [.leaf (.literal [97, 98])] [] (.running 2 0 regs [])
        (.running 3 2 regs []) ∧
      Encoding.utf8.stepAhead #[97, 98, 99] 2 0 = some 2 ∧
      Control.RunsAlone program ctx 0 code [] (.running 0 2 regs [])
        (.running (Node.bodyDone false 0 code) 2 regs ([.mark 0 2] ++ [])) ∧
      Node.EndsHere ctx 2 body ⟨2, regs.spans⟩ ⟨2, regs.spans⟩ := by
  intro pattern body look code
  -- What is computed: the trees, the program, and how many groups it has.
  have hcomputed : ((Pattern.parse pattern {} .utf8 Dialect.standard {}).toOption.any fun parsed =>
      (ofParsed pattern {} .utf8 Dialect.standard parsed).toOption.any fun program =>
        decide (textBehind parsed.tree = some [97, 98] ∧
          textBehind (prepare .utf8 Dialect.standard parsed.tree) = some [97, 98] ∧
          program.code.toList = code ++ [.leaf (.literal [99]), .finish] ∧
          parsed.groups < program.slotCount)) = true := by
    decide +kernel
  rcases exists_program hcomputed with ⟨parsed, program, hparse, hprogram, hholds⟩
  rcases of_decide_eq_true hholds with ⟨hread, hprepared, hcode, hslots⟩
  have hencoding := (ofParsed_ok hparse hprogram).2.1
  -- The look-behind and its body are found again in the trees.
  have hlook : look.PartOf (prepare .utf8 Dialect.standard parsed.tree) := by
    rcases textBehind_eq_some hprepared with ⟨rest, heq⟩
    rw [heq]
    exact .item List.mem_cons_self .whole
  have hbody : body.PartOf parsed.tree := by
    rcases textBehind_eq_some hread with ⟨rest, heq⟩
    rw [heq]
    exact .item List.mem_cons_self (.look .whole)
  have hat : program.CodeAt 0 code := ⟨[], _, hcode, rfl⟩
  have hprovides : program.Provides { marks := 1 } := ⟨List.nil_prefix, Nat.zero_le _⟩
  let ctx := Context.make program #[97, 98, 99] 2 3 {}
  let regs := Registers.fresh program
  -- The context of the run, and where the characters of `abc` end.
  have hutf8 : ctx.encoding = .utf8 := hencoding
  have hclean : ctx.Clean := by
    refine ⟨?_, (by decide : 3 ≤ 3)⟩
    rw [hutf8]
    exact (by decide : Encoding.utf8.isValid [97, 98, 99] = true)
  have hfirst : ctx.Between 0 := by
    rw [Context.Between, hutf8]
    exact ⟨(by decide : 0 ≤ 3), (by decide : Encoding.utf8.isValid [97, 98, 99] = true)⟩
  have hthird : ctx.Between 2 := by
    rw [Context.Between, hutf8]
    exact ⟨(by decide : 2 ≤ 3), (by decide : Encoding.utf8.isValid [99] = true)⟩
  -- Two characters before the third one lies the start.
  have hback : ctx.encoding.stepBack ctx.subject 0 2 2 = some 0 := by
    rw [hutf8]
    exact (by decide : Encoding.utf8.stepBack #[97, 98, 99] 0 2 2 = some 0)
  have hends := fun {pos} (hbetween : ctx.Between pos) =>
    part_ends hparse hslots hencoding hclean hbetween (Registers.fits_fresh program)
  -- The literal is the third instruction and is the code of the body too, so both runs take the
  -- same step over it.
  have hliteral : ∀ stack, (Control.running 2 0 regs stack).next program ctx =
      some (.running 3 2 regs stack) := fun _ => Control.next_leaf hat.tail.tail.head
  -- The run of the look-behind is the mark, the step back and the literal; that of the body is the
  -- literal alone.
  have hrun : Control.RunsAlone program ctx 0 code [] (.running 0 2 regs [])
      (.running 3 2 regs [.mark 0 2]) := by
    have hstepBack : (Control.running 1 2 regs [.mark 0 2]).next program ctx = _ :=
      Control.next_stepBack hat.tail.head
    rw [hback] at hstepBack
    refine .head (.inl ⟨⟨by decide, by decide, List.nil_suffix⟩, Control.next_mark hat.head⟩) ?_
    refine .head (.inl ⟨⟨by decide, by decide, List.nil_suffix⟩, hstepBack⟩) ?_
    exact .single (.inl ⟨⟨by decide, by decide, List.nil_suffix⟩, hliteral _⟩)
  have halone : Control.RunsAlone program ctx 2 [.leaf (.literal [97, 98])] []
      (.running 2 0 regs []) (.running 3 2 regs []) :=
    .single (.inl ⟨⟨by decide, by decide, List.nil_suffix⟩, hliteral _⟩)
  have hinner : program.CodeAt 2 ([.leaf (.literal [97, 98])] ++ [.cut 0 true]) := hat.tail.tail
  -- Both halves of the theorem, applied at these runs.
  have hahead := (hends hfirst).1 body 2 {} {} [.leaf (.literal [97, 98])] 2 hbody rfl rfl
    ⟨List.nil_prefix, Nat.zero_le _⟩ hinner.left 2 regs [] [] halone
  rcases (hends hthird).2 false body {} _ code 0 hlook rfl hprovides hat with
    ⟨n, id, hlength, -, hstop, -⟩
  cases hlength
  exact ⟨parsed, program, hparse, hprogram, hlook, hbody, rfl, hat, hclean, hfirst, hthird, halone,
    hahead, hrun, hstop 2 regs [.mark 0 2] [] hrun⟩

end Program

end RegexEngine
