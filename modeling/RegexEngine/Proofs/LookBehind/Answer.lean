import RegexEngine.Proofs.Emission.Alone
import RegexEngine.Proofs.LookBehind.Sealed
import RegexEngine.Proofs.Search.Alike

/-!
# What a Look-Behind Gives Back

A positive look-behind gives nothing back that one of its parts has found: it has one outcome at
most for every part. If it is not divided, that is one outcome at most on the whole. If it is
divided, it is an alternation of look-behinds, so when what is behind it fails, the parts that have
not been tried yet are tried, and may hold with other groups closed.

So a divided look-behind is no atomic part, but nobody can tell if those of its parts that hold at
the same place leave the same spans.

## Main definitions

* `Program.sealedFirst`: A pattern that starts with a look-behind, with the look-behind sealed.

## Theorems

* `lookBehind_parts`: What the code of a look-behind does, and when it may be sealed.
* `lookBehind_givesBack`: A look-behind whose parts close different groups must not be sealed.
-/

namespace RegexEngine

namespace Program

variable {enc : Encoding} {dialect : Dialect}

/-- A look-behind for which there is code is divided as far as it has to be, in every dialect. -/
theorem prepare_lookBehind {body : Tree} {ids later : Ids} {code : Code}
    (h : (prepare enc dialect (.look .behind false body)).emit enc ids = .ok (code, later)) :
    prepare enc dialect (.look .behind false body) =
      Node.divide enc false (prepare enc dialect body) := by
  cases huneven : dialect.unevenLookBehind with
  | true => simp only [prepare, huneven, if_true, Node.divideAll]
  | false =>
      simp only [prepare, huneven, Bool.false_eq_true, if_false] at h ⊢
      rcases Node.emit_behind h with ⟨n, -, hlength, -, -⟩
      exact (Node.divide_of_known hlength false).symm

/-- Wherever the code of a positive look-behind stands, it hands on what the parts of the
look-behind lead to. -/
theorem handsOn_lookBehind {program : Program} {ctx : Context} {body : Tree} {ids later : Ids}
    {code : Code} {base : Int} {regs : Registers} (hwell : body.WellFormed program.slotCount)
    (hemit : (prepare ctx.encoding dialect (.look .behind false body)).emit ctx.encoding ids =
      .ok (code, later))
    (hprovides : program.Provides later) (hat : program.CodeAt base code)
    (hfits : regs.Fits program) (pos : Nat) (below : List Entry) :
    Control.HandsOn program ctx base code regs below (.running base pos regs below)
      (Node.foundParts ctx ⟨pos, regs.spans⟩ (prepare ctx.encoding dialect body)) := by
  have hlook : (Node.look .behind false body).WellFormed program.slotCount :=
    ⟨hwell.bounded, hwell.distinct, hwell.numbers⟩
  rw [← Node.outcomes_divide, ← prepare_lookBehind hemit]
  exact Node.handsOn_emit (wellFormed_prepared hlook) hemit hprovides hat hfits pos below

variable {pattern : List UInt8} {options : Options} {readLimits : Limits}
  {parsed : Pattern.Parsed} {program : Program}

/-- What the code of a look-behind does, and when it may be sealed. Of a pattern that was read, take
the program.

Wherever the code of a positive look-behind stands in it, whatever the registers and the stack are,
it hands on one place for each part of the look-behind that holds, in order. The first of them is
the one that the first alternative leads to that holds. There is no other one if the look-behind is
not divided, and they are all the same if it has no groups.

And if look-behinds are sealed, whose parts lead to the same place wherever they hold, all searches
and attempts are answered alike. -/
theorem lookBehind_parts
    (hparse : Pattern.parse pattern options enc dialect readLimits = .ok parsed)
    (hprogram : ofParsed pattern options enc dialect parsed = .ok program) :
    (∀ (body : Tree) (ids later : Ids) (code : Code) (base : Int),
      body.WellFormed program.slotCount →
      (prepare enc dialect (.look .behind false body)).emit enc ids = .ok (code, later) →
      program.Provides later → program.CodeAt base code →
      ∀ (ctx : Context) (regs : Registers) (pos : Nat) (below : List Entry),
        ctx.encoding = enc → regs.Fits program →
        let whole := prepare enc dialect body
        let found := Node.foundParts ctx ⟨pos, regs.spans⟩
        Control.HandsOn program ctx base code regs below (.running base pos regs below)
          (found whole) ∧
        (found whole).head? = whole.alternatives.findSome? (fun node => (found node).head?) ∧
        ((whole.charLength enc).isSome → (found whole).length ≤ 1) ∧
        (body.groupNumbers = [] → ∀ last ∈ found whole, last = ⟨pos, regs.spans⟩)) ∧
    ∀ tree : Tree,
      Relation.ReflTransGen (Node.Seals enc (Node.LeavesOne enc)) (prepare enc dialect parsed.tree)
        tree →
      ∃ code ids, tree.emit enc {} = .ok (code, ids) ∧
        ∀ limits : Limits, limits.Off →
          program.AnswersLike limits (program.withLayout code ids) := by
  rcases ofParsed_ok hparse hprogram with ⟨hmeans, hencoding, -⟩
  constructor
  -- The divided look-behind hands on the places of its parts. A part with a known length holds in
  -- one way at most, and without groups nothing but the position could be changed.
  · rintro body ids later code base hwell hemit hprovides hat ctx regs pos below rfl hfits
    intro whole found
    refine ⟨handsOn_lookBehind hwell hemit hprovides hat hfits pos below,
      Node.head?_foundParts ctx _ _, fun hknown => ?_, fun hgroups => ?_⟩
    · rcases Option.isSome_iff_exists.mp hknown with ⟨n, hn⟩
      have hone : found whole = _ := Node.foundParts_of_known hn
      rw [hone]
      exact Option.length_toList_le
    · exact Node.foundParts_of_groupless ((groupNumbers_prepare _ dialect body).trans hgroups)
  · intro tree hseals
    -- Sealing keeps that there is code, and the outcomes of the whole tree up to those that come
    -- again.
    rcases Node.keeps_seals hseals hmeans.wellFormed with ⟨hwell, hcode, halike⟩
    rcases hmeans.emits with ⟨made, numbered, hmade, -⟩
    rw [hencoding] at hmade
    rcases (Node.emit_iff tree {}).mpr (hcode.mp (Node.hasCode_of_emit _ hmade)) with
      ⟨code, ids, hemit⟩
    refine ⟨code, ids, hemit, fun limits hlimits => ?_⟩
    -- The two programs differ in their code alone, so it is enough to compare the outcomes of their
    -- trees.
    refine answersLike_of_alike (twins_withLayout program code ids) hlimits fun ctx hctx => ?_
    have hother : (program.withLayout code ids).Means tree :=
      ⟨hwell, code, ids, hencoding ▸ hemit, rfl, rfl, rfl⟩
    exact ⟨_, _, hmeans.explored hctx, hother.explored hctx, Node.outcomes_advances ctx _,
      halike ctx (hctx.trans hencoding)⟩

/-- The tree of a pattern that starts with a positive look-behind, prepared and with the look-behind
sealed, and the body of the look-behind. -/
def sealedFirst (enc : Encoding) : Tree → Option (Tree × Tree)
  | .sequence (.look .behind false body :: rest) =>
    some (body, .sequence (.atomic (Node.divide enc false (body.divideAll enc)) ::
      Node.divideAllOf enc rest))
  | _ => none

/-- A tree whose first item is a look-behind has it sealed, if look-behinds are divided. -/
theorem seals_sealedFirst {kind : Tree → Prop} {tree body other : Tree}
    (huneven : dialect.unevenLookBehind = true) (h : sealedFirst enc tree = some (body, other))
    (hkind : kind (body.divideAll enc)) :
    Node.Seals enc kind (prepare enc dialect tree) other := by
  rw [sealedFirst.eq_def] at h
  split at h
  · cases h
    rw [prepare, if_pos huneven]
    exact @Node.Seals.item enc kind [] _ _ _ (.here hkind)
  · cases h

/-- The pattern `(?<=b|ab)c`, whose look-behind is divided, holds in two ways behind `ab`, and may
be sealed. -/
theorem lookBehind_parts_letters :
    let pattern : List UInt8 := [40, 63, 60, 61, 98, 124, 97, 98, 41, 99]
    let body : Tree := .alternation [.literal [98] false, .literal [97, 98] false]
    ∃ parsed program code later tree other ids,
      Pattern.parse pattern {} .utf8 Dialect.standard {} = .ok parsed ∧
      ofParsed pattern {} .utf8 Dialect.standard parsed = .ok program ∧
      body.WellFormed program.slotCount ∧
      (prepare .utf8 Dialect.standard (.look .behind false body)).emit .utf8 {} =
        .ok (code, later) ∧
      program.Provides later ∧ program.CodeAt 0 code ∧ body.charLength .utf8 = none ∧
      (let ctx := Context.make program #[97, 98, 99] 2 3 {}
       let regs := Registers.fresh program
       let found := Node.foundParts ctx ⟨2, regs.spans⟩ (prepare .utf8 Dialect.standard body)
       found.length = 2 ∧
       Control.HandsOn program ctx 0 code regs [] (.running 0 2 regs []) found) ∧
      Relation.ReflTransGen (Node.Seals .utf8 (Node.LeavesOne .utf8))
        (prepare .utf8 Dialect.standard parsed.tree) tree ∧
      tree.emit .utf8 {} = .ok (other, ids) ∧ program.code ≠ (program.withLayout other ids).code ∧
      program.AnswersLike Limits.off (program.withLayout other ids) := by
  intro pattern body
  -- What is computed: the program, its sealed copy, and where the code of the look-behind stands.
  have hcomputed : ((Pattern.parse pattern {} .utf8 Dialect.standard {}).toOption.any fun parsed =>
      (ofParsed pattern {} .utf8 Dialect.standard parsed).toOption.any fun program =>
        (sealedFirst .utf8 parsed.tree).any fun found =>
          (found.2.emit .utf8 {}).toOption.any fun made =>
            ((prepare .utf8 Dialect.standard (.look .behind false body)).emit .utf8
              {}).toOption.any fun here =>
                decide (program.code ≠ (program.withLayout made.1 made.2).code ∧
                  (found.1.divideAll .utf8).groupNumbers = [] ∧
                  program.code.toList = [] ++ here.1 ++ program.code.toList.drop here.1.length ∧
                  here.2.loops.toList <+: program.loops.toList ∧
                  here.2.emptyChecks ≤ program.emptyChecks ∧
                  (Node.foundParts (Context.make program #[97, 98, 99] 2 3 {})
                    ⟨2, (Registers.fresh program).spans⟩
                    (prepare .utf8 Dialect.standard body)).length = 2)) = true := by
    decide +kernel
  -- The results of the computation are given names; what fails to compile contradicts it.
  rcases exists_program hcomputed with ⟨parsed, program, hparse, hprogram, hholds⟩
  rcases Option.any_eq_true _ _ |>.mp hholds with ⟨⟨inner, tree⟩, hsealed, hmade⟩
  rcases hother : tree.emit .utf8 {} with cause | ⟨other, ids⟩
  · simp only [hother] at hmade
    cases hmade
  rcases hemit : (prepare .utf8 Dialect.standard (.look .behind false body)).emit .utf8 {} with
    cause | ⟨code, later⟩
  · simp only [hother, hemit] at hmade
    cases hmade
  simp only [hother, hemit] at hmade
  rcases of_decide_eq_true hmade with ⟨hcode, hgroups, hat, hloops, hchecks, hlength⟩
  -- The hypotheses of the theorem, from what was computed.
  have hat : program.CodeAt 0 code := ⟨[], _, hat, rfl⟩
  have hprovides : program.Provides later := ⟨hloops, hchecks⟩
  have hwell : body.WellFormed program.slotCount :=
    ⟨by simp [body, Node.Bounded, Node.BoundedAll], by decide, by
      simp [body, Node.groupNumbers, Node.groupNumbersOf]⟩
  have hseals := Relation.ReflTransGen.single
    (@seals_sealedFirst .utf8 Dialect.standard _ _ _ _ rfl hsealed
      (Node.leavesOne_of_groupless .utf8 hgroups))
  -- Both halves of the theorem, applied at this look-behind and at this sealed tree.
  have hboth := lookBehind_parts hparse hprogram
  have hencoding := (ofParsed_ok hparse hprogram).2.1
  refine ⟨parsed, program, code, later, tree, other, ids, hparse, hprogram, hwell, rfl, hprovides,
    hat, by decide, ⟨hlength, ?_⟩, hseals, hother, hcode, ?_⟩
  · exact (hboth.1 body {} later code 0 hwell hemit hprovides hat
      (Context.make program #[97, 98, 99] 2 3 {}) (.fresh program) 2 [] hencoding
      (Registers.fits_fresh program)).1
  · rcases hboth.2 tree hseals with ⟨made, numbered, hmade, halike⟩
    rw [hother] at hmade
    cases hmade
    exact halike Limits.off ⟨rfl, rfl, rfl⟩

/-- A look-behind whose parts close different groups must not be sealed. The pattern
`(?<=(b)|a(b))c\2` matches at the third character of `abcb`: the first part holds, but the group
that is asked for has been closed by the second part only, which is tried when the reference has
failed. If the look-behind is sealed, there is no match. -/
theorem lookBehind_givesBack :
    let pattern : List UInt8 :=
      [40, 63, 60, 61, 40, 98, 41, 124, 97, 40, 98, 41, 41, 99, 92, 50]
    ∃ parsed program tree code ids,
      Pattern.parse pattern {} .utf8 Dialect.standard {} = .ok parsed ∧
      ofParsed pattern {} .utf8 Dialect.standard parsed = .ok program ∧
      Node.Seals .utf8 (fun _ => True) (prepare .utf8 Dialect.standard parsed.tree) tree ∧
      tree.emit .utf8 {} = .ok (code, ids) ∧
      (program.matchWithin 100 #[97, 98, 99, 98] 2 (Region.ofCapacity 3) {} Limits.off).1 =
        .ok (some 2) ∧
      ((program.withLayout code ids).matchWithin 100 #[97, 98, 99, 98] 2 (Region.ofCapacity 3) {}
        Limits.off).1 = .ok none := by
  intro pattern
  -- Both programs and the two answers are computed.
  have hcomputed : ((Pattern.parse pattern {} .utf8 Dialect.standard {}).toOption.any fun parsed =>
      (ofParsed pattern {} .utf8 Dialect.standard parsed).toOption.any fun program =>
        (sealedFirst .utf8 parsed.tree).any fun found =>
          (found.2.emit .utf8 {}).toOption.any fun made =>
            decide ((program.matchWithin 100 #[97, 98, 99, 98] 2 (Region.ofCapacity 3) {}
                Limits.off).1 = .ok (some 2) ∧
              ((program.withLayout made.1 made.2).matchWithin 100 #[97, 98, 99, 98] 2
                (Region.ofCapacity 3) {} Limits.off).1 = .ok none)) = true := by
    decide +kernel
  rcases exists_program hcomputed with ⟨parsed, program, hparse, hprogram, hholds⟩
  rcases Option.any_eq_true _ _ |>.mp hholds with ⟨⟨body, tree⟩, hsealed, hmade⟩
  rcases hemit : tree.emit .utf8 {} with cause | ⟨code, ids⟩
  · simp only [hemit] at hmade
    cases hmade
  · simp only [hemit] at hmade
    exact ⟨parsed, program, tree, code, ids, hparse, hprogram,
      seals_sealedFirst rfl hsealed trivial, hemit, of_decide_eq_true hmade⟩

end Program

end RegexEngine
