import RegexEngine.Proofs.Search.Alike

/-!
# Copies or a Counter

A repeat with the same bound on either side, of two or more, is written out as so many copies of its
body if these are short, and keeps a counter otherwise. Nobody can tell the one from the other,
whatever the body is like: it may match the empty text, close groups, look ahead and behind, give
nothing back, or hold further loops, which the copies then share.

A counted loop ends early after an iteration that has consumed nothing, but not before it has run as
often as it has to, and with the same bound on either side there is nothing left to end then. So its
outcomes are those of the copies, in the same order and each as often.

## Main definitions

* `Scheme.CopiedAtWill`: Repeats with one bound may be written out or counted.
* `Program.countedExact`: A single repeat with one bound, counted.

## Theorems

* `repeated_copiedAtWill`: Such repeats have the same outcomes.
* `explored_copied`: A program with a layout of its tree explores the outcomes of the tree.
* `answersLike_copied`: No call depends on whether a repeat is written out or counted.
-/

namespace RegexEngine

/-- The scheme is the one that the size of the body decides on, or the repeat has the same bound on
either side, of two or more, and is written out as copies or counted. -/
def Scheme.CopiedAtWill (enc : Encoding) (lower : Nat) (upper : Option Nat) (body : Tree)
    (scheme : Scheme) : Prop :=
  scheme.Chosen enc lower upper body ∨
    2 ≤ lower ∧ upper = some lower ∧ (scheme = copies lower ∨ scheme = counted)

/-- Whichever of the schemes it is, it suits the bounds of the repeat. -/
theorem Scheme.CopiedAtWill.suits {enc : Encoding} {lower : Nat} {upper : Option Nat} {body : Tree}
    {scheme : Scheme} (h : scheme.CopiedAtWill enc lower upper body) :
    scheme.Suits lower upper := by
  rcases h with rfl | ⟨hlower, rfl, rfl | rfl⟩
  · exact choose_suits _ _ _
  · exact ⟨rfl, rfl⟩
  · intro hzero
    injection hzero
    omega

/-- A repeat has the same outcomes by whichever of the schemes it is run. -/
theorem Node.repeated_copiedAtWill {ctx : Context} {lower : Nat} {upper : Option Nat}
    {greedy : Bool} {body : Tree} {scheme : Scheme}
    (hscheme : scheme.CopiedAtWill ctx.encoding lower upper body) :
    scheme.Suits lower upper ∧
      Ways.repeated ctx scheme lower upper greedy (body.outcomes ctx) =
        (Node.repeated lower upper greedy body).outcomes ctx := by
  have hsuits := hscheme.suits
  refine ⟨hsuits, ?_⟩
  rw [outcomes]
  rcases hscheme with rfl | ⟨-, rfl, -⟩
  · rfl
  · rw [Ways.repeated_exact hsuits, Ways.repeated_exact (Scheme.choose_suits _ _ _)]

namespace Program

/-- A program with a layout of its tree explores the outcomes of the tree, whichever of the repeats
with one bound are written out. -/
theorem explored_copied {program : Program} {tree : Tree} {ctx : Context} {code : Code} {ids : Ids}
    (hwell : tree.WellFormed program.slotCount)
    (hlayout : tree.Layout ctx.encoding (Scheme.CopiedAtWill ctx.encoding) {} code ids) :
    (program.withLayout code ids).Explored ctx (tree.outcomes ctx) := by
  have hnumbered := (Node.Layout.numbered tree hlayout).2
  have hslots : tree.WellFormed (program.withLayout code ids).slotCount := hwell
  rcases Node.realizes_layout Ways.congruence_eq (Node.leading_le ctx)
    (fun h _ hways => hways ▸ Node.repeated_copiedAtWill h) tree hslots (fun _ _ => trivial)
    hlayout ⟨List.prefix_rfl, Nat.le_refl _⟩ with ⟨_, rfl, hrealizes⟩
  refine ⟨fun pc instr hinstr => ?_, fun regs pos hfits => ?_⟩
  · exact Program.instr_inside_of_numbered rfl rfl rfl hslots.numbers hnumbered hinstr
  · exact ⟨_, Program.explores_code rfl (fun hends => hnumbered _ hends) (hrealizes _)
      (Registers.records_clear _ hfits pos)⟩

variable {pattern : List UInt8} {options : Options} {enc : Encoding} {dialect : Dialect}
  {readLimits : Limits} {parsed : Pattern.Parsed} {program : Program} {code : Code} {ids : Ids}

/-- No call depends on whether a repeat is written out as copies or counted. Of a pattern that was
read, the program is compared with one whose code is any other layout of the same tree, in which
repeats with the same bound on either side, of two or more, are written out or counted at will,
whatever their bodies are. Without limits, both answer every search and every attempt at a position
alike, and report the same spans. -/
theorem answersLike_copied
    (hparse : Pattern.parse pattern options enc dialect readLimits = .ok parsed)
    (hprogram : ofParsed pattern options enc dialect parsed = .ok program)
    (hlayout : (prepare enc dialect parsed.tree).Layout enc (Scheme.CopiedAtWill enc) {} code ids)
    {limits : Limits} (hlimits : limits.Off) :
    program.AnswersLike limits (program.withLayout code ids) := by
  rcases ofParsed_ok hparse hprogram with ⟨hmeans, rfl, -⟩
  refine answersLike_of_alike (twins_withLayout program code ids) hlimits ?_
  intro ctx hencoding
  rw [← hencoding] at hmeans hlayout
  exact ⟨_, _, hmeans.explored hencoding, explored_copied hmeans.wellFormed hlayout,
    Node.outcomes_advances ctx _, .refl _⟩

/-- The code of a tree that is no more than a repeat with the same bound on either side, of two or
more, with the repeat counted. -/
def countedExact (enc : Encoding) : Tree → Option (Code × Ids)
  | .repeated lower upper greedy body =>
    match body.emit enc {} with
    | .error _ => none
    | .ok (inner, mid) =>
      if 2 ≤ lower ∧ upper = some lower then
        some (Code.counted mid.loops.size greedy inner,
          { mid with loops := mid.loops.push ⟨lower, upper⟩ })
      else none
  | _ => none

/-- With the repeat counted, it is a layout of the tree. -/
theorem layout_countedExact {tree : Tree} (h : countedExact enc tree = some (code, ids)) :
    tree.Layout enc (Scheme.CopiedAtWill enc) {} code ids := by
  rw [countedExact.eq_def] at h
  split at h
  · rename_i lower upper greedy body
    rcases hemit : body.emit enc {} with cause | ⟨inner, mid⟩
    · rw [hemit] at h
      cases h
    · simp only [hemit, Option.ite_none_right_eq_some] at h
      rcases h with ⟨⟨hlower, rfl⟩, hcounted⟩
      cases hcounted
      refine .repeated (fun hzero => ?_) ?_ (Or.inr ⟨hlower, rfl, Or.inr rfl⟩) .counted
      · injection hzero
        omega
      · exact Node.Layout.mono (fun _ _ _ _ => Or.inl) body (Node.layout_emit body hemit)
  · cases h

/-- The pattern `(?:(a?)\1(?=(b)?)(?>b*)){2}`, written out by its own program and counted by the
other one. -/
theorem answersLike_copied_groups :
    let pattern : List UInt8 := [40, 63, 58, 40, 97, 63, 41, 92, 49, 40, 63, 61, 40, 98, 41, 63, 41,
      40, 63, 62, 98, 42, 41, 41, 123, 50, 125]
    ∃ parsed program code ids,
      Pattern.parse pattern {} .utf8 Dialect.standard {} = .ok parsed ∧
      ofParsed pattern {} .utf8 Dialect.standard parsed = .ok program ∧
      (prepare .utf8 Dialect.standard parsed.tree).Layout .utf8 (Scheme.CopiedAtWill .utf8) {} code
        ids ∧
      Limits.off.Off ∧ program.code ≠ (program.withLayout code ids).code ∧
      program.AnswersLike Limits.off (program.withLayout code ids) := by
  intro pattern
  have hcomputed : ((Pattern.parse pattern {} .utf8 Dialect.standard {}).toOption.any fun parsed =>
      (ofParsed pattern {} .utf8 Dialect.standard parsed).toOption.any fun program =>
        (countedExact .utf8 (prepare .utf8 Dialect.standard parsed.tree)).any fun counted =>
          decide (program.code ≠ (program.withLayout counted.1 counted.2).code)) = true := by
    decide +kernel
  rcases exists_program hcomputed with ⟨parsed, program, hparse, hprogram, hholds⟩
  rcases Option.any_eq_true _ _ |>.mp hholds with ⟨⟨code, ids⟩, hcounted, hcode⟩
  have hoff : Limits.off.Off := ⟨rfl, rfl, rfl⟩
  have hlayout := layout_countedExact hcounted
  exact ⟨parsed, program, code, ids, hparse, hprogram, hlayout, hoff, of_decide_eq_true hcode,
    answersLike_copied hparse hprogram hlayout hoff⟩

end Program

end RegexEngine
