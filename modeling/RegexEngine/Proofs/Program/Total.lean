import RegexEngine.Program.Compile
import RegexEngine.Proofs.Reading.Total

/-!
# Every Pattern Is Compiled or Refused

A pattern that has been read is turned into code unless one of its look-behinds has no known length.
That is a fault of the pattern as well, though it is reported without an offset. The other thing
that code cannot be made of, an alternation of no alternatives, is not read from any pattern, and
dividing look-behinds makes none.

So the compiler has an answer for every pattern, and the answer is a program, or that the pattern
nests too deeply, or a fault of the pattern.

## Main definitions

* `Emit.NeedsLength`: What is made can fail for look-behinds only.

## Theorems

* `sound_divideAll`: Dividing look-behinds keeps trees sound.
* `needsLength_emit`: There is code for a sound tree, but for its look-behinds.
* `compile_total`: What the compiler answers.
-/

namespace RegexEngine

namespace Node

variable {ρ : Type} {size : Nat} {items : List (Node ρ)}

theorem soundAll_map {f : Node ρ → Node ρ}
    (ih : ∀ node ∈ items, node.Sound size → (f node).Sound size) (h : SoundAll size items) :
    SoundAll size (items.map f) := by
  rw [soundAll_iff] at h ⊢
  exact List.forall_mem_map.mpr fun node hmem => ih node hmem (h node hmem)

theorem sound_divide (enc : Encoding) (negated : Bool) (node : Node ρ) (h : node.Sound size) :
    (divide enc negated node).Sound size := by
  induction node with
  | alternation items ih =>
      rw [divide, divideEach_eq_map]
      have hitems := soundAll_map ih h.2
      split
      · exact h
      · split
        · exact hitems
        · exact ⟨mt List.map_eq_nil_iff.mp h.1, hitems⟩
  | _ => exact h

/-- Dividing look-behinds keeps trees sound. -/
theorem sound_divideAll (enc : Encoding) (node : Node ρ) (h : node.Sound size) :
    (divideAll enc node).Sound size := by
  induction node with
  | look direction negated body ih =>
      cases direction with
      | ahead => exact ih h
      | behind => exact sound_divide enc negated _ (ih h)
  | repeated lower upper greedy body ih => exact ih h
  | group number body ih => exact ih h
  | atomic body ih => exact ih h
  | sequence items ih =>
      rw [divideAll, divideAllOf_eq_map]
      exact soundAll_map ih h
  | alternation items ih =>
      rw [divideAll, divideAllOf_eq_map]
      exact ⟨mt List.map_eq_nil_iff.mp h.1, soundAll_map ih h.2⟩
  | _ => exact h

end Node

namespace Emit

variable {α β : Type}

/-- If this cannot be made, it is for a look-behind whose length is not known. -/
def NeedsLength (make : Emit α) : Prop :=
  ∀ ids cause, make ids = .error cause → cause = .invalidLookBehind

theorem needsLength_pure (a : α) : NeedsLength (pure a) := by
  rintro ids cause ⟨⟩

theorem NeedsLength.bind {make : Emit α} {next : α → Emit β} (h : NeedsLength make)
    (hnext : ∀ a, NeedsLength (next a)) : NeedsLength (make >>= next) := by
  intro ids cause herror
  simp only [Bind.bind, StateT.bind] at herror
  rcases hmake : make ids with failure | ⟨a, mid⟩
  · rw [hmake] at herror
    cases herror
    exact h ids _ hmake
  · rw [hmake] at herror
    exact hnext a mid cause herror

theorem needsLength_newMark : NeedsLength newMark := by
  rintro ids cause ⟨⟩

theorem needsLength_star (greedy mayBeEmpty : Bool) (body : Code) :
    NeedsLength (emitStar greedy mayBeEmpty body) := by
  intro ids cause herror
  cases mayBeEmpty with
  | false => cases herror
  | true => cases herror

/-- A repeat can be made of whatever its body is. -/
theorem needsLength_repeat (bounds : Bounds) (greedy mayBeEmpty : Bool) (body : Code) :
    NeedsLength (emitRepeat bounds greedy mayBeEmpty body) := by
  rw [emitRepeat]
  split
  · exact needsLength_pure _
  · exact needsLength_pure _
  · exact needsLength_pure _
  · exact needsLength_star greedy mayBeEmpty body
  · exact (needsLength_star greedy mayBeEmpty body).bind fun _ => needsLength_pure _
  · exact needsLength_pure _
  · rintro ids cause ⟨⟩

end Emit

namespace Node

open Emit

variable {enc : Encoding} {size : Nat}

theorem needsLength_emitEach {items : List Tree} (h : SoundAll size items)
    (ih : ∀ node ∈ items, node.Sound size → NeedsLength (node.emit enc)) :
    NeedsLength (emitEach enc items) := by
  induction items with
  | nil => exact needsLength_pure _
  | cons node rest ihrest =>
      refine (ih node List.mem_cons_self h.1).bind fun _ => ?_
      refine (ihrest h.2 fun t ht => ih t (List.mem_cons_of_mem _ ht)).bind fun _ => ?_
      exact needsLength_pure _

/-- There is code for every sound tree, unless the length of a look-behind is not known. -/
theorem needsLength_emit (tree : Tree) (h : tree.Sound size) : NeedsLength (tree.emit enc) := by
  induction tree using Node.induct with
  | literal | set | anyChar | word | backref | anchor => exact needsLength_pure _
  | repeated lower upper greedy body ih =>
      rw [emit]
      split
      · exact needsLength_pure _
      · exact (ih h).bind fun _ => needsLength_repeat _ _ _ _
  | group number body ih => exact (ih h).bind fun _ => needsLength_pure _
  | atomic body ih =>
      exact needsLength_newMark.bind fun _ => (ih h).bind fun _ => needsLength_pure _
  | look direction negated body ih =>
      -- In both directions the body comes between a mark and what looks back to the mark.
      have hbody : ∀ {finish : Nat → Code → Code},
          NeedsLength (newMark >>= fun id => body.emit enc >>= fun code => pure (finish id code)) :=
        needsLength_newMark.bind fun _ => (ih h).bind fun _ => needsLength_pure _
      cases direction with
      | ahead => exact hbody
      | behind =>
          rw [emit]
          split
          · rintro ids cause ⟨⟩
            rfl
          · exact hbody
  | sequence items ih => exact (needsLength_emitEach h ih).bind fun _ => needsLength_pure _
  | alternation items ih =>
      rw [emit]
      split
      · -- An alternation without alternatives is not sound.
        rename_i hempty
        exact absurd (List.isEmpty_iff.mp hempty) h.1
      · exact (needsLength_emitEach h.2 ih).bind fun _ => needsLength_pure _

end Node

namespace Program

/-- A refusal that blames the pattern becomes the error of a fault or of the nesting. -/
theorem readError_blames {failure : Pattern.Failure} {size : Nat} (h : failure.Blames size) :
    readError failure = .nestingLimit ∨ ∃ cause name offset,
      readError failure = .pattern cause name offset ∧ -999 ≤ cause.code ∧ cause.code ≤ -100 ∧
        ∀ n, offset = some n → n ≤ size := by
  rw [readError]
  split
  · rename_i hfault
    simp only [Cause.isPatternFault, Bool.and_eq_true, decide_eq_true_eq] at hfault
    refine Or.inr ⟨_, _, _, rfl, by omega, hfault.1, ?_⟩
    rintro n ⟨⟩
    exact h.offset
  · rename_i hnested
    rcases h.cause with hfault | hnesting
    · exact absurd hfault hnested
    · rw [hnesting]
      exact Or.inl rfl

/-- The compiler answers for every pattern, under all options, in both encodings, in every dialect
and with all limits. The answer is a program, or that the pattern nests too deeply, or a fault of
the pattern, whose offset lies in the pattern or at its end if there is one; so the reader had come
to that position, since the offset of any text that is no end of the pattern lies behind it. A fault
of the compiler itself, such as a text that is asked for out of bounds, is none of the answers. -/
theorem compile_total (pattern : List UInt8) (given : Options) (enc : Encoding) (dialect : Dialect)
    (limits : Limits) :
    (∃ program, compile pattern given enc dialect limits = .ok program) ∨
      compile pattern given enc dialect limits = .error .nestingLimit ∨
      ∃ cause name offset,
        compile pattern given enc dialect limits = .error (.pattern cause name offset) ∧
          -999 ≤ cause.code ∧ cause.code ≤ -100 ∧ ∀ n, offset = some n → n ≤ pattern.length := by
  have hends := Pattern.ends_parse pattern (optionsFor given dialect) enc dialect limits
  rw [compile]
  generalize Pattern.parse pattern (optionsFor given dialect) enc dialect limits = result
    at hends ⊢
  cases result with
  | error failure =>
      rcases readError_blames hends with herror | ⟨cause, name, offset, herror, hcode⟩
      · exact Or.inr (Or.inl (congrArg Except.error herror))
      · exact Or.inr (Or.inr ⟨cause, name, offset, congrArg Except.error herror, hcode⟩)
  | ok parsed =>
      have hsound : (prepare enc dialect parsed.tree).Sound pattern.length := by
        rw [prepare]
        split
        · exact Node.sound_divideAll enc _ hends
        · exact hends
      simp only [ofParsed]
      rcases hemit : (prepare enc dialect parsed.tree).emit enc {} with cause | ⟨code, ids⟩
      · obtain rfl := Node.needsLength_emit _ hsound _ _ hemit
        -- The tree does not tell where in the pattern a look-behind stands.
        refine Or.inr (Or.inr ⟨.invalidLookBehind, none, none, rfl, by decide, by decide, ?_⟩)
        rintro n ⟨⟩
      · exact Or.inl ⟨_, rfl⟩

/-- In the comment `(?#\` the backslash hides a byte that is not there. What is reported is the end
of the pattern. -/
example : compile [40, 63, 35, 92] {} .utf8 .standard {} =
    .error (.pattern .endInGroup none (some 4)) := rfl

end Program

end RegexEngine
