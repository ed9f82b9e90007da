import RegexEngine.Proofs.Program.Compile

/-!
# Attempts and Outcomes

An attempt that no limit interrupts answers with an outcome of the tree. Which one depends on the
options: the first outcome is what backtracking comes to first, and if the longest match is wanted,
it is the first one of those that end furthest on. What the answer reports is that outcome as a
whole, the end of the match and the spans of all groups.

The tree is the one whose code was made. Where the alternatives of a look-behind may differ in
length, the look-behind stands for those that it is divided into, and a match can come back to the
second of them after the first one has held. A look-behind that kept the first outcome of its body
would not.

## Main definitions

* `Context.choose`: The outcome that an attempt answers with.

## Theorems

* `attempt_outcome`: An attempt answers with an outcome of the tree.
* `attempt_not_first_outcome`: The longest match need not be the first outcome, and a divided
  look-behind may hold where its first outcome is of no use.
-/

namespace RegexEngine

/-- The outcome that an attempt answers with. -/
def Context.choose (ctx : Context) (places : List Place) : Option Place :=
  if ctx.options.findLongest then Place.furthest places else places.head?

namespace Program

variable {pattern : List UInt8} {options : Options} {enc : Encoding} {dialect : Dialect}
  {limits searchLimits : Limits} {parsed : Pattern.Parsed} {program : Program}

/-- An attempt without limits, of a program that is that of a tree. -/
theorem Means.attempt_chooses {tree : Tree} {ctx : Context} {m : Machine} (h : program.Means tree)
    (hencoding : ctx.encoding = program.encoding) (hlimits : searchLimits.Off)
    (hempty : ctx.options.findNotEmpty = false) (hfits : m.registers.Fits program)
    (hbest : m.best = none) (start : Nat) :
    ∃ bound, ∀ fuel, bound ≤ fuel → ∃ verdict,
      m.attempt program searchLimits ctx fuel start = .ok verdict ∧
      (matchOf verdict).map Found.place = ctx.choose (tree.outcomes ctx (.fresh start)) ∧
      ∀ found, matchOf verdict = some found → found.start = start := by
  -- A match is refused for being empty only where the options ask for it.
  have hadmits : ∀ pos, ¬ ctx.Refuses start pos := by
    rintro pos ⟨hrefuses, -⟩
    rw [hempty] at hrefuses
    cases hrefuses
  rcases h.attempt_comes hencoding hfits searchLimits start with ⟨bound, hbound⟩
  refine ⟨bound, fun fuel hfuel => ?_⟩
  rcases hbound fuel hfuel with ⟨cause, hraises, -⟩ | ⟨verdict, hattempt, hcomes⟩
  · exact absurd hraises (hlimits.not_raises cause)
  refine ⟨verdict, hattempt, ?_⟩
  rw [Context.choose]
  cases hlongest : ctx.options.findLongest with
  | false => exact Verdict.comes_first hcomes hbest hadmits hlongest
  | true =>
      have hnone : ∀ other, m.best = some other → other.StartsAt start := by
        intro other hother
        rw [hbest] at hother
        cases hother
      have hfurthest := Verdict.comes_furthest hcomes hnone hadmits hlongest
        fun place hplace => (Node.outcomes_advances ctx tree (.fresh start) place hplace).le
      rw [hbest] at hfurthest
      exact hfurthest

/-- An attempt without limits, at any position and with any subject, comes to the outcome of the
tree that is first, or if the longest match is wanted to the first one of those that end furthest
on. -/
theorem attempt_outcome (hparse : Pattern.parse pattern options enc dialect limits = .ok parsed)
    (hprogram : ofParsed pattern options enc dialect parsed = .ok program)
    (hlimits : searchLimits.Off) (subject : Array UInt8) (searchStart range : Nat) {given : Options}
    (hempty : (given.union program.options).findNotEmpty = false) {m : Machine}
    (hfits : m.registers.Fits program) (hbest : m.best = none) (start : Nat) :
    let ctx := Context.make program subject searchStart range given
    ∃ bound, ∀ fuel, bound ≤ fuel → ∃ verdict,
      m.attempt program searchLimits ctx fuel start = .ok verdict ∧
      (matchOf verdict).map Found.place =
        ctx.choose ((prepare enc dialect parsed.tree).outcomes ctx (.fresh start)) ∧
      ∀ found, matchOf verdict = some found → found.start = start :=
  (ofParsed_ok hparse hprogram).1.attempt_chooses rfl hlimits hempty hfits hbest start

/-- The longest match of `a|ab` in the text `ab`. -/
theorem attempt_outcome_alternatives :
    ∃ parsed program, Pattern.parse [97, 124, 97, 98] {} .utf8 Dialect.standard {} = .ok parsed ∧
      ofParsed [97, 124, 97, 98] {} .utf8 Dialect.standard parsed = .ok program ∧
      Limits.off.Off ∧
      (Options.union { findLongest := true } program.options).findNotEmpty = false ∧
      (Machine.initial program 0).registers.Fits program ∧
      (Machine.initial program 0).best = none ∧
      ∃ bound, ∀ fuel, bound ≤ fuel → ∃ verdict,
        (Machine.initial program 0).attempt program Limits.off
          (Context.make program #[97, 98] 0 2 { findLongest := true }) fuel 0 = .ok verdict ∧
        (matchOf verdict).map Found.stop = some 2 := by
  -- The tree and the place that the matcher has to choose are computed.
  have hcomputed : ((Pattern.parse [97, 124, 97, 98] {} .utf8 Dialect.standard {}).toOption.any
      fun parsed => (ofParsed [97, 124, 97, 98] {} .utf8 Dialect.standard parsed).toOption.any
        fun program =>
          let ctx := Context.make program #[97, 98] 0 2 { findLongest := true }
          !(Options.union { findLongest := true } program.options).findNotEmpty &&
            (ctx.choose ((prepare .utf8 Dialect.standard parsed.tree).outcomes ctx (.fresh 0))).map
              Place.pos == some 2) = true := by decide +kernel
  rcases exists_program hcomputed with ⟨parsed, program, hparse, hprogram, hholds⟩
  rw [Bool.and_eq_true, Bool.not_eq_true', beq_iff_eq] at hholds
  rcases hholds with ⟨hempty, hchoose⟩
  have hoff : Limits.off.Off := ⟨rfl, rfl, rfl⟩
  have hfits : (Machine.initial program 0).registers.Fits program := Registers.fits_fresh program
  refine ⟨parsed, program, hparse, hprogram, hoff, hempty, hfits, rfl, ?_⟩
  -- The theorem then gives what the attempt comes to.
  rcases attempt_outcome hparse hprogram hoff #[97, 98] 0 2 hempty hfits rfl 0 with ⟨bound, hbound⟩
  refine ⟨bound, fun fuel hfuel => ?_⟩
  rcases hbound fuel hfuel with ⟨verdict, hattempt, hplace, -⟩
  refine ⟨verdict, hattempt, ?_⟩
  rw [← hchoose, ← hplace, Option.map_map]
  rfl

/-- What a computation shows of an attempt with the program of a single pattern. -/
theorem exists_attempt {subject : Array UInt8} {searchStart range fuel start : Nat}
    {given : Options} {holds : Pattern.Parsed → Program → Verdict → Bool}
    (h : ((Pattern.parse pattern options enc dialect limits).toOption.any fun parsed =>
      (ofParsed pattern options enc dialect parsed).toOption.any fun program =>
        ((Machine.initial program start).attempt program searchLimits
          (Context.make program subject searchStart range given) fuel start).toOption.any
            (holds parsed program)) = true) :
    ∃ parsed program verdict, Pattern.parse pattern options enc dialect limits = .ok parsed ∧
      ofParsed pattern options enc dialect parsed = .ok program ∧
      (Machine.initial program start).attempt program searchLimits
        (Context.make program subject searchStart range given) fuel start = .ok verdict ∧
      holds parsed program verdict = true := by
  rcases exists_program h with ⟨parsed, program, hparse, hprogram, hholds⟩
  rcases hattempt : (Machine.initial program start).attempt program searchLimits
    (Context.make program subject searchStart range given) fuel start with interrupt | verdict
  · rw [hattempt] at hholds
    cases hholds
  · rw [hattempt] at hholds
    exact ⟨parsed, program, verdict, hparse, hprogram, hattempt, hholds⟩

/-- The alternatives of a look-behind with two of them, and the one item behind it. -/
def lookBehindParts : Tree → Option (Tree × Tree × Tree)
  | .sequence [.look .behind false (.alternation [first, second]), item] =>
    some (first, second, item)
  | _ => none

theorem eq_of_lookBehindParts {tree first second item : Tree}
    (h : lookBehindParts tree = some (first, second, item)) :
    tree = .sequence [.look .behind false (.alternation [first, second]), item] := by
  rw [lookBehindParts.eq_def] at h
  split at h
  · cases h
    rfl
  · cases h

/-- With `a|ab`, the longest match in `ab` does not end at the first outcome. With
`(?<=(a)|(ba))\2`, a match starts in the middle of `baba` which depends on the second alternative of
the look-behind, though the first one holds as well. -/
theorem attempt_not_first_outcome :
    (∃ parsed program verdict,
      Pattern.parse [97, 124, 97, 98] {} .utf8 Dialect.standard {} = .ok parsed ∧
      ofParsed [97, 124, 97, 98] {} .utf8 Dialect.standard parsed = .ok program ∧
      let ctx := Context.make program #[97, 98] 0 2 { findLongest := true }
      (Machine.initial program 0).attempt program Limits.off ctx 20 0 = .ok verdict ∧
      (matchOf verdict).map Found.stop = some 2 ∧
      (parsed.tree.outcomes ctx (.fresh 0)).head?.map Place.pos = some 1) ∧
    ∃ parsed program verdict first second reference,
      Pattern.parse [40, 63, 60, 61, 40, 97, 41, 124, 40, 98, 97, 41, 41, 92, 50] {} .utf8
        Dialect.standard {} = .ok parsed ∧
      ofParsed [40, 63, 60, 61, 40, 97, 41, 124, 40, 98, 97, 41, 41, 92, 50] {} .utf8
        Dialect.standard parsed = .ok program ∧
      parsed.tree = .sequence [.look .behind false (.alternation [first, second]), reference] ∧
      let ctx := Context.make program #[98, 97, 98, 97] 2 4 {}
      let body := Ways.orElse (Ways.andThen (Ways.stepBack ctx 1) (first.outcomes ctx))
        (Ways.andThen (Ways.stepBack ctx 2) (second.outcomes ctx))
      (Machine.initial program 2).attempt program Limits.off ctx 40 2 = .ok verdict ∧
      (matchOf verdict).map Found.stop = some 4 ∧
      (Ways.andThen (Ways.look false body) (reference.outcomes ctx) (.fresh 2)).isEmpty = true := by
  -- Both patterns are read, compiled and run, and what the tree says is computed beside it.
  constructor
  · have hcomputed : ((Pattern.parse [97, 124, 97, 98] {} .utf8 Dialect.standard {}).toOption.any
        fun parsed => (ofParsed [97, 124, 97, 98] {} .utf8 Dialect.standard parsed).toOption.any
          fun program =>
            let ctx := Context.make program #[97, 98] 0 2 { findLongest := true }
            ((Machine.initial program 0).attempt program Limits.off ctx 20 0).toOption.any
              fun verdict => (matchOf verdict).map Found.stop == some 2 &&
                (parsed.tree.outcomes ctx (.fresh 0)).head?.map Place.pos == some 1) = true := by
      decide +kernel
    -- The results of the computation are given names.
    rcases exists_attempt hcomputed with
      ⟨parsed, program, verdict, hparse, hprogram, hattempt, hholds⟩
    simp only [Bool.and_eq_true, beq_iff_eq] at hholds
    exact ⟨parsed, program, verdict, hparse, hprogram, hattempt, hholds⟩
  · have hcomputed : ((Pattern.parse [40, 63, 60, 61, 40, 97, 41, 124, 40, 98, 97, 41, 41, 92,
        50] {} .utf8 Dialect.standard {}).toOption.any
        fun parsed => (ofParsed [40, 63, 60, 61, 40, 97, 41, 124, 40, 98, 97, 41, 41, 92, 50] {}
          .utf8 Dialect.standard parsed).toOption.any
          fun program =>
            let ctx := Context.make program #[98, 97, 98, 97] 2 4 {}
            ((Machine.initial program 2).attempt program Limits.off ctx 40 2).toOption.any
              fun verdict => (matchOf verdict).map Found.stop == some 4 &&
                (lookBehindParts parsed.tree).any fun parts =>
                  (Ways.andThen (Ways.look false
                    (Ways.orElse (Ways.andThen (Ways.stepBack ctx 1) (parts.1.outcomes ctx))
                      (Ways.andThen (Ways.stepBack ctx 2) (parts.2.1.outcomes ctx))))
                    (parts.2.2.outcomes ctx) (.fresh 2)).isEmpty) = true := by
      decide +kernel
    rcases exists_attempt hcomputed with
      ⟨parsed, program, verdict, hparse, hprogram, hattempt, hholds⟩
    simp only [Bool.and_eq_true, beq_iff_eq] at hholds
    rcases hholds with ⟨hstop, htree⟩
    -- The tree of the second pattern is taken apart into the look-behind and the reference.
    rcases hparts : lookBehindParts parsed.tree with _ | ⟨first, second, reference⟩
    · rw [hparts] at htree
      cases htree
    · rw [hparts, Option.any_some] at htree
      exact ⟨parsed, program, verdict, first, second, reference, hparse, hprogram,
        eq_of_lookBehindParts hparts, hattempt, hstop, htree⟩

end Program

end RegexEngine
