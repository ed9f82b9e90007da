import RegexEngine.Proofs.Lines.Code
import RegexEngine.Proofs.Search.Hints
import RegexEngine.Proofs.Search.SameText

/-!
# Searching Under Line Options

The options that change how line anchors and dots are read may be given to the pattern or to the
search. In one case they are flags of the code, in the other a property of the call, and the tests
that ask for them ask for either. So the matchers of the two programs take the same steps, if the
call on the one has what the code of the other has.

The two searches need not scan the same positions. A search under the option for lines does not
trust the hint that a match starts at the start of the text, since the hint may come from a line
anchor; a program that has the option gives that hint for no line anchor, and its search trusts it.
Both scans find what the scan of all positions finds.

## Main definitions

* `Context.Lined`: A call under more options, and the one that has them in its code.
* `Program.Lined`: A program, and the one that has the options in its code.

## Theorems

* `accept_withLines`: A test accepts the same in the code and in the call.
* `run_lined`, `scan_lined`: So do runs and scans.
* `findFrom_lined`, `findAt_lined`: So do searches and matches.
-/

namespace RegexEngine

variable {m d : Bool}

/-- The first call adds options to the search that the second has in its program. -/
structure Context.Lined (m d : Bool) (ctx other : Context) : Prop extends ctx.SameText other where
  searchStart : ctx.searchStart = other.searchStart
  options : ctx.options = other.options
  multiline : ctx.multiline = (m || other.multiline)
  dotAll : ctx.dotAll = (d || other.dotAll)

namespace Context.Lined

variable {ctx other : Context} {pos : Nat}

theorem atLineStart (h : ctx.Lined m d other) (multiline : Bool) :
    other.atLineStart (multiline || m) pos = ctx.atLineStart multiline pos := by
  rw [Context.atLineStart, Context.atLineStart, h.options, h.multiline, h.stop, h.newlineAt,
    Bool.or_assoc]

theorem atLineEnd (h : ctx.Lined m d other) (multiline : Bool) :
    other.atLineEnd (multiline || m) pos = ctx.atLineEnd multiline pos := by
  rw [Context.atLineEnd, Context.atLineEnd, h.options, h.multiline, h.stop, h.newlineAt,
    Bool.or_assoc multiline m]

theorem anchorHolds (h : ctx.Lined m d other) (kind : Anchor) (multiline : Bool) :
    other.anchorHolds kind (multiline || m) pos = ctx.anchorHolds kind multiline pos := by
  cases kind with
  | textStart => rfl
  | textEnd => rw [Context.anchorHolds, Context.anchorHolds, h.stop]
  | lastLineEnd => rw [Context.anchorHolds, Context.anchorHolds, h.stop, h.newlineAt]
  | lineStart => exact h.atLineStart multiline
  | lineEnd => exact h.atLineEnd multiline
  | searchStart => rw [Context.anchorHolds, Context.anchorHolds, h.searchStart]
  | wordBoundary | noWordBoundary =>
      rw [Context.anchorHolds, Context.anchorHolds, h.atWordBoundary]

end Context.Lined

/-- A flag in the code is as good as an option of the call. -/
theorem Leaf.accept_withLines {ctx other : Context} (h : ctx.Lined m d other) (test : Leaf)
    (captures : Array Capture) (pos : Nat) :
    (test.withLines m d).accept other captures pos = test.accept ctx captures pos := by
  cases test with
  | anyChar newlines =>
      rw [withLines, accept, accept, h.acceptChar, h.dotAll, h.newlineAt, Bool.or_assoc newlines d]
  | anchor kind multiline => rw [withLines, accept, accept, h.anchorHolds]
  | _ =>
      have hsame := @accept_sameText ctx other
      exact (hsame h.toSameText (by simp [withLines]) (by simp [withLines]) captures pos).symm

/-- The second hints are those that are given where options are added. A line anchor gives none of
them if the option for lines is. -/
structure Hints.Lined (m : Bool) (hints other : Hints) : Prop where
  literal : other.literal = hints.literal
  searchStart : other.searchStart = hints.searchStart
  textStart : other.textStart = true → hints.textStart = true
  lineStart : m = false → other.textStart = hints.textStart

/-- The second program has options in its code that the first one has not. -/
structure Program.Lined (m d : Bool) (program other : Program) : Prop where
  code : other.code = program.code.map (Instr.withLines m d)
  groups : other.groups = program.groups
  loops : other.loops = program.loops
  emptyChecks : other.emptyChecks = program.emptyChecks
  encoding : other.encoding = program.encoding
  options : other.options = program.options.union (Options.lines m d)
  multiline : program.options.multiline = false
  dotAll : program.options.dotAll = false

namespace Machine

variable {program other : Program} {limits : Limits} {ctx ctx' : Context} {fuel start : Nat}

/-- An instruction does the same in both programs. -/
theorem obey_lined (h : program.Lined m d other) (hctx : ctx.Lined m d ctx') (state : Machine)
    (instr : Instr) :
    state.obey other limits ctx' (instr.withLines m d) = state.obey program limits ctx instr := by
  cases instr with
  | leaf test => rw [Instr.withLines, obey, obey, test.accept_withLines hctx]
  | stepBack n => simp only [Instr.withLines, obey, hctx.encoding, hctx.subject]
  | finish => simp only [Instr.withLines, obey, obeyFinish, hctx.options, hctx.searchStart]
  | enter id exit greedy => simp only [Instr.withLines, obey, obeyEnter, h.loops]
  | again id body greedy => simp only [Instr.withLines, obey, obeyAgain, h.loops]
  | _ => rfl

/-- The matchers of both programs take the same steps. -/
theorem step_lined (h : program.Lined m d other) (hctx : ctx.Lined m d ctx') (state : Machine) :
    state.step other limits ctx' = state.step program limits ctx := by
  have hfetch : state.fetch other = (state.fetch program).map (Instr.withLines m d) := by
    rw [fetch, fetch, h.code]
    split
    · rfl
    · rw [Array.getElem?_map]
  rw [step, step, hfetch]
  rcases state.fetch program with _ | instr
  · rfl
  · simp only [Option.map_some, obey_lined h hctx]

theorem run_lined (h : program.Lined m d other) (hctx : ctx.Lined m d ctx') (state : Machine) :
    run other limits ctx' fuel state = run program limits ctx fuel state :=
  run_congr (fun later _ => step_lined h hctx later) fuel

theorem attempt_lined (h : program.Lined m d other) (hctx : ctx.Lined m d ctx') (state : Machine) :
    state.attempt other limits ctx' fuel start = state.attempt program limits ctx fuel start :=
  run_lined h hctx _

/-- There is as much to remember for both. -/
theorem initial_lined (h : program.Lined m d other) (start : Nat) :
    initial other start = initial program start := by
  rw [initial, initial, Registers.fresh, Registers.fresh, Program.slotCount, Program.slotCount,
    h.groups, h.loops, h.emptyChecks]

end Machine

namespace Program

variable {program other : Program} {limits : Limits} {ctx ctx' : Context} {fuel : Nat}

/-- Scans that look for the same literal find the same. -/
theorem scan_lined (h : program.Lined m d other) (hctx : ctx.Lined m d ctx')
    (hliteral : other.hints.literal = program.hints.literal) {last count pos : Nat}
    {state : Machine} :
    other.scan limits ctx' fuel last count state pos =
      program.scan limits ctx fuel last count state pos := by
  induction count generalizing state pos with
  | zero => rfl
  | succ count ih =>
      simp only [scan, hliteral, ← hctx.nextOccurrence, Machine.attempt_lined h hctx,
        ← hctx.encoding, ← hctx.subject, ← hctx.range, ih]

/-- Searches that scan up to the same position find the same. -/
theorem findFrom_congr (h : program.Lined m d other) (hctx : ctx.Lined m d ctx')
    (hliteral : other.hints.literal = program.hints.literal)
    (hlast : other.lastStart ctx' = program.lastStart ctx) :
    other.findFrom limits ctx' fuel = program.findFrom limits ctx fuel := by
  simp only [findFrom, hlast, Machine.initial_lined h, scan_lined h hctx hliteral,
    ← hctx.searchStart, ← hctx.range]

/-- Searches under the options find the same, though they may scan different positions. -/
theorem findFrom_lined (h : program.Lined m d other) (hctx : ctx.Lined m d ctx')
    (hhints : program.hints.Lined m other.hints) (htells : program.Tells program.hints)
    (htells' : other.Tells other.hints) :
    other.findFrom limits ctx' (fuel + 1) = program.findFrom limits ctx (fuel + 1) := by
  by_cases htext : other.hints.textStart = true
  · -- Whether the hint is trusted or not, all positions might as well be scanned.
    rw [findFrom_of_textStart htells' htext, findFrom_of_textStart htells (hhints.textStart htext)]
    have hbare : program.withoutHints.Lined m d other.withoutHints := { h with }
    exact findFrom_congr hbare hctx rfl (congrArg some hctx.range.symm)
  · refine findFrom_congr h hctx hhints.literal ?_
    rw [Bool.not_eq_true] at htext
    have hdistrusts : (program.hints.textStart && !ctx.multiline) = false := by
      rw [hctx.multiline]
      cases m with
      | true => rw [Bool.true_or, Bool.not_true, Bool.and_false]
      | false => rw [← hhints.lineStart rfl, htext, Bool.false_and]
    simp only [lastStart, hhints.searchStart, htext, hdistrusts, Bool.false_and, ← hctx.searchStart,
      ← hctx.range]

theorem findAt_lined (h : program.Lined m d other) (hctx : ctx.Lined m d ctx') :
    other.findAt limits ctx' fuel = program.findAt limits ctx fuel := by
  simp only [findAt, Machine.initial_lined h, Machine.attempt_lined h hctx, ← hctx.searchStart]

end Program

end RegexEngine
