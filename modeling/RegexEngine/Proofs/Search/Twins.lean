import RegexEngine.Proofs.Search.Leftmost

/-!
# Two Programs Side by Side

When do two programs answer alike? Each attempt of either is explored, and what it comes to is read
off a list of outcomes and the match that was noted before. So it is enough to compare the lists of
the two programs, attempt by attempt, in whatever respect is of interest: the scans make their
attempts at the same positions and go on in the same way as long as neither has come to a match.

Nothing is said about how the programs came about. A program counts as explored if the operands of
its instructions name registers that there are and every attempt of it explores a list of outcomes.
Those of trees are, and so is code for which that has been shown by other means.

## Main definitions

* `Program.Explored`: The attempts of a program explore given outcomes.
* `Machine.Ready`: What a matcher is like before an attempt.
* `Verdict.Alike`: Two verdicts agree in some respect.
* `Program.Comparable`: Attempts of two programs agree in some respect.
* `Program.Twins`: Two programs look the same from outside.

## Theorems

* `Explored.attempt`: An attempt comes to the verdict that the outcomes lead to.
* `scan_twins`, `findFrom_twins`, `findAt_twins`: Searches agree if their attempts do.
* `searchWithin_twins`, `matchWithin_twins`: So do the calls.
-/

namespace RegexEngine

/-- The attempts of a program explore the outcomes of a part of a pattern. -/
structure Program.Explored (program : Program) (ctx : Context) (ways : Ways) : Prop where
  /-- The operands of the instructions name registers that there are. -/
  operands : ∀ pc instr, program.instrAt pc = some instr → instr.Inside program
  explores : ∀ (regs : Registers) (pos : Nat), regs.Fits program → ∃ safe,
    Control.Explores program ctx safe (.running 0 pos regs.clear []) (ways (.fresh pos))

/-- The program of a tree explores its outcomes. -/
theorem Program.Means.explored {program : Program} {tree : Tree} {ctx : Context}
    (h : program.Means tree) (hencoding : ctx.encoding = program.encoding) :
    program.Explored ctx (tree.outcomes ctx) :=
  ⟨fun _ _ => h.instr_inside,
    fun _ pos hfits => ⟨_, h.explores_start hencoding (Registers.records_clear _ hfits pos)⟩⟩

/-- What a matcher is like before an attempt: its registers are inside, and the match that was noted
has a capture for each group. -/
structure Machine.Ready (program : Program) (limit : Nat) (m : Machine) : Prop where
  registers : m.registers.Inside program limit
  best : ∀ found, m.best = some found → found.captures.size = program.slotCount

theorem Machine.ready_initial (program : Program) (limit start : Nat) :
    (initial program start).Ready program limit :=
  ⟨Registers.inside_fresh program limit, by rintro found ⟨⟩⟩

/-- What an attempt leaves is ready for the next one, and a match has a capture for each group. -/
def Verdict.Ready (program : Program) (limit : Nat) : Verdict → Prop
  | exhausted after => after.Ready program limit
  | matched after => after.found.captures.size = program.slotCount

namespace Program.Explored

variable {program : Program} {ctx : Context} {ways : Ways} {limits : Limits} {m : Machine}
  {start : Nat}

/-- The states of an attempt have registers that are inside, and no match is noted without a capture
for each group. -/
theorem inside_reaches (h : program.Explored ctx ways) (hm : m.Ready program ctx.range)
    (hstart : start ≤ ctx.range) {state : Machine}
    (hreach : Machine.Reaches program limits ctx (m.restart start) state) :
    state.control.Inside program ctx.range ∧
      ∀ found, state.best = some found → found.captures.size = program.slotCount := by
  have hfirst : (m.restart start).control.Inside program ctx.range :=
    ⟨hstart, hm.registers.clear, List.forall_mem_nil _⟩
  induction hreach with
  | refl => exact ⟨hfirst, hm.best⟩
  | tail hbefore hstep ih =>
      refine ⟨?_, fun found hfound => ?_⟩
      · exact Control.inside_reaches h.operands hfirst
          (Machine.reaches_control (hbefore.tail hstep))
      · rcases (Machine.step_keeps hstep).2 with hkept | ⟨-, hnoted⟩
        · exact ih.2 found (hkept.symm.trans hfound)
        · cases hnoted.symm.trans hfound
          exact ih.1.2.1.fits.captures

/-- Without limits, an attempt comes to the verdict that the outcomes lead to, and with steps enough
the verdict does not depend on how many there are. -/
theorem attempt (h : program.Explored ctx ways) (hlimits : limits.Off)
    (hm : m.Ready program ctx.range) (hstart : start ≤ ctx.range) :
    ∃ bound verdict,
      (∀ fuel, bound ≤ fuel → m.attempt program limits ctx fuel start = .ok verdict) ∧
      Verdict.Comes ctx start m.best (ways (.fresh start)) verdict ∧
      verdict.Ready program ctx.range := by
  rcases h.explores m.registers start hm.registers.fits with ⟨safe, hexplores⟩
  -- What the matcher does on the explored controls ends with a verdict or runs into a limit, and
  -- there are none.
  rcases @Machine.explores_resume _ limits _ _ _ _ hexplores (m.restart start) with ⟨bound, hbound⟩
  rcases hbound bound (Nat.le_refl _) with ⟨cause, hraises, -⟩ | ⟨verdict, hattempt, hcomes⟩
  · exact absurd hraises (hlimits.not_raises cause)
  have hattempt : m.attempt program limits ctx bound start = .ok verdict := hattempt
  refine ⟨bound, verdict, fun fuel hfuel => ?_, hcomes, ?_⟩
  -- With more fuel the run comes to the same end.
  · obtain ⟨more, rfl⟩ : ∃ more, fuel = bound + more := ⟨fuel - bound, by omega⟩
    have hends : m.attempt program limits ctx bound start ≠ .error .outOfFuel := by
      rw [hattempt]
      rintro ⟨⟩
    exact (Machine.run_add more hends).trans hattempt
  -- The machine that ends the run is inside of the program, and so are the spans that it has noted.
  · rcases Machine.run_ends hattempt with ⟨last, hreach, hstep⟩
    rcases h.inside_reaches hm hstart hreach with ⟨hinside, hbest⟩
    cases verdict with
    | matched after =>
        rcases Machine.matched_of_step hstep with ⟨rfl, -⟩
        exact hinside.2.1.fits.captures
    | exhausted after =>
        refine ⟨Machine.inside_exhausted h.operands hinside hstep, fun found hfound => ?_⟩
        rcases (Machine.step_keeps hstep).2 with hkept | ⟨-, hnoted⟩
        · exact hbest found (hkept.symm.trans hfound)
        · cases hnoted.symm.trans hfound
          exact hinside.2.1.fits.captures

end Program.Explored

/-- Two verdicts agree in some respect on the match that they have, or on the one that was noted. -/
inductive Verdict.Alike (same : Option Found → Option Found → Prop) : Verdict → Verdict → Prop
  | matched {after after' : Machine} (agree : same (some after.found) (some after'.found)) :
      Alike same (.matched after) (.matched after')
  | exhausted {after after' : Machine} (agree : same after.best after'.best) :
      Alike same (.exhausted after) (.exhausted after')

theorem Verdict.Alike.same {same : Option Found → Option Found → Prop} {verdict verdict' : Verdict}
    (h : Alike same verdict verdict') :
    same (Program.matchOf verdict) (Program.matchOf verdict') := by
  cases h with
  | matched agree | exhausted agree => exact agree

namespace Program

/-- Wherever attempts start, verdicts that two lists of outcomes lead to agree in some respect, if
the matches that were noted before do. -/
def Comparable (ctx : Context) (ways ways' : Ways)
    (same : Option Found → Option Found → Prop) : Prop :=
  ∀ start best best' verdict verdict', same best best' →
    Verdict.Comes ctx start best (ways (.fresh start)) verdict →
    Verdict.Comes ctx start best' (ways' (.fresh start)) verdict' →
    Verdict.Alike same verdict verdict'

/-- A match with a capture for each group of a program. -/
def Sized (program : Program) (found : Option Found) : Prop :=
  ∀ last, found = some last → last.captures.size = program.slotCount

theorem sized_matchOf {program : Program} {limit : Nat} {verdict : Verdict}
    (h : verdict.Ready program limit) : program.Sized (matchOf verdict) := by
  intro last hlast
  cases verdict with
  | matched after =>
      cases hlast
      exact h
  | exhausted after => exact h.best last hlast

variable {program other : Program} {ctx : Context} {ways ways' : Ways} {limits : Limits}
  {same : Option Found → Option Found → Prop}

/-- Two results agree with steps enough: either is a match or none, and they agree in some respect.
-/
def Agree (program other : Program) (same : Option Found → Option Found → Prop)
    (ask ask' : Nat → Except Interrupt (Option Found)) : Prop :=
  ∃ bound found found', (∀ fuel, bound ≤ fuel → ask fuel = .ok found ∧ ask' fuel = .ok found') ∧
    same found found' ∧ program.Sized found ∧ other.Sized found'

/-- Scans agree if their attempts do. -/
theorem scan_twins (h : program.Explored ctx ways) (h' : other.Explored ctx ways')
    (hliteral : other.hints.literal = program.hints.literal) (hlimits : limits.Off)
    (hcomparable : Comparable ctx ways ways' same) {m m' : Machine} (last count pos : Nat)
    (hm : m.Ready program ctx.range) (hm' : m'.Ready other ctx.range)
    (hbest : same m.best m'.best) :
    Agree program other same
      (fun fuel => (program.scan limits ctx fuel last count m pos).map matchOf)
      fun fuel => (other.scan limits ctx fuel last count m' pos).map matchOf := by
  -- The two scans are at the same position all the time. Their fuels may differ, so the bounds are
  -- added up.
  induction count generalizing m m' pos with
  | zero => exact ⟨0, m.best, m'.best, fun _ _ => ⟨rfl, rfl⟩, hbest, hm.best, hm'.best⟩
  | succ count ih =>
      rcases hoccurs : ctx.nextOccurrence program.hints.literal pos with _ | start
      · refine ⟨0, m.best, m'.best, fun fuel _ => ?_, hbest, hm.best, hm'.best⟩
        simp only [scan, hliteral, hoccurs]
        exact ⟨rfl, rfl⟩
      -- Both make an attempt there, and what the attempts come to is comparable.
      have hstart := (Context.nextOccurrence_le hoccurs).2
      rcases h.attempt hlimits hm hstart with ⟨bound, verdict, hbound, hcomes, hready⟩
      rcases h'.attempt hlimits hm' hstart with ⟨bound', verdict', hbound', hcomes', hready'⟩
      have halike := hcomparable start _ _ _ _ hbest hcomes hcomes'
      cases halike with
      -- One found match ends both scans, and the found spans agree.
      | @matched after after' agree =>
          refine ⟨bound + bound', some after.found, some after'.found, fun fuel hfuel => ?_, agree,
            sized_matchOf hready, sized_matchOf hready'⟩
          simp only [scan, hliteral, hoccurs, hbound fuel (by omega), hbound' fuel (by omega)]
          exact ⟨rfl, rfl⟩
      | @exhausted after after' agree =>
          by_cases hstops : last ≤ start ∨
            ctx.range < start + ctx.encoding.charLength ctx.subject start
          · refine ⟨bound + bound', after.best, after'.best, fun fuel hfuel => ?_, agree,
              hready.best, hready'.best⟩
            simp only [scan, hliteral, hoccurs, hbound fuel (by omega), hbound' fuel (by omega),
              if_pos hstops]
            exact ⟨rfl, rfl⟩
          · -- Neither attempt has ended its scan, so both go on at the next character.
            rcases ih (start + ctx.encoding.charLength ctx.subject start) hready hready' agree with
              ⟨more, found, found', hfinds, hsame⟩
            refine ⟨bound + bound' + more, found, found', fun fuel hfuel => ?_, hsame⟩
            simp only [scan, hliteral, hoccurs, hbound fuel (by omega), hbound' fuel (by omega),
              if_neg hstops]
            exact hfinds fuel (by omega)

/-- Searches agree if their attempts do. -/
theorem findFrom_twins (h : program.Explored ctx ways) (h' : other.Explored ctx ways')
    (hhints : other.hints = program.hints) (hlimits : limits.Off)
    (hcomparable : Comparable ctx ways ways' same) (hnone : same none none) :
    Agree program other same (program.findFrom limits ctx) (other.findFrom limits ctx) := by
  have hlast : other.lastStart ctx = program.lastStart ctx := by rw [lastStart, lastStart, hhints]
  rcases hstarts : program.lastStart ctx with _ | last
  -- The hints of both programs rule every start out, so nothing is found by either.
  · have hnothing : ∀ fuel, program.findFrom limits ctx fuel = .ok none ∧
        other.findFrom limits ctx fuel = .ok none := by
      intro fuel
      rw [findFrom, findFrom, hlast, hstarts]
      exact ⟨rfl, rfl⟩
    exact ⟨0, none, none, fun fuel _ => hnothing fuel, hnone, by rintro _ ⟨⟩, by rintro _ ⟨⟩⟩
  · have hfinds : program.findFrom limits ctx = (fun fuel => (program.scan limits ctx fuel last
        (ctx.range + 1 - ctx.searchStart) (Machine.initial program ctx.searchStart)
          ctx.searchStart).map matchOf) := by
      funext fuel
      rw [findFrom, hstarts]
    have hfinds' : other.findFrom limits ctx = (fun fuel => (other.scan limits ctx fuel last
        (ctx.range + 1 - ctx.searchStart) (Machine.initial other ctx.searchStart)
          ctx.searchStart).map matchOf) := by
      funext fuel
      rw [findFrom, hlast, hstarts]
    rw [hfinds, hfinds']
    exact scan_twins h h' (by rw [hhints]) hlimits hcomparable _ _ _
      (Machine.ready_initial program _ _) (Machine.ready_initial other _ _) hnone

/-- So do single attempts. -/
theorem findAt_twins (h : program.Explored ctx ways) (h' : other.Explored ctx ways')
    (hlimits : limits.Off) (hcomparable : Comparable ctx ways ways' same) (hnone : same none none)
    (hstart : ctx.searchStart ≤ ctx.range) :
    Agree program other same (program.findAt limits ctx) (other.findAt limits ctx) := by
  have hm := Machine.ready_initial program ctx.range ctx.searchStart
  have hm' := Machine.ready_initial other ctx.range ctx.searchStart
  rcases h.attempt hlimits hm hstart with ⟨bound, verdict, hbound, hcomes, hready⟩
  rcases h'.attempt hlimits hm' hstart with ⟨bound', verdict', hbound', hcomes', hready'⟩
  have halike := hcomparable _ _ _ _ _ hnone hcomes hcomes'
  refine ⟨bound + bound', matchOf verdict, matchOf verdict', fun fuel hfuel => ?_, halike.same,
    sized_matchOf hready, sized_matchOf hready'⟩
  rw [findAt, findAt, hbound fuel (by omega), hbound' fuel (by omega)]
  exact ⟨rfl, rfl⟩

/-- Two programs look the same from outside: calls of them are checked alike and run in the same
context, and scans leave out the same positions. -/
structure Twins (program other : Program) : Prop where
  encoding : other.encoding = program.encoding
  options : other.options = program.options
  groups : other.groups = program.groups
  hints : other.hints = program.hints

namespace Twins

theorem checkCall (h : Twins program other) (region : Region) (given : Options) :
    other.checkCall region given = program.checkCall region given := by
  have hslots : other.slotCount = program.slotCount := congrArg (· + 1) h.groups
  simp only [Program.checkCall, checkOptions, checkRegion, h.options, hslots]

theorem context (h : Twins program other) (subject : Array UInt8) (start range : Nat)
    (given : Options) :
    Context.make other subject start range given =
      Context.make program subject start range given := by
  rw [Context.make, Context.make, h.encoding, h.options]

theorem sized (h : Twins program other) {found : Option Found} :
    other.Sized found ↔ program.Sized found := by
  have hslots : other.slotCount = program.slotCount := congrArg (· + 1) h.groups
  rw [Sized, Sized, hslots]

end Twins

/-- What two calls answer that agree: both are refused for the same reason, or they report matches
that agree. -/
def AnswerAlike {α : Type} (program : Program) (same : Option Found → Option Found → Prop)
    (region : Region) (answer : Found → α)
    (first second : Except Error (Option α) × Region) : Prop :=
  (∃ e, first = (.error e, region) ∧ second = (.error e, region)) ∨
    ∃ found found', same found found' ∧ program.Sized found ∧ program.Sized found' ∧
      program.slotCount ≤ region.capacity ∧ first = report region answer (.ok found) ∧
        second = report region answer (.ok found')

theorem capacity_of_checkCall {region : Region} {given : Options}
    (h : program.checkCall region given = .ok ()) : program.slotCount ≤ region.capacity := by
  rw [Program.checkCall] at h
  by_contra hroom
  rcases hoptions : program.checkOptions given with e | _
  · rw [hoptions] at h
    cases h
  · rw [hoptions, checkRegion, if_neg hroom] at h
    cases h

section Calls

variable {subject : Array UInt8} {region : Region} {given : Options}

/-- Calls of two programs that search for a match agree if their attempts do. -/
theorem searchWithin_twins {start range : Nat} (htwins : Twins program other)
    (h : program.Explored (Context.make program subject start range given) ways)
    (h' : other.Explored (Context.make program subject start range given) ways')
    (hlimits : limits.Off)
    (hcomparable : Comparable (Context.make program subject start range given) ways ways' same)
    (hnone : same none none) :
    ∃ bound, ∀ fuel, bound ≤ fuel → program.AnswerAlike same region Found.start
      (program.searchWithin fuel subject start range region given limits)
      (other.searchWithin fuel subject start range region given limits) := by
  rcases findFrom_twins h h' htwins.hints hlimits hcomparable hnone with
    ⟨bound, found, found', hfinds, hsame, hsized, hsized'⟩
  refine ⟨bound, fun fuel hfuel => ?_⟩
  rcases hfinds fuel hfuel with ⟨hfind, hfind'⟩
  -- Both calls make the same checks, which ask for nothing in which the programs differ.
  by_cases hrange : start ≤ range ∧ range ≤ subject.size
  · rw [searchWithin_checked hrange, searchWithin_checked hrange, htwins.checkCall,
      htwins.context, hfind, hfind']
    rcases hcheck : program.checkCall region given with e | accepted
    · exact Or.inl ⟨e, rfl, rfl⟩
    · exact Or.inr ⟨found, found', hsame, hsized, htwins.sized.mp hsized',
        capacity_of_checkCall hcheck, rfl, rfl⟩
  · rw [searchWithin, searchWithin, checkRange, if_neg hrange]
    exact Or.inl ⟨_, rfl, rfl⟩

/-- So do calls that look for a match at a position. -/
theorem matchWithin_twins {pos : Nat} (htwins : Twins program other)
    (h : program.Explored (Context.make program subject pos subject.size given) ways)
    (h' : other.Explored (Context.make program subject pos subject.size given) ways')
    (hlimits : limits.Off)
    (hcomparable : Comparable (Context.make program subject pos subject.size given) ways ways' same)
    (hnone : same none none) :
    ∃ bound, ∀ fuel, bound ≤ fuel → program.AnswerAlike same region Found.length
      (program.matchWithin fuel subject pos region given limits)
      (other.matchWithin fuel subject pos region given limits) := by
  -- A position behind the subject is refused by both programs alike.
  by_cases hpos : pos ≤ subject.size
  · rcases findAt_twins h h' hlimits hcomparable hnone hpos with
      ⟨bound, found, found', hfinds, hsame, hsized, hsized'⟩
    -- From the bound on, both calls are checked alike and find the same.
    refine ⟨bound, fun fuel hfuel => ?_⟩
    rcases hfinds fuel hfuel with ⟨hfind, hfind'⟩
    rw [matchWithin_checked hpos, matchWithin_checked hpos, htwins.checkCall, htwins.context, hfind,
      hfind']
    rcases hcheck : program.checkCall region given with e | accepted
    · exact Or.inl ⟨e, rfl, rfl⟩
    · exact Or.inr ⟨found, found', hsame, hsized, htwins.sized.mp hsized',
        capacity_of_checkCall hcheck, rfl, rfl⟩
  · refine ⟨0, fun fuel _ => ?_⟩
    rw [matchWithin, matchWithin, checkPosition, if_neg hpos]
    exact Or.inl ⟨_, rfl, rfl⟩

end Calls

end Program

end RegexEngine
