import RegexEngine.Proofs.Safety.Looks
import RegexEngine.Proofs.Search.Scan
import RegexEngine.Search.Basic

/-!
# Answers of Searches

A search answers, and so does a match at a single position, for every program there is: with steps
enough the answer no longer depends on how many there are, whatever the limits and the options, and
even where all ways to match are tried. What goes wrong is an argument that is refused or a limit
that is met. Nothing goes wrong inside.

The number of steps bounds each attempt. As many attempts are made as there are characters in the
range at most, so a bound on the steps of each is a bound on all. The number of attempts that a
search may make is larger, and it is never what ends a search.

## Theorems

* `findFrom_of_count`: The number of attempts that a search may make makes no difference.
* `findFrom_settles`, `findAt_settles`: With steps enough, a search and an attempt have a result.
* `searchWithin_error`, `matchWithin_error`: What a search and a match fail by.
* `search_terminates`: Every search and every match ends.
* `search_safe`: No search or match fails inside, and all that they go through is safe.
-/

namespace RegexEngine

namespace Limits

/-- The error of a limit that is met is the error of a limit, but not of the limit on time. -/
theorem Raises.isLimit {limits : Limits} {cause : Cause} (h : limits.Raises cause) :
    (Error.ofCause cause).isLimit = true ∧ Error.ofCause cause ≠ .timeLimit := by
  rcases h with ⟨rfl, -⟩ | ⟨rfl, -⟩ | ⟨rfl, -⟩
  · exact ⟨rfl, by rintro ⟨⟩⟩
  · exact ⟨rfl, by rintro ⟨⟩⟩
  · exact ⟨rfl, by rintro ⟨⟩⟩

end Limits

namespace Program

theorem error_of_map {result : Except Interrupt Verdict} {interrupt : Interrupt}
    (h : result.map matchOf = .error interrupt) : result = .error interrupt := by
  cases result with
  | error other =>
      cases h
      rfl
  | ok verdict => cases h

theorem ok_of_map {result : Except Interrupt Verdict} {found : Option Found}
    (h : result.map matchOf = .ok found) :
    ∃ verdict, result = .ok verdict ∧ matchOf verdict = found := by
  cases result with
  | error other => cases h
  | ok verdict => exact ⟨verdict, rfl, Except.ok.inj h⟩

/-- A search never runs out of attempts. It may make one for every position from its start to the
end of the range, and would answer no differently if it were allowed any larger number. -/
theorem findFrom_of_count {program : Program} {ctx : Context} {last count : Nat}
    (hlast : program.lastStart ctx = some last) (hcount : ctx.range < ctx.searchStart + count)
    (limits : Limits) (fuel : Nat) :
    program.findFrom limits ctx fuel =
      (program.scan limits ctx fuel last count (Machine.initial program ctx.searchStart)
        ctx.searchStart).map matchOf := by
  obtain ⟨more, rfl⟩ : ∃ more, count = ctx.range + 1 - ctx.searchStart + more :=
    ⟨count - (ctx.range + 1 - ctx.searchStart), by omega⟩
  simp only [findFrom, hlast]
  rw [scan_enough (by omega)]

namespace Means

variable {program : Program} {tree : Tree} {ctx : Context} {limits : Limits} {fuel : Nat}

/-- With steps enough, a single attempt has a result that does not depend on how many there are. -/
theorem findAt_settles (h : program.Means tree) (hencoding : ctx.encoding = program.encoding)
    (limits : Limits) :
    ∃ bound result, result ≠ .error .outOfFuel ∧
      ∀ fuel, bound ≤ fuel → program.findAt limits ctx fuel = result := by
  have hrests := Machine.rests_initial program ctx.range ctx.searchStart
  rcases h.attempt_settles hencoding hrests.registers.fits limits ctx.searchStart with
    ⟨bound, result, hresult, hbound⟩
  exact ⟨bound, result.map matchOf, fun hout => hresult (error_of_map hout),
    fun fuel hfuel => by rw [findAt, hbound fuel hfuel]⟩

/-- With steps enough for every attempt, a search has a result that does not depend on how many
there are. -/
theorem findFrom_settles (h : program.Means tree) (hencoding : ctx.encoding = program.encoding)
    (limits : Limits) :
    ∃ bound result, result ≠ .error .outOfFuel ∧
      ∀ fuel, bound ≤ fuel → program.findFrom limits ctx fuel = result := by
  rcases hlast : program.lastStart ctx with _ | last
  · exact ⟨0, .ok none, by rintro ⟨⟩, fun fuel _ => by rw [findFrom, hlast]⟩
  have hrests := Machine.rests_initial program ctx.range ctx.searchStart
  rcases h.scan_settles hencoding hrests limits last (ctx.range + 1 - ctx.searchStart)
    ctx.searchStart with ⟨bound, result, hresult, hbound⟩
  exact ⟨bound, result.map matchOf, fun hout => hresult (error_of_map hout),
    fun fuel hfuel => by simp only [findFrom, hlast, hbound fuel hfuel]⟩

/-- A single attempt fails by a limit only. -/
theorem findAt_raises (h : program.Means tree) (hencoding : ctx.encoding = program.encoding)
    {cause : Cause} (hfind : program.findAt limits ctx fuel = .error (.failure cause)) :
    limits.Raises cause :=
  h.attempt_raises hencoding
    (Machine.rests_initial program ctx.range ctx.searchStart).registers.fits (error_of_map hfind)

/-- A search fails by a limit only. -/
theorem findFrom_raises (h : program.Means tree) (hencoding : ctx.encoding = program.encoding)
    {cause : Cause} (hfind : program.findFrom limits ctx fuel = .error (.failure cause)) :
    limits.Raises cause := by
  rw [findFrom] at hfind
  split at hfind
  · cases hfind
  · exact h.scan_raises hencoding (Machine.rests_initial program ctx.range ctx.searchStart)
      (error_of_map hfind)

/-- What a single attempt finds lies within the range. -/
theorem findAt_inside (h : program.Means tree) (hencoding : ctx.encoding = program.encoding)
    (hstart : ctx.searchStart ≤ ctx.range) {found : Found}
    (hfind : program.findAt limits ctx fuel = .ok (some found)) :
    found.Inside program ctx.range := by
  have hrests := Machine.rests_initial program ctx.range ctx.searchStart
  rcases ok_of_map hfind with ⟨verdict, hattempt, hfound⟩
  cases verdict with
  | matched after =>
      cases hfound
      exact h.attempt_matched hencoding hrests hstart hattempt
  | exhausted after => exact (h.attempt_rests hencoding hrests hstart hattempt).best found hfound

/-- What a search finds lies within the range. -/
theorem findFrom_inside (h : program.Means tree) (hencoding : ctx.encoding = program.encoding)
    {found : Found} (hfind : program.findFrom limits ctx fuel = .ok (some found)) :
    found.Inside program ctx.range := by
  rw [findFrom] at hfind
  split at hfind
  · cases hfind
  · rcases ok_of_map hfind with ⟨verdict, hscan, hfound⟩
    exact h.scan_inside hencoding (Machine.rests_initial program ctx.range ctx.searchStart) hscan
      hfound

end Means

/-- How a call fails whose attempts had the result `result`: an argument is refused, or a limit is
met. The error of the limit on time is that of attempts that ran out of steps. -/
def FailsBy (result : Except Interrupt (Option Found)) (e : Error) : Prop :=
  (∃ text, e = .invalidArgument text) ∨
    e.isLimit = true ∧ (e = .timeLimit → result = .error .outOfFuel)

theorem FailsBy.not_internal {result : Except Interrupt (Option Found)} {cause : Cause} :
    ¬ FailsBy result (.internal cause) := by
  rintro (⟨text, hrefused⟩ | ⟨hlimit, -⟩)
  · cases hrefused
  · cases hlimit

theorem FailsBy.outOfFuel {result : Except Interrupt (Option Found)}
    (h : FailsBy result .timeLimit) : result = .error .outOfFuel := by
  rcases h with ⟨text, hrefused⟩ | ⟨-, htime⟩
  · cases hrefused
  · exact htime rfl

section Calls

variable (program : Program) (subject : Array UInt8) (start range pos : Nat) (region : Region)
  (given : Options)

/-- A search is refused for its arguments, whatever the limits are, or reports what its attempts
come to. -/
theorem searchWithin_cases :
    (∃ e, ∀ fuel limits,
        program.searchWithin fuel subject start range region given limits = (.error e, region)) ∨
      ∀ fuel limits, program.searchWithin fuel subject start range region given limits =
        report region Found.start
          (program.findFrom limits (Context.make program subject start range given) fuel) := by
  simp only [searchWithin]
  rcases (do
    checkRange start range subject.size
    program.checkOptions given
    program.checkRegion region : Except Error Unit) with e | accepted
  · exact Or.inl ⟨e, fun _ _ => rfl⟩
  · exact Or.inr fun _ _ => rfl

/-- So is a match at a single position, or so it does. -/
theorem matchWithin_cases :
    (∃ e, ∀ fuel limits,
        program.matchWithin fuel subject pos region given limits = (.error e, region)) ∨
      ∀ fuel limits, program.matchWithin fuel subject pos region given limits =
        report region Found.length
          (program.findAt limits (Context.make program subject pos subject.size given) fuel) := by
  simp only [matchWithin]
  rcases (do
    checkPosition pos subject.size
    program.checkOptions given
    program.checkRegion region : Except Error Unit) with e | accepted
  · exact Or.inl ⟨e, fun _ _ => rfl⟩
  · exact Or.inr fun _ _ => rfl

end Calls

section Failures

variable {program : Program} {tree : Tree} {limits : Limits} {given : Options} {region : Region}
  {subject : Array UInt8} {start range pos fuel : Nat} {e : Error}
  {result : Except Interrupt (Option Found)}

/-- Every check refuses an argument. -/
theorem FailsBy.of_check {accepted : Prop} [Decidable accepted] {text : String}
    (h : (if accepted then Except.ok () else .error (.invalidArgument text)) = .error e) :
    FailsBy result e := by
  split at h
  · cases h
  · cases h
    exact Or.inl ⟨text, rfl⟩

/-- The first check that fails decides. -/
theorem error_of_bind {first next : Except Error Unit} (h : (first >>= fun _ => next) = .error e) :
    first = .error e ∨ next = .error e := by
  cases first with
  | error other =>
      cases h
      exact Or.inl rfl
  | ok => exact Or.inr h

/-- A call whose arguments are accepted fails as its attempts do. -/
theorem report_error {α : Type} {answer : Found → α}
    (hraises : ∀ cause, result = .error (.failure cause) → limits.Raises cause)
    (h : (report region answer result).1 = .error e) : FailsBy result e := by
  rcases result with (cause | _) | (_ | found)
  · cases h
    have hlimit := (hraises cause rfl).isLimit
    exact Or.inr ⟨hlimit.1, fun htime => absurd htime hlimit.2⟩
  · cases h
    exact Or.inr ⟨rfl, fun _ => rfl⟩
  · cases h
  · cases h

/-- A search fails because of an argument or of a limit. -/
theorem searchWithin_error (hprogram : program.Means tree)
    (h : (program.searchWithin fuel subject start range region given limits).1 = .error e) :
    FailsBy (program.findFrom limits (Context.make program subject start range given) fuel) e := by
  rw [searchWithin] at h
  split at h
  · rename_i other hchecks
    cases h
    rcases error_of_bind hchecks with hrange | hrest
    · exact .of_check hrange
    · rcases error_of_bind hrest with hoptions | hregion
      · exact .of_check hoptions
      · exact .of_check hregion
  · exact report_error (fun cause hfind => hprogram.findFrom_raises rfl hfind) h

/-- So does a match at a single position. -/
theorem matchWithin_error (hprogram : program.Means tree)
    (h : (program.matchWithin fuel subject pos region given limits).1 = .error e) :
    FailsBy (program.findAt limits (Context.make program subject pos subject.size given) fuel)
      e := by
  rw [matchWithin] at h
  split at h
  · rename_i other hchecks
    cases h
    rcases error_of_bind hchecks with hposition | hrest
    · exact .of_check hposition
    · rcases error_of_bind hrest with hoptions | hregion
      · exact .of_check hoptions
      · exact .of_check hregion
  · exact report_error (fun cause hfind => hprogram.findAt_raises rfl hfind) h

end Failures

section Compiled

variable {pattern : List UInt8} {asked : Options} {enc : Encoding} {dialect : Dialect}
  {readLimits : Limits} {program : Program}

/-- Every program that a pattern is compiled to is that of a tree. -/
theorem means_of_compile (h : compile pattern asked enc dialect readLimits = .ok program) :
    ∃ tree, program.Means tree := by
  rcases compile_ok h with ⟨parsed, hparse, hprogram⟩
  exact ⟨_, (ofParsed_ok hparse hprogram).1⟩

/-- Every search and every match ends: with steps enough, the answer is not that there were too few,
and it does not depend on how many there are. -/
theorem search_terminates (hcompile : compile pattern asked enc dialect readLimits = .ok program)
    (subject : Array UInt8) (start range : Nat) (region : Region) (given : Options)
    (limits : Limits) :
    ∃ bound, ∀ fuel, bound ≤ fuel →
      (program.searchWithin fuel subject start range region given limits =
        program.searchWithin bound subject start range region given limits ∧
      (program.searchWithin fuel subject start range region given limits).1 ≠ .error .timeLimit) ∧
      program.matchWithin fuel subject start region given limits =
        program.matchWithin bound subject start region given limits ∧
      (program.matchWithin fuel subject start region given limits).1 ≠ .error .timeLimit := by
  rcases means_of_compile hcompile with ⟨tree, hprogram⟩
  have hencoding : ∀ stop, (Context.make program subject start stop given).encoding =
      program.encoding := fun _ => rfl
  -- The search and the match have bounds of their own, and their sum does for both.
  rcases hprogram.findFrom_settles (hencoding range) limits with ⟨bound, result, hends, hbound⟩
  rcases hprogram.findAt_settles (hencoding subject.size) limits with
    ⟨bound', result', hends', hbound'⟩
  refine ⟨bound + bound', fun fuel hfuel => ⟨⟨?_, fun htime => ?_⟩, ?_, fun htime => ?_⟩⟩
  · rw [searchWithin, searchWithin, hbound fuel (by omega), hbound (bound + bound') (by omega)]
  · have hout := (searchWithin_error hprogram htime).outOfFuel
    exact hends ((hbound fuel (by omega)).symm.trans hout)
  · rw [matchWithin, matchWithin, hbound' fuel (by omega), hbound' (bound + bound') (by omega)]
  · have hout := (matchWithin_error hprogram htime).outOfFuel
    exact hends' ((hbound' fuel (by omega)).symm.trans hout)

/-- With the nested loops of `(a*)*`, all ways to match `aa` are tried. -/
theorem search_terminates_nested_loops :
    ∃ program, compile [40, 97, 42, 41, 42] {} .utf8 Dialect.standard {} = .ok program ∧
      ∃ bound, ∀ fuel, bound ≤ fuel →
        (program.searchWithin fuel #[97, 97] 0 2 (Region.ofCapacity 2) { findLongest := true }
          Limits.off).1 ≠ .error .timeLimit := by
  have hcomputed : ((compile [40, 97, 42, 41, 42] {} .utf8 Dialect.standard {}).toOption.any
      fun _ => true) = true := by decide +kernel
  rcases exists_compiled hcomputed with ⟨program, hcompile, -⟩
  rcases search_terminates hcompile #[97, 97] 0 2 (Region.ofCapacity 2) { findLongest := true }
    Limits.off with ⟨bound, hbound⟩
  exact ⟨program, hcompile, bound, fun fuel hfuel => (hbound fuel hfuel).1.2⟩

/-- No search and no match fails inside. Every state that they go through is safe and looks at
nothing outside of the subject, and what they find lies within the range. -/
theorem search_safe (hcompile : compile pattern asked enc dialect readLimits = .ok program)
    (subject : Array UInt8) (start range : Nat) (region : Region) (given : Options)
    (limits : Limits) (fuel : Nat) :
    (∀ cause, (program.searchWithin fuel subject start range region given limits).1 ≠
        .error (.internal cause) ∧
      (program.matchWithin fuel subject start region given limits).1 ≠ .error (.internal cause)) ∧
    (start ≤ range → range ≤ subject.size →
      let ctx := Context.make program subject start range given
      (∀ state first, program.Visits limits ctx fuel state first →
        state.Safe program ctx first ∧ state.LooksInside program ctx) ∧
      ∀ found, program.findFrom limits ctx fuel = .ok (some found) ∨
        program.findAt limits ctx fuel = .ok (some found) → found.Inside program range) := by
  rcases means_of_compile hcompile with ⟨tree, hprogram⟩
  -- An error of a call is one of its search, and each state is one of an attempt.
  refine ⟨fun cause => ⟨fun hfails => ?_, fun hfails => ?_⟩, fun hstart hrange => ⟨?_, ?_⟩⟩
  · exact (searchWithin_error hprogram hfails).not_internal
  · exact (matchWithin_error hprogram hfails).not_internal
  · rintro state first ⟨m, begins, hbegins, rfl, hreach⟩
    rcases hprogram.begins_rests rfl hbegins hstart with ⟨hrests, hle⟩
    have hsafe := hprogram.attempt_safe rfl hrests hle hreach
    exact ⟨hsafe, hsafe.looksInside hrange⟩
  · rintro found (hfind | hfind)
    · exact hprogram.findFrom_inside rfl hfind
    · exact hprogram.findAt_inside rfl hstart hfind

/-- A search with `(?>(a)*)(?!b)\1`, which has a loop, a group, marks and a reference. -/
theorem search_safe_marks :
    ∃ program, compile [40, 63, 62, 40, 97, 41, 42, 41, 40, 63, 33, 98, 41, 92, 49] {} .utf8
        Dialect.standard {} = .ok program ∧
      (∀ fuel cause, (program.searchWithin fuel #[97, 97, 98] 0 3 (Region.ofCapacity 2) {}
        Limits.off).1 ≠ .error (.internal cause)) ∧
      0 ≤ 3 ∧ 3 ≤ #[97, 97, 98].size ∧
      let ctx := Context.make program #[97, 97, 98] 0 3 {}
      ∀ fuel state first, program.Visits Limits.off ctx fuel state first →
        state.Safe program ctx first ∧ state.LooksInside program ctx := by
  have hcomputed : ((compile [40, 63, 62, 40, 97, 41, 42, 41, 40, 63, 33, 98, 41, 92, 49] {} .utf8
      Dialect.standard {}).toOption.any fun _ => true) = true := by decide +kernel
  rcases exists_compiled hcomputed with ⟨program, hcompile, -⟩
  have hsafe := fun fuel => search_safe hcompile #[97, 97, 98] 0 3 (Region.ofCapacity 2) {}
    Limits.off fuel
  refine ⟨program, hcompile, fun fuel cause => ((hsafe fuel).1 cause).1, by decide, by decide, ?_⟩
  exact fun fuel => ((hsafe fuel).2 (by decide) (by decide)).1

end Compiled

end Program

end RegexEngine
