import RegexEngine.Proofs.Search.Answer

/-!
# Reported Spans

What a region holds after a search or a match that has found something. The first span is that of
the match, which begins where the search says it does, or where the match was asked for. Every other
span belongs to a group and lies within the text that could be looked at, though not always within
the match: a group in a look-behind captures what comes before. A group that took no part leaves an
empty slot, and so does every number behind the last group, up to the room that the region has.

That no span ends before it starts, or reaches over the range, holds of every state of an attempt.
What remains is that a match starts where its attempt did. A match may have been noted by an
earlier attempt than the last, so the start is followed through the attempts of a search.

## Main definitions

* `Region.Reports`: What a region holds of a match.

## Theorems

* `best_reaches`, `attempt_start`: A match starts where its attempt does.
* `scan_start`: A scan finds nothing before the position where it begins.
* `fill_reports`: What a region holds after it is filled.
* `searchWithin_reports`, `matchWithin_reports`: What is reported by a call that answers.
* `search_reports`: What a search and a match report.
-/

namespace RegexEngine

namespace Machine

variable {program : Program} {limits : Limits} {ctx : Context} {m after : Machine}
  {fuel start : Nat}

/-- The match that is noted in a state of an attempt was noted before it, or starts where it does.
-/
theorem best_reaches (hreach : Reaches program limits ctx m after) :
    after.best = m.best ∨ ∃ found, after.best = some found ∧ found.start = m.start := by
  induction hreach with
  | refl => exact Or.inl rfl
  | @tail state after hbefore hstep ih =>
      -- A step keeps what is noted, or notes the match that it has come to.
      rcases (step_keeps hstep).2 with hkept | ⟨-, hnoted⟩
      · have hsame : after.best = state.best := hkept
        rw [hsame]
        exact ih
      · exact Or.inr ⟨state.found, hnoted, Program.Means.start_reaches hbefore⟩

/-- The match that an attempt comes to was noted before it, or starts where it does. -/
theorem attempt_start {verdict : Verdict}
    (h : m.attempt program limits ctx fuel start = .ok verdict) {found : Found}
    (hfound : Program.matchOf verdict = some found) :
    m.best = some found ∨ found.start = start := by
  rcases run_ends h with ⟨last, hreach, hstep⟩
  have hstart : last.start = start := Program.Means.start_reaches hreach
  cases verdict with
  | matched after =>
      rcases matched_of_step hstep with ⟨rfl, -⟩
      cases hfound
      exact Or.inr hstart
  | exhausted after =>
      -- The match was noted in the last step, or in one of those before, or before the attempt.
      have hbest : after.best = some found := hfound
      rcases (step_keeps hstep).2 with hkept | ⟨-, hnoted⟩
      · have hlast : last.best = some found := hkept.symm.trans hbest
        rcases best_reaches hreach with hsame | ⟨other, hother, hbegins⟩
        · exact Or.inl (hsame.symm.trans hlast)
        · obtain rfl : other = found := Option.some.inj (hother.symm.trans hlast)
          exact Or.inr hbegins
      · obtain rfl : last.found = found := Option.some.inj (hnoted.symm.trans hbest)
        exact Or.inr hstart

end Machine

namespace Program

variable {program : Program} {limits : Limits} {ctx : Context} {fuel : Nat} {found : Found}

/-- A scan finds nothing before the position where it begins, unless it was noted before. -/
theorem scan_start {last count pos : Nat} {m : Machine} {verdict : Verdict}
    (hscan : program.scan limits ctx fuel last count m pos = .ok verdict)
    (hfound : matchOf verdict = some found) : m.best = some found ∨ pos ≤ found.start := by
  induction count generalizing m pos with
  | zero =>
      cases hscan
      exact Or.inl hfound
  | succ count ih =>
      rw [scan] at hscan
      split at hscan
      · cases hscan
        exact Or.inl hfound
      · rename_i start hoccurs
        have hle := (Context.nextOccurrence_le hoccurs).1
        split at hscan
        · cases hscan
        · rename_i after hattempt
          cases hscan
          rcases Machine.attempt_start hattempt hfound with hbest | hstart
          · exact Or.inl hbest
          · exact Or.inr (by omega)
        · rename_i after hattempt
          -- What this attempt has noted is handed to the next one.
          have hcarried : after.best = some found → m.best = some found ∨ pos ≤ found.start := by
            intro hbest
            rcases Machine.attempt_start hattempt hbest with hbefore | hstart
            · exact Or.inl hbefore
            · exact Or.inr (by omega)
          simp only at hscan
          split at hscan
          · cases hscan
            exact hcarried hfound
          · rcases ih hscan with hbest | hlater
            · exact hcarried hbest
            · exact Or.inr (by omega)

/-- A search finds nothing before its start. -/
theorem findFrom_start (hfind : program.findFrom limits ctx fuel = .ok (some found)) :
    ctx.searchStart ≤ found.start := by
  rw [findFrom] at hfind
  split at hfind
  · cases hfind
  · rcases ok_of_map hfind with ⟨verdict, hscan, hfound⟩
    rcases scan_start hscan hfound with hbest | hle
    · cases hbest
    · exact hle

/-- A match at a position starts there. -/
theorem findAt_start (hfind : program.findAt limits ctx fuel = .ok (some found)) :
    found.start = ctx.searchStart := by
  rcases ok_of_map hfind with ⟨verdict, hattempt, hfound⟩
  rcases Machine.attempt_start hattempt hfound with hbest | hstart
  · cases hbest
  · exact hstart

end Program

/-- What a region holds of a match of a program that reaches from `first` to `last`, in a text that
may be looked at up to a limit. -/
structure Region.Reports (region : Region) (program : Program) (first last limit : Nat) : Prop where
  /-- There is a span for the match and one for each group. -/
  count : region.count = program.groups + 1
  room : region.count ≤ region.capacity
  /-- The first span is that of the match. -/
  whole : region.get? 0 = some (first, last)
  first_le : first ≤ last
  last_le : last ≤ limit
  /-- Every span lies within the text and does not end before it starts. -/
  spans : ∀ i start stop, region.get? i = some (start, stop) → start ≤ stop ∧ stop ≤ limit
  /-- Nothing is held but what is reported. -/
  others : ∀ i, region.get? i = none → region.slot i = none

namespace Region

variable {program : Program} {limit : Nat} {found : Found}

theorem slot_fill (region : Region) (found : Found) (i : Nat) :
    (region.fill found).slot i = if i < region.capacity then spanOf found i else none := by
  rw [slot, fill, Array.getD_eq_getD_getElem?]
  by_cases hi : i < region.capacity
  · rw [if_pos hi, Array.getElem?_ofFn, dif_pos hi, Option.getD_some]
  · rw [if_neg hi, Array.getElem?_ofFn, dif_neg hi, Option.getD_none]

/-- There is no span behind the last group. -/
theorem spanOf_eq_none {i : Nat} (h : found.captures.size ≤ i) (hpos : 0 < i) :
    spanOf found i = none := by
  cases i with
  | zero => omega
  | succ i => rw [spanOf, Array.getElem?_eq_none h, Option.bind_none]

/-- The spans of a match that lies within a limit do so too. -/
theorem spanOf_inside (h : found.Inside program limit) {i start stop : Nat}
    (hspan : spanOf found i = some (start, stop)) : start ≤ stop ∧ stop ≤ limit := by
  cases i with
  | zero =>
      cases hspan
      exact ⟨h.start_le, h.stop_le⟩
  | succ i => exact h.spans (i + 1) start stop hspan

/-- A region with room for all groups holds a match that lies within a limit. -/
theorem fill_reports (region : Region) (h : found.Inside program limit)
    (hroom : program.slotCount ≤ region.capacity) :
    (region.fill found).Reports program found.start found.stop limit := by
  have hcount : (region.fill found).count = program.groups + 1 := h.size
  have hcapacity : program.groups + 1 ≤ region.capacity := hroom
  refine ⟨hcount, ?_, ?_, h.start_le, h.stop_le, ?_, ?_⟩
  -- The region has room for every span, so none is left out of it.
  · rw [hcount, capacity_fill]
    exact hcapacity
  · rw [get?, hcount, if_pos (by omega), slot_fill, if_pos (by omega)]
    rfl
  · intro i start stop hspan
    rw [get?, slot_fill] at hspan
    split at hspan
    · split at hspan
      · exact spanOf_inside h hspan
      · cases hspan
    · cases hspan
  · intro i hnone
    by_cases hi : i < (region.fill found).count
    · rw [get?, if_pos hi] at hnone
      exact hnone
    · -- A slot that is not counted lies behind the last group.
      have hsize : found.captures.size ≤ i := Nat.le_of_not_lt hi
      rw [slot_fill, spanOf_eq_none hsize (by omega), ite_self]

end Region

namespace Program

variable {program : Program} {limits : Limits} {fuel : Nat} {region after : Region}
  {subject : Array UInt8} {given : Options}

/-- A call that answers with a match has found it and filled the region with it. -/
theorem report_ok {α : Type} {answer : Found → α} {result : Except Interrupt (Option Found)}
    {value : α} (h : report region answer result = (.ok (some value), after)) :
    ∃ found, result = .ok (some found) ∧ answer found = value ∧ region.fill found = after := by
  rcases result with interrupt | _ | found
  · cases h
  · cases h
  · cases h
    exact ⟨found, rfl, rfl, rfl⟩

theorem eq_ok_of_toOption {ε α : Type} {result : Except ε α} {value : α}
    (h : result.toOption = some value) : result = .ok value := by
  cases result with
  | error e => cases h
  | ok other => exact congrArg Except.ok (Option.some.inj h)

/-- Checks that come one after the other all succeed. -/
theorem ok_of_bind {first next : Except Error Unit} (h : (first >>= fun _ => next) = .ok ()) :
    first = .ok () ∧ next = .ok () := by
  cases first with
  | error e => cases h
  | ok => exact ⟨rfl, h⟩

/-- A region that is accepted has room for all groups. -/
theorem checkRegion_ok (h : program.checkRegion region = .ok ()) :
    program.slotCount ≤ region.capacity := by
  rw [checkRegion] at h
  split at h
  · assumption
  · cases h

/-- A search that answers has found a match, with arguments that are accepted. -/
theorem searchWithin_ok {start range pos : Nat}
    (h : program.searchWithin fuel subject start range region given limits =
      (.ok (some pos), after)) :
    program.slotCount ≤ region.capacity ∧ ∃ found,
      program.findFrom limits (Context.make program subject start range given) fuel =
        .ok (some found) ∧ found.start = pos ∧ region.fill found = after := by
  rw [searchWithin] at h
  split at h
  · cases h
  · rename_i hchecks
    have hregion := (ok_of_bind (ok_of_bind hchecks).2).2
    exact ⟨checkRegion_ok hregion, report_ok h⟩

/-- The range of a search that answers is one of the subject. -/
theorem searchWithin_range {start range pos : Nat}
    (h : program.searchWithin fuel subject start range region given limits =
      (.ok (some pos), after)) : start ≤ range ∧ range ≤ subject.size := by
  rw [searchWithin] at h
  split at h
  · cases h
  · rename_i hchecks
    have hrange := (ok_of_bind hchecks).1
    rw [checkRange] at hrange
    split at hrange
    · assumption
    · cases hrange

/-- So has a match at a single position. -/
theorem matchWithin_ok {pos length : Nat}
    (h : program.matchWithin fuel subject pos region given limits = (.ok (some length), after)) :
    pos ≤ subject.size ∧ program.slotCount ≤ region.capacity ∧ ∃ found,
      program.findAt limits (Context.make program subject pos subject.size given) fuel =
        .ok (some found) ∧ found.length = length ∧ region.fill found = after := by
  rw [matchWithin] at h
  split at h
  · cases h
  · rename_i hchecks
    rcases ok_of_bind hchecks with ⟨hposition, hrest⟩
    refine ⟨?_, checkRegion_ok (ok_of_bind hrest).2, report_ok h⟩
    rw [checkPosition] at hposition
    split at hposition
    · assumption
    · cases hposition

section Compiled

variable {pattern : List UInt8} {asked : Options} {enc : Encoding} {dialect : Dialect}
  {readLimits : Limits}

section Calls

variable {start range : Nat} (hcompile : compile pattern asked enc dialect readLimits = .ok program)
include hcompile

/-- A search that answers with a position has found a match that starts there, not before its own
start, and the region holds it. -/
theorem searchWithin_reports {pos : Nat}
    (h : program.searchWithin fuel subject start range region given limits =
      (.ok (some pos), after)) :
    start ≤ pos ∧ after.capacity = region.capacity ∧
      ∃ last, after.Reports program pos last range := by
  rcases means_of_compile hcompile with ⟨tree, hprogram⟩
  rcases searchWithin_ok h with ⟨hroom, found, hfind, rfl, rfl⟩
  have hinside := hprogram.findFrom_inside rfl hfind
  exact ⟨findFrom_start hfind, Region.capacity_fill region found, found.stop,
    region.fill_reports hinside hroom⟩

/-- A match at a position has the length that is answered with, and the region holds it. -/
theorem matchWithin_reports {length : Nat}
    (h : program.matchWithin fuel subject start region given limits =
      (.ok (some length), after)) :
    after.capacity = region.capacity ∧
      after.Reports program start (start + length) subject.size := by
  rcases means_of_compile hcompile with ⟨tree, hprogram⟩
  rcases matchWithin_ok h with ⟨hpos, hroom, found, hfind, rfl, rfl⟩
  have hinside := hprogram.findAt_inside rfl hpos hfind
  have hstart : found.start = start := findAt_start hfind
  -- The answer is a length, which leads from the start to the end of the match.
  have hstop : start + found.length = found.stop := by
    have hle := hinside.start_le
    rw [Found.length]
    omega
  refine ⟨Region.capacity_fill region found, ?_⟩
  have hreports := region.fill_reports hinside hroom
  rwa [hstart, ← hstop] at hreports

end Calls

/-- Whatever the subject, the region, the options and the limits are: a search that answers with a
position has found a match that starts there, not before its own start, and the region holds that
match and nothing else. All spans end within the range. A match at a position reports a match of the
length that it answers with, and all spans end within the subject. -/
theorem search_reports (hcompile : compile pattern asked enc dialect readLimits = .ok program)
    (subject : Array UInt8) (start range : Nat) (region : Region) (given : Options)
    (limits : Limits) (fuel : Nat) :
    (∀ pos after, program.searchWithin fuel subject start range region given limits =
        (.ok (some pos), after) →
      start ≤ pos ∧ after.capacity = region.capacity ∧
        ∃ last, after.Reports program pos last range) ∧
    ∀ length after, program.matchWithin fuel subject start region given limits =
        (.ok (some length), after) →
      after.capacity = region.capacity ∧
        after.Reports program start (start + length) subject.size :=
  ⟨fun _ _ => searchWithin_reports hcompile, fun _ _ => matchWithin_reports hcompile⟩

/-- With `(?<=(a))b(c)?`, the search of `ab` reports a group that lies before the match, and one
that took no part. -/
theorem search_reports_lookBehind :
    ∃ program after, compile [40, 63, 60, 61, 40, 97, 41, 41, 98, 40, 99, 41, 63] {} .utf8
        Dialect.standard {} = .ok program ∧
      program.searchWithin 50 #[97, 98] 0 2 (Region.ofCapacity 4) {} {} =
        (.ok (some 1), after) ∧
      after.toList = [some (1, 2), some (0, 1), none] ∧
      0 ≤ 1 ∧ after.capacity = 4 ∧ ∃ last, after.Reports program 1 last 2 := by
  have hcomputed : ((compile [40, 63, 60, 61, 40, 97, 41, 41, 98, 40, 99, 41, 63] {} .utf8
      Dialect.standard {}).toOption.any fun program =>
        let answer := program.searchWithin 50 #[97, 98] 0 2 (Region.ofCapacity 4) {} {}
        answer.1.toOption == some (some 1) &&
          answer.2.toList == [some (1, 2), some (0, 1), none]) = true := by decide +kernel
  rcases exists_compiled hcomputed with ⟨program, hcompile, hholds⟩
  simp only [Bool.and_eq_true, beq_iff_eq] at hholds
  rcases hsearch : program.searchWithin 50 #[97, 98] 0 2 (Region.ofCapacity 4) {} {} with
    ⟨result, after⟩
  rw [hsearch] at hholds
  rcases hholds with ⟨hfound, hspans⟩
  obtain rfl : result = .ok (some 1) := eq_ok_of_toOption hfound
  refine ⟨program, after, hcompile, hsearch, hspans, ?_⟩
  exact (search_reports hcompile #[97, 98] 0 2 (Region.ofCapacity 4) {} {} 50).1 1 after hsearch

end Compiled

end Program

end RegexEngine
