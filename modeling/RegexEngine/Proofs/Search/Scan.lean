import RegexEngine.Proofs.Safety.Attempt

/-!
# Searches as Series of Attempts

A search makes one attempt after the other. What holds of an attempt holds of a search, because an
attempt leaves the matcher ready for the next one: every attempt of a search ends, so the search
does; no attempt fails but by a limit, so the search does not; and every state of every attempt is
safe.

`Tries` follows the scan of the start positions and lists the attempts that it makes.

## Main definitions

* `Program.Tries`: The attempts of a scan.
* `Program.Begins`: The attempts that a search, or a match at one position, makes.
* `Program.Visits`: The states that they go through.

## Theorems

* `scan_enough`: A scan of the range does not run out of attempts.
* `attempt_settles`, `scan_settles`: With steps enough, the number of steps makes no difference.
* `scan_raises`: A scan fails by a limit only.
* `scan_inside`: What a scan finds lies within the range.
* `begins_rests`: Every attempt begins with a matcher that is ready.
-/

namespace RegexEngine

namespace Context

variable {ctx : Context} {bytes : List UInt8} {pos found : Nat}

theorem occurrenceAmong_lt {count : Nat} (h : ctx.occurrenceAmong bytes count pos = some found) :
    pos ≤ found ∧ found < pos + count := by
  induction count generalizing pos with
  | zero => cases h
  | succ count ih =>
      rw [occurrenceAmong] at h
      split at h
      · cases h
        omega
      · have hrest := ih h
        omega

/-- An occurrence is not before the position where it is looked for, and within the range. -/
theorem nextOccurrence_le (h : ctx.nextOccurrence bytes pos = some found) :
    pos ≤ found ∧ found ≤ ctx.range := by
  have hlt := occurrenceAmong_lt h
  omega

end Context

namespace Program

/-- The attempts that a scan makes, each with the matcher it begins with and its position. -/
inductive Tries (program : Program) (limits : Limits) (ctx : Context) (fuel last : Nat) :
    (count : Nat) → Machine → (pos : Nat) → Machine → Nat → Prop
  /-- The first attempt is where the literal occurs next. -/
  | here {count : Nat} {m : Machine} {pos start : Nat}
      (occurs : ctx.nextOccurrence program.hints.literal pos = some start) :
      Tries program limits ctx fuel last (count + 1) m pos m start
  /-- The others are those of the scan that goes on behind it. -/
  | later {count : Nat} {m after first : Machine} {pos start begins : Nat}
      (occurs : ctx.nextOccurrence program.hints.literal pos = some start)
      (fails : m.attempt program limits ctx fuel start = .ok (.exhausted after))
      (goes : ¬ (last ≤ start ∨ ctx.range < start + ctx.encoding.charLength ctx.subject start))
      (rest : Tries program limits ctx fuel last count after
        (start + ctx.encoding.charLength ctx.subject start) first begins) :
      Tries program limits ctx fuel last (count + 1) m pos first begins

/-- The attempts that are made by a search, or by a match at a single position. -/
inductive Begins (program : Program) (limits : Limits) (ctx : Context) (fuel : Nat) :
    Machine → Nat → Prop
  | single :
      Begins program limits ctx fuel (Machine.initial program ctx.searchStart) ctx.searchStart
  | scanned {last start : Nat} {m : Machine} (starts : program.lastStart ctx = some last)
      (tries : program.Tries limits ctx fuel last (ctx.range + 1 - ctx.searchStart)
        (Machine.initial program ctx.searchStart) ctx.searchStart m start) :
      Begins program limits ctx fuel m start

/-- The states that the attempts go through, each with the state at the beginning of its attempt. -/
def Visits (program : Program) (limits : Limits) (ctx : Context) (fuel : Nat)
    (state first : Machine) : Prop :=
  ∃ m start, program.Begins limits ctx fuel m start ∧ first = m.restart start ∧
    Machine.Reaches program limits ctx first state

/-- A scan that may make one attempt for every position from here to the end of the range does not
run out of them: it answers no differently if it may make more. -/
theorem scan_enough {program : Program} {limits : Limits} {ctx : Context}
    {fuel last count pos : Nat} {m : Machine} (hcount : ctx.range < pos + count) (more : Nat) :
    program.scan limits ctx fuel last (count + more) m pos =
      program.scan limits ctx fuel last count m pos := by
  -- Every attempt is behind the one before, so what is left of the range shrinks with the count.
  induction count generalizing m pos with
  | zero =>
      have hnone : ctx.nextOccurrence program.hints.literal pos = none := by
        by_contra hsome
        rcases Option.ne_none_iff_exists'.mp hsome with ⟨found, hfound⟩
        have hle := Context.nextOccurrence_le hfound
        omega
      cases more with
      | zero => rfl
      | succ more => simp only [scan, hnone]
  | succ count ih =>
      rw [Nat.add_right_comm, scan, scan]
      rcases hoccurs : ctx.nextOccurrence program.hints.literal pos with _ | start
      · rfl
      · have hle := Context.nextOccurrence_le hoccurs
        have hlength := ctx.encoding.charLength_pos ctx.subject start
        rcases hattempt : m.attempt program limits ctx fuel start with
          interrupt | ⟨after⟩ | ⟨after⟩
        · simp only [hattempt]
        · simp only [hattempt]
        · simp only [hattempt]
          split
          · rfl
          · rename_i hgoes
            exact ih (by omega)

namespace Means

variable {program : Program} {tree : Tree} {ctx : Context} {limits : Limits} {m : Machine}
  {fuel last start : Nat}

/-- With steps enough, an attempt has a result that does not depend on how many there are. -/
theorem attempt_settles (h : program.Means tree) (hencoding : ctx.encoding = program.encoding)
    (hfits : m.registers.Fits program) (limits : Limits) (start : Nat) :
    ∃ bound result, result ≠ .error .outOfFuel ∧
      ∀ fuel, bound ≤ fuel → m.attempt program limits ctx fuel start = result := by
  rcases h.attempt_comes hencoding hfits limits start with ⟨bound, hbound⟩
  have hends : m.attempt program limits ctx bound start ≠ .error .outOfFuel := by
    intro hout
    rcases hbound bound (Nat.le_refl _) with ⟨cause, -, hstops⟩ | ⟨verdict, hverdict, -⟩
    · rw [hstops] at hout
      cases hout
    · rw [hverdict] at hout
      cases hout
  refine ⟨bound, _, hends, fun fuel hfuel => ?_⟩
  -- A run that has ended does not notice that it might have gone on.
  obtain ⟨more, rfl⟩ : ∃ more, fuel = bound + more := ⟨fuel - bound, by omega⟩
  exact Machine.run_add more hends

/-- With steps enough for every attempt, a scan has a result that does not depend on how many there
are. -/
theorem scan_settles (h : program.Means tree) (hencoding : ctx.encoding = program.encoding)
    (hm : m.Rests program ctx.range) (limits : Limits) (last count pos : Nat) :
    ∃ bound result, result ≠ .error .outOfFuel ∧
      ∀ fuel, bound ≤ fuel → program.scan limits ctx fuel last count m pos = result := by
  -- On the number of attempts that may still be made. The bound is a sum over those that are.
  induction count generalizing m pos with
  | zero => exact ⟨0, .ok (.exhausted m), by rintro ⟨⟩, fun _ _ => rfl⟩
  | succ count ih =>
      rcases hoccurs : ctx.nextOccurrence program.hints.literal pos with _ | start
      · refine ⟨0, .ok (.exhausted m), by rintro ⟨⟩, fun fuel _ => ?_⟩
        rw [scan, hoccurs]
      rcases h.attempt_settles hencoding hm.registers.fits limits start with
        ⟨bound, result, hresult, hbound⟩
      rcases result with interrupt | ⟨after⟩ | ⟨after⟩
      · refine ⟨bound, .error interrupt, hresult, fun fuel hfuel => ?_⟩
        simp only [scan, hoccurs, hbound fuel hfuel]
      · refine ⟨bound, .ok (.matched after), by rintro ⟨⟩, fun fuel hfuel => ?_⟩
        simp only [scan, hoccurs, hbound fuel hfuel]
      · by_cases hstops : last ≤ start ∨
          ctx.range < start + ctx.encoding.charLength ctx.subject start
        · refine ⟨bound, .ok (.exhausted after), by rintro ⟨⟩, fun fuel hfuel => ?_⟩
          simp only [scan, hoccurs, hbound fuel hfuel, if_pos hstops]
        · have hrests := h.attempt_rests hencoding hm (Context.nextOccurrence_le hoccurs).2
            (hbound bound (Nat.le_refl _))
          rcases ih hrests (start + ctx.encoding.charLength ctx.subject start) with
            ⟨bound', result, hresult', hbound'⟩
          refine ⟨bound + bound', result, hresult', fun fuel hfuel => ?_⟩
          simp only [scan, hoccurs, hbound fuel (by omega), if_neg hstops]
          exact hbound' fuel (by omega)

/-- A scan fails by a limit only. -/
theorem scan_raises (h : program.Means tree) (hencoding : ctx.encoding = program.encoding)
    (hm : m.Rests program ctx.range) {count pos : Nat} {cause : Cause}
    (hscan : program.scan limits ctx fuel last count m pos = .error (.failure cause)) :
    limits.Raises cause := by
  -- By induction on the count. The matcher that an attempt leaves is at rest again, so the next
  -- attempt starts as the first one did.
  induction count generalizing m pos with
  | zero => cases hscan
  | succ count ih =>
      rw [scan] at hscan
      split at hscan
      · cases hscan
      · rename_i start hoccurs
        split at hscan
        · rename_i interrupt hattempt
          cases hscan
          -- The attempt itself has failed.
          exact h.attempt_raises hencoding hm.registers.fits hattempt
        · cases hscan
        · rename_i after hattempt
          simp only at hscan
          split at hscan
          · cases hscan
          · have hle := (Context.nextOccurrence_le hoccurs).2
            exact ih (h.attempt_rests hencoding hm hle hattempt) hscan

/-- What a scan finds lies within the range. -/
theorem scan_inside (h : program.Means tree) (hencoding : ctx.encoding = program.encoding)
    (hm : m.Rests program ctx.range) {count pos : Nat} {verdict : Verdict} {found : Found}
    (hscan : program.scan limits ctx fuel last count m pos = .ok verdict)
    (hfound : matchOf verdict = some found) : found.Inside program ctx.range := by
  -- What has been noted lies within the range at every attempt, and so does what an attempt finds.
  induction count generalizing m pos with
  | zero =>
      cases hscan
      exact hm.best found hfound
  | succ count ih =>
      rw [scan] at hscan
      split at hscan
      · cases hscan
        exact hm.best found hfound
      · rename_i start hoccurs
        have hle := (Context.nextOccurrence_le hoccurs).2
        split at hscan
        · cases hscan
        · rename_i after hattempt
          cases hscan
          cases hfound
          exact h.attempt_matched hencoding hm hle hattempt
        · rename_i after hattempt
          have hrests := h.attempt_rests hencoding hm hle hattempt
          simp only at hscan
          split at hscan
          · cases hscan
            exact hrests.best found hfound
          · exact ih hrests hscan

/-- An attempt of a scan begins with a matcher that is ready, at a position within the range. -/
theorem tries_rests (h : program.Means tree) (hencoding : ctx.encoding = program.encoding)
    {count pos : Nat} {first : Machine}
    (htries : program.Tries limits ctx fuel last count m pos first start)
    (hm : m.Rests program ctx.range) : first.Rests program ctx.range ∧ start ≤ ctx.range := by
  induction htries with
  | here occurs => exact ⟨hm, (Context.nextOccurrence_le occurs).2⟩
  | later occurs fails goes rest ih =>
      exact ih (h.attempt_rests hencoding hm (Context.nextOccurrence_le occurs).2 fails)

/-- So does every attempt. -/
theorem begins_rests (h : program.Means tree) (hencoding : ctx.encoding = program.encoding)
    (hbegins : program.Begins limits ctx fuel m start) (hstart : ctx.searchStart ≤ ctx.range) :
    m.Rests program ctx.range ∧ start ≤ ctx.range := by
  cases hbegins with
  | single => exact ⟨Machine.rests_initial program ctx.range ctx.searchStart, hstart⟩
  | scanned starts tries =>
      exact h.tries_rests hencoding tries (Machine.rests_initial program ctx.range ctx.searchStart)

end Means

end Program

end RegexEngine
