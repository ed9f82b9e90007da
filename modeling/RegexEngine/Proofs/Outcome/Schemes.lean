import RegexEngine.Proofs.Fragment.Loop

/-!
# Loops without Rounds

The rounds of a loop are there to make its recursion end. Once it is known that they suffice, they
can be left out of what is said about loops, and so can the count where it has come to matter no
longer.

A loop that has run as often as it has to forgets how often it has run. One with the same bound on
either side is a number of copies, and one that has to run once is an iteration and, if that has
consumed something, a loop without bounds. This is what the ways to write a loop out are measured
against: copies are the loop that they stand for, and an iteration with a loop without bounds behind
it is so wherever the iteration consumes something.

## Main definitions

* `Ways.further`: What a loop without an upper bound does after an iteration.

## Theorems

* `iterate_rounds`: Numbers of rounds that suffice are as good as each other.
* `loop_plus`, `loop_star`: Loops without an upper bound.
* `loop_exact`, `repeated_exact`: A loop with the same bound on either side is a number of copies.
-/

namespace RegexEngine

namespace Ways

variable {ctx : Context} {body : Ways} {greedy : Bool} {place last : Place}

/-- What stays is tried behind the rest if greedy, and before it if not. -/
theorem mem_branch {x y : Place} {rest : List Place} :
    y ∈ (if greedy then rest ++ [x] else x :: rest) ↔ y ∈ rest ∨ y = x := by
  cases greedy with
  | false => simp only [Bool.false_eq_true, if_false, List.mem_cons, or_comm]
  | true => simp only [if_true, List.mem_append, List.mem_singleton]

/-- The outcomes of a loop with a round left: its place, once it has run often enough, and what
comes after an iteration. -/
theorem mem_iterate {lower : Nat} {upper : Option Nat} {rounds count : Nat} :
    last ∈ iterate lower upper greedy body (rounds + 1) count place ↔
      (lower ≤ count ∧ last = place) ∨
        ∃ mid ∈ body place, last ∈ afterRound lower upper greedy body rounds count place mid := by
  rw [iterate_succ, ← List.mem_flatMap]
  by_cases hlt : count < lower
  · have hle : ¬ lower ≤ count := Nat.not_le.mpr hlt
    simp only [hlt, if_true, hle, false_and, false_or]
    rfl
  · have hle : lower ≤ count := Nat.not_lt.mp hlt
    simp only [hlt, if_false, mem_branch, hle, true_and]
    exact or_comm

/-- Numbers of rounds that suffice are as good as each other. -/
theorem iterate_rounds {lower : Nat} {upper : Option Nat} (h : Advances ctx body)
    {rounds more count : Nat} (hrounds : (lower - count) + (ctx.range - place.pos) < rounds)
    (hmore : (lower - count) + (ctx.range - place.pos) < more) :
    iterate lower upper greedy body rounds count place =
      iterate lower upper greedy body more count place := by
  generalize hneed : (lower - count) + (ctx.range - place.pos) = need at hrounds hmore
  -- Both are as good as the least number, which is reached from either by single rounds.
  have hleast : ∀ n, iterate lower upper greedy body (need + 1 + n) count place =
      iterate lower upper greedy body (need + 1) count place := by
    intro n
    induction n with
    | zero => rfl
    | succ n ih =>
        have henough : (lower - count) + (ctx.range - place.pos) < need + 1 + n := by omega
        exact (iterate_stable h _ count place henough).trans ih
  obtain ⟨n, rfl⟩ := Nat.exists_eq_add_of_le (Nat.succ_le_of_lt hrounds)
  obtain ⟨k, rfl⟩ := Nat.exists_eq_add_of_le (Nat.succ_le_of_lt hmore)
  exact (hleast n).trans (hleast k).symm

/-- A loop without an upper bound that has run often enough forgets how often it has run. -/
theorem iterate_forgets {lower : Nat} (rounds : Nat) {count : Nat} (h : lower ≤ count) :
    iterate lower none greedy body rounds count = iterate 0 none greedy body rounds 0 := by
  -- By induction on the rounds. Neither bound is asked for any more, so the count does not matter.
  induction rounds generalizing lower count with
  | zero => rfl
  | succ rounds ih =>
      funext place
      have hround : afterRound lower none greedy body rounds count place =
          afterRound 0 none greedy body rounds 0 place := by
        funext last
        -- Whether the loop ends depends on whether the iteration was empty.
        have hiff : endsLoop lower none (count + 1) place last ↔
            endsLoop 0 none (0 + 1) place last := by
          simp only [endsLoop, Nat.le_succ_of_le h, Nat.zero_le, Option.any_none]
        have hlater : iterate 0 none greedy body rounds (0 + 1) =
            iterate 0 none greedy body rounds 0 := ih (Nat.zero_le _)
        rw [afterRound, afterRound, ih (Nat.le_succ_of_le h), hlater]
        simp only [hiff]
      rw [iterate_succ, iterate_succ, more, more, hround, if_neg (Nat.not_lt.mpr h),
        if_neg (Nat.lt_irrefl 0)]

/-- What a loop without an upper bound does after an iteration from `place`, if it does not have to
go on. -/
def further (ctx : Context) (greedy : Bool) (body : Ways) (place : Place) : Ways := fun last =>
  if last.pos = place.pos then [last] else loop ctx 0 none greedy body last

/-- A loop that has to run once is an iteration, and what a loop does that need not go on. -/
theorem loop_plus (h : Advances ctx body) (place : Place) :
    loop ctx 1 none greedy body place = (body place).flatMap (further ctx greedy body place) := by
  rw [loop, if_neg (Option.some_ne_none 0).symm, iterate_succ, if_pos Nat.one_pos, more]
  refine List.flatMap_congr fun last hlast => ?_
  have hiff : endsLoop 1 none (0 + 1) place last ↔ last.pos = place.pos := by
    simp only [endsLoop, Nat.le_refl, and_true, Option.any_none, Bool.false_eq_true, or_false]
  by_cases hpos : last.pos = place.pos
  · rw [afterRound_ends greedy body _ (hiff.mpr hpos), further, if_pos hpos]
  · rw [afterRound_goes greedy body _ (mt hiff.mp hpos), iterate_forgets _ (Nat.le_refl _), further,
      if_neg hpos, loop, if_neg (Option.some_ne_none 0).symm]
    have hahead := (h place last hlast).le
    exact iterate_rounds h (by omega) (by omega)

/-- A loop without bounds is one that has to run once, or nothing. -/
theorem loop_star (h : Advances ctx body) (place : Place) :
    loop ctx 0 none greedy body place =
      if greedy then loop ctx 1 none greedy body place ++ [place]
      else place :: loop ctx 1 none greedy body place := by
  have hmore : more 0 none greedy body (0 + (ctx.range - place.pos)) 0 place =
      loop ctx 1 none greedy body place := by
    rw [loop_plus h, more]
    refine List.flatMap_congr fun last hlast => ?_
    by_cases hpos : last.pos = place.pos
    · rw [afterRound_ends greedy body _ (endsLoop_star.mpr hpos), further, if_pos hpos]
    · rw [afterRound_goes greedy body _ (mt endsLoop_star.mp hpos),
        iterate_forgets _ (Nat.zero_le _), further, if_neg hpos, loop,
        if_neg (Option.some_ne_none 0).symm]
      have hahead := h place last hlast
      unfold Context.Ahead at hahead
      exact iterate_rounds h (by omega) (by omega)
  rw [loop, if_neg (Option.some_ne_none 0).symm, iterate_succ, if_neg (Nat.lt_irrefl 0), hmore]

/-- A loop that has to run exactly as often as it may is a number of copies, from any count on. -/
theorem iterate_exact {bound : Nat} (rest : Nat) {rounds count : Nat}
    (hcount : count + (rest + 1) = bound) (hrounds : rest < rounds) :
    iterate bound (some bound) greedy body rounds count = times (rest + 1) body := by
  -- The last iteration ends the loop, and any other before it goes on.
  induction rest generalizing rounds count with
  | zero =>
      obtain ⟨rounds, rfl⟩ : ∃ n, rounds = n + 1 := ⟨rounds - 1, by omega⟩
      funext place
      rw [iterate_succ, if_pos (by omega), more, times, andThen]
      refine List.flatMap_congr fun last _ => ?_
      have hends : endsLoop bound (some bound) (count + 1) place last := by
        refine Or.inr ?_
        rw [Option.any_some, decide_eq_true_eq]
        omega
      exact afterRound_ends greedy body rounds hends
  | succ rest ih =>
      obtain ⟨rounds, rfl⟩ : ∃ n, rounds = n + 1 := ⟨rounds - 1, by omega⟩
      funext place
      rw [iterate_succ, if_pos (by omega), more, times, andThen]
      refine List.flatMap_congr fun last _ => ?_
      have hgoes : ¬ endsLoop bound (some bound) (count + 1) place last := by
        simp only [endsLoop, Option.any_some, decide_eq_true_eq]
        omega
      rw [afterRound_goes greedy body rounds hgoes, ih (by omega) (by omega)]

/-- A loop with the same bound on either side is a number of copies. -/
theorem loop_exact (bound : Nat) : loop ctx bound (some bound) greedy body = times bound body := by
  funext place
  cases bound with
  | zero => exact if_pos rfl
  | succ bound =>
      rw [loop, if_neg (by simp), iterate_exact bound (by omega) (by omega)]

/-- So is a repeat with the same bound on either side, whichever scheme it is run by. -/
theorem repeated_exact {bound : Nat} {scheme : Scheme} (h : scheme.Suits bound (some bound)) :
    repeated ctx scheme bound (some bound) greedy body = times bound body := by
  cases scheme with
  | plus => cases h.2
  | copies n =>
      rcases h with ⟨rfl, -⟩
      rfl
  | _ => exact loop_exact bound

end Ways

end RegexEngine
