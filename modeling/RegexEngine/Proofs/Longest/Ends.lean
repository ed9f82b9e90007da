import RegexEngine.Proofs.Outcome.Schemes

/-!
# Where Outcomes End

Which positions a part leads to, whatever order it comes to them in and whatever it closes on the
way. Two parts that lead to the same positions, from places that need only have the same position,
are interchangeable wherever no reference looks at the text of a group and nothing keeps the first
outcome only: what stands behind them is run from the same positions, a look-around asks only
whether there is an outcome, and a loop counts its iterations and looks at positions.

Being greedy is a matter of order, and so is the order of alternatives. The ways to run a repeat
differ in more than the order: after an empty first iteration, a repeat that is written out runs its
body again where a loop ends. But it does so from the position where the first iteration started, so
it comes to no other position.

A part need not lead to the same positions as itself, since it may look at the groups. So the
relation is symmetric and transitive, and reflexive on parts that do not.

## Main definitions

* `Ways.EndsIn`: One part leads to every position that another one leads to.
* `Ways.SameEnds`: Two parts lead to the same positions.
* `Ways.Tests`: A part that consumes nothing and closes no group.

## Theorems

* `sameEnds_andThen`, `sameEnds_look`, `sameEnds_loop` and others: Compounds of such parts.
* `sameEnds_repeats`: A repeat leads to the same positions, greedy or not and however it is run.
* `andThen_tests`: Tests may be made in any order.
-/

namespace RegexEngine

namespace Ways

/-- The other part leads to every position that the first one leads to, from any place at the same
position. -/
def EndsIn (ways other : Ways) : Prop :=
  ∀ place near : Place, place.pos = near.pos → ∀ last ∈ ways place,
    ∃ found ∈ other near, found.pos = last.pos

/-- Two parts lead to the same positions from any two places at the same position. -/
def SameEnds (ways other : Ways) : Prop :=
  EndsIn ways other ∧ EndsIn other ways

theorem SameEnds.symm {ways other : Ways} (h : SameEnds ways other) : SameEnds other ways :=
  ⟨h.2, h.1⟩

theorem EndsIn.trans {ways mid other : Ways} (h1 : EndsIn ways mid) (h2 : EndsIn mid other) :
    EndsIn ways other := by
  intro place near hpos last hlast
  rcases h1 place near hpos last hlast with ⟨found, hfound, hsame⟩
  rcases h2 near near rfl found hfound with ⟨end_, hend, hsame'⟩
  exact ⟨end_, hend, hsame'.trans hsame⟩

theorem SameEnds.trans {ways mid other : Ways} (h1 : SameEnds ways mid) (h2 : SameEnds mid other) :
    SameEnds ways other :=
  ⟨h1.1.trans h2.1, h2.2.trans h1.2⟩

variable {ctx : Context} {body body' first first' second second' : Ways}

theorem endsIn_stay : EndsIn stay stay := by
  intro place near hpos last hlast
  rw [List.mem_singleton.mp hlast]
  exact ⟨near, List.mem_singleton_self near, hpos.symm⟩

theorem sameEnds_stay : SameEnds stay stay :=
  ⟨endsIn_stay, endsIn_stay⟩

theorem sameEnds_never : SameEnds never never :=
  ⟨fun _ _ _ _ h => absurd h List.not_mem_nil, fun _ _ _ _ h => absurd h List.not_mem_nil⟩

/-- A part that has nothing to do with groups leads to the same positions as itself. -/
theorem endsIn_step (next : Nat → Option Nat) : EndsIn (step next) (step next) := by
  intro place near hpos last hlast
  rcases mem_step hlast with ⟨pos, hnext, rfl⟩
  refine ⟨near.moveTo pos, ?_, rfl⟩
  rw [step, ← hpos, hnext]
  exact List.mem_singleton_self _

/-- So does every test but that for the text of a group. -/
theorem sameEnds_test {leaf : Leaf} (h : ∀ groups ignoreCase, leaf ≠ .backref groups ignoreCase) :
    SameEnds (test ctx leaf) (test ctx leaf) := by
  rw [test_eq_step h]
  exact ⟨endsIn_step _, endsIn_step _⟩

theorem sameEnds_stepBack (count : Nat) : SameEnds (stepBack ctx count) (stepBack ctx count) :=
  ⟨endsIn_step fun pos => ctx.encoding.stepBack ctx.subject 0 count pos,
    endsIn_step fun pos => ctx.encoding.stepBack ctx.subject 0 count pos⟩

theorem endsIn_andThen (h1 : EndsIn first first') (h2 : EndsIn second second') :
    EndsIn (andThen first second) (andThen first' second') := by
  intro place near hpos last hlast
  rcases List.mem_flatMap.mp hlast with ⟨mid, hmid, hlast⟩
  rcases h1 place near hpos mid hmid with ⟨mid', hmid', hsame⟩
  rcases h2 mid mid' hsame.symm last hlast with ⟨found, hfound, hend⟩
  exact ⟨found, List.mem_flatMap.mpr ⟨mid', hmid', hfound⟩, hend⟩

theorem sameEnds_andThen (h1 : SameEnds first first') (h2 : SameEnds second second') :
    SameEnds (andThen first second) (andThen first' second') :=
  ⟨endsIn_andThen h1.1 h2.1, endsIn_andThen h1.2 h2.2⟩

theorem endsIn_group {number : Nat} (h : EndsIn body body') :
    EndsIn (group number body) (group number body') := by
  intro place near hpos last hlast
  rcases List.mem_map.mp hlast with ⟨inner, hinner, rfl⟩
  rcases h place near hpos inner hinner with ⟨found, hfound, hend⟩
  exact ⟨found.close number near.pos, List.mem_map_of_mem hfound, hend⟩

theorem sameEnds_group {number : Nat} (h : SameEnds body body') :
    SameEnds (group number body) (group number body') :=
  ⟨endsIn_group h.1, endsIn_group h.2⟩

/-- A look-around asks only whether there is an outcome, so it takes both directions to see that it
leads to the same positions. -/
theorem endsIn_look {negated : Bool} (h : SameEnds body body') :
    EndsIn (look negated body) (look negated body') := by
  intro place near hpos last hlast
  -- A negated look-around leads somewhere if the body leads nowhere from here; then it does so from
  -- there neither.
  cases negated with
  | true =>
      have hlast : last ∈ if (body place).isEmpty then [place] else [] := hlast
      split at hlast
      · rename_i hempty
        rw [List.mem_singleton.mp hlast]
        have hnear : (body' near).isEmpty := by
          rw [List.isEmpty_iff, List.eq_nil_iff_forall_not_mem]
          intro found hfound
          rcases h.2 near place hpos.symm found hfound with ⟨other, hother, -⟩
          rw [List.isEmpty_iff.mp hempty] at hother
          exact List.not_mem_nil hother
        -- Nothing but the position counts, and that is the same.
        refine ⟨near, ?_, hpos.symm⟩
        change near ∈ if (body' near).isEmpty then [near] else []
        rw [if_pos hnear]
        exact List.mem_singleton_self near
      · exact absurd hlast List.not_mem_nil
  | false =>
      -- Otherwise one outcome is enough, and there is one on the other side, though perhaps another
      -- one.
      rcases List.mem_map.mp hlast with ⟨inner, hinner, rfl⟩
      rcases h.1 place near hpos inner (List.mem_of_mem_take hinner) with ⟨found, hfound, -⟩
      rcases hnear : body' near with _ | ⟨chosen, rest⟩
      · rw [hnear] at hfound
        exact absurd hfound List.not_mem_nil
      · refine ⟨chosen.moveTo near.pos, ?_, hpos.symm⟩
        change _ ∈ ((body' near).take 1).map fun last => last.moveTo near.pos
        rw [hnear]
        exact List.mem_singleton_self _

theorem sameEnds_look {negated : Bool} (h : SameEnds body body') :
    SameEnds (look negated body) (look negated body') :=
  ⟨endsIn_look h, endsIn_look h.symm⟩

/-- Some of the alternatives lead to a position if one of them does. -/
theorem mem_anyOf {alternatives : List Ways} {place last : Place} :
    last ∈ alternatives.foldr orElse never place ↔ ∃ ways ∈ alternatives, last ∈ ways place := by
  induction alternatives with
  | nil => simp only [List.foldr_nil, never, List.not_mem_nil, false_and, exists_false]
  | cons ways rest ih =>
      rw [List.foldr_cons, orElse, List.mem_append, ih, List.exists_mem_cons_iff]

/-- Alternatives lead where other ones do if for each there is one among the others that leads where
it does. -/
theorem endsIn_anyOf {alternatives others : List Ways}
    (h : ∀ ways ∈ alternatives, ∃ other ∈ others, EndsIn ways other) :
    EndsIn (alternatives.foldr orElse never) (others.foldr orElse never) := by
  intro place near hpos last hlast
  rcases mem_anyOf.mp hlast with ⟨ways, hways, hlast⟩
  rcases h ways hways with ⟨other, hother, hends⟩
  rcases hends place near hpos last hlast with ⟨found, hfound, hend⟩
  exact ⟨found, mem_anyOf.mpr ⟨other, hother, hfound⟩, hend⟩

theorem sameEnds_times (h : SameEnds body body') (n : Nat) :
    SameEnds (times n body) (times n body') := by
  induction n with
  | zero => exact sameEnds_stay
  | succ n ih => exact sameEnds_andThen h ih

/-- The rounds of a loop lead where those of its like do, greedy or not. -/
theorem endsIn_iterate {lower : Nat} {upper : Option Nat} {greedy greedy' : Bool}
    (h : EndsIn body body') (rounds count : Nat) :
    EndsIn (iterate lower upper greedy body rounds count)
      (iterate lower upper greedy' body' rounds count) := by
  induction rounds generalizing count with
  | zero => exact fun _ _ _ _ hlast => absurd hlast List.not_mem_nil
  | succ rounds ih =>
      intro place near hpos last hlast
      rcases mem_iterate.mp hlast with ⟨henough, rfl⟩ | ⟨mid, hmid, hlast⟩
      · exact ⟨near, mem_iterate.mpr (Or.inl ⟨henough, rfl⟩), hpos.symm⟩
      rcases h place near hpos mid hmid with ⟨mid', hmid', hsame⟩
      -- Whether the loop ends after the iteration depends on positions.
      have hiff : endsLoop lower upper (count + 1) place mid ↔
          endsLoop lower upper (count + 1) near mid' := endsLoop_congr hpos hsame.symm
      by_cases hends : endsLoop lower upper (count + 1) place mid
      · rw [afterRound_ends greedy body rounds hends] at hlast
        rw [List.mem_singleton.mp hlast]
        refine ⟨mid', mem_iterate.mpr (Or.inr ⟨mid', hmid', ?_⟩), hsame⟩
        rw [afterRound_ends greedy' body' rounds (hiff.mp hends)]
        exact List.mem_singleton_self mid'
      · rw [afterRound_goes greedy body rounds hends] at hlast
        rcases ih (count + 1) mid mid' hsame.symm last hlast with ⟨found, hfound, hend⟩
        refine ⟨found, mem_iterate.mpr (Or.inr ⟨mid', hmid', ?_⟩), hend⟩
        rw [afterRound_goes greedy' body' rounds (mt hiff.mpr hends)]
        exact hfound

theorem endsIn_loop {lower : Nat} {upper : Option Nat} {greedy greedy' : Bool}
    (h : EndsIn body body') :
    EndsIn (loop ctx lower upper greedy body) (loop ctx lower upper greedy' body') := by
  intro place near hpos last hlast
  rw [loop] at hlast ⊢
  by_cases hzero : upper = some 0
  · rw [if_pos hzero] at hlast ⊢
    exact endsIn_stay place near hpos last hlast
  · rw [if_neg hzero] at hlast ⊢
    rw [← hpos]
    exact endsIn_iterate h _ 0 place near hpos last hlast

theorem sameEnds_loop {lower : Nat} {upper : Option Nat} {greedy greedy' : Bool}
    (h : SameEnds body body') :
    SameEnds (loop ctx lower upper greedy body) (loop ctx lower upper greedy' body') :=
  ⟨endsIn_loop h.1, endsIn_loop h.2⟩

/-- An iteration with a loop without bounds behind it leads where a loop does that has to run once.
-/
theorem sameEnds_plus {greedy : Bool} (hadvances : Advances ctx body) (h : SameEnds body body) :
    SameEnds (andThen body (loop ctx 0 none greedy body)) (loop ctx 1 none greedy body) := by
  have hstar : EndsIn (loop ctx 0 none greedy body) (loop ctx 0 none greedy body) := endsIn_loop h.1
  constructor
  · intro place near hpos last hlast
    rcases List.mem_flatMap.mp hlast with ⟨mid, hmid, hlast⟩
    rcases h.1 place near hpos mid hmid with ⟨mid', hmid', hsame⟩
    by_cases hempty : mid.pos = place.pos
    · -- The loop behind an empty iteration starts where the iteration did, and leads to no position
      -- that is not reached from there, or stays.
      rcases hstar mid near (hempty.trans hpos) last hlast with ⟨found, hfound, hend⟩
      rw [loop_star hadvances near, mem_branch] at hfound
      rcases hfound with hfound | rfl
      · exact ⟨found, hfound, hend⟩
      · refine ⟨mid', ?_, by omega⟩
        rw [loop_plus hadvances]
        refine List.mem_flatMap.mpr ⟨mid', hmid', ?_⟩
        rw [further, if_pos (by omega)]
        exact List.mem_singleton_self mid'
    · rcases hstar mid mid' hsame.symm last hlast with ⟨found, hfound, hend⟩
      refine ⟨found, ?_, hend⟩
      rw [loop_plus hadvances]
      refine List.mem_flatMap.mpr ⟨mid', hmid', ?_⟩
      rw [further, if_neg (by omega)]
      exact hfound
  · intro place near hpos last hlast
    rw [loop_plus hadvances] at hlast
    rcases List.mem_flatMap.mp hlast with ⟨mid, hmid, hlast⟩
    rcases h.1 place near hpos mid hmid with ⟨mid', hmid', hsame⟩
    by_cases hempty : mid.pos = place.pos
    · rw [further, if_pos hempty] at hlast
      rw [List.mem_singleton.mp hlast]
      refine ⟨mid', List.mem_flatMap.mpr ⟨mid', hmid', ?_⟩, hsame⟩
      rw [loop_star hadvances]
      exact mem_branch_self greedy mid' _
    · rw [further, if_neg hempty] at hlast
      rcases hstar mid mid' hsame.symm last hlast with ⟨found, hfound, hend⟩
      exact ⟨found, List.mem_flatMap.mpr ⟨mid', hmid', hfound⟩, hend⟩

/-- A repeat leads where the loop with its bounds does, however it is run. -/
theorem sameEnds_repeated {scheme : Scheme} {lower : Nat} {upper : Option Nat} {greedy : Bool}
    (hsuits : scheme.Suits lower upper) (hadvances : Advances ctx body) (h : SameEnds body body) :
    SameEnds (repeated ctx scheme lower upper greedy body) (loop ctx lower upper greedy body) := by
  cases scheme with
  | plus =>
      rcases hsuits with ⟨rfl, rfl⟩
      exact sameEnds_plus hadvances h
  | copies n =>
      rcases hsuits with ⟨rfl, rfl⟩
      rw [loop_exact]
      exact sameEnds_times h n
  | _ => exact sameEnds_loop h

/-- Repeats with the same bounds lead to the same positions, greedy or not and however they are run.
-/
theorem sameEnds_repeats {scheme scheme' : Scheme} {lower : Nat} {upper : Option Nat}
    {greedy greedy' : Bool} (hsuits : scheme.Suits lower upper)
    (hsuits' : scheme'.Suits lower upper) (hadvances : Advances ctx body)
    (hadvances' : Advances ctx body') (h : SameEnds body body') :
    SameEnds (repeated ctx scheme lower upper greedy body)
      (repeated ctx scheme' lower upper greedy' body') :=
  (sameEnds_repeated hsuits hadvances (h.trans h.symm)).trans
    ((sameEnds_loop h).trans (sameEnds_repeated hsuits' hadvances' (h.symm.trans h)).symm)

/-- A part that consumes nothing, closes no group and has one outcome at most. -/
def Tests (ways : Ways) : Prop :=
  ∀ place, ways place = [place] ∨ ways place = []

theorem tests_stay : Tests stay :=
  fun _ => Or.inl rfl

theorem tests_never : Tests never :=
  fun _ => Or.inr rfl

theorem tests_look (body : Ways) : Tests (look true body) := by
  intro place
  rw [look, if_pos rfl]
  split
  · exact Or.inl rfl
  · exact Or.inr rfl

theorem Tests.andThen (h1 : Tests first) (h2 : Tests second) :
    Tests (Ways.andThen first second) := by
  intro place
  rcases h1 place with hfirst | hfirst
  · rw [Ways.andThen, hfirst, List.flatMap_singleton]
    exact h2 place
  · rw [Ways.andThen, hfirst]
    exact Or.inr rfl

theorem andThen_assoc (first second third : Ways) :
    andThen (andThen first second) third = andThen first (andThen second third) :=
  funext fun _ => List.flatMap_assoc

/-- Tests may be made in any order. -/
theorem andThen_tests (h1 : Tests first) (h2 : Tests second) :
    andThen first second = andThen second first := by
  funext place
  rcases h1 place with hfirst | hfirst
  · rcases h2 place with hsecond | hsecond
    · simp only [andThen, hfirst, hsecond, List.flatMap_singleton]
    · simp only [andThen, hfirst, hsecond, List.flatMap_singleton, List.flatMap_nil]
  · rcases h2 place with hsecond | hsecond
    · simp only [andThen, hfirst, hsecond, List.flatMap_singleton, List.flatMap_nil]
    · simp only [andThen, hfirst, hsecond, List.flatMap_nil]

end Ways

end RegexEngine
