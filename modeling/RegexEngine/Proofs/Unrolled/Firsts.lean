import RegexEngine.Proofs.Outcome.Schemes

/-!
# Outcomes That Come Again

When a part has come to a place and what is behind it has failed there, it is of no use to come to
the same place once more. So two parts may be taken for each other if their outcomes are the same up
to such repetitions: for every kind of place, the first place of that kind is the same in both
lists.

All constructs keep this. A part that gives nothing back keeps the first outcome of any kind, and
what is run behind a part is run from the same places, first come first.

A loop that has to run once and its written-out form, an iteration and a loop without bounds, are
the same in this sense if an empty iteration makes no difference to the iteration that follows it.
The loop ends there; the written-out form goes on, and comes to nothing that it would not come to
anyway: to what is tried before the empty iteration it has come already, and the rest is its turn
next.

## Main definitions

* `SameFirsts`: In two lists, the first item of every kind is the same.
* `Ways.Alike`: Two parts have the same outcomes, up to those that come again.
* `Ways.Settles`: An empty match of a part makes no difference to the next one.

## Theorems

* `alike_andThen`, `alike_look`, `alike_loop` and others: Compounds of such parts.
* `alike_plus`: A loop that has to run once may be written out if its body settles.
-/

namespace RegexEngine

section Lists

variable {α β : Type} {xs ys zs xs' ys' : List α}

/-- In two lists, the first item of every kind is the same. -/
def SameFirsts (xs ys : List α) : Prop :=
  ∀ p : α → Bool, xs.find? p = ys.find? p

namespace SameFirsts

theorem refl (xs : List α) : SameFirsts xs xs :=
  fun _ => rfl

theorem symm (h : SameFirsts xs ys) : SameFirsts ys xs :=
  fun p => (h p).symm

theorem trans (h1 : SameFirsts xs ys) (h2 : SameFirsts ys zs) : SameFirsts xs zs :=
  fun p => (h1 p).trans (h2 p)

theorem append (h1 : SameFirsts xs ys) (h2 : SameFirsts xs' ys') :
    SameFirsts (xs ++ xs') (ys ++ ys') := by
  intro p
  rw [List.find?_append, List.find?_append, h1 p, h2 p]

theorem cons (x : α) (h : SameFirsts xs ys) : SameFirsts (x :: xs) (x :: ys) :=
  append (refl [x]) h

theorem map (f : α → β) (h : SameFirsts xs ys) : SameFirsts (xs.map f) (ys.map f) := by
  intro p
  rw [List.find?_map, List.find?_map, h (p ∘ f)]

theorem filter (keep : α → Bool) (h : SameFirsts xs ys) :
    SameFirsts (xs.filter keep) (ys.filter keep) := by
  intro p
  rw [List.find?_filter, List.find?_filter, h]

theorem head? (h : SameFirsts xs ys) : xs.head? = ys.head? := by
  have hfirst : ∀ zs : List α, zs.find? (fun _ => true) = zs.head? := by
    intro zs
    cases zs with
    | nil => rfl
    | cons => rfl
  rw [← hfirst, ← hfirst, h]

theorem take_one (h : SameFirsts xs ys) : xs.take 1 = ys.take 1 := by
  rw [List.take_one, List.take_one, h.head?]

theorem isEmpty (h : SameFirsts xs ys) : xs.isEmpty = ys.isEmpty := by
  have hnone : ∀ zs : List α, zs.isEmpty = zs.head?.isNone := by
    intro zs
    cases zs with
    | nil => rfl
    | cons => rfl
  rw [hnone, hnone, h.head?]

/-- Lists with the same firsts have the same items. -/
theorem mem_iff (h : SameFirsts xs ys) {x : α} : x ∈ xs ↔ x ∈ ys := by
  classical
  have hmem : ∀ zs : List α, x ∈ zs ↔ (zs.find? fun z => decide (z = x)).isSome := by
    intro zs
    simp only [List.find?_isSome, decide_eq_true_eq, exists_eq_right]
  rw [hmem, hmem, h]

/-- What is found first is found behind the first item behind which anything is found. -/
theorem findSome?_eq (f : α → Option β) (xs : List α) :
    xs.findSome? f = (xs.find? fun x => (f x).isSome).bind f := by
  induction xs with
  | nil => rfl
  | cons x rest ih =>
      rcases hx : f x with _ | y
      · rw [List.findSome?_cons_of_isNone (by rw [hx]; rfl),
          List.find?_cons_of_neg (by rw [hx]; exact Bool.false_ne_true), ih]
      · rw [List.findSome?_cons_of_isSome (by rw [hx]; rfl),
          List.find?_cons_of_pos (by rw [hx]; rfl), Option.bind_some]

theorem flatMap {f g : α → List β} (h : SameFirsts xs ys)
    (hfg : ∀ x ∈ ys, SameFirsts (f x) (g x)) : SameFirsts (xs.flatMap f) (ys.flatMap g) := by
  intro p
  rw [List.find?_flatMap, List.find?_flatMap, findSome?_eq, h, ← findSome?_eq]
  clear h
  induction ys with
  | nil => rfl
  | cons y rest ih =>
      rw [List.forall_mem_cons] at hfg
      rw [List.findSome?_cons, List.findSome?_cons, hfg.1 p, ih hfg.2]

end SameFirsts

/-- What is found first stays the same if some of the items find it as well. -/
theorem findSome?_redone {f g : α → Option β} {found : Option β} (h : xs.findSome? f = found)
    (hg : ∀ x ∈ xs, g x = f x ∨ g x = found.or (f x) ∨ g x = (f x).or found) :
    xs.findSome? g = found := by
  induction xs with
  | nil => exact h
  | cons x rest ih =>
      rw [List.forall_mem_cons] at hg
      rw [List.findSome?_cons] at h ⊢
      rcases hx : f x with _ | y
      · rw [hx] at h
        have hrest := ih h hg.2
        -- The item finds nothing of its own, so it finds nothing or what is found behind it.
        rcases hg.1 with hgx | hgx | hgx
        · rw [hgx, hx]
          exact hrest
        · rw [hgx, hx, Option.or_none, hrest]
          cases found <;> rfl
        · rw [hgx, hx, Option.none_or, hrest]
          cases found <;> rfl
      · rw [hx] at h
        subst h
        rcases hg.1 with hgx | hgx | hgx
        · rw [hgx, hx]
        · rw [hgx]
          rfl
        · rw [hgx, hx]
          rfl

end Lists

namespace Ways

variable {ctx : Context} {body body' first first' second second' : Ways}

/-- Two parts have the same outcomes from every place, up to those that come again. -/
def Alike (ways other : Ways) : Prop :=
  ∀ place, SameFirsts (ways place) (other place)

theorem Alike.refl (ways : Ways) : Alike ways ways :=
  fun place => SameFirsts.refl (ways place)

theorem Alike.symm (h : Alike first second) : Alike second first :=
  fun place => (h place).symm

theorem Alike.trans {mid : Ways} (h1 : Alike first mid) (h2 : Alike mid second) :
    Alike first second :=
  fun place => (h1 place).trans (h2 place)

theorem Alike.advances (h : Alike body body') (hbody : Advances ctx body) : Advances ctx body' :=
  fun place last hlast => hbody place last ((h place).mem_iff.mpr hlast)

theorem alike_andThen (h1 : Alike first first') (h2 : Alike second second') :
    Alike (andThen first second) (andThen first' second') :=
  fun place => (h1 place).flatMap fun mid _ => h2 mid

theorem alike_orElse (h1 : Alike first first') (h2 : Alike second second') :
    Alike (orElse first second) (orElse first' second') :=
  fun place => (h1 place).append (h2 place)

theorem alike_group (number : Nat) (h : Alike body body') :
    Alike (group number body) (group number body') :=
  fun place => (h place).map _

theorem alike_atomic (h : Alike body body') : Alike (atomic body) (atomic body') := by
  intro place
  rw [atomic, atomic, (h place).take_one]
  exact .refl _

theorem alike_look (negated : Bool) (h : Alike body body') :
    Alike (look negated body) (look negated body') := by
  intro place
  rw [look, look, (h place).take_one, (h place).isEmpty]
  exact .refl _

theorem alike_times (h : Alike body body') (n : Nat) : Alike (times n body) (times n body') := by
  induction n with
  | zero => exact .refl _
  | succ n ih => exact alike_andThen h ih

theorem alike_iterate {lower : Nat} {upper : Option Nat} {greedy : Bool} (h : Alike body body')
    (rounds count : Nat) :
    Alike (iterate lower upper greedy body rounds count)
      (iterate lower upper greedy body' rounds count) := by
  induction rounds generalizing count with
  | zero => exact .refl _
  | succ rounds ih =>
      intro place
      -- One more iteration gives the same first ends, since each of its ends goes on alike.
      have hmore : SameFirsts (more lower upper greedy body rounds count place)
          (more lower upper greedy body' rounds count place) := by
        refine (h place).flatMap fun last _ => ?_
        rw [afterRound, afterRound]
        split
        · exact .refl _
        · exact ih (count + 1) last
      rw [iterate_succ, iterate_succ]
      split
      · exact hmore
      · split
        · exact hmore.append (.refl _)
        · exact hmore.cons place

theorem alike_loop {lower : Nat} {upper : Option Nat} {greedy : Bool} (h : Alike body body') :
    Alike (loop ctx lower upper greedy body) (loop ctx lower upper greedy body') := by
  intro place
  rw [loop, loop]
  split
  · exact .refl _
  · exact alike_iterate h _ _ place

theorem alike_repeated {scheme : Scheme} {lower : Nat} {upper : Option Nat} {greedy : Bool}
    (h : Alike body body') :
    Alike (repeated ctx scheme lower upper greedy body)
      (repeated ctx scheme lower upper greedy body') := by
  cases scheme with
  | plus => exact alike_andThen h (alike_loop h)
  | copies n => exact alike_times h n
  | _ => exact alike_loop h

/-- An empty match of a part makes no difference to the match that follows it. -/
def Settles (body : Ways) : Prop :=
  ∀ place, ∀ last ∈ body place, last.pos = place.pos → body last = body place

/-- A loop that has to run once may be written out as an iteration and a loop without bounds, if an
empty iteration makes no difference to the next one. -/
theorem alike_plus {greedy : Bool} (hadvances : Advances ctx body) (hsettles : Settles body) :
    Alike (andThen body (loop ctx 0 none greedy body)) (loop ctx 1 none greedy body) := by
  intro place p
  rw [loop_plus hadvances, andThen, List.find?_flatMap, List.find?_flatMap]
  refine findSome?_redone rfl fun last hlast => ?_
  rw [← List.find?_flatMap, ← loop_plus hadvances]
  by_cases hpos : last.pos = place.pos
  · have hfurther : further ctx greedy body last = further ctx greedy body place := by
      funext next
      rw [further, further, hpos]
    -- Behind an empty iteration, the loop without bounds finds what the whole loop does, or stays.
    have hagain : loop ctx 1 none greedy body last = loop ctx 1 none greedy body place := by
      rw [loop_plus hadvances, loop_plus hadvances, hsettles place last hlast hpos, hfurther]
    refine Or.inr ?_
    rw [loop_star hadvances, hagain, further, if_pos hpos]
    cases greedy with
    | true =>
        refine Or.inl ?_
        rw [if_pos rfl, List.find?_append]
    | false =>
        refine Or.inr ?_
        rw [if_neg Bool.false_ne_true, ← List.singleton_append, List.find?_append]
  · rw [further, if_neg hpos]
    exact Or.inl rfl

end Ways

end RegexEngine
