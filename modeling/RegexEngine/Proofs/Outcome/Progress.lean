import Mathlib.Data.List.Basic
import RegexEngine.Proofs.Outcome.Basic
import RegexEngine.Proofs.Tree.Induction

/-!
# Progress of Outcomes

A tree leads where its tests do. What relates the positions before and after every test relates
those before and after the tree, provided that one may stand still and go on from where one has come
to. Look-behind does step back, but what it finds is thrown away and the match goes on from where it
was. The spans of groups are between such positions, which is what a test for the text of a group
relies on.

In particular, no tree leads backwards. An outcome either stays where the match came from or lies
behind it, and in the second case it lies within the range.

That is what makes iteration finite: an iteration that is not required and did not stay put has used
up a byte of the range. `iterate_stable` draws the consequence for the rounds of a loop, and
`loop_unfold` restates a loop without them.

A tree that cannot match less than one byte never stays. Loops around such a tree carry no check for
empty iterations, so this is also why they end.

## Main definitions

* `Node.Bounded`: Every repeat of a tree has its bounds in order.
* `Node.leaves`: The tests of a tree.
* `Node.Leading`: What is needed to know where trees lead.
* `Context.Ahead`: One position is another or lies behind it and within the range.
* `Ways.step`: A part that has nothing to do with groups.
* `Ways.Relates`: How the outcomes of a part are related to the place where it starts.
* `Ways.Leads`: How the positions of a part are related to those where it starts.
* `Ways.Advances`: A part never leads backwards.
* `Ways.Consumes`: A part never stays where it is.

## Theorems

* `outcomes_look`: A look-around runs its body somewhere or never matches.
* `outcomes_leads`: Trees lead where their tests do.
* `outcomes_advances`: Trees never lead backwards.
* `outcomes_consumes`: Trees that need a byte consume one.
* `iterate_stable`: Rounds beyond those that a loop can use change nothing.
* `loop_unfold`: What a loop does, said without rounds.
-/

namespace RegexEngine

namespace Node

variable {ρ : Type}

mutual

/-- Every repeat has a lower bound that is at most its upper bound. -/
def Bounded : Node ρ → Prop
  | literal .. | set .. | anyChar .. | word .. | backref .. | anchor .. => True
  | repeated lower upper _ body => (∀ n, upper = some n → lower ≤ n) ∧ Bounded body
  | group _ body | atomic body | look _ _ body => Bounded body
  | sequence items | alternation items => BoundedAll items

/-- Every repeat of several trees has its bounds in order. -/
def BoundedAll : List (Node ρ) → Prop
  | [] => True
  | node :: rest => Bounded node ∧ BoundedAll rest

end

theorem boundedAll_iff (items : List (Node ρ)) :
    BoundedAll items ↔ ∀ node ∈ items, Bounded node := by
  induction items with
  | nil => simp only [BoundedAll, List.not_mem_nil, false_implies, implies_true]
  | cons node rest ih => simp only [BoundedAll, List.forall_mem_cons, ih]

mutual

/-- The tests of a tree, from left to right. -/
def leaves (enc : Encoding) : Tree → List Leaf
  | literal bytes ignoreCase => [literalLeaf enc bytes ignoreCase]
  | set chars => [.set chars]
  | anyChar newlines => [.anyChar newlines]
  | word negated => [.word negated]
  | backref groups ignoreCase _ => [.backref groups ignoreCase]
  | anchor kind multiline => [.anchor kind multiline]
  | repeated _ _ _ body | group _ body | atomic body | look _ _ body => leaves enc body
  | sequence items | alternation items => leavesOf enc items

/-- The tests of several trees. -/
def leavesOf (enc : Encoding) : List Tree → List Leaf
  | [] => []
  | node :: rest => leaves enc node ++ leavesOf enc rest

end

end Node

namespace Context

/-- The position `next` is `pos` itself, or lies behind it and within the range. -/
def Ahead (ctx : Context) (pos next : Nat) : Prop :=
  next = pos ∨ (pos < next ∧ next ≤ ctx.range)

variable {ctx : Context} {pos next last : Nat}

theorem Ahead.refl (ctx : Context) (pos : Nat) : ctx.Ahead pos pos :=
  Or.inl rfl

theorem Ahead.le (h : ctx.Ahead pos next) : pos ≤ next := by
  unfold Ahead at h
  omega

theorem Ahead.trans (h1 : ctx.Ahead pos next) (h2 : ctx.Ahead next last) : ctx.Ahead pos last := by
  unfold Ahead at *
  omega

theorem ahead_trans (ctx : Context) (a b c : Nat) (h1 : ctx.Ahead a b) (h2 : ctx.Ahead b c) :
    ctx.Ahead a c :=
  h1.trans h2

theorem ahead_of_acceptChar {accepted : Bool} (h : ctx.acceptChar pos accepted = some next) :
    pos < next ∧ next ≤ ctx.range := by
  rw [acceptChar, Option.bind_eq_some_iff] at h
  rcases h with ⟨n, hn, h⟩
  have hle := charWithin_le hn
  have hpos : 0 < n := by
    simp only [charWithin, Option.ite_none_right_eq_some, Option.some.injEq] at hn
    rw [← hn.2.2]
    exact ctx.encoding.charLength_pos _ _
  simp only [Option.ite_none_right_eq_some, Option.some.injEq] at h
  omega

theorem ahead_of_acceptBytes {bytes : List UInt8} (h : ctx.acceptBytes pos bytes = some next) :
    next = pos + bytes.length ∧ (bytes ≠ [] → next ≤ ctx.range) := by
  induction bytes generalizing pos with
  | nil =>
      simp only [acceptBytes, Option.some.injEq] at h
      exact ⟨h.symm, fun hne => absurd rfl hne⟩
  | cons b rest ih =>
      simp only [acceptBytes, Bool.and_eq_true, decide_eq_true_eq,
        Option.ite_none_right_eq_some] at h
      -- The range is checked at every byte, so the last one answers for all.
      rcases h with ⟨⟨hlt, -⟩, h⟩
      rcases ih h with ⟨hnext, hle⟩
      rw [List.length_cons]
      refine ⟨by omega, fun _ => ?_⟩
      by_cases hrest : rest = []
      · rw [hrest, List.length_nil] at hnext
        omega
      · exact hle hrest

/-- Bytes that are accepted end at or behind the place where they start. -/
theorem ahead_of_bytes {bytes : List UInt8} (h : ctx.acceptBytes pos bytes = some next) :
    ctx.Ahead pos next := by
  rcases ahead_of_acceptBytes h with ⟨hnext, hle⟩
  by_cases hnil : bytes = []
  · rw [hnil, List.length_nil] at hnext
    exact Or.inl hnext
  · have hlen := List.length_pos_iff.mpr hnil
    exact Or.inr ⟨by omega, hle hnil⟩

theorem ahead_of_acceptFolded {codes : List Nat} (h : ctx.acceptFolded pos codes = some next) :
    ctx.Ahead pos next ∧ (codes ≠ [] → pos < next) := by
  induction codes generalizing pos with
  | nil =>
      simp only [acceptFolded, Option.some.injEq] at h
      exact ⟨Or.inl h.symm, fun hne => absurd rfl hne⟩
  | cons c rest ih =>
      rw [acceptFolded, Option.bind_eq_some_iff] at h
      rcases h with ⟨mid, hmid, h⟩
      have hstep := ahead_of_acceptChar hmid
      have hrest := (ih h).1
      exact ⟨Ahead.trans (Or.inr hstep) hrest, fun _ => Nat.lt_of_lt_of_le hstep.1 hrest.le⟩

theorem ahead_of_acceptCopy {ignoreCase : Bool} {span : Nat × Nat}
    (h : ctx.acceptCopy pos ignoreCase span = some next) : ctx.Ahead pos next := by
  rw [acceptCopy] at h
  split at h
  · exact (ahead_of_acceptFolded h).1
  · exact ahead_of_bytes h

end Context

/-- What a test accepts ends at or behind the place of the test. -/
theorem Leaf.ahead_of_acceptWith {ctx : Context} {spans : Nat → Option (Nat × Nat)}
    {pos next : Nat} {leaf : Leaf} (h : leaf.acceptWith ctx spans pos = some next) :
    ctx.Ahead pos next := by
  cases leaf with
  | literal bytes => exact Context.ahead_of_bytes h
  | folded codes => exact (Context.ahead_of_acceptFolded h).1
  | set chars => exact Or.inr (Context.ahead_of_acceptChar h)
  | anyChar newlines => exact Or.inr (Context.ahead_of_acceptChar h)
  | word negated => exact Or.inr (Context.ahead_of_acceptChar h)
  | backref groups ignoreCase =>
      rw [acceptWith, List.findSome?_eq_some_iff] at h
      rcases h with ⟨_, n, _, _, hn, _⟩
      rw [Option.bind_eq_some_iff] at hn
      rcases hn with ⟨span, _, hcopy⟩
      exact Context.ahead_of_acceptCopy hcopy
  | anchor kind multiline =>
      simp only [acceptWith, accept, Option.ite_none_right_eq_some, Option.some.injEq] at h
      exact Or.inl h.2.symm

namespace Scheme

/-- The bounds of the repeats that a scheme is for. -/
def Suits (lower : Nat) (upper : Option Nat) : Scheme → Prop
  | never => upper = some 0
  | once => lower = 1 ∧ upper = some 1
  | optional => lower = 0 ∧ upper = some 1
  | star => lower = 0 ∧ upper = none
  | plus => lower = 1 ∧ upper = none
  | copies n => n = lower ∧ upper = some lower
  | counted => upper ≠ some 0

/-- A repeat is run in a way that suits its bounds. -/
theorem choose_suits (lower : Nat) (upper : Option Nat) (length : Nat) :
    Suits lower upper (choose lower upper length) := by
  rw [choose]
  split
  · assumption
  split
  · assumption
  split
  · assumption
  split
  · assumption
  split
  · rename_i h
    exact ⟨h.1, h.2.1⟩
  split
  · rename_i h
    exact ⟨rfl, h.1⟩
  · assumption

end Scheme

namespace Ways

variable {ctx : Context} {first second body : Ways} {place last : Place}

/-- A part never leads backwards. -/
def Advances (ctx : Context) (ways : Ways) : Prop :=
  ∀ place, ∀ last ∈ ways place, ctx.Ahead place.pos last.pos

/-- A part never stays where it is. -/
def Consumes (ways : Ways) : Prop :=
  ∀ place, ∀ last ∈ ways place, place.pos < last.pos

theorem mem_test {leaf : Leaf} (h : last ∈ test ctx leaf place) :
    ∃ pos, leaf.acceptWith ctx place.spans place.pos = some pos ∧ last = place.moveTo pos := by
  rw [test, Option.mem_toList, Option.map_eq_some_iff] at h
  rcases h with ⟨pos, hpos, rfl⟩
  exact ⟨pos, hpos, rfl⟩

/-- A part that leads to one position at most and has nothing to do with groups. -/
def step (next : Nat → Option Nat) : Ways := fun place =>
  ((next place.pos).map place.moveTo).toList

theorem mem_step {next : Nat → Option Nat} (h : last ∈ step next place) :
    ∃ pos, next place.pos = some pos ∧ last = place.moveTo pos := by
  rw [step, Option.mem_toList, Option.map_eq_some_iff] at h
  rcases h with ⟨pos, hpos, rfl⟩
  exact ⟨pos, hpos, rfl⟩

/-- Every test but that for the text of a group is such a part. -/
theorem test_eq_step {leaf : Leaf} (h : ∀ groups ignoreCase, leaf ≠ .backref groups ignoreCase) :
    test ctx leaf = step (leaf.accept ctx #[]) := by
  cases leaf with
  | backref groups ignoreCase => exact absurd rfl (h groups ignoreCase)
  | _ => rfl

/-- Whether a loop ends after an iteration depends on positions. -/
theorem endsLoop_congr {lower count : Nat} {upper : Option Nat} {place near mid mid' : Place}
    (hpos : place.pos = near.pos) (hmid : mid.pos = mid'.pos) :
    endsLoop lower upper count place mid ↔ endsLoop lower upper count near mid' := by
  rw [endsLoop, endsLoop, hpos, hmid]

section Relates

variable {rel : Place → Place → Prop}

/-- Every outcome of a part is related to the place where the part starts. -/
def Relates (rel : Place → Place → Prop) (ways : Ways) : Prop :=
  ∀ place, ∀ last ∈ ways place, rel place last

theorem Relates.mono {more : Place → Place → Prop} (h : Relates rel body)
    (hmore : ∀ p q, rel p q → more p q) : Relates more body :=
  fun place last hlast => hmore place last (h place last hlast)

theorem relates_stay (hrefl : ∀ p, rel p p) : Relates rel stay := by
  intro place last h
  rw [List.mem_singleton.mp h]
  exact hrefl place

theorem relates_never : Relates rel never :=
  fun _ _ h => absurd h List.not_mem_nil

theorem relates_orElse (h1 : Relates rel first) (h2 : Relates rel second) :
    Relates rel (orElse first second) := by
  intro place last h
  rcases List.mem_append.mp h with h | h
  · exact h1 place last h
  · exact h2 place last h

theorem relates_atomic (h : Relates rel body) : Relates rel (atomic body) :=
  fun place last hlast => h place last (List.mem_of_mem_take hlast)

variable (htrans : ∀ p q r, rel p q → rel q r → rel p r)
include htrans

theorem relates_andThen (h1 : Relates rel first) (h2 : Relates rel second) :
    Relates rel (andThen first second) := by
  intro place last h
  rw [andThen, List.mem_flatMap] at h
  rcases h with ⟨mid, hmid, hlast⟩
  exact htrans _ _ _ (h1 place mid hmid) (h2 mid last hlast)

variable (hrefl : ∀ p, rel p p)
include hrefl

theorem relates_times (h : Relates rel body) (n : Nat) : Relates rel (times n body) := by
  induction n with
  | zero => exact relates_stay hrefl
  | succ n ih => exact relates_andThen htrans h ih

/-- The rounds of a loop lead on from each other. -/
theorem relates_iterate {lower : Nat} {upper : Option Nat} {greedy : Bool} (h : Relates rel body)
    (rounds count : Nat) : Relates rel (iterate lower upper greedy body rounds count) := by
  induction rounds generalizing count with
  | zero => exact fun _ _ hmem => absurd hmem List.not_mem_nil
  | succ rounds ih =>
      intro place last hmem
      have hmore : ∀ q ∈ (body place).flatMap (fun mid =>
          if endsLoop lower upper (count + 1) place mid then [mid]
          else iterate lower upper greedy body rounds (count + 1) mid), rel place q := by
        intro q hq
        rw [List.mem_flatMap] at hq
        -- The body leads there, and so do the rounds that follow it.
        rcases hq with ⟨mid, hmid, hq⟩
        have hfirst := h place mid hmid
        split at hq
        · rw [List.mem_singleton.mp hq]
          exact hfirst
        · exact htrans _ _ _ hfirst (ih (count + 1) mid q hq)
      simp only [iterate] at hmem
      split at hmem
      · exact hmore last hmem
      · split at hmem
        · rcases List.mem_append.mp hmem with hmem | hmem
          · exact hmore last hmem
          · rw [List.mem_singleton.mp hmem]
            exact hrefl place
        · rcases List.mem_cons.mp hmem with rfl | hmem
          · exact hrefl last
          · exact hmore last hmem

theorem relates_loop {lower : Nat} {upper : Option Nat} {greedy : Bool} (h : Relates rel body) :
    Relates rel (loop ctx lower upper greedy body) := by
  intro place last hmem
  rw [loop] at hmem
  split at hmem
  · exact relates_stay hrefl place last hmem
  · exact relates_iterate htrans hrefl h _ _ place last hmem

theorem relates_repeated {scheme : Scheme} {lower : Nat} {upper : Option Nat} {greedy : Bool}
    (h : Relates rel body) : Relates rel (repeated ctx scheme lower upper greedy body) := by
  cases scheme with
  | plus => exact relates_andThen htrans h (relates_loop htrans hrefl h)
  | copies n => exact relates_times htrans hrefl h n
  | _ => exact relates_loop htrans hrefl h

end Relates

section Leading

variable {leads joins : Nat → Nat → Prop}

/-- The positions of a part are related to those where it starts, and the positions of spans to each
other, if they have been before. -/
def Leads (leads joins : Nat → Nat → Prop) (ways : Ways) : Prop :=
  Relates (fun place last => place.JoinedBy joins → leads place.pos last.pos ∧ last.JoinedBy joins)
    ways

theorem Leads.mono {more : Nat → Nat → Prop} (h : Leads leads joins body)
    (hmore : ∀ a b, leads a b → more a b) : Leads more joins body :=
  Relates.mono h fun _ _ hleads hplace => ⟨hmore _ _ (hleads hplace).1, (hleads hplace).2⟩

/-- A group adds a span from where it starts to where its body leads. -/
theorem leads_group (hjoins : ∀ a b, leads a b → joins a b) (h : Leads leads joins body)
    (number : Nat) : Leads leads joins (group number body) := by
  intro place last hlast hplace
  simp only [group, List.mem_map] at hlast
  rcases hlast with ⟨inner, hinner, rfl⟩
  have hleads := h place inner hinner hplace
  refine ⟨hleads.1, ?_⟩
  intro n start stop hspan
  simp only [Place.close] at hspan
  split at hspan
  · cases hspan
    exact hjoins _ _ hleads.1
  · exact hleads.2 n start stop hspan

/-- A look-around goes on from where it was, wherever its body leads. -/
theorem leads_look (hrefl : ∀ pos, leads pos pos) (h : Leads (fun _ _ => True) joins body)
    (negated : Bool) : Leads leads joins (look negated body) := by
  intro place last hlast hplace
  rw [look] at hlast
  split at hlast
  · split at hlast
    · rw [List.mem_singleton.mp hlast]
      exact ⟨hrefl place.pos, hplace⟩
    · exact absurd hlast List.not_mem_nil
  · rw [List.mem_map] at hlast
    rcases hlast with ⟨inner, hinner, rfl⟩
    exact ⟨hrefl place.pos, (h place inner (List.mem_of_mem_take hinner) hplace).2⟩

theorem leads_step (next : Nat → Option Nat) : Leads (fun _ _ => True) joins (step next) := by
  intro place last hlast hplace
  rcases mem_step hlast with ⟨pos, -, rfl⟩
  exact ⟨trivial, hplace⟩

theorem leads_refl (hrefl : ∀ pos, leads pos pos) (place : Place) :
    place.JoinedBy joins → leads place.pos place.pos ∧ place.JoinedBy joins :=
  fun hplace => ⟨hrefl place.pos, hplace⟩

theorem leads_trans (htrans : ∀ a b c, leads a b → leads b c → leads a c) (p q r : Place)
    (h1 : p.JoinedBy joins → leads p.pos q.pos ∧ q.JoinedBy joins)
    (h2 : q.JoinedBy joins → leads q.pos r.pos ∧ r.JoinedBy joins) :
    p.JoinedBy joins → leads p.pos r.pos ∧ r.JoinedBy joins := by
  intro hplace
  have hfirst := h1 hplace
  have hsecond := h2 hfirst.2
  exact ⟨htrans _ _ _ hfirst.1 hsecond.1, hsecond.2⟩

end Leading

theorem consumes_andThen_left (h1 : Consumes first) (h2 : Advances ctx second) :
    Consumes (andThen first second) := by
  intro place last h
  rw [andThen, List.mem_flatMap] at h
  rcases h with ⟨mid, hmid, hlast⟩
  exact Nat.lt_of_lt_of_le (h1 place mid hmid) (h2 mid last hlast).le

theorem consumes_andThen_right (h1 : Advances ctx first) (h2 : Consumes second) :
    Consumes (andThen first second) := by
  intro place last h
  rw [andThen, List.mem_flatMap] at h
  rcases h with ⟨mid, hmid, hlast⟩
  exact Nat.lt_of_le_of_lt (h1 place mid hmid).le (h2 mid last hlast)

theorem ahead_places (ctx : Context) (p q r : Place) (h1 : ctx.Ahead p.pos q.pos)
    (h2 : ctx.Ahead q.pos r.pos) : ctx.Ahead p.pos r.pos :=
  h1.trans h2

theorem advances_times (h : Advances ctx body) (n : Nat) : Advances ctx (times n body) :=
  relates_times (ahead_places ctx) (fun p => .refl ctx p.pos) h n

/-- The rounds of a loop never lead backwards, however many there are. -/
theorem advances_iterate {lower : Nat} {upper : Option Nat} {greedy : Bool}
    (h : Advances ctx body) (rounds count : Nat) :
    Advances ctx (iterate lower upper greedy body rounds count) :=
  relates_iterate (ahead_places ctx) (fun p => .refl ctx p.pos) h rounds count

theorem advances_loop {lower : Nat} {upper : Option Nat} {greedy : Bool} (h : Advances ctx body) :
    Advances ctx (loop ctx lower upper greedy body) :=
  relates_loop (ahead_places ctx) (fun p => .refl ctx p.pos) h

/-- A loop that has to run at least once consumes what its body does. -/
theorem consumes_loop {lower : Nat} {upper : Option Nat} {greedy : Bool} (ha : Advances ctx body)
    (hc : Consumes body) (hlower : 0 < lower) (hupper : upper ≠ some 0) :
    Consumes (loop ctx lower upper greedy body) := by
  intro place last hmem
  rw [loop, if_neg hupper, iterate, if_pos hlower] at hmem
  rw [List.mem_flatMap] at hmem
  -- The first iteration is required and consumes; what follows it does not lead backwards.
  rcases hmem with ⟨mid, hmid, hlast⟩
  have hlt := hc place mid hmid
  split at hlast
  · rw [List.mem_singleton.mp hlast]
    exact hlt
  · exact Nat.lt_of_lt_of_le hlt (advances_iterate ha _ _ mid last hlast).le

theorem consumes_times (ha : Advances ctx body) (hc : Consumes body) {n : Nat} (hn : 0 < n) :
    Consumes (times n body) := by
  cases n with
  | zero => omega
  | succ n => exact consumes_andThen_left hc (advances_times ha n)

/-- Rounds beyond those that a loop can use change nothing. A round is used up either by an
iteration that the lower bound asks for or by a byte of the range. -/
theorem iterate_stable {lower : Nat} {upper : Option Nat} {greedy : Bool} (h : Advances ctx body)
    (rounds count : Nat) (place : Place)
    (hrounds : (lower - count) + (ctx.range - place.pos) < rounds) :
    iterate lower upper greedy body (rounds + 1) count place =
      iterate lower upper greedy body rounds count place := by
  -- The rounds are used up by one for each iteration. Only the part behind an iteration has to be
  -- compared.
  induction rounds generalizing count place with
  | zero => omega
  | succ rounds ih =>
      have hmore : (body place).flatMap (fun last =>
          if endsLoop lower upper (count + 1) place last then [last]
          else iterate lower upper greedy body (rounds + 1) (count + 1) last) =
          (body place).flatMap (fun last =>
          if endsLoop lower upper (count + 1) place last then [last]
          else iterate lower upper greedy body rounds (count + 1) last) := by
        refine List.flatMap_congr fun last hlast => ?_
        by_cases hend : endsLoop lower upper (count + 1) place last
        · rw [if_pos hend, if_pos hend]
        · -- The count has come closer to the lower bound, or the iteration has consumed a byte.
          rw [if_neg hend, if_neg hend]
          refine ih (count + 1) last ?_
          have hahead := h place last hlast
          unfold endsLoop at hend
          unfold Context.Ahead at hahead
          omega
      rw [iterate, iterate, hmore]

/-- What a loop does, said without rounds. Nothing is proved from this; it is here for whoever reads
what a loop is. There the rounds stand for a recursion that need not end, and this shows that they
always suffice: what a loop does is the same with one round more, hence with any number of them. -/
theorem loop_unfold {lower : Nat} {upper : Option Nat} {greedy : Bool} (h : Advances ctx body)
    (rounds count : Nat) (place : Place)
    (hrounds : (lower - count) + (ctx.range - place.pos) < rounds) :
    iterate lower upper greedy body rounds count place =
      let more := (body place).flatMap fun last =>
        if endsLoop lower upper (count + 1) place last then [last]
        else iterate lower upper greedy body rounds (count + 1) last
      if count < lower then more
      else if greedy then more ++ [place]
      else place :: more := by
  rw [← iterate_stable h rounds count place hrounds, iterate]

end Ways

namespace Node

variable {ctx : Context}

/-- What is needed to know where trees lead: the tests that they may have lead there, and so does
standing still, and going on from there. Spans are of the positions that trees lead between. -/
structure Leading (ctx : Context) (allowed : Leaf → Prop) (leads joins : Nat → Nat → Prop) :
    Prop where
  refl : ∀ pos, leads pos pos
  trans : ∀ a b c, leads a b → leads b c → leads a c
  spans : ∀ a b, leads a b → joins a b
  test : ∀ (leaf : Leaf) (place : Place) pos, allowed leaf → place.JoinedBy joins →
    leaf.acceptWith ctx place.spans place.pos = some pos → leads place.pos pos

variable {allowed : Leaf → Prop} {leads joins : Nat → Nat → Prop}

theorem leads_test (h : Leading ctx allowed leads joins) {leaf : Leaf} (hleaf : allowed leaf) :
    Ways.Leads leads joins (Ways.test ctx leaf) := by
  intro place last hlast hplace
  rcases Ways.mem_test hlast with ⟨pos, hpos, rfl⟩
  exact ⟨h.test leaf place pos hleaf hplace hpos, hplace⟩

theorem mem_leavesOf {enc : Encoding} {test : Leaf} {items : List Tree} :
    test ∈ leavesOf enc items ↔ ∃ node ∈ items, test ∈ node.leaves enc := by
  induction items with
  | nil => simp only [leavesOf, List.not_mem_nil, false_and, exists_false]
  | cons node rest ih =>
      simp only [leavesOf, List.mem_append, List.mem_cons, exists_eq_or_imp, ih]

theorem relates_inOrder {rel : Place → Place → Prop} (htrans : ∀ p q r, rel p q → rel q r → rel p r)
    (hrefl : ∀ p, rel p p) {items : List Tree}
    (h : ∀ node ∈ items, Ways.Relates rel (node.outcomes ctx)) :
    Ways.Relates rel (outcomesInOrder ctx items) := by
  induction items with
  | nil => exact Ways.relates_stay hrefl
  | cons node rest ih =>
      rw [List.forall_mem_cons] at h
      exact Ways.relates_andThen htrans h.1 (ih h.2)

theorem relates_ofAny {rel : Place → Place → Prop} {items : List Tree}
    (h : ∀ node ∈ items, Ways.Relates rel (node.outcomes ctx)) :
    Ways.Relates rel (outcomesOfAny ctx items) := by
  induction items with
  | nil => exact Ways.relates_never
  | cons node rest ih =>
      rw [List.forall_mem_cons] at h
      exact Ways.relates_orElse h.1 (ih h.2)

/-- A look-around looks from where it stands or from where it has stepped back to, or its length is
not known. -/
theorem outcomes_look (ctx : Context) (direction : Direction) (negated : Bool) (body : Tree) :
    (look direction negated body).outcomes ctx = Ways.never ∨
      ∃ next, (look direction negated body).outcomes ctx =
        Ways.look negated (Ways.andThen (Ways.step next) (body.outcomes ctx)) := by
  cases direction with
  | ahead =>
      refine Or.inr ⟨some, ?_⟩
      have hstay : Ways.andThen (Ways.step some) (body.outcomes ctx) = body.outcomes ctx := by
        funext place
        exact List.flatMap_singleton _ place
      rw [hstay, outcomes]
  | behind =>
      rcases hlength : body.charLength ctx.encoding with _ | n
      · exact Or.inl (by rw [outcomes, hlength])
      · refine Or.inr ⟨ctx.encoding.stepBack ctx.subject 0 n, ?_⟩
        rw [outcomes, hlength]
        rfl

/-- A tree leads where its tests do. -/
theorem outcomes_leads (h : Leading ctx allowed leads joins) (tree : Tree)
    (hallowed : ∀ test ∈ tree.leaves ctx.encoding, allowed test) :
    Ways.Leads leads joins (tree.outcomes ctx) := by
  have hrefl := @Ways.leads_refl leads joins h.refl
  have htrans := @Ways.leads_trans leads joins h.trans
  -- Joins are kept where the construct runs its parts one after the other; a look-around keeps the
  -- position instead.
  induction tree using Node.induct with
  | repeated lower upper greedy body ih => exact Ways.relates_repeated htrans hrefl (ih hallowed)
  | group number body ih => exact Ways.leads_group h.spans (ih hallowed) number
  | atomic body ih => exact Ways.relates_atomic (ih hallowed)
  | look direction negated body ih =>
      have hbody : Ways.Leads (fun _ _ => True) joins (body.outcomes ctx) :=
        (ih hallowed).mono fun _ _ _ => trivial
      rcases outcomes_look ctx direction negated body with hnever | ⟨next, hlook⟩
      · rw [hnever]
        exact Ways.relates_never
      · rw [hlook]
        exact Ways.leads_look h.refl
          (Ways.relates_andThen (Ways.leads_trans fun _ _ _ _ _ => trivial)
            (Ways.leads_step next) hbody)
          negated
  | sequence items ih =>
      refine relates_inOrder htrans hrefl fun node hnode => ih node hnode fun test htest => ?_
      exact hallowed test (mem_leavesOf.mpr ⟨node, hnode, htest⟩)
  | alternation items ih =>
      refine relates_ofAny fun node hnode => ih node hnode fun test htest => ?_
      exact hallowed test (mem_leavesOf.mpr ⟨node, hnode, htest⟩)
  | _ => exact leads_test h (List.forall_mem_singleton.mp hallowed)

/-- All tests lead ahead. -/
theorem leading_ahead (ctx : Context) :
    Leading ctx (fun _ => True) ctx.Ahead fun _ _ => True :=
  ⟨Context.Ahead.refl ctx, Context.ahead_trans ctx, fun _ _ _ => trivial,
    fun _ _ _ _ _ => Leaf.ahead_of_acceptWith⟩

/-- So every span that a test may be made with keeps the order of positions. -/
theorem leading_le (ctx : Context) : Leading ctx (fun _ => True) (· ≤ ·) (· ≤ ·) :=
  ⟨Nat.le_refl, fun _ _ _ => Nat.le_trans, fun _ _ => id,
    fun _ _ _ _ _ h => (Leaf.ahead_of_acceptWith h).le⟩

theorem outcomes_advances (ctx : Context) (tree : Tree) :
    Ways.Advances ctx (tree.outcomes ctx) := by
  intro place last hlast
  exact (outcomes_leads (leading_ahead ctx) tree (fun _ _ => trivial) place last hlast
    fun _ _ _ _ => trivial).1

/-- A literal accepts at least a byte for each of its own, or a character if it ignores case. -/
theorem consumes_literal (ctx : Context) {bytes : List UInt8} (ignoreCase : Bool)
    (h : bytes ≠ []) : Ways.Consumes (outcomes ctx (.literal bytes ignoreCase)) := by
  intro place last hmem
  rcases Ways.mem_test hmem with ⟨pos, hpos, rfl⟩
  cases ignoreCase with
  | false =>
      have hnext := (Context.ahead_of_acceptBytes hpos).1
      have hlen := List.length_pos_iff.mpr h
      simp only [Place.moveTo]
      omega
  | true =>
      -- Bytes that are not empty have a first character, which is folded to a code point.
      refine (Context.ahead_of_acceptFolded hpos).2 ?_
      cases bytes with
      | nil => exact absurd rfl h
      | cons b rest =>
          simp only [Encoding.characters, List.length_cons, Encoding.splitMany,
            Encoding.splitFirst, List.map_cons]
          exact List.cons_ne_nil _ _

theorem consumes_repeated {lower : Nat} {upper : Option Nat} {greedy : Bool} {length : Nat}
    {body : Ways} (ha : Ways.Advances ctx body) (hc : Ways.Consumes body) (hlower : 0 < lower)
    (hupper : ∀ n, upper = some n → lower ≤ n) :
    Ways.Consumes
      (Ways.repeated ctx (Scheme.choose lower upper length) lower upper greedy body) := by
  have hne : upper ≠ some 0 := by
    intro hzero
    have hle := hupper 0 hzero
    omega
  have hloop : Ways.Consumes (Ways.loop ctx lower upper greedy body) :=
    Ways.consumes_loop ha hc hlower hne
  have hsuits := Scheme.choose_suits lower upper length
  -- Only two schemes are not run as the loop that the bounds describe.
  cases hscheme : Scheme.choose lower upper length with
  | plus => exact Ways.consumes_andThen_left hc (Ways.advances_loop ha)
  | copies n =>
      rw [hscheme] at hsuits
      exact Ways.consumes_times ha hc (hsuits.1 ▸ hlower)
  | _ => exact hloop

/-- A tree that needs a byte consumes one. Bounds in the wrong order would break this: a repeat that
must run twice and may not run at all counts as needing its body twice and has no code. -/
theorem outcomes_consumes (ctx : Context) (tree : Tree) (hbound : tree.Bounded)
    (hmin : 0 < tree.minLength) : Ways.Consumes (tree.outcomes ctx) := by
  induction tree using Node.induct with
  | literal bytes ignoreCase =>
      exact consumes_literal ctx ignoreCase (List.length_pos_iff.mp hmin)
  | set chars | anyChar newlines | word negated =>
      intro place last h
      rcases Ways.mem_test h with ⟨pos, hpos, rfl⟩
      exact (Context.ahead_of_acceptChar hpos).1
  | repeated lower upper greedy body ih =>
      simp only [minLength] at hmin
      have hlower : 0 < lower := Nat.pos_of_mul_pos_left hmin
      have hbody : 0 < body.minLength := Nat.pos_of_mul_pos_right hmin
      exact consumes_repeated (outcomes_advances ctx body) (ih hbound.2 hbody) hlower hbound.1
  | group number body ih =>
      intro place last h
      simp only [outcomes, Ways.group, List.mem_map] at h
      rcases h with ⟨inner, hinner, rfl⟩
      exact ih hbound hmin place inner hinner
  | atomic body ih =>
      intro place last h
      exact ih hbound hmin place last (List.mem_of_mem_take h)
  | sequence items ih =>
      induction items with
      | nil => exact absurd hmin (Nat.lt_irrefl 0)
      | cons node rest ihrest =>
          have hrest : Ways.Advances ctx (outcomesInOrder ctx rest) :=
            outcomes_advances ctx (.sequence rest)
          -- One item that consumes is enough, since the others do not lead backwards.
          by_cases hnode : 0 < node.minLength
          · exact Ways.consumes_andThen_left (ih node List.mem_cons_self hbound.1 hnode) hrest
          · refine Ways.consumes_andThen_right (outcomes_advances ctx node)
              (ihrest (fun t ht => ih t (List.mem_cons_of_mem _ ht)) hbound.2 ?_)
            simp only [minLength, minLengthSum] at hmin ⊢
            omega
  | alternation items ih =>
      -- The last alternative stands for itself in the least length, all others through a minimum.
      induction items with
      | nil => exact absurd hmin (Nat.lt_irrefl 0)
      | cons node rest ihrest =>
          intro place last h
          have hlengths : 0 < node.minLength ∧ (rest ≠ [] → 0 < minLength (.alternation rest)) := by
            cases rest with
            | nil => exact ⟨hmin, fun hne => absurd rfl hne⟩
            | cons second more =>
                simp only [minLength, minLengthMin] at hmin ⊢
                exact ⟨by omega, fun _ => by omega⟩
          rcases List.mem_append.mp h with h | h
          · exact ih node List.mem_cons_self hbound.1 hlengths.1 place last h
          · by_cases hrest : rest = []
            · rw [hrest] at h
              exact absurd h List.not_mem_nil
            · exact ihrest (fun t ht => ih t (List.mem_cons_of_mem _ ht)) hbound.2
                (hlengths.2 hrest) place last h
  | backref | anchor | look => exact absurd hmin (Nat.lt_irrefl 0)

end Node

end RegexEngine
