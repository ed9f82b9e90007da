import RegexEngine.Proofs.Unrolled.Firsts

/-!
# What a Match Closes

Which groups every match of a tree closes, which groups an empty match may close, and which groups
references of a tree may ask for before the tree has closed them, read off the tree.

A match touches no groups but those of the tree. An empty match consumes nothing in any part of the
tree, so it touches even less: nothing in a part that needs a byte. The exceptions are the
look-arounds, which match the empty text whatever their bodies match.

## Main definitions

* `Node.closes`: The groups that every match closes.
* `Node.asks`: The groups that are asked for before they have been closed.
* `Node.emptyCloses`: The groups that an empty match may close.
* `Place.Spares`: All groups but some have the same spans at two places.

## Theorems

* `outcomes_spares`: A match leaves all groups as they were that are not in the tree.
* `outcomes_sparesEmpty`: An empty match leaves all groups as they were but those that it may close.
-/

namespace RegexEngine

namespace Node

mutual

/-- The groups that every match of a tree closes. -/
def closes : Tree → List Nat
  | literal .. | set .. | anyChar .. | word .. | backref .. | anchor .. | alternation .. => []
  | repeated lower _ _ body => if lower = 0 then [] else closes body
  | group number body => number :: closes body
  | atomic body => closes body
  | look _ negated body => if negated then [] else closes body
  | sequence items => closesInOrder items

/-- The groups that every match of several trees, one after the other, closes. -/
def closesInOrder : List Tree → List Nat
  | [] => []
  | node :: rest => closes node ++ closesInOrder rest

end

mutual

/-- The groups that references of a tree may ask for before the tree has closed them. -/
def asks : Tree → List Nat
  | literal .. | set .. | anyChar .. | word .. | anchor .. => []
  | backref groups .. => groups
  | repeated _ _ _ body | group _ body | atomic body | look _ _ body => asks body
  | sequence items => asksInOrder items
  | alternation items => asksOfAny items

/-- What several trees, one after the other, ask for before they have closed it. -/
def asksInOrder : List Tree → List Nat
  | [] => []
  | node :: rest => asks node ++ (asksInOrder rest).filter (· ∉ closes node)

/-- What one of several trees asks for. -/
def asksOfAny : List Tree → List Nat
  | [] => []
  | node :: rest => asks node ++ asksOfAny rest

end

mutual

/-- The groups that an empty match of a tree may close. A look-around matches the empty text
whatever its body matches. -/
def emptyCloses : Tree → List Nat
  | literal .. | set .. | anyChar .. | word .. | backref .. | anchor .. => []
  | repeated _ _ _ body | atomic body => emptyCloses body
  | group number body => if minLength body = 0 then number :: emptyCloses body else []
  | look _ negated body => if negated then [] else groupNumbers body
  | sequence items => if minLengthSum items = 0 then emptyClosesOf items else []
  | alternation items => emptyClosesOf items

/-- The groups that empty matches of several trees may close. -/
def emptyClosesOf : List Tree → List Nat
  | [] => []
  | node :: rest => emptyCloses node ++ emptyClosesOf rest

end

theorem emptyCloses_subset {items : List Tree} {node : Tree} (h : node ∈ items) :
    node.emptyCloses ⊆ emptyClosesOf items := by
  induction items with
  | nil => exact absurd h List.not_mem_nil
  | cons first rest ih =>
      rcases List.mem_cons.mp h with rfl | h
      · exact List.subset_append_left _ _
      · exact List.subset_append_of_subset_right _ (ih h)

end Node

namespace Place

/-- All groups but some have the same spans at both places. -/
def Spares (groups : List Nat) (p q : Place) : Prop :=
  ∀ n ∉ groups, q.spans n = p.spans n

theorem Spares.refl (groups : List Nat) (p : Place) : p.Spares groups p :=
  fun _ _ => rfl

theorem Spares.trans {groups : List Nat} (p q r : Place) (h1 : p.Spares groups q)
    (h2 : q.Spares groups r) : p.Spares groups r :=
  fun n hn => (h2 n hn).trans (h1 n hn)

theorem Spares.mono {groups more : List Nat} {p q : Place} (h : p.Spares groups q)
    (hmore : groups ⊆ more) : p.Spares more q :=
  fun n hn => h n fun hmem => hn (hmore hmem)

/-- The second place is not behind the first, and if it is at the same position, all groups but some
have the same spans at both. -/
def SparesEmpty (ctx : Context) (groups : List Nat) (p q : Place) : Prop :=
  ctx.Ahead p.pos q.pos ∧ (q.pos = p.pos → p.Spares groups q)

theorem SparesEmpty.refl (ctx : Context) (groups : List Nat) (p : Place) :
    p.SparesEmpty ctx groups p :=
  ⟨.refl ctx p.pos, fun _ => .refl groups p⟩

/-- What consumes nothing on the whole has consumed nothing on the way. -/
theorem SparesEmpty.trans {ctx : Context} {groups : List Nat} (p q r : Place)
    (h1 : p.SparesEmpty ctx groups q) (h2 : q.SparesEmpty ctx groups r) :
    p.SparesEmpty ctx groups r := by
  refine ⟨h1.1.trans h2.1, fun hpos => ?_⟩
  have hle := h1.1.le
  have hle' := h2.1.le
  exact (h1.2 (by omega)).trans _ _ _ (h2.2 (by omega))

end Place

theorem Place.spans_close (place : Place) (number start n : Nat) :
    (place.close number start).spans n =
      if n = number then some (start, place.pos) else place.spans n :=
  rfl

namespace Ways

variable {ctx : Context} {groups : List Nat} {body : Ways}

theorem relates_test (leaf : Leaf) : Relates (Place.Spares groups) (test ctx leaf) := by
  intro place last hlast
  rcases mem_test hlast with ⟨pos, -, rfl⟩
  exact fun _ _ => rfl

theorem relates_step (next : Nat → Option Nat) : Relates (Place.Spares groups) (step next) := by
  intro place last hlast
  rcases mem_step hlast with ⟨pos, -, rfl⟩
  exact fun _ _ => rfl

/-- A look-around closes what its body does, and nothing if it must not match. -/
theorem relates_look {negated : Bool} (h : negated = false → Relates (Place.Spares groups) body) :
    Relates (Place.Spares groups) (look negated body) := by
  intro place last hlast
  cases negated with
  | false =>
      rw [look, if_neg Bool.false_ne_true] at hlast
      rcases List.mem_map.mp hlast with ⟨inner, hinner, rfl⟩
      exact h rfl place inner (List.mem_of_mem_take hinner)
  | true =>
      rw [look, if_pos rfl] at hlast
      split at hlast
      · rw [List.mem_singleton.mp hlast]
        exact .refl _ place
      · exact absurd hlast List.not_mem_nil

/-- A group changes its own span and what its body changes. -/
theorem relates_group {number : Nat} (h : Relates (Place.Spares groups) body) :
    Relates (Place.Spares (number :: groups)) (group number body) := by
  intro place last hlast n hn
  rcases List.mem_map.mp hlast with ⟨inner, hinner, rfl⟩
  rw [List.mem_cons, not_or] at hn
  rw [Place.spans_close, if_neg hn.1]
  exact h place inner hinner n hn.2

end Ways

namespace Node

variable {ctx : Context}

/-- A match of a tree leaves all groups as they were that are not in the tree. -/
theorem outcomes_spares (ctx : Context) (tree : Tree) :
    Ways.Relates (Place.Spares tree.groupNumbers) (tree.outcomes ctx) := by
  -- Only a group changes a span, and it is its own. Every other construct hands the spans on.
  induction tree using Node.induct with
  | repeated lower upper greedy body ih =>
      exact Ways.relates_repeated Place.Spares.trans (Place.Spares.refl _) ih
  | group number body ih => exact Ways.relates_group ih
  | atomic body ih => exact Ways.relates_atomic ih
  | look direction negated body ih =>
      rcases outcomes_look ctx direction negated body with hnever | ⟨next, hlook⟩
      · rw [hnever]
        exact Ways.relates_never
      · rw [hlook]
        exact Ways.relates_look fun _ =>
          Ways.relates_andThen Place.Spares.trans (Ways.relates_step next) ih
  | sequence items ih =>
      refine relates_inOrder Place.Spares.trans (Place.Spares.refl _) fun node hnode => ?_
      exact (ih node hnode).mono fun p q h => h.mono (groupNumbers_sublist hnode).subset
  | alternation items ih =>
      refine relates_ofAny fun node hnode => ?_
      exact (ih node hnode).mono fun p q h => h.mono (groupNumbers_sublist hnode).subset
  | _ => exact Ways.relates_test _

/-- What consumes has no empty match. -/
theorem sparesEmpty_of_pos (tree : Tree) (hbound : tree.Bounded) (hmin : tree.minLength ≠ 0)
    (groups : List Nat) : Ways.Relates (Place.SparesEmpty ctx groups) (tree.outcomes ctx) := by
  intro place last hlast
  refine ⟨outcomes_advances ctx tree place last hlast, fun hpos => ?_⟩
  have hlt := outcomes_consumes ctx tree hbound (Nat.pos_of_ne_zero hmin) place last hlast
  omega

/-- An empty match of a tree leaves all groups as they were but those that it may close. -/
theorem outcomes_sparesEmpty (ctx : Context) (tree : Tree) (hbound : tree.Bounded) :
    Ways.Relates (Place.SparesEmpty ctx tree.emptyCloses) (tree.outcomes ctx) := by
  have hahead := outcomes_advances ctx tree
  -- Two facts about each outcome: it is not behind where the match began, and if it is there, only
  -- the spans that may be closed by an empty match have changed.
  induction tree using Node.induct with
  | repeated lower upper greedy body ih =>
      exact Ways.relates_repeated Place.SparesEmpty.trans (Place.SparesEmpty.refl ctx _)
        (ih hbound.2 (outcomes_advances ctx body))
  | group number body ih =>
      -- A group is closed by an empty match only if its body can be empty.
      by_cases hmin : body.minLength = 0
      · intro place last hlast
        refine ⟨hahead place last hlast, fun hpos n hn => ?_⟩
        rcases List.mem_map.mp hlast with ⟨inner, hinner, rfl⟩
        rw [emptyCloses, if_pos hmin, List.mem_cons, not_or] at hn
        rw [Place.spans_close, if_neg hn.1]
        exact (ih hbound (outcomes_advances ctx body) place inner hinner).2 hpos n hn.2
      · exact sparesEmpty_of_pos (.group number body) hbound hmin _
  | atomic body ih => exact Ways.relates_atomic (ih hbound (outcomes_advances ctx body))
  | look direction negated body ih =>
      rw [emptyCloses]
      -- A look-around moves nowhere, so every match of it is empty, and all groups inside may be
      -- closed.
      have hspares : Ways.Relates (Place.Spares (if negated then [] else body.groupNumbers))
          ((look direction negated body).outcomes ctx) := by
        rcases outcomes_look ctx direction negated body with hnever | ⟨next, hlook⟩
        · rw [hnever]
          exact Ways.relates_never
        · rw [hlook]
          refine Ways.relates_look ?_
          rintro rfl
          exact Ways.relates_andThen Place.Spares.trans (Ways.relates_step next)
            (outcomes_spares ctx body)
      exact fun place last hlast =>
        ⟨hahead place last hlast, fun _ => hspares place last hlast⟩
  | sequence items ih =>
      have hitems := (boundedAll_iff items).mp hbound
      -- A sequence matches the empty text only if all its items do.
      by_cases hmin : minLengthSum items = 0
      · rw [emptyCloses, if_pos hmin]
        refine relates_inOrder Place.SparesEmpty.trans (Place.SparesEmpty.refl ctx _)
          fun node hnode => ?_
        exact (ih node hnode (hitems node hnode) (outcomes_advances ctx node)).mono
          fun p q h => ⟨h.1, fun hpos => (h.2 hpos).mono (emptyCloses_subset hnode)⟩
      · exact sparesEmpty_of_pos (.sequence items) hbound hmin _
  | alternation items ih =>
      have hitems := (boundedAll_iff items).mp hbound
      refine relates_ofAny fun node hnode => ?_
      exact (ih node hnode (hitems node hnode) (outcomes_advances ctx node)).mono
        fun p q h => ⟨h.1, fun hpos => (h.2 hpos).mono (emptyCloses_subset hnode)⟩
  | _ =>
      exact fun place last hlast =>
        ⟨hahead place last hlast, fun _ => Ways.relates_test _ place last hlast⟩

end Node

end RegexEngine
