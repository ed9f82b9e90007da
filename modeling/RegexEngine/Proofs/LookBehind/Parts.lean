import RegexEngine.Proofs.Longest.Reorder
import RegexEngine.Proofs.Unrolled.Closing

/-!
# Parts of a Look-Behind

A look-behind whose alternatives differ in length is divided into one look-behind for each, and
alternatives that are alternations themselves are divided in turn. The parts that come out of it
stand in the order of the alternatives, and each of them is a look-behind of its own: it steps back
over its characters, keeps the first way in which its body matches, and returns to where it started.

So the outcomes of a positive look-behind are known part by part. Every part that holds adds one
outcome, which has the position of the look-behind, and nothing else does. A look-behind that is not
divided is a single part, and has one outcome at most.

## Main definitions

* `Node.parts`: The bodies of the look-behinds that one is divided into.
* `Node.alternatives`: The alternatives of a tree.
* `Node.foundFrom`, `Node.foundBehind`: Where a single look-behind leads.
* `Node.foundParts`: Where a look-behind leads, part by part.

## Theorems

* `outcomes_divide`: The outcomes of a positive look-behind are those of its parts.
* `head?_foundParts`: The first outcome is that of the first alternative that holds.
* `foundParts_of_known`: A look-behind that is not divided has one outcome at most.
* `foundParts_of_groupless`: A look-behind without groups leads back to its place.
-/

namespace RegexEngine

namespace Node

section Parts

variable {ρ : Type} {enc : Encoding}

mutual

/-- The bodies of the look-behinds that one with the given body is divided into, in order. -/
def parts (enc : Encoding) : Node ρ → List (Node ρ)
  | alternation items =>
    match charLength enc (alternation items) with
    | some _ => [alternation items]
    | none => partsEach enc items
  | body => [body]

/-- The bodies for several trees. -/
def partsEach (enc : Encoding) : List (Node ρ) → List (Node ρ)
  | [] => []
  | node :: rest => parts enc node ++ partsEach enc rest

end

/-- The alternatives of a tree. A tree that is no alternation is its only alternative. -/
def alternatives : Node ρ → List (Node ρ)
  | alternation items => items
  | node => [node]

theorem partsEach_eq (enc : Encoding) (items : List (Node ρ)) :
    partsEach enc items = items.flatMap (parts enc) := by
  induction items with
  | nil => rfl
  | cons node rest ih => rw [partsEach, ih, List.flatMap_cons]

/-- A look-behind whose length is known is not divided. -/
theorem parts_of_known {body : Node ρ} {n : Nat} (h : body.charLength enc = some n) :
    body.parts enc = [body] := by
  cases body with
  | alternation items => rw [parts, h]
  | _ => rfl

/-- A look-behind whose length is known stays as it is. -/
theorem divide_of_known {body : Node ρ} {n : Nat} (h : body.charLength enc = some n)
    (negated : Bool) : divide enc negated body = .look .behind negated body := by
  cases body with
  | alternation items => rw [divide, h]
  | _ => rfl

end Parts

variable {ctx : Context} {place : Place}

/-- Where it leads to step back over so many characters, match a body and return to the start. -/
def foundFrom (ctx : Context) (place : Place) (n : Nat) (body : Tree) : Option Place :=
  (ctx.encoding.stepBack ctx.subject 0 n place.pos).bind fun pos =>
    (body.outcomes ctx (place.moveTo pos)).head?.map fun last => last.moveTo place.pos

/-- Where a look-behind with the given body leads that is not divided: back over the characters of
the body, through the first match of the body, and to where it started. -/
def foundBehind (ctx : Context) (place : Place) (body : Tree) : Option Place :=
  (body.charLength ctx.encoding).bind fun n => foundFrom ctx place n body

/-- Where a look-behind with the given body leads: every part that holds leads somewhere. -/
def foundParts (ctx : Context) (place : Place) (body : Tree) : List Place :=
  (body.parts ctx.encoding).filterMap (foundBehind ctx place)

/-- A look-behind that is not divided leads to one place at most. -/
theorem outcomes_behind (ctx : Context) (place : Place) (body : Tree) :
    (look .behind false body).outcomes ctx place = (foundBehind ctx place body).toList := by
  rw [outcomes, foundBehind]
  rcases body.charLength ctx.encoding with _ | n
  · rfl
  simp only [Option.bind_some, foundFrom, Ways.look, Ways.andThen, Ways.stepBack,
    Bool.false_eq_true, if_false]
  rcases ctx.encoding.stepBack ctx.subject 0 n place.pos with _ | pos
  · rfl
  simp only [Option.map_some, Option.toList_some, List.flatMap_singleton, Option.bind_some]
  rw [List.take_one]
  cases (body.outcomes ctx (place.moveTo pos)).head? <;> rfl

/-- The outcomes of a positive look-behind are those of its parts, one after the other. -/
theorem outcomes_divide (ctx : Context) (place : Place) (body : Tree) :
    (divide ctx.encoding false body).outcomes ctx place = foundParts ctx place body := by
  -- A look-behind that is not divided is its only part.
  have hwhole : ∀ body : Tree, (look .behind false body).outcomes ctx place =
      [body].filterMap (foundBehind ctx place) := by
    intro body
    rw [outcomes_behind, List.filterMap_cons, List.filterMap_nil]
    cases foundBehind ctx place body <;> rfl
  -- Only an alternation of different lengths is divided, and its alternatives are divided in turn.
  induction body using Node.induct with
  | alternation items ih =>
      rcases hlength : (alternation items : Tree).charLength ctx.encoding with _ | n
      · rw [divide, hlength, foundParts, parts, hlength]
        simp only [Bool.false_eq_true, if_false]
        rw [divideEach_eq_map, partsEach_eq, outcomes, List.filterMap_flatMap]
        clear hwhole hlength
        induction items with
        | nil => rfl
        | cons node rest ihrest =>
            rw [List.forall_mem_cons] at ih
            rw [List.map_cons, outcomesOfAny, Ways.orElse, ih.1, ihrest ih.2, List.flatMap_cons]
            rfl
      · rw [divide_of_known hlength, foundParts, parts_of_known hlength]
        exact hwhole _
  | _ => exact hwhole _

/-- Every outcome of a look-behind has the position of the look-behind. -/
theorem pos_of_foundBehind {body : Tree} {last : Place}
    (h : foundBehind ctx place body = some last) : last.pos = place.pos := by
  simp only [foundBehind, foundFrom, Option.bind_eq_some_iff, Option.map_eq_some_iff] at h
  rcases h with ⟨n, -, pos, -, mid, -, rfl⟩
  rfl

/-- A look-behind that is not divided has one outcome at most. -/
theorem foundParts_of_known {body : Tree} {n : Nat} (h : body.charLength ctx.encoding = some n) :
    foundParts ctx place body = (foundBehind ctx place body).toList := by
  rw [foundParts, parts_of_known h, List.filterMap_cons, List.filterMap_nil]
  cases foundBehind ctx place body <;> rfl

/-- The first outcome of one of several trees is the first outcome of the first of them that has
any. -/
theorem head?_outcomesOfAny (ctx : Context) (place : Place) (items : List Tree) :
    (outcomesOfAny ctx items place).head? =
      items.findSome? fun node => (node.outcomes ctx place).head? := by
  rw [outcomesOfAny_eq]
  induction items with
  | nil => rfl
  | cons node rest ih =>
      rw [List.map_cons, List.foldr_cons, Ways.orElse, List.head?_append, ih, List.findSome?_cons]
      cases (node.outcomes ctx place).head? <;> rfl

/-- Alternatives that are tried from the same position lead where the first one leads that matches.
-/
theorem foundFrom_alternation (ctx : Context) (place : Place) (n : Nat) (items : List Tree) :
    foundFrom ctx place n (.alternation items) = items.findSome? (foundFrom ctx place n) := by
  rw [foundFrom, outcomes]
  unfold foundFrom
  rcases ctx.encoding.stepBack ctx.subject 0 n place.pos with _ | pos
  · exact (List.findSome?_eq_none_iff.mpr fun _ _ => rfl).symm
  · simp only [Option.bind_some, head?_outcomesOfAny, List.map_findSome?]
    rfl

/-- The first outcome of a look-behind is that of the first alternative that holds, be the
look-behind divided or not. -/
theorem head?_foundParts (ctx : Context) (place : Place) (body : Tree) :
    (foundParts ctx place body).head? =
      body.alternatives.findSome? fun node => (foundParts ctx place node).head? := by
  -- Parts of one length are looked for from one position, in their order.
  have hknown : ∀ (n : Nat) (items : List Tree),
      (∀ node ∈ items, node.charLength ctx.encoding = some n) →
      (items.findSome? fun node => (foundParts ctx place node).head?) =
        items.findSome? (foundFrom ctx place n) := by
    intro n items hitems
    induction items with
    | nil => rfl
    | cons node rest ih =>
        rw [List.forall_mem_cons] at hitems
        rw [List.findSome?_cons, List.findSome?_cons, ih hitems.2, foundParts_of_known hitems.1,
          Option.head?_toList, foundBehind, hitems.1, Option.bind_some]
  cases body with
  | alternation items =>
      rcases hlength : (alternation items : Tree).charLength ctx.encoding with _ | n
      · rw [foundParts, parts, hlength]
        simp only [partsEach_eq, List.filterMap_flatMap, List.head?_flatMap]
        rfl
      · -- All alternatives are as long, so they are tried from the same position.
        rw [foundParts_of_known hlength, Option.head?_toList, foundBehind, hlength,
          Option.bind_some, foundFrom_alternation, alternatives]
        exact (hknown n items (charLengthCommon_eq_some.mp hlength).2).symm
  | _ => exact List.findSome?_singleton.symm

/-- A look-behind without groups leads back to its place. -/
theorem foundParts_of_groupless {body : Tree} (h : body.groupNumbers = []) :
    ∀ last ∈ foundParts ctx place body, last = place := by
  intro last hlast
  rw [← outcomes_divide] at hlast
  have hspares := outcomes_spares ctx (divide ctx.encoding false body) place last hlast
  rw [groupNumbers_divide, h] at hspares
  rw [outcomes_divide, foundParts, List.mem_filterMap] at hlast
  rcases hlast with ⟨part, -, hpart⟩
  have hpos := pos_of_foundBehind hpart
  have hspans : last.spans = place.spans := funext fun n => hspares n List.not_mem_nil
  cases last
  cases place
  simp only at hpos hspans
  rw [hpos, hspans]

end Node

end RegexEngine
