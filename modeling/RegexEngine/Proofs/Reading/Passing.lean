import RegexEngine.Pattern.Parse
import RegexEngine.Proofs.Reading.Text

/-!
# How Reading Changes the State

A state changes in few ways while a pattern is read: one goes on in the text or changes the options,
opens a group, with or without a name, and enters a level that is left again. What all of these keep
is kept by every reader, however it is made from others.

The levels that are open are counted in the state, and the limit on nesting is compared with that
count. A parenthesis is one level while it is read. Every operator that wraps an item opens one
more, and all of them are left with the last operator. So a reader leaves as many levels open as it
found.

## Main definitions

* `Passes`: How a state changes while a pattern is read.
* `Passing`: A reader changes the state in no other way.

## Theorems

* `deeper_ok`: A parenthesis is read if there may be one level more.
* `repeats_ok`: Repeat operators leave the levels that they open.
* `Passes.depth_eq`: Every level that is entered is left again.
* `passing_simpleItem`, `passing_parenthesis`, `passing_alternatives`: The levels of the grammar.
* `passing_groupsWithin`: Groups inside of groups.
-/

namespace RegexEngine

namespace Pattern

variable {env : Setting} {st after : State}

/-- A parenthesis is read with one level more, if there may be so many. -/
theorem deeper_ok {α : Type} {reader : Reader α} {a : α}
    (hread : deeper env reader st = .ok (a, after)) :
    st.depth < env.nestingLimit ∧ ∃ last, reader { st with depth := st.depth + 1 } = .ok (a, last) ∧
      after = { last with depth := last.depth - 1 } := by
  rw [deeper] at hread
  split at hread
  · cases hread
  · rename_i hlimit
    rcases bind_ok hread with ⟨⟨b, last⟩, hinner, hpair⟩
    cases hpair
    exact ⟨Nat.not_le.mp fun hle => hlimit (Nat.lt_succ_of_le hle), last, hinner, rfl⟩

/-- The operators after an item take some text. The levels that they open are left again, together
with those of the operators before. -/
theorem repeats_ok {fuel wraps : Nat} {node draft : Draft}
    (hread : repeats env fuel wraps node st = .ok (draft, after)) :
    ∃ rest, after = { st with rest := rest, depth := st.depth - wraps } := by
  -- By induction on the fuel. An operator that wraps raises both the depth and the count of wraps
  -- by one, so that their difference is the depth before the first one.
  induction fuel generalizing wraps node st with
  | zero => cases hread
  | succ fuel ih =>
      rw [repeats] at hread
      rcases bind_ok hread with ⟨found, -, hread⟩
      split at hread
      · cases hread
        exact ⟨_, rfl⟩
      · split at hread
        · cases hread
        · split at hread
          · rcases ih hread with ⟨rest, rfl⟩
            exact ⟨rest, rfl⟩
          · split at hread
            · cases hread
            · rcases ih hread with ⟨rest, rfl⟩
              simp only [Nat.add_sub_add_right]
              exact ⟨rest, rfl⟩

theorem openGroup_ok {start : List UInt8} {number : Nat}
    (hread : st.openGroup env start = .ok (number, after)) :
    number = st.groups + 1 ∧ after = { st with groups := st.groups + 1 } := by
  rw [State.openGroup] at hread
  split at hread
  · cases hread
  · cases hread
    exact ⟨rfl, rfl⟩

/-- How a state changes while a pattern is read, step by step. -/
inductive Passes (env : Setting) : State → State → Prop
  | move {st : State} (rest : List UInt8) (options : Options) :
      Passes env st { st with rest := rest, options := options }
  | opened {st after : State} {start : List UInt8} {number : Nat}
      (opens : st.openGroup env start = .ok (number, after)) : Passes env st after
  | named {st opened after : State} {start nameStart name : List UInt8} {number : Nat}
      (opens : st.openGroup env start = .ok (number, opened))
      (names : opened.nameGroup env nameStart name number = .ok after) : Passes env st after
  | deeper {st after : State} (inner : Passes env { st with depth := st.depth + 1 } after) :
      Passes env st { after with depth := after.depth - 1 }
  | trans {st mid after : State} (first : Passes env st mid) (later : Passes env mid after) :
      Passes env st after

namespace Passes

theorem refl (st : State) : Passes env st st :=
  .move st.rest st.options

/-- What a group opens changes nothing but the number of groups. -/
theorem groups_of_named {opened : State} {start nameStart name : List UInt8} {number : Nat}
    (opens : st.openGroup env start = .ok (number, opened))
    (names : opened.nameGroup env nameStart name number = .ok after) :
    after.groups = st.groups + 1 ∧ after.depth = st.depth ∧
      st.names.insert? name (st.groups + 1) env.dialect.sharedNames = some after.names := by
  rcases openGroup_ok opens with ⟨rfl, rfl⟩
  rw [State.nameGroup] at names
  split at names
  · rename_i hinsert
    cases names
    exact ⟨rfl, rfl, hinsert⟩
  · cases names

/-- Every level that is entered is left again. -/
theorem depth_eq (h : Passes env st after) : after.depth = st.depth := by
  induction h with
  | move rest options => rfl
  | opened opens =>
      rcases openGroup_ok opens with ⟨-, rfl⟩
      rfl
  | named opens names => exact (groups_of_named opens names).2.1
  | deeper inner ih => exact congrArg (· - 1) ih
  | trans first later ihfirst ihlater => exact ihlater.trans ihfirst

end Passes

/-- A reader that answers has changed the state in these ways only. -/
def Passing {α : Type} (env : Setting) (reader : Reader α) : Prop :=
  ∀ ⦃st after : State⦄ ⦃a : α⦄, reader st = .ok (a, after) → Passes env st after

/-- What becomes of the answer does not matter. -/
theorem Passing.map {α β : Type} {reader : Reader α} (h : Passing env reader) (f : α → β) :
    Passing env (fun st => do
      let (a, after) ← reader st
      .ok (f a, after)) := by
  intro st after b hread
  rcases bind_ok hread with ⟨⟨a, last⟩, ha, hpair⟩
  cases hpair
  exact h ha

theorem passing_numberEscape (env : Setting) (esc : List UInt8) :
    Passing env (numberEscape env esc) := by
  intro st after draft hread
  rw [numberEscape] at hread
  simp only at hread
  -- A reference, an octal number or a digit; each moves on in the text and changes nothing else.
  split at hread
  · split at hread
    · cases hread
    · cases hread
      exact .move _ _
  · split at hread
    · cases hread
    · split at hread
      · cases hread
        exact .move _ _
      · rcases bind_ok hread with ⟨bytes, -, hpair⟩
        cases hpair
        exact .move _ _

theorem passing_characterEscape (env : Setting) (esc : List UInt8) (b : UInt8) :
    Passing env (characterEscape env esc b) := by
  intro st after draft hread
  rcases bind_ok hread with ⟨⟨code, rest⟩, -, hread⟩
  simp only at hread
  split at hread
  · rcases bind_ok hread with ⟨bytes, -, hpair⟩
    cases hpair
    exact .move _ _
  · rcases bind_ok hread with ⟨bytes, -, hpair⟩
    cases hpair
    exact .move _ _

theorem passing_escape (env : Setting) : Passing env (escape env) := by
  intro st after draft hread
  rw [escape] at hread
  simp only at hread
  split at hread
  · cases hread
  · rename_i b tail htext
    -- The kinds of escapes in the order of the reader. The backslash is left behind before a number
    -- or a character is read.
    split at hread
    · cases hread
      exact .move _ _
    · split at hread
      · cases hread
        exact .move _ _
      · split at hread
        · rcases bind_ok hread with ⟨⟨target, rest⟩, -, hpair⟩
          cases hpair
          exact .move _ _
        · refine .trans (.move (b :: tail) st.options) ?_
          split at hread
          · exact passing_numberEscape env st.rest hread
          · exact passing_characterEscape env st.rest b hread

theorem passing_simpleItem (env : Setting) : Passing env (simpleItem env) := by
  intro st after draft hread
  rw [simpleItem] at hread
  split at hread
  · cases hread
  · simp only at hread
    -- Each sign is an item by itself or announces a class or an escape.
    split at hread
    · rcases bind_ok hread with ⟨⟨set, rest⟩, -, hpair⟩
      cases hpair
      exact .move _ _
    · cases hread
      exact .move _ _
    · cases hread
      exact .move _ _
    · cases hread
      exact .move _ _
    · exact passing_escape env hread
    · split at hread
      · cases hread
      · cases hread
        exact .move _ _

theorem passing_leavesNode {reader : Reader Draft} (h : Passing env reader) :
    Passing env (leavesNode reader) :=
  h.map some

theorem passing_commentGroup (env : Setting) : Passing env (commentGroup env) := by
  intro st after draft? hread
  rw [commentGroup] at hread
  split at hread
  · cases hread
  · cases hread
    exact .move _ _

section Groups

variable {inside : Reader Draft} (h : Passing env inside)
include h

theorem passing_groupBody : Passing env (groupBody inside) := by
  intro st after draft hread
  rcases bind_ok hread with ⟨⟨body, last⟩, hbody, hpair⟩
  cases hpair
  exact (h hbody).trans (.move last.rest.tail st.options)

/-- A group is opened and named before it is read. -/
theorem passing_namedGroup (start : List UInt8) (close : Char) :
    Passing env (namedGroup env inside start close) := by
  intro st after draft hread
  rcases bind_ok hread with ⟨⟨name, rest⟩, -, hread⟩
  rcases bind_ok hread with ⟨⟨number, opened⟩, hopen, hread⟩
  rcases bind_ok hread with ⟨named, hnamed, hread⟩
  rcases bind_ok hread with ⟨⟨body, last⟩, hbody, hpair⟩
  cases hpair
  exact .trans (.move rest st.options) (.trans (.named hopen hnamed) (passing_groupBody h hbody))

theorem passing_lookAround (direction : Direction) (negated : Bool) :
    Passing env (lookAround inside direction negated) :=
  (passing_groupBody h).map _

theorem passing_atomicGroup : Passing env (atomicGroup inside) :=
  (passing_groupBody h).map _

theorem passing_optionGroup : Passing env (optionGroup env inside) := by
  intro st after draft? hread
  rcases bind_ok hread with ⟨⟨options, hasGroup, rest⟩, -, hread⟩
  simp only at hread
  split at hread
  · rcases bind_ok hread with ⟨⟨body, last⟩, hbody, hpair⟩
    cases hpair
    exact .trans (.move rest options) (.trans (passing_groupBody h hbody) (.move last.rest _))
  · cases hread
    exact .move _ _

theorem passing_angleGroup (start : List UInt8) : Passing env (angleGroup env inside start) := by
  intro st after draft hread
  rw [angleGroup] at hread
  split at hread
  · exact .trans (.move st.rest.tail st.options) (passing_lookAround h _ _ hread)
  · split at hread
    · cases hread
    · split at hread
      · exact passing_namedGroup h start '>' hread
      · cases hread

theorem passing_capitalGroup (start : List UInt8) :
    Passing env (capitalGroup env inside start) := by
  intro st after draft hread
  rw [capitalGroup] at hread
  split at hread
  · cases hread
  · rename_i b rest htext
    split at hread
    · exact .trans (.move rest st.options) (passing_namedGroup h start '>' hread)
    · rcases bind_ok hread with ⟨⟨name, last⟩, -, hpair⟩
      cases hpair
      exact .move _ _
    · cases hread

theorem passing_specialGroup (start : List UInt8) :
    Passing env (specialGroup env inside start) := by
  intro st after draft? hread
  rw [specialGroup] at hread
  split at hread
  · cases hread
  · rename_i b rest htext
    simp only at hread
    -- Behind the sign the reader that it announces goes on. A setting changes the options too.
    split at hread
    case h_8 => exact passing_optionGroup h hread
    case h_9 => cases hread
    all_goals refine .trans (.move rest st.options) ?_
    · exact passing_commentGroup env hread
    · exact passing_leavesNode (passing_groupBody h) hread
    · exact passing_leavesNode (passing_lookAround h _ _) hread
    · exact passing_leavesNode (passing_atomicGroup h) hread
    · exact passing_leavesNode (passing_angleGroup h start) hread
    · exact passing_leavesNode (passing_namedGroup h start _) hread
    · exact passing_leavesNode (passing_capitalGroup h start) hread

/-- A parenthesis and all that it opens. -/
theorem passing_parenthesis : Passing env (parenthesis env inside) := by
  intro st after draft? hread
  rw [parenthesis] at hread
  simp only at hread
  split at hread
  · exact .trans (.move st.rest.tail.tail st.options) (passing_specialGroup h _ hread)
  · rcases bind_ok hread with ⟨⟨number, opened⟩, hopen, hread⟩
    rcases bind_ok hread with ⟨⟨body, last⟩, hbody, hpair⟩
    cases hpair
    exact .trans (.move st.rest.tail st.options)
      (.trans (.opened hopen) (passing_groupBody h hbody))

end Groups

section Branches

variable {group : Reader (Option Draft)} (h : Passing env group)
include h

theorem passing_item : Passing env (item env group) := by
  intro st after draft? hread
  rw [item] at hread
  split at hread
  · rcases deeper_ok hread with ⟨-, last, hinner, rfl⟩
    exact .deeper (h hinner)
  · exact passing_leavesNode (passing_simpleItem env) hread

theorem passing_branchItems {fuel : Nat} {items : List Draft} :
    Passing env (branchItems env group fuel items) := by
  intro st after found hread
  -- Blank space is left out before each item, and operators may follow it.
  induction fuel generalizing items st with
  | zero => cases hread
  | succ fuel ih =>
      refine .trans (.move (skipBlank st.options st.rest) st.options) ?_
      rw [branchItems] at hread
      simp only at hread
      split at hread
      · cases hread
        exact .refl _
      · rcases bind_ok hread with ⟨quantifier, -, hread⟩
        split at hread
        · cases hread
        · rcases bind_ok hread with ⟨⟨node?, mid⟩, hitem, hread⟩
          refine .trans (passing_item h hitem) ?_
          simp only at hread
          split at hread
          · exact ih hread
          · rcases bind_ok hread with ⟨⟨wrapped, last⟩, hrepeats, hread⟩
            rcases repeats_ok hrepeats with ⟨rest, rfl⟩
            exact .trans (.move rest mid.options) (ih hread)

theorem passing_branch : Passing env (branch env group) :=
  fun _ _ _ hread => (passing_branchItems h).map branchNode hread

theorem passing_branches {inGroup : Bool} {fuel : Nat} {nodes : List Draft} :
    Passing env (branches env group inGroup fuel nodes) := by
  intro st after found hread
  -- By induction on the fuel, with the branch that is read first. A bar moves on, and nothing else
  -- is done.
  induction fuel generalizing nodes st with
  | zero => cases hread
  | succ fuel ih =>
      rw [branches] at hread
      rcases bind_ok hread with ⟨⟨node, mid⟩, hbranch, hread⟩
      refine .trans (passing_branch h hbranch) ?_
      simp only at hread
      split at hread
      · split at hread
        · cases hread
        · cases hread
          exact .refl _
      · rename_i b rest htext
        split at hread
        · exact .trans (.move rest mid.options) (ih hread)
        · split at hread
          · cases hread
            exact .refl _
          · cases hread
        · cases hread

theorem passing_alternatives {inGroup : Bool} :
    Passing env (alternatives env group inGroup) :=
  fun _ _ _ hread => (passing_branches h).map alternationNode hread

end Branches

/-- Groups inside of groups. -/
theorem passing_groupsWithin (env : Setting) (room : Nat) :
    Passing env (groupsWithin env room) := by
  induction room with
  | zero =>
      intro st after draft? hread
      cases hread
  | succ room ih => exact passing_parenthesis (passing_alternatives ih)

end Pattern

end RegexEngine
