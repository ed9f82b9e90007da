import RegexEngine.GroupNames
import RegexEngine.Pattern.Node
import RegexEngine.Pattern.Reference

/-!
# The State of Reading

What changes while a pattern is read: the text still to be read, the options in force, the groups
and names seen so far, and the levels that are open. Groups are numbered in the order of their
opening parentheses.

## Main definitions

* `State`: the state of reading.
* `Draft`: the trees whose references are not resolved.
* `deeper`: reads a parenthesis, which is a level.
* `State.openGroup`, `State.nameGroup`: take the next group number, and give it a name.
-/

namespace RegexEngine

namespace Pattern

/-- A tree whose references are as written. -/
abbrev Draft := Node Reference

/-- The state of reading. -/
structure State where
  /-- The text still to be read. -/
  rest : List UInt8
  options : Options
  /-- How many groups have been opened. -/
  groups : Nat := 0
  names : GroupNames := {}
  /-- How many levels are open: parentheses, and repeats around an item whose operators are being
  read. -/
  depth : Nat := 0
  deriving Repr

/-- Reads a part of a pattern, changing the state. -/
abbrev Reader (α : Type) := State → Except Failure (α × State)

/-- Reads something one level deeper, if there may be one level more. -/
def deeper {α : Type} (env : Setting) (reader : Reader α) : Reader α := fun st => do
  if env.nestingLimit < st.depth + 1 then env.fail .nestingLimit st.rest
  else do
    let (value, after) ← reader { st with depth := st.depth + 1 }
    .ok (value, { after with depth := after.depth - 1 })

/-- Takes the next group number for a parenthesis at `start`. -/
def State.openGroup (st : State) (env : Setting) (start : List UInt8) :
    Except Failure (Nat × State) :=
  if env.captureLimit ≤ st.groups then env.fail .tooManyCaptures start
  else .ok (st.groups + 1, { st with groups := st.groups + 1 })

/-- Gives a group the name that is written at `start`. -/
def State.nameGroup (st : State) (env : Setting) (start name : List UInt8) (number : Nat) :
    Except Failure State :=
  match st.names.insert? name number env.dialect.sharedNames with
  | some names => .ok { st with names := names }
  | none => env.failName .sharedName start name

/-- A literal under the options in force. -/
def State.literal (st : State) (bytes : List UInt8) : Draft :=
  .literal bytes st.options.ignoreCase

/-- A reference under the options in force, written at `start`. -/
def State.backref (st : State) (env : Setting) (target : Reference) (start : List UInt8) : Draft :=
  .backref target st.options.ignoreCase (env.offset start)

/-- An anchor under the options in force. -/
def State.anchor (st : State) (kind : Anchor) : Draft :=
  .anchor kind st.options.multiline

end Pattern

end RegexEngine
