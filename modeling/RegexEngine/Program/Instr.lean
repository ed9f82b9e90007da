import RegexEngine.CharSet.Basic
import RegexEngine.Pattern.Node

/-!
# Instructions

The instructions of the backtracking machine. Those that test the subject at the current position
and keep to that are the leaves; they are the same tests that the leaves of a pattern tree stand
for. The other instructions steer: they jump, leave choices behind, open and close groups, count
iterations, and cut the stack back to a mark.

Every offset is counted from the instruction that holds it, so that a piece of code means the same
wherever it stands.

## Main definitions

* `Leaf`: the tests of the subject.
* `Instr`: the instructions.
* `Code`: pieces of code.
* `Bounds`: how often a counted loop runs.
-/

namespace RegexEngine

/-- A test of the subject at the current position, which consumes what it accepts. -/
inductive Leaf where
  /-- These bytes. -/
  | literal (bytes : List UInt8)
  /-- Characters that fold to these code points. -/
  | folded (codes : List Nat)
  /-- A member of the set. -/
  | set (chars : CharSet)
  /-- Any character, a newline only if `newlines`. -/
  | anyChar (newlines : Bool)
  /-- A word character, or if negated any other. -/
  | word (negated : Bool)
  /-- The text of the last of the groups that has one which follows here. -/
  | backref (groups : List Nat) (ignoreCase : Bool)
  /-- A test of the position. -/
  | anchor (kind : Anchor) (multiline : Bool)
  deriving DecidableEq, Repr

/-- An instruction. -/
inductive Instr where
  /-- Tests the subject and goes on behind the accepted text, or fails. -/
  | leaf (test : Leaf)
  /-- A match ends here. -/
  | finish
  /-- Notes where a group begins. -/
  | openGroup (number : Nat)
  /-- Ends a group here. -/
  | closeGroup (number : Nat)
  /-- Falls back to the last choice. -/
  | fail
  | jump (offset : Int)
  /-- Leaves the choice of going on at the offset instead. -/
  | fork (offset : Int)
  /-- Puts a mark with the position on the stack. -/
  | mark (id : Nat) (saves : Bool)
  /-- Drops the choices above a mark, and may go back to the position of the mark. -/
  | cut (id : Nat) (returns : Bool)
  /-- Undoes all that was done since a mark. -/
  | rewind (id : Nat)
  /-- Starts counting a loop whose code ends at the offset. -/
  | enter (id : Nat) (offset : Int) (greedy : Bool)
  /-- Counts an iteration of the loop whose body starts at the offset. -/
  | again (id : Nat) (offset : Int) (greedy : Bool)
  /-- Notes where an iteration begins. -/
  | emptyStart (id : Nat)
  /-- Leaves the loop after an iteration that consumed nothing. -/
  | emptyEnd (id : Nat)
  /-- Steps back over this many characters, or fails. -/
  | stepBack (count : Nat)
  /-- An instruction that lacks its operands and cannot be obeyed. -/
  | bare (name : String)
  deriving DecidableEq, Repr

/-- A piece of code. -/
abbrev Code := List Instr

/-- How often a counted loop runs, at least and at most. -/
structure Bounds where
  lower : Nat
  /-- No upper bound if absent. -/
  upper : Option Nat
  deriving DecidableEq, Repr, Inhabited

namespace Bounds

/-- The bounds that a pair of integers stands for. A loop counts an iteration only after it, so a
negative lower bound asks for one iteration as 1 does. An upper bound of -1 is none; any other
negative one is reached at once. -/
def ofInts (lower upper : Int) : Bounds where
  lower := if lower < 0 then 1 else lower.toNat
  upper := if upper = -1 then none else some upper.toNat

end Bounds

end RegexEngine
