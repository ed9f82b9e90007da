import RegexEngine.Matcher.Context

/-!
# The Stack of a Matcher

A matcher keeps one stack, newest entry first. Choices tell where to go on when an attempt fails.
Before a register is changed its value is saved, and falling back puts the saved values back. Marks
limit how far choices are dropped or changes are undone.

## Main definitions

* `Registers`: what a matcher remembers besides its position.
* `Entry`: the entries of the stack.
* `popChoice`: falls back to the newest choice.
* `cutTo`: drops the choices above a mark.
* `rewindTo`: undoes everything above a mark.
-/

namespace RegexEngine

/-- The counter of a loop. -/
structure Counter where
  /-- How many iterations are complete. -/
  count : Nat := 0
  /-- Where the current iteration began. -/
  start : Nat := 0
  deriving DecidableEq, Repr, Inhabited

/-- What a matcher remembers besides its position. -/
structure Registers where
  captures : Array Capture
  counters : Array Counter
  /-- Where the iterations that are checked for being empty began. -/
  checks : Array (Option Nat)
  deriving DecidableEq, Repr, Inhabited

/-- An entry of the stack. -/
inductive Entry where
  /-- Go on with this instruction at this position. -/
  | choice (pc : Int) (pos : Nat)
  | mark (id pos : Nat)
  /-- The capture of a group before it was changed. -/
  | capture (number : Nat) (old : Capture)
  /-- The counter of a loop before it was changed. -/
  | counter (id : Nat) (old : Counter)
  /-- The start of a checked iteration before it was changed. -/
  | check (id : Nat) (old : Option Nat)
  deriving DecidableEq, Repr

namespace Registers

/-- Registers in which nothing has happened. -/
def fresh (program : Program) : Registers where
  captures := Array.replicate program.slotCount {}
  counters := Array.replicate program.loops.size {}
  checks := Array.replicate program.emptyChecks none

/-- Forgets captures and checked iterations. The counters keep their values: a loop sets its own
when it starts. -/
def clear (regs : Registers) : Registers where
  captures := Array.replicate regs.captures.size {}
  counters := regs.counters
  checks := Array.replicate regs.checks.size none

/-- The capture of a group. -/
def captureOf (regs : Registers) (number : Nat) : Capture :=
  regs.captures.getD number {}

/-- The counter of a loop. -/
def counterOf (regs : Registers) (id : Nat) : Counter :=
  regs.counters.getD id {}

/-- The start of a checked iteration. -/
def checkOf (regs : Registers) (id : Nat) : Option Nat :=
  regs.checks.getD id none

/-- Changes the capture of a group. -/
def setCapture (regs : Registers) (number : Nat) (value : Capture) : Registers :=
  { regs with captures := regs.captures.setIfInBounds number value }

/-- Changes the counter of a loop. -/
def setCounter (regs : Registers) (id : Nat) (value : Counter) : Registers :=
  { regs with counters := regs.counters.setIfInBounds id value }

/-- Changes the start of a checked iteration. -/
def setCheck (regs : Registers) (id : Nat) (value : Option Nat) : Registers :=
  { regs with checks := regs.checks.setIfInBounds id value }

/-- Puts the value back that an entry saved. -/
def undo (regs : Registers) : Entry → Registers
  | .choice .. | .mark .. => regs
  | .capture number old => regs.setCapture number old
  | .counter id old => regs.setCounter id old
  | .check id old => regs.setCheck id old

end Registers

namespace Entry

/-- Whether an entry saves a value. -/
def isSaved : Entry → Bool
  | choice .. | mark .. => false
  | capture .. | counter .. | check .. => true

/-- Whether an entry is the mark with a number. -/
def isMark (id : Nat) : Entry → Bool
  | mark found _ => found == id
  | _ => false

end Entry

/-- Where falling back leads. -/
inductive Fall where
  /-- To a choice, with the registers as they were when it was left. -/
  | resume (pc : Int) (pos : Nat) (regs : Registers) (stack : List Entry)
  /-- Nowhere, since no choice is left. All that was saved has been put back. -/
  | bottom (regs : Registers)
  deriving Repr

/-- Falls back to the newest choice, putting saved values back on the way. -/
def popChoice : List Entry → Registers → Fall
  | [], regs => .bottom regs
  | .choice pc pos :: rest, regs => .resume pc pos regs rest
  -- Marks are dropped like saved values; to undo one changes nothing.
  | entry :: rest, regs => popChoice rest (regs.undo entry)

/-- Drops the choices and marks above the newest mark with a number, and the mark. What was saved is
kept on the stack. The answer has the position of the mark; `kept` holds the saved entries met so
far, oldest first. -/
def cutTo (id : Nat) : (kept : List Entry) → List Entry → Option (Nat × List Entry)
  | _, [] => none
  | kept, .mark found pos :: rest =>
    if found = id then some (pos, kept.reverseAux rest) else cutTo id kept rest
  | kept, entry :: rest => cutTo id (if entry.isSaved then entry :: kept else kept) rest

/-- Undoes everything above the newest mark with a number, and drops the mark. -/
def rewindTo (id : Nat) : List Entry → Registers → Option (List Entry × Registers)
  | [], _ => none
  | entry :: rest, regs =>
    if entry.isMark id then some (rest, regs) else rewindTo id rest (regs.undo entry)

end RegexEngine
