import RegexEngine.Dialect
import RegexEngine.GroupNames
import RegexEngine.Program.Instr

/-!
# Programs

A program is what a pattern is compiled to: the code, how many groups, loops, empty checks and marks
the code uses, and what was known of the pattern. Hints tell a search which start positions it may
skip.

## Main definitions

* `Program`: the programs.
* `Hints`: what is known about the start of every match.
* `Program.slotCount`: the number of spans that a match reports.
-/

namespace RegexEngine

/-- What is known about the start of every match of a program. -/
structure Hints where
  /-- A match starts at the start of the text, unless the search makes line anchors multiline. -/
  textStart : Bool := false
  /-- A match starts where the search starts. -/
  searchStart : Bool := false
  /-- A match starts with these bytes. -/
  literal : List UInt8 := []
  deriving DecidableEq, Repr, Inhabited

namespace Hints

/-- The hints whose anchors are given by the numbers of the anchors. -/
def ofNumber (anchors : Nat) (literal : List UInt8) : Hints where
  textStart := anchors.testBit 4
  searchStart := anchors.testBit 6
  literal := literal

/-- The sum of the numbers of the anchors. -/
def number (hints : Hints) : Nat :=
  hints.textStart.toNat * 16 + hints.searchStart.toNat * 64

end Hints

/-- A compiled pattern. -/
structure Program where
  code : Array Instr
  /-- How many groups are numbered. -/
  groups : Nat := 0
  /-- The bounds of the counted loops. -/
  loops : Array Bounds := #[]
  /-- How many loops check for empty iterations. -/
  emptyChecks : Nat := 0
  /-- How many marks have been numbered. -/
  marks : Nat := 0
  pattern : List UInt8 := []
  encoding : Encoding := .utf8
  options : Options := Options.empty
  dialect : Dialect := Dialect.standard
  names : GroupNames := {}
  hints : Hints := {}
  deriving DecidableEq, Repr

namespace Program

/-- How many spans a match has: one for all of it and one for each group. -/
def slotCount (program : Program) : Nat :=
  program.groups + 1

end Program

end RegexEngine
