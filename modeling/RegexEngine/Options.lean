/-!
# Options

The option set of patterns and searches. Some options shape the program, some steer a search, and
most do both: a search works under its own options together with those of the program.

As a number, an option set is a sum of powers of two. Bits that stand for no option are dropped.

## Main definitions

* `Options`: the option sets, with `union` and `diff`.
* `Options.ofBits`, `Options.toBits`: option sets as numbers.
* `Options.label`: the text that stands for an option set in messages and listings.
-/

namespace RegexEngine

/-- An option set. -/
structure Options where
  /-- Literals, classes and back-references are compared without regard to case. -/
  ignoreCase : Bool := false
  /-- White space and comments in the pattern are skipped. -/
  extended : Bool := false
  /-- The line anchors hold at inner line boundaries as well. -/
  multiline : Bool := false
  /-- The dot matches a newline as well. -/
  dotAll : Bool := false
  /-- The longest match is reported instead of the first. -/
  findLongest : Bool := false
  /-- An empty match at the start of the search is rejected. -/
  findNotEmpty : Bool := false
  /-- The start of the subject does not begin a line. -/
  notLineStart : Bool := false
  /-- The end of the subject does not end a line. -/
  notLineEnd : Bool := false
  deriving DecidableEq, Repr, Inhabited

namespace Options

/-- No option at all. -/
def empty : Options := {}

/-- What either set has. -/
def union (a b : Options) : Options where
  ignoreCase := a.ignoreCase || b.ignoreCase
  extended := a.extended || b.extended
  multiline := a.multiline || b.multiline
  dotAll := a.dotAll || b.dotAll
  findLongest := a.findLongest || b.findLongest
  findNotEmpty := a.findNotEmpty || b.findNotEmpty
  notLineStart := a.notLineStart || b.notLineStart
  notLineEnd := a.notLineEnd || b.notLineEnd

/-- What the first set has and the second has not. -/
def diff (a b : Options) : Options where
  ignoreCase := a.ignoreCase && !b.ignoreCase
  extended := a.extended && !b.extended
  multiline := a.multiline && !b.multiline
  dotAll := a.dotAll && !b.dotAll
  findLongest := a.findLongest && !b.findLongest
  findNotEmpty := a.findNotEmpty && !b.findNotEmpty
  notLineStart := a.notLineStart && !b.notLineStart
  notLineEnd := a.notLineEnd && !b.notLineEnd

/-- The option set that a number stands for. -/
def ofBits (n : Nat) : Options where
  ignoreCase := n.testBit 0
  extended := n.testBit 1
  multiline := n.testBit 2
  dotAll := n.testBit 3
  findLongest := n.testBit 4
  findNotEmpty := n.testBit 5
  notLineStart := n.testBit 9
  notLineEnd := n.testBit 10

/-- The number that stands for an option set. -/
def toBits (o : Options) : Nat :=
  o.ignoreCase.toNat + o.extended.toNat * 2 + o.multiline.toNat * 4 + o.dotAll.toNat * 8 +
  o.findLongest.toNat * 16 + o.findNotEmpty.toNat * 32 + o.notLineStart.toNat * 512 +
  o.notLineEnd.toNat * 1024

/-- The names of the options of a set, in the order of their bits. -/
def names (o : Options) : List String :=
  ([(o.ignoreCase, "IGNORECASE"), (o.extended, "EXTEND"), (o.multiline, "MULTILINE"),
    (o.dotAll, "DOTALL"), (o.findLongest, "FIND_LONGEST"), (o.findNotEmpty, "FIND_NOT_EMPTY"),
    (o.notLineStart, "NOTBOL"), (o.notLineEnd, "NOTEOL")].filter Prod.fst).map Prod.snd

/-- The text that stands for an option set: its names, or a zero if it has none. -/
def label (o : Options) : String :=
  let inner := if o.names.isEmpty then "0x0" else " | ".intercalate o.names
  "OnigOptionType(" ++ inner ++ ")"

/-- The options that mean something only to a search: whether the ends of the subject are line
ends. -/
def searchOnly : Options := { notLineStart := true, notLineEnd := true }

/-- The options that shape a program and that a search can therefore not add. -/
def compileOnly (o : Options) : Options :=
  { ignoreCase := o.ignoreCase, extended := o.extended }

end Options

end RegexEngine
