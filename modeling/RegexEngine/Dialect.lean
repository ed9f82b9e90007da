import RegexEngine.Options

/-!
# Dialects

A dialect says which constructs a pattern may use, how doubtful ones are read, and which options are
always set. There are two named dialects; others are put together from switches.

## Main definitions

* `Dialect`: the switches of a dialect.
* `Dialect.standard`, `Dialect.perl`: the named dialects.
* `Dialect.custom`: a dialect from numbers, one bit for each switch.
-/

namespace RegexEngine

/-- The switches of a dialect. -/
structure Dialect where
  /-- The name, which also tells dialects apart in a cache. -/
  name : String
  /-- `\1` to `\9` and beyond refer to groups. -/
  numberedRefs : Bool := false
  /-- `(?<name>...)` and `(?'name'...)` name a group. -/
  namedGroups : Bool := false
  /-- `\k<name>`, `\k'name'` and `\k<1>` refer to groups. -/
  namedRefs : Bool := false
  /-- `(?P<name>...)` names a group and `(?P=name)` refers to one. -/
  capitalNames : Bool := false
  /-- `(?=`, `(?!`, `(?<=` and `(?<!` look around. -/
  lookAround : Bool := false
  /-- `(?>...)` and a `+` after a repeat operator give nothing back. -/
  atomic : Bool := false
  /-- `\A`, `\z`, `\Z` and `\G` are anchors. -/
  textAnchors : Bool := false
  /-- `[:alpha:]` is read inside a class. -/
  bracketNames : Bool := false
  /-- `\h` and `\H` are hexadecimal digits and the others. -/
  hexDigits : Bool := false
  /-- A name may be given to several groups. -/
  sharedNames : Bool := false
  /-- A brace that starts no interval is a literal. -/
  literalBraces : Bool := false
  /-- `{,n}` is short for `{0,n}`. -/
  openIntervals : Bool := false
  /-- The alternatives of a look-behind may differ in length. -/
  unevenLookBehind : Bool := false
  /-- Options that every pattern of the dialect has. -/
  options : Options := Options.empty
  deriving DecidableEq, Repr

namespace Dialect

/-- The default dialect. -/
def standard : Dialect where
  name := "Oniguruma"
  numberedRefs := true
  namedGroups := true
  namedRefs := true
  lookAround := true
  atomic := true
  textAnchors := true
  bracketNames := true
  hexDigits := true
  sharedNames := true
  literalBraces := true
  openIntervals := true
  unevenLookBehind := true

/-- The dialect closer to Perl: names with a capital P, and each name for one group. -/
def perl : Dialect where
  name := "Perl"
  numberedRefs := true
  namedGroups := true
  namedRefs := true
  capitalNames := true
  lookAround := true
  atomic := true
  textAnchors := true
  bracketNames := true
  literalBraces := true
  unevenLookBehind := true

/-- A dialect put together from numbers: the bits of the first choose constructs, those of the
second how doubtful text is read, and the third is an option set. -/
def custom (constructs readings : Nat) (options : Options) : Dialect where
  name := "custom"
  numberedRefs := constructs.testBit 0
  namedGroups := constructs.testBit 1
  namedRefs := constructs.testBit 2
  capitalNames := constructs.testBit 3
  lookAround := constructs.testBit 4
  atomic := constructs.testBit 5
  textAnchors := constructs.testBit 6
  bracketNames := constructs.testBit 7
  hexDigits := constructs.testBit 8
  sharedNames := readings.testBit 0
  literalBraces := readings.testBit 1
  openIntervals := readings.testBit 2
  unevenLookBehind := readings.testBit 3
  options := options

end Dialect

end RegexEngine
