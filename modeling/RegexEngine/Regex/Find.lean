import RegexEngine.Regex.Builder
import RegexEngine.Search.Basic
import RegexEngine.Search.Named

/-!
# Matches in a Text

What a regular expression finds in a text: the first match, the match at a position, the groups of a
match, and all matches one after the other. Some operations report errors; the others take an error
for the absence of a match.

When all matches are asked for, each search starts where the last match ended, one character further
if the match was empty. An empty match right behind the last match does not count.

## Main definitions

* `Match`: a match in a text.
* `Captures`: a match with its groups.
* `Regex.tryFind`, `Regex.find`, `Regex.isMatch`: the first match.
* `Regex.searchAt`, `Regex.captures`: the first match with its groups.
* `Regex.matchAt`: the match at a position.
* `Regex.findIter`: all matches.
-/

namespace RegexEngine

/-- A match in a text. -/
structure Match where
  text : Array UInt8
  start : Nat
  stop : Nat
  deriving DecidableEq, Repr

namespace Match

/-- The match that a span of a text is. -/
def ofSpan (text : Array UInt8) (span : Nat × Nat) : Match :=
  ⟨text, span.1, span.2⟩

/-- The bytes of a match. -/
def bytes (m : Match) : List UInt8 :=
  (m.text.extract m.start m.stop).toList

/-- The text of a match, if it is well formed. -/
def str? (m : Match) : Option String :=
  Text.strictText? m.bytes

/-- The number of bytes. -/
def length (m : Match) : Nat :=
  m.stop - m.start

/-- Whether the match is empty. -/
def isEmpty (m : Match) : Bool :=
  m.start == m.stop

/-- The span of a match. -/
def span (m : Match) : Nat × Nat :=
  (m.start, m.stop)

end Match

/-- A match with its groups. -/
structure Captures where
  text : Array UInt8
  region : Region
  program : Program
  deriving Repr

namespace Captures

/-- A group that took part in the match; the group 0 is all of it. -/
def get? (c : Captures) (i : Nat) : Option Match :=
  (c.region.get? i).map (Match.ofSpan c.text)

/-- The group that a name means, if it took part in the match. -/
def named? (c : Captures) (name : String) : Option Match :=
  match c.program.groupMeant name (some c.region) with
  | .ok n => c.get? n
  | .error _ => none

/-- How many groups there are, the whole match included. -/
def size (c : Captures) : Nat :=
  c.region.count

/-- Whether there is no group at all. -/
def isEmpty (c : Captures) : Bool :=
  c.region.count == 0

/-- All groups. -/
def toList (c : Captures) : List (Option Match) :=
  (List.range c.size).map c.get?

/-- The text that stands for a group in a listing. -/
def groupLabel : Option Match → String
  | some m => "Some(" ++ toString m.start ++ ".." ++ toString m.stop ++ ")"
  | none => "None"

/-- The text that stands for the groups in a listing. -/
def label (c : Captures) : String :=
  "[" ++ ", ".intercalate (c.toList.map groupLabel) ++ "]"

end Captures

namespace Regex

/-- A region with room for all groups. -/
def newRegion (regex : Regex) : Region :=
  Region.ofCapacity regex.program.slotCount

/-- The region of the first match that starts at or behind an offset. -/
def regionFrom (regex : Regex) (text : Array UInt8) (offset : Nat) (limits : Limits) :
    Except Error (Option Region) :=
  let call (region : Region) :=
    regex.program.search text offset text.size region Options.empty limits
  match onSubject text call regex.newRegion with
  | (.error e, _) => .error e
  | (.ok none, _) => .ok none
  | (.ok (some _), region) => .ok (some region)

/-- The first match that starts at or behind an offset. -/
def tryFindFrom (regex : Regex) (text : Array UInt8) (offset : Nat) (limits : Limits) :
    Except Error (Option Match) :=
  (regex.regionFrom text offset limits).map fun found =>
    found.bind fun region => (region.get? 0).map (Match.ofSpan text)

/-- The first match. -/
def tryFind (regex : Regex) (text : Array UInt8) (limits : Limits) : Except Error (Option Match) :=
  regex.tryFindFrom text 0 limits

/-- Takes an error for the absence of a match. -/
def ignoreError {α : Type} : Except Error (Option α) → Option α
  | .ok found => found
  | .error _ => none

/-- The first match. An error counts as none. -/
def find (regex : Regex) (text : Array UInt8) (limits : Limits) : Option Match :=
  ignoreError (regex.tryFind text limits)

/-- Whether there is a match. -/
def isMatch (regex : Regex) (text : Array UInt8) (limits : Limits) : Bool :=
  (regex.find text limits).isSome

/-- The first match that starts at or behind an offset, with its groups. What lies before the offset
is still seen by anchors and look-behind. -/
def searchAt (regex : Regex) (text : Array UInt8) (offset : Nat) (limits : Limits) :
    Except Error (Option Captures) :=
  (regex.regionFrom text offset limits).map fun found =>
    found.map fun region => ⟨text, region, regex.program⟩

/-- The first match with its groups. -/
def tryCaptures (regex : Regex) (text : Array UInt8) (limits : Limits) :
    Except Error (Option Captures) :=
  regex.searchAt text 0 limits

/-- The first match with its groups. An error counts as none. -/
def captures (regex : Regex) (text : Array UInt8) (limits : Limits) : Option Captures :=
  ignoreError (regex.tryCaptures text limits)

/-- The match that starts at a position. -/
def matchAt (regex : Regex) (text : Array UInt8) (pos : Nat) (limits : Limits) :
    Except Error (Option Match) :=
  let call (region : Region) := regex.program.matchAt text pos region Options.empty limits
  (onSubject text call regex.newRegion).1.map fun found =>
    found.map fun length => ⟨text, pos, pos + length⟩

/-- The position one character further. The length of the character is that which its first byte
announces, so the position may lie behind the end of the text. -/
def stepChar (regex : Regex) (text : Array UInt8) (pos : Nat) : Nat :=
  match text[pos]? with
  | some lead => pos + regex.program.encoding.leadLength lead
  | none => pos + 1

/-- The matches that start at or behind a position, given where the last one ended. Every search
starts behind the start of the one before, so a `count` that exceeds the number of positions in the
text is never used up. -/
def findIterFrom (regex : Regex) (text : Array UInt8) (limits : Limits) :
    (count pos : Nat) → (previous : Option Nat) → List Match
  | 0, _, _ => []
  | count + 1, pos, previous =>
    if text.size < pos then []
    else
      match ignoreError (regex.tryFindFrom text pos limits) with
      | none => []
      | some m =>
        -- An empty match does not move on by itself, and none is given where the last match ended.
        let next := if m.isEmpty then regex.stepChar text m.stop else m.stop
        if m.isEmpty ∧ previous = some m.stop then
          findIterFrom regex text limits count next previous
        else m :: findIterFrom regex text limits count next (some m.stop)

/-- All matches, from left to right. An error ends them. -/
def findIter (regex : Regex) (text : Array UInt8) (limits : Limits) : List Match :=
  regex.findIterFrom text limits (text.size + 2) 0 none

/-- How many groups the pattern has. -/
def groupCount (regex : Regex) : Nat :=
  regex.program.groups

end Regex

end RegexEngine
