import RegexEngine.CharSet.ByteSet
import RegexEngine.Encoding.Basic

/-!
# Character Sets

The set of characters that a bracket class or a class escape stands for. Members below 256 are kept
in a byte set, those of the listed kinds included. Greater ones are found in the ranges, in the
kinds or, if case does not matter, through their folded form.

The ranges and kinds stay in the order in which they were added.

## Main definitions

* `CharSet`: the sets.
* `CharSet.insertRange`, `CharSet.insertKind`: adding members.
* `CharSet.contains`: membership.
* `CharSet.foldCase`: makes a set insensitive to case.
-/

namespace RegexEngine

/-- A set of characters. -/
structure CharSet where
  /-- The set stands for what it does not list. -/
  negated : Bool := false
  /-- Listed code points below 256. -/
  low : ByteSet := ByteSet.empty
  /-- Listed ranges, cut to what lies at 256 and above. -/
  ranges : List (Nat × Nat) := []
  /-- Listed kinds, each with whether it is negated. -/
  kinds : List (CharKind × Bool) := []
  /-- Case does not matter. -/
  ignoreCase : Bool := false
  /-- Folded forms of the listed ranges. -/
  foldRanges : List (Nat × Nat) := []
  deriving DecidableEq, Repr, Inhabited

namespace CharSet

/-- The set that lists nothing. -/
def empty : CharSet := {}

/-- Lists a range, ends included. -/
def insertRange (set : CharSet) (low high : Nat) : CharSet :=
  { set with
    low := if low < 256 then set.low.insertRange low high else set.low
    ranges := if 256 ≤ high then set.ranges ++ [(max low 256, high)] else set.ranges }

/-- Lists one code point. -/
def insert (set : CharSet) (c : Nat) : CharSet :=
  set.insertRange c c

/-- Lists a kind, or all that is not of the kind. -/
def insertKind (set : CharSet) (enc : Encoding) (kind : CharKind) (negated : Bool) : CharSet :=
  { set with
    low := set.low.insertWhere fun c => enc.hasKind kind c != negated
    kinds := set.kinds ++ [(kind, negated)] }

/-- Whether a code point is listed. -/
def lists (set : CharSet) (enc : Encoding) (c : Nat) : Bool :=
  if c < 256 then set.low.contains c
  -- From 256 on, ranges and kinds list a code point, and their folds if case does not matter.
  else if CharKind.inRanges set.ranges c then true
  else if set.kinds.any fun k => enc.hasKind k.1 c != k.2 then true
  else if !set.ignoreCase then false
  else
    let folded := enc.fold c
    -- The table of small code points has been folded, the ranges have a copy that is.
    if folded < 256 then set.low.contains folded
    else CharKind.inRanges set.foldRanges folded

/-- Membership. -/
def contains (set : CharSet) (enc : Encoding) (c : Nat) : Bool :=
  set.lists enc c != set.negated

/-- The greatest distance between the ends of a range that is folded member by member. -/
def foldableSpan : Nat := 0xffff

/-- Whether a range is too wide to be folded member by member. -/
def isWide (range : Nat × Nat) : Bool :=
  foldableSpan < range.2 - range.1

/-- Drops each number that equals the one before it. -/
def dropRepeats (codes : List Nat) : List Nat :=
  (codes.foldl (fun kept c => if kept.head? = some c then kept else c :: kept) []).reverse

/-- The folded forms of the members of ranges that are not too wide, ascending and without repeats.
-/
def foldedMembers (enc : Encoding) (ranges : List (Nat × Nat)) : List Nat :=
  let members := (ranges.filter fun r => !isWide r).flatMap fun r =>
    (List.range' r.1 (r.2 + 1 - r.1)).map enc.fold
  dropRepeats (members.mergeSort (· ≤ ·))

/-- Adds code points to the end of a list of ranges, given last range first. A code point that
follows the last range makes it longer; any other starts a new one. -/
def appendCodes : List (Nat × Nat) → List Nat → List (Nat × Nat)
  | ranges, [] => ranges
  | [], c :: rest => appendCodes [(c, c)] rest
  | (first, last) :: ranges, c :: rest =>
    if last + 1 = c then appendCodes ((first, c) :: ranges) rest
    else appendCodes ((c, c) :: (first, last) :: ranges) rest

/-- The code points below 256 whose folded form a set has. -/
def foldLow (enc : Encoding) (low : ByteSet) : ByteSet :=
  let folded := ByteSet.empty.insertEach (((List.range 256).filter low.contains).map enc.fold)
  low.insertWhere fun c => folded.contains (enc.fold c)

/-- Makes a set insensitive to case. Small members are joined by those that fold alike. Ranges keep
a folded copy; one that is too wide to fold is copied as it is. -/
def foldCase (set : CharSet) (enc : Encoding) : CharSet :=
  { set with
    low := foldLow enc set.low
    ignoreCase := true
    foldRanges :=
      (appendCodes (set.ranges.filter isWide).reverse (foldedMembers enc set.ranges)).reverse }

end CharSet

end RegexEngine
