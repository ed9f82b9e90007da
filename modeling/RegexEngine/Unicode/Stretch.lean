/-!
# Tables of Code Points

A character property is kept as an ascending array of stretches. A stretch runs from one code point
to another and takes every code point on its way, or every second one where capital and small
letters alternate. The arrays are searched by halving.

## Main definitions

* `Stretch`: the code points `first`, `first + step`, up to `last`.
* `findStretch`: the row of an ascending table whose stretch a code point lies in.
* `inTable`: membership in an ascending table of stretches.
-/

namespace RegexEngine

namespace Unicode

/-- The code points `first`, `first + step`, `first + 2 * step`, and so on up to `last`. -/
structure Stretch where
  first : Nat
  last : Nat
  step : Nat
  deriving DecidableEq, Repr

/-- Whether a code point is one that the stretch takes. -/
def Stretch.contains (s : Stretch) (c : Nat) : Bool :=
  s.first ≤ c && c ≤ s.last && (c - s.first) % s.step == 0

/-- Halving search between the indices `lo` and `hi` for the row that `c` lies in.
Each turn halves the distance, so `fuel` need only reach the number of rows. -/
def halve {α : Type} (stretch : α → Stretch) (table : Array α) (c : Nat) : Nat → Nat → Nat → Option α
  | 0, _, _ => none
  | fuel + 1, lo, hi =>
    if lo < hi then
      let mid := (lo + hi) / 2
      match table[mid]? with
      | none => none
      | some row =>
        if c < (stretch row).first then halve stretch table c fuel lo mid
        else if (stretch row).last < c then halve stretch table c fuel (mid + 1) hi
        else if (stretch row).contains c then some row
        else none
    else none

/-- The row of an ascending table whose stretch takes `c`. -/
def findStretch {α : Type} (stretch : α → Stretch) (table : Array α) (c : Nat) : Option α :=
  halve stretch table c table.size 0 table.size

/-- Membership in an ascending table of stretches. -/
def inTable (table : Array Stretch) (c : Nat) : Bool :=
  (findStretch id table c).isSome

end Unicode

end RegexEngine
