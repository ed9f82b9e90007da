import RegexEngine.Matcher.Machine

/-!
# Regions

A region holds the spans of a match, one for all of it and one for each group. The caller decides
how many spans it has room for; no search changes that.

## Main definitions

* `Region`: the regions.
* `Region.get?`: the span of a group.
* `Region.fill`: holds the spans of a match.
* `Region.clear`: forgets all spans.

## Theorems

* `capacity_clear`, `capacity_fill`: the room stays the same.
-/

namespace RegexEngine

/-- The spans of a match. -/
structure Region where
  /-- How many spans the last match reported. -/
  count : Nat := 0
  slots : Array (Option (Nat × Nat))
  deriving DecidableEq, Repr

namespace Region

/-- The room of a region when none is asked for. -/
def defaultCapacity : Nat := 10

/-- A region without spans. -/
def ofCapacity (n : Nat) : Region where
  slots := Array.replicate n none

/-- How many spans there is room for. -/
def capacity (region : Region) : Nat :=
  region.slots.size

/-- Makes room for at least `n` spans. -/
def ensureCapacity (region : Region) (n : Nat) : Region :=
  { region with slots := region.slots ++ Array.replicate (n - region.capacity) none }

/-- What a slot holds, used or not. -/
def slot (region : Region) (i : Nat) : Option (Nat × Nat) :=
  region.slots.getD i none

/-- The span of a group that took part in the match. -/
def get? (region : Region) (i : Nat) : Option (Nat × Nat) :=
  if i < region.count then region.slot i else none

/-- The spans of all groups. -/
def toList (region : Region) : List (Option (Nat × Nat)) :=
  (List.range region.count).map region.get?

/-- Forgets all spans. -/
def clear (region : Region) : Region where
  slots := Array.replicate region.capacity none

/-- The span that a match has for a group, the number 0 standing for all of the match. -/
def spanOf (found : Found) : Nat → Option (Nat × Nat)
  | 0 => some (found.start, found.stop)
  | i + 1 => found.captures[i + 1]?.bind Capture.span?

/-- Holds the spans of a match and no others. -/
def fill (region : Region) (found : Found) : Region where
  count := found.captures.size
  slots := Array.ofFn fun i : Fin region.capacity => spanOf found i

@[simp] theorem capacity_clear (region : Region) : region.clear.capacity = region.capacity := by
  simp [clear, capacity]

@[simp] theorem capacity_fill (region : Region) (found : Found) :
    (region.fill found).capacity = region.capacity := by
  simp [fill, capacity]

end Region

end RegexEngine
