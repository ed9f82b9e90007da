/-!
# Limits

What bounds the work that patterns and searches may cause. A zero switches a limit of the search
off. The limits on patterns are always in force. The limit on time is kept for the caller: a matcher
counts its steps and has no clock.

## Main definitions

* `Limits`: the limits, with their defaults.
* `Limits.withCaptures?`, `Limits.withNesting`: the two that are checked when they are set.
-/

namespace RegexEngine

/-- The limits in force. -/
structure Limits where
  /-- How often one attempt at a position may fall back to a choice. -/
  retriesPerMatch : Nat := 10000000
  /-- How often all attempts of a search together may fall back to a choice. -/
  retriesPerSearch : Nat := 0
  /-- How many entries the stack of a matcher may hold. -/
  stackEntries : Nat := 0
  /-- How many milliseconds a call may take, as its caller asks. -/
  milliseconds : Nat := 0
  /-- How many groups a pattern may number. -/
  captures : Nat := 32767
  /-- How deeply groups and repeat operators of a pattern may nest. -/
  nesting : Nat := 100
  deriving DecidableEq, Repr, Inhabited

namespace Limits

/-- The default nesting limit. -/
def defaultNesting : Nat := 100

/-- Sets the group limit; a negative number is refused. -/
def withCaptures? (limits : Limits) (n : Int) : Option Limits :=
  if n < 0 then none else some { limits with captures := n.toNat }

/-- Sets the nesting limit; zero stands for the default. -/
def withNesting (limits : Limits) (n : Nat) : Limits :=
  { limits with nesting := if n = 0 then defaultNesting else n }

end Limits

end RegexEngine
