import RegexEngine.Pattern.Node
import RegexEngine.Pattern.Scan

/-!
# Repeat Operators

The signs after an item that tell how often it repeats: `*`, `+`, `?` and the intervals `{n}`,
`{n,}` and `{n,m}`. A question mark behind them makes the repeat lazy, a plus sign makes it give
nothing back. A brace that starts no interval is read literally if the dialect says so.

## Main definitions

* `Quantifier`: how often, and in which manner.
* `interval`: reads an interval.
* `quantifier?`: reads a repeat operator, if there is one.
* `Quantifier.apply`: repeats a tree.
-/

namespace RegexEngine

namespace Pattern

/-- How often something repeats, and in which manner. -/
structure Quantifier where
  lower : Nat
  /-- The greatest count, if there is one. -/
  upper : Option Nat
  /-- Tries more before fewer. -/
  greedy : Bool := true
  /-- Gives nothing back. -/
  possessive : Bool := false
  deriving DecidableEq, Repr

/-- The greatest bound of an interval. -/
def maxRepeat : Nat := 100000

/-- What becomes of a brace at `start` whose text stops being an interval at `rest`. -/
def noInterval {α : Type} (env : Setting) (start rest : List UInt8) :
    Except Failure (Option α) :=
  if env.dialect.literalBraces then .ok none
  else if rest.isEmpty then env.fail .endAtBrace start
  else env.fail .invalidInterval start

/-- The lower bound of an interval whose digits have been looked for already. It may be left out
where the dialect reads `{,n}` and a digit follows the comma. -/
def lowerBound? (dialect : Dialect) (value? : Option Nat) (rest : List UInt8) : Option Nat :=
  match value? with
  | some n => some n
  | none =>
    match rest with
    | comma :: digit :: _ =>
      if dialect.openIntervals && char comma == ',' && isDigit digit then some 0 else none
    | _ => none

/-- Refuses bounds that are too big or in the wrong order. -/
def checkBounds (env : Setting) (body : List UInt8) (lower : Nat) (upper : Option Nat) :
    Except Failure Unit :=
  if maxRepeat < lower || upper.any (maxRepeat < ·) then env.fail .bigInterval body
  else if upper.any (· < lower) then env.fail .reversedInterval body
  else .ok ()

/-- Reads an interval whose opening brace stands at `start`. -/
def interval (env : Setting) (start : List UInt8) :
    Except Failure (Option (Nat × Option Nat × List UInt8)) :=
  let body := start.tail
  let (value?, rest) := scanNumber body
  match lowerBound? env.dialect value? rest with
  | none => noInterval env start rest
  | some lower =>
    let bounds? : Option (Option Nat × List UInt8) :=
      -- A single number is both bounds.
      if startsWith rest '\x7d' then some (some lower, rest)
      else if startsWith rest ',' then some (scanNumber rest.tail)
      else none
    match bounds? with
    | none => noInterval env start rest
    | some (upper, rest) =>
      if startsWith rest '\x7d' then do
        checkBounds env body lower upper
        .ok (some (lower, upper, rest.tail))
      else noInterval env start rest

/-- Reads the sign that may follow a repeat operator. -/
def manner (dialect : Dialect) (q : Quantifier) (rest : List UInt8) :
    Quantifier × List UInt8 :=
  if startsWith rest '?' then ({ q with greedy := false }, rest.tail)
  else if dialect.atomic && startsWith rest '+' then ({ q with possessive := true }, rest.tail)
  else (q, rest)

/-- Reads a repeat operator, if one stands here. -/
def quantifier? (env : Setting) (rest : List UInt8) :
    Except Failure (Option (Quantifier × List UInt8)) :=
  match rest with
  | [] => .ok none
  | b :: after =>
    match char b with
    | '*' => .ok (some (manner env.dialect { lower := 0, upper := none } after))
    | '+' => .ok (some (manner env.dialect { lower := 1, upper := none } after))
    | '?' => .ok (some (manner env.dialect { lower := 0, upper := some 1 } after))
    | '\x7b' => do
      match ← interval env rest with
      | none => .ok none
      | some (lower, upper, after) =>
        .ok (some (manner env.dialect { lower := lower, upper := upper } after))
    | _ => .ok none

/-- Whether an operator repeats exactly once and may give back, so that it changes nothing. -/
def Quantifier.isTrivial (q : Quantifier) : Bool :=
  q.lower == 1 && q.upper == some 1 && !q.possessive

/-- The tree that repeats another. -/
def Quantifier.apply {ρ : Type} (q : Quantifier) (body : Node ρ) : Node ρ :=
  let node := Node.repeated q.lower q.upper q.greedy body
  if q.possessive then .atomic node else node

end Pattern

end RegexEngine
