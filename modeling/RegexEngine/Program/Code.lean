import RegexEngine.Program.Instr

/-!
# Pieces of Code

How the code of a compound pattern is made from the code of its parts. Parts are copied as they are,
since all offsets are relative.

A loop runs in one of several ways. A repeat of a short part is written out as copies, one that may
run any number of times jumps back to its start, and all others keep a counter.

## Main definitions

* `Code.star`, `Code.optional`, `Code.counted`: loops.
* `Code.choices`: alternatives in order.
* `Code.atomic`, `Code.look`: parts that give nothing back.
* `Scheme.choose`: which way a repeat runs.

## Theorems

* `length_star`, `length_optional`, `length_counted`, `length_look`: sizes.
-/

namespace RegexEngine

namespace Code

/-- Wraps the body of a loop that might run without consuming anything. -/
def checked : (check : Option Nat) → Code → Code
  | none, body => body
  | some id, body => .emptyStart id :: body ++ [.emptyEnd id]

/-- Any number of times the body, as many as possible first if greedy and as few as possible first
if not. The instruction behind an empty check is always the jump back. -/
def star (greedy : Bool) (check : Option Nat) (body : Code) : Code :=
  let inner := checked check body
  if greedy then .fork (inner.length + 2) :: inner ++ [.jump (-(inner.length + 1))]
  else .fork 2 :: .jump (inner.length + 2) :: inner ++ [.jump (-(inner.length + 2))]

/-- The body once or not at all. -/
def optional (greedy : Bool) (body : Code) : Code :=
  if greedy then .fork (body.length + 1) :: body
  else .fork 2 :: .jump (body.length + 1) :: body

/-- The body as often as the counter of the loop allows. -/
def counted (id : Nat) (greedy : Bool) (body : Code) : Code :=
  .enter id (body.length + 2) greedy :: body ++ [.again id (-body.length) greedy]

/-- The body a fixed number of times. -/
def copies : Nat → Code → Code
  | 0, _ => []
  | n + 1, body => body ++ copies n body

/-- One of several parts, tried in order. -/
def choices : List Code → Code
  | [] => [.fail]
  | [part] => part
  | part :: parts =>
    let rest := choices parts
    .fork (part.length + 2) :: part ++ .jump (rest.length + 1) :: rest

/-- A numbered group. -/
def group (number : Nat) (body : Code) : Code :=
  .openGroup number :: body ++ [.closeGroup number]

/-- The body, which gives nothing back once it has matched. -/
def atomic (id : Nat) (body : Code) : Code :=
  .mark id false :: body ++ [.cut id false]

/-- The body as a test that consumes nothing. If negated, the test holds when the body fails, and
what the body did is undone when it does not. -/
def look (id : Nat) (negated : Bool) (body : Code) : Code :=
  if negated then .mark id false :: .fork (body.length + 3) :: body ++ [.rewind id, .fail]
  else .mark id true :: body ++ [.cut id true]

@[simp] theorem length_checked_some (id : Nat) (body : Code) :
    (checked (some id) body).length = body.length + 2 := by
  simp [checked]

theorem length_star (greedy : Bool) (check : Option Nat) (body : Code) :
    (star greedy check body).length =
      (checked check body).length + (if greedy then 2 else 3) := by
  cases greedy <;> simp [star]

theorem length_optional (greedy : Bool) (body : Code) :
    (optional greedy body).length = body.length + (if greedy then 1 else 2) := by
  cases greedy <;> simp [optional]

theorem length_counted (id : Nat) (greedy : Bool) (body : Code) :
    (counted id greedy body).length = body.length + 2 := by
  simp [counted]

theorem length_copies (n : Nat) (body : Code) : (copies n body).length = n * body.length := by
  induction n with
  | zero => simp [copies]
  | succ n ih => simp [copies, ih, Nat.succ_mul, Nat.add_comm]

theorem length_look (id : Nat) (negated : Bool) (body : Code) :
    (look id negated body).length = body.length + (if negated then 4 else 2) := by
  cases negated <;> simp [look]

end Code

/-- A way to run a repeat. -/
inductive Scheme where
  /-- No code at all. -/
  | never
  | once
  | optional
  | star
  /-- Once, and then any number of times. -/
  | plus
  | copies (count : Nat)
  | counted
  deriving DecidableEq, Repr

namespace Scheme

/-- How many instructions the copies of a body may have. -/
def copyLimit : Nat := 64

/-- The way to run a repeat whose body has `length` instructions. -/
def choose (lower : Nat) (upper : Option Nat) (length : Nat) : Scheme :=
  if upper = some 0 then never
  else if lower = 1 ∧ upper = some 1 then once
  else if lower = 0 ∧ upper = some 1 then optional
  else if lower = 0 ∧ upper = none then star
  else if lower = 1 ∧ upper = none ∧ length ≤ copyLimit then plus
  else if upper = some lower ∧ lower * length ≤ copyLimit then copies lower
  else counted

end Scheme

end RegexEngine
