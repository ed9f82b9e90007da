import RegexEngine.Error.Cause
import RegexEngine.Pattern.LookBehind
import RegexEngine.Program.Code

/-!
# Code of a Tree

The code of a tree is put together from the code of its parts. Counted loops, empty checks and marks
are numbered as their code is made. A look-behind whose length is not known has no code, and neither
has an alternation of no alternatives.

Copies of a part share the numbers of its loops, checks and marks.

## Main definitions

* `Ids`: the numbers given out so far.
* `Emit`: makes something, giving out numbers.
* `emitRepeat`: the code of a repeat.
* `Node.emit`: the code of a tree.
-/

namespace RegexEngine

/-- The numbers given out so far. -/
structure Ids where
  /-- The bounds of the counted loops. -/
  loops : Array Bounds := #[]
  emptyChecks : Nat := 0
  marks : Nat := 0
  deriving DecidableEq, Repr, Inhabited

/-- Makes something, giving out numbers. -/
abbrev Emit := StateT Ids (Except Cause)

namespace Emit

/-- A number for a counted loop. -/
def newLoop (bounds : Bounds) : Emit Nat := fun ids =>
  .ok (ids.loops.size, { ids with loops := ids.loops.push bounds })

/-- A number for an empty check, if one is needed. -/
def newCheck? (needed : Bool) : Emit (Option Nat) := fun ids =>
  if needed then .ok (some ids.emptyChecks, { ids with emptyChecks := ids.emptyChecks + 1 })
  else .ok (none, ids)

/-- A number for a mark. -/
def newMark : Emit Nat := fun ids =>
  .ok (ids.marks, { ids with marks := ids.marks + 1 })

end Emit

/-- The test that a literal stands for. Without regard to case it compares folded characters. -/
def literalLeaf (enc : Encoding) (bytes : List UInt8) (ignoreCase : Bool) : Leaf :=
  if ignoreCase then .folded ((enc.characters bytes).map fun c => enc.fold (enc.decode c))
  else .literal bytes

/-- The code of a loop around a body that any number of iterations may run. -/
def emitStar (greedy mayBeEmpty : Bool) (body : Code) : Emit Code := do
  let check ← Emit.newCheck? mayBeEmpty
  return Code.star greedy check body

/-- The code of a counted loop. -/
def emitCounted (bounds : Bounds) (greedy : Bool) (body : Code) : Emit Code := do
  let id ← Emit.newLoop bounds
  return Code.counted id greedy body

/-- The code of a repeat around the code of its body. -/
def emitRepeat (bounds : Bounds) (greedy mayBeEmpty : Bool) (body : Code) : Emit Code :=
  match Scheme.choose bounds.lower bounds.upper body.length with
  | .never => return []
  | .once => return body
  | .optional => return Code.optional greedy body
  | .star => emitStar greedy mayBeEmpty body
  | .plus => do return body ++ (← emitStar greedy mayBeEmpty body)
  | .copies n => return Code.copies n body
  | .counted => emitCounted bounds greedy body

namespace Node

mutual

/-- The code of a tree. -/
def emit (enc : Encoding) : Tree → Emit Code
  | literal bytes ignoreCase =>
    return if bytes.isEmpty then [] else [.leaf (literalLeaf enc bytes ignoreCase)]
  | set chars => return [.leaf (.set chars)]
  | anyChar newlines => return [.leaf (.anyChar newlines)]
  | word negated => return [.leaf (.word negated)]
  | backref groups ignoreCase _ => return [.leaf (.backref groups ignoreCase)]
  | anchor kind multiline => return [.leaf (.anchor kind multiline)]
  | repeated lower upper greedy body =>
    -- No number is given out in a body that never runs.
    if upper = some 0 then return []
    else do
      let code ← emit enc body
      emitRepeat ⟨lower, upper⟩ greedy (body.minLength == 0) code
  | group number body => do
    let code ← emit enc body
    return Code.group number code
  | atomic body => do
    let id ← Emit.newMark
    let code ← emit enc body
    return Code.atomic id code
  | look .ahead negated body => do
    let id ← Emit.newMark
    let code ← emit enc body
    return Code.look id negated code
  | look .behind negated body =>
    match body.charLength enc with
    | none => throw .invalidLookBehind
    | some n => do
      let id ← Emit.newMark
      let code ← emit enc body
      -- A look-behind first goes back over as many characters as it will read.
      return Code.look id negated (.stepBack n :: code)
  | sequence items => do
    let parts ← emitEach enc items
    return parts.flatten
  | alternation items =>
    if items.isEmpty then throw .parserBug
    else do
      let parts ← emitEach enc items
      return Code.choices parts

/-- The code of each of several trees. -/
def emitEach (enc : Encoding) : List Tree → Emit (List Code)
  | [] => return []
  | node :: rest => do
    let code ← emit enc node
    let codes ← emitEach enc rest
    return code :: codes

end

end Node

end RegexEngine
