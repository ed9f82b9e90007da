import RegexEngine.Encoding.Characters
import RegexEngine.Pattern.Node

/-!
# Lengths of Trees

Two lengths are read off a tree. The least number of bytes that it consumes tells whether a loop may
run in place. The number of characters, if all texts of the tree have the same, tells how far a
look-behind has to step back.

A character length above 2147483647 counts as unknown.

## Main definitions

* `Node.minLength`: the least number of bytes.
* `Node.charLength`: the number of characters, if it is fixed.
-/

namespace RegexEngine

/-- The greatest character length that is known. -/
def maxCharLength : Nat := 2147483647

/-- A length, if it is small enough to be known. -/
def knownLength (n : Nat) : Option Nat :=
  if n ≤ maxCharLength then some n else none

namespace Node

variable {ρ : Type}

mutual

/-- The least number of bytes that a text of the tree has. A set or a dot needs one at least. -/
def minLength : Node ρ → Nat
  | literal bytes _ => bytes.length
  | set _ | anyChar _ | word _ => 1
  | backref .. | anchor .. | look .. => 0
  | repeated lower _ _ body => minLength body * lower
  | group _ body | atomic body => minLength body
  | sequence items => minLengthSum items
  | alternation items => minLengthMin items

/-- The least number of bytes of several trees one after the other. -/
def minLengthSum : List (Node ρ) → Nat
  | [] => 0
  | node :: rest => minLength node + minLengthSum rest

/-- The least number of bytes of one of several trees, 0 if there are none. -/
def minLengthMin : List (Node ρ) → Nat
  | [] => 0
  | [node] => minLength node
  | node :: rest => min (minLength node) (minLengthMin rest)

end

mutual

/-- The number of characters that every text of the tree has, if there is one such number. -/
def charLength (enc : Encoding) : Node ρ → Option Nat
  | literal bytes _ => some (enc.characters bytes).length
  | set _ | anyChar _ | word _ => some 1
  | backref .. => none
  | anchor .. | look .. => some 0
  | repeated lower upper _ body =>
    -- What is repeated no times has no text, however long a text of the body is.
    if upper = some 0 then (if lower = 0 then some 0 else none)
    else if upper = some lower then
      (charLength enc body).bind fun n => knownLength (n * lower)
    else none
  | group _ body | atomic body => charLength enc body
  | sequence items => charLengthSum enc items
  | alternation items => charLengthCommon enc items

/-- The number of characters of several trees one after the other. -/
def charLengthSum (enc : Encoding) : List (Node ρ) → Option Nat
  | [] => some 0
  | node :: rest =>
    match charLength enc node, charLengthSum enc rest with
    | some n, some m => knownLength (n + m)
    | _, _ => none

/-- The number of characters that several trees share. -/
def charLengthCommon (enc : Encoding) : List (Node ρ) → Option Nat
  | [] => none
  | [node] => charLength enc node
  | node :: rest =>
    match charLength enc node, charLengthCommon enc rest with
    | some n, some m => if n = m then some n else none
    | _, _ => none

end

end Node

end RegexEngine
