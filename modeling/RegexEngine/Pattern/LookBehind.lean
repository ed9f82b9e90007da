import RegexEngine.Pattern.Length

/-!
# Uneven Look-Behind

A look-behind steps back over a fixed number of characters. If the alternatives of its body differ
in length, it means the same as several look-behinds, one for each alternative: one of them holds,
or if negated all of them. Alternatives that are alternations themselves are divided in turn.

## Main definitions

* `Node.divide`: divides a look-behind over the alternatives of its body.
* `Node.divideAll`: divides all look-behinds of a tree.
-/

namespace RegexEngine

namespace Node

variable {ρ : Type}

mutual

/-- The look-behinds that one with the given body is divided into. A body whose length is known, and
one that is no alternation, stays as it is. -/
def divide (enc : Encoding) (negated : Bool) : Node ρ → Node ρ
  | alternation items =>
    match charLength enc (alternation items) with
    | some _ => look .behind negated (alternation items)
    | none =>
      if negated then sequence (divideEach enc negated items)
      else alternation (divideEach enc negated items)
  | body => look .behind negated body

/-- Divides the look-behinds with the given bodies. -/
def divideEach (enc : Encoding) (negated : Bool) : List (Node ρ) → List (Node ρ)
  | [] => []
  | node :: rest => divide enc negated node :: divideEach enc negated rest

end

mutual

/-- Divides every look-behind of a tree, the inner ones first. -/
def divideAll (enc : Encoding) : Node ρ → Node ρ
  | look .behind negated body => divide enc negated (divideAll enc body)
  | look .ahead negated body => look .ahead negated (divideAll enc body)
  | repeated lower upper greedy body => repeated lower upper greedy (divideAll enc body)
  | group number body => group number (divideAll enc body)
  | atomic body => atomic (divideAll enc body)
  | sequence items => sequence (divideAllOf enc items)
  | alternation items => alternation (divideAllOf enc items)
  | literal bytes ignoreCase => literal bytes ignoreCase
  | set chars => set chars
  | anyChar newlines => anyChar newlines
  | word negated => word negated
  | backref target ignoreCase offset => backref target ignoreCase offset
  | anchor kind multiline => anchor kind multiline

/-- Divides every look-behind of several trees. -/
def divideAllOf (enc : Encoding) : List (Node ρ) → List (Node ρ)
  | [] => []
  | node :: rest => divideAll enc node :: divideAllOf enc rest

end

end Node

end RegexEngine
