import RegexEngine.Pattern.Node
import RegexEngine.CharSet.Text

/-!
# Pattern Trees as Text

The written form of a tree whose references are group numbers. A node is written as the name of its
sort, its data in square brackets, and the nodes below it in parentheses.

## Main definitions

* `Node.render`: writes a tree.
* `Node.sortName`: the name of the sort of the topmost node.
-/

namespace RegexEngine

/-- The number of an anchor. -/
def Anchor.number : Anchor → Nat
  | textStart => 16
  | lineStart => 32
  | searchStart => 64
  | textEnd => 128
  | lastLineEnd => 256
  | lineEnd => 512
  | wordBoundary => 1024
  | noWordBoundary => 2048

/-- The number of a look-around. -/
def Direction.number : Direction → (negated : Bool) → Nat
  | ahead, false => 1
  | ahead, true => 2
  | behind, false => 4
  | behind, true => 8

/-- An upper bound of a repeat, -1 if there is none. -/
def renderUpper : Option Nat → String
  | some n => toString n
  | none => "-1"

namespace Node

/-- Flags and numbers separated by commas. -/
def renderNumbers (numbers : List Nat) : String :=
  ",".intercalate (numbers.map toString)

mutual

/-- The written form of a tree. -/
def render : Tree → String
  | literal bytes ignoreCase =>
    (if ignoreCase then "stri[" else "str[") ++ Text.hexBytes bytes ++ "]"
  | set chars => "cc[" ++ chars.render ++ "]"
  | anyChar newlines => "ctype[-1,0," ++ CharSet.flag newlines ++ "]"
  | word negated => "ctype[12," ++ CharSet.flag negated ++ ",0]"
  | backref groups ignoreCase offset =>
    "backref[" ++ renderNumbers groups ++ ";" ++ CharSet.flag ignoreCase ++ ";" ++
      toString offset ++ "]"
  | repeated lower upper greedy body =>
    "quant[" ++ toString lower ++ "," ++ renderUpper upper ++ "," ++ CharSet.flag greedy ++ "](" ++
      render body ++ ")"
  | group number body => "mem[" ++ toString number ++ "](" ++ render body ++ ")"
  | atomic body => "atomic(" ++ render body ++ ")"
  | anchor kind multiline =>
    "anchor[" ++ toString kind.number ++ "," ++ CharSet.flag multiline ++ ",0]"
  | look direction negated body =>
    "anchor[" ++ toString (direction.number negated) ++ ",0,0](" ++ render body ++ ")"
  | sequence items => "list(" ++ " ".intercalate (renderAll items) ++ ")"
  | alternation items => "alt(" ++ " ".intercalate (renderAll items) ++ ")"

/-- The written forms of several trees. -/
def renderAll : List Tree → List String
  | [] => []
  | node :: rest => render node :: renderAll rest

end

/-- The name of the sort of the topmost node. -/
def sortName {ρ : Type} : Node ρ → String
  | literal .. => "String"
  | set .. => "CClass"
  | anyChar .. | word .. => "CType"
  | backref .. => "BackRef"
  | repeated .. => "Quant"
  | group .. | atomic .. => "Bag"
  | anchor .. | look .. => "Anchor"
  | sequence .. => "List"
  | alternation .. => "Alt"

end Node

end RegexEngine
