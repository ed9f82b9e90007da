import RegexEngine.CharSet.Text
import RegexEngine.Pattern.Text
import RegexEngine.Program.Instr

/-!
# Instructions as Text

The written form of an instruction: its name and its operands, separated by single spaces. Bytes are
written in base sixteen, numbers in base ten, flags as digits, and lists with commas. An instruction
that needs operands may be read without them; it can then not be obeyed.

## Main definitions

* `Instr.render`: writes an instruction.
* `Instr.read?`: reads an instruction.
-/

namespace RegexEngine

namespace Instr

/-- A name and operands. -/
def words (parts : List String) : String :=
  " ".intercalate parts

/-- The name of an anchor. -/
def anchorName : Anchor → String
  | .textStart => "BeginBuf"
  | .textEnd => "EndBuf"
  | .lastLineEnd => "SemiEndBuf"
  | .lineStart => "BeginLine"
  | .lineEnd => "EndLine"
  | .searchStart => "BeginPosition"
  | .wordBoundary => "WordBoundary"
  | .noWordBoundary => "NoWordBoundary"

/-- The written form of a test. Only the line anchors show whether they are multiline. -/
def renderLeaf : Leaf → String
  | .literal bytes => words ["Str", Text.hexBytes bytes]
  | .folded codes => words ["StrIc", Node.renderNumbers codes]
  | .set chars => words ["CClass", chars.render]
  | .anyChar newlines => if newlines then "AnyCharMl" else "AnyChar"
  | .word negated => if negated then "NoWord" else "Word"
  | .backref groups ignoreCase =>
    words [if ignoreCase then "BackRefIc" else "BackRef", Node.renderNumbers groups]
  | .anchor .lineStart multiline => words ["BeginLine", CharSet.flag multiline]
  | .anchor .lineEnd multiline => words ["EndLine", CharSet.flag multiline]
  | .anchor kind _ => anchorName kind

/-- The written form of an instruction. -/
def render : Instr → String
  | leaf test => renderLeaf test
  | finish => "End"
  | openGroup n => words ["MemStart", toString n]
  | closeGroup n => words ["MemEnd", toString n]
  | fail => "Fail"
  | jump offset => words ["Jump", toString offset]
  | fork offset => words ["Push", toString offset]
  | mark id saves => words ["Mark", toString id, CharSet.flag saves]
  | cut id returns => words ["CutToMark", toString id, CharSet.flag returns]
  | rewind id => words ["PopToMark", toString id]
  | enter id offset greedy =>
    words [if greedy then "Repeat" else "RepeatNg", toString id, toString offset]
  | again id offset greedy =>
    words [if greedy then "RepeatInc" else "RepeatIncNg", toString id, toString offset]
  | emptyStart id => words ["EmptyCheckStart", toString id]
  | emptyEnd id => words ["EmptyCheckEnd", toString id]
  | stepBack n => words ["StepBack", toString n]
  | bare name => name

/-- Reads a number that counts or numbers something; a negative one stands for one too great to be
met. -/
def readNumber? (cs : List Char) : Option Nat :=
  (Text.readInt? cs).map fun n => (n % 0x10000000000000000).toNat

/-- Reads numbers with commas between them. -/
def readNumbers? (cs : List Char) : Option (List Nat) :=
  (Text.fields ',' cs).mapM readNumber?

/-- Reads a flag. -/
def readFlag (cs : List Char) : Bool :=
  cs == ['1']

/-- Reads an instruction without operands. -/
def readPlain (name : String) : Instr :=
  match name with
  | "End" => finish
  | "Fail" => fail
  | "AnyChar" => leaf (.anyChar false)
  | "AnyCharMl" => leaf (.anyChar true)
  | "Word" => leaf (.word false)
  | "NoWord" => leaf (.word true)
  | "WordBoundary" => leaf (.anchor .wordBoundary false)
  | "NoWordBoundary" => leaf (.anchor .noWordBoundary false)
  | "BeginBuf" => leaf (.anchor .textStart false)
  | "EndBuf" => leaf (.anchor .textEnd false)
  | "SemiEndBuf" => leaf (.anchor .lastLineEnd false)
  | "BeginPosition" => leaf (.anchor .searchStart false)
  | _ => bare name

/-- Reads an instruction with one operand. -/
def readUnary? (name : String) (a : List Char) : Option Instr :=
  match name with
  | "Str" => (Text.readHexBytes? a).map fun bytes => leaf (.literal bytes)
  | "StrIc" => (readNumbers? a).map fun codes => leaf (.folded codes)
  | "CClass" => (CharSet.read? a).map fun chars => leaf (.set chars)
  | "BeginLine" => some (leaf (.anchor .lineStart (readFlag a)))
  | "EndLine" => some (leaf (.anchor .lineEnd (readFlag a)))
  | "BackRef" => (readNumbers? a).map fun groups => leaf (.backref groups false)
  | "BackRefIc" => (readNumbers? a).map fun groups => leaf (.backref groups true)
  | "MemStart" => (readNumber? a).map openGroup
  | "MemEnd" => (readNumber? a).map closeGroup
  | "Jump" => (Text.readInt? a).map jump
  | "Push" => (Text.readInt? a).map fork
  | "PopToMark" => (readNumber? a).map rewind
  | "EmptyCheckStart" => (readNumber? a).map emptyStart
  | "EmptyCheckEnd" => (readNumber? a).map emptyEnd
  | "StepBack" => (readNumber? a).map stepBack
  | _ => none

/-- Reads an instruction with two operands. -/
def readBinary? (name : String) (a b : List Char) : Option Instr :=
  match name with
  | "Mark" => (readNumber? a).map fun id => mark id (readFlag b)
  | "CutToMark" => (readNumber? a).map fun id => cut id (readFlag b)
  | "Repeat" => readLoop enter true
  | "RepeatNg" => readLoop enter false
  | "RepeatInc" => readLoop again true
  | "RepeatIncNg" => readLoop again false
  | _ => none
where
  /-- Reads the number of a loop and an offset. -/
  readLoop (make : Nat → Int → Bool → Instr) (greedy : Bool) : Option Instr :=
    match readNumber? a, Text.readInt? b with
    | some id, some offset => some (make id offset greedy)
    | _, _ => none

/-- Reads the written form of an instruction. -/
def read? (cs : List Char) : Option Instr :=
  match Text.pieces ' ' cs with
  | [name] => some (readPlain (String.ofList name))
  | [name, a] => readUnary? (String.ofList name) a
  | [name, a, b] => readBinary? (String.ofList name) a b
  | _ => none

end Instr

end RegexEngine
