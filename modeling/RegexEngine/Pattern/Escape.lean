import RegexEngine.Pattern.Node
import RegexEngine.Pattern.Scan

/-!
# Escapes

What a backslash makes of the text after it. An escape stands for a single character, for a kind of
characters, or for an anchor. Which of them it is depends on the byte after the backslash and on the
dialect.

## Main definitions

* `kindEscape?`: escapes for kinds of characters.
* `anchorEscape?`: escapes for anchors.
* `escapedCode`: the code point of an escape for a single character.
* `encodeCode`: the bytes of such a code point.
-/

namespace RegexEngine

namespace Pattern

/-- The kind that an escape stands for, and whether it is negated. -/
def kindEscape? (dialect : Dialect) (b : UInt8) : Option (CharKind × Bool) :=
  match char b with
  | 'd' => some (.digit, false)
  | 'D' => some (.digit, true)
  | 'w' => some (.word, false)
  | 'W' => some (.word, true)
  | 's' => some (.space, false)
  | 'S' => some (.space, true)
  | 'h' => if dialect.hexDigits then some (.hexDigit, false) else none
  | 'H' => if dialect.hexDigits then some (.hexDigit, true) else none
  | _ => none

/-- The anchor that an escape stands for. -/
def anchorEscape? (dialect : Dialect) (b : UInt8) : Option Anchor :=
  match char b with
  | 'A' => if dialect.textAnchors then some .textStart else none
  | 'z' => if dialect.textAnchors then some .textEnd else none
  | 'Z' => if dialect.textAnchors then some .lastLineEnd else none
  | 'G' => if dialect.textAnchors then some .searchStart else none
  | 'b' => some .wordBoundary
  | 'B' => some .noWordBoundary
  | _ => none

/-- The control character that a letter stands for. -/
def controlEscape? (b : UInt8) : Option Nat :=
  match char b with
  | 't' => some 0x09
  | 'n' => some 0x0a
  | 'r' => some 0x0d
  | 'f' => some 0x0c
  | 'v' => some 0x0b
  | 'a' => some 0x07
  | 'e' => some 0x1b
  | _ => none

/-- Whether an escape for a single character names it by a letter or a number. Any other escape
stands for the character that is written after the backslash. -/
def namesCode (b : UInt8) : Bool :=
  (controlEscape? b).isSome || char b == 'x' || char b == 'u' || char b == '0'

/-- Reads the code point after `\x`: up to eight digits in braces, or up to two without. -/
def hexEscape (env : Setting) (esc rest : List UInt8) : Except Failure (Nat × List UInt8) :=
  if startsWith rest '\x7b' then
    let (code, count, rest) := scanDigits 16 8 0 0 rest.tail
    if count = 0 || !startsWith rest '\x7d' then env.fail .invalidCodePoint esc
    else .ok (code, rest.tail)
  else
    let (code, _, rest) := scanDigits 16 2 0 0 rest
    .ok (code, rest)

/-- Reads the code point of an escape for a single character. The backslash stands at `esc`, and
`rest` is the text after it. -/
def escapedCode (env : Setting) (esc rest : List UInt8) : Except Failure (Nat × List UInt8) :=
  match rest with
  | [] => env.fail .endAtEscape esc
  | b :: tail =>
    match controlEscape? b with
    | some code => .ok (code, tail)
    | none =>
      match char b with
      | 'x' => hexEscape env esc tail
      | 'u' =>
        let (code, count, tail) := scanDigits 16 4 0 0 tail
        if count < 4 then env.fail .invalidCodePoint esc else .ok (code, tail)
      | '0' =>
        let (code, _, tail) := scanDigits 8 2 0 0 tail
        .ok (code, tail)
      | _ =>
        match env.encoding.splitFirst rest with
        | none => env.fail .parserBug esc
        | some (char, rest) => .ok (env.encoding.decode char, rest)

/-- The bytes of a code point that an escape at `esc` names. -/
def encodeCode (env : Setting) (code : Nat) (esc : List UInt8) : Except Failure (List UInt8) :=
  match env.encoding.encode? code with
  | some bytes => .ok bytes
  | none => env.fail env.encoding.unencodable esc

end Pattern

end RegexEngine
