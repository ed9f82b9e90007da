import RegexEngine.Encoding.Kind
import RegexEngine.Encoding.Utf8
import RegexEngine.Unicode.Property

/-!
# Encodings

The two encodings of patterns and subjects, UTF-8 and US-ASCII, and what an encoding knows about
characters: how long they are, which code points they stand for, which kinds they belong to, and how
they fold. In US-ASCII every byte is a character, and those above `0x7f` have no kind.

Code points are natural numbers, since escapes may name numbers that no character has.

## Main definitions

* `Encoding`: the encodings.
* `Encoding.decode`, `Encoding.encode?`: code points and their bytes.
* `Encoding.hasKind`: membership of a code point in a kind.
* `Encoding.fold`: simple case folding, one code point to one code point.
* `Encoding.isValid`, `Encoding.validPrefixLength`: the check of a text.
-/

namespace RegexEngine

/-- The encodings of patterns and subjects. -/
inductive Encoding where
  | utf8
  | ascii
  deriving DecidableEq, Repr

namespace Encoding

/-- The registered name. -/
def name : Encoding → String
  | utf8 => "UTF-8"
  | ascii => "US-ASCII"

/-- The greatest number of bytes of one character. -/
def maxLength : Encoding → Nat
  | utf8 => 4
  | ascii => 1

/-- Whether code points are Unicode's. -/
def isUnicode : Encoding → Bool
  | utf8 => true
  | ascii => false

/-- The text that stands for an encoding in a listing. -/
def label (enc : Encoding) : String :=
  "Encoding(" ++ enc.name ++ ")"

/-- The length of a character, judged by its first byte alone. -/
def leadLength : Encoding → UInt8 → Nat
  | utf8, b => Utf8.leadLength b
  | ascii, _ => 1

/-- The code point of the first character of a text, 0 for the empty text. -/
def decode : Encoding → List UInt8 → Nat
  | utf8, bytes => Utf8.decode bytes
  | ascii, bytes => (bytes.headD 0).toNat

/-- The bytes of a code point, if the encoding has any. -/
def encode? : Encoding → Nat → Option (List UInt8)
  | utf8, c => Utf8.encode? c
  | ascii, c => if c ≤ 0xff then some [c.toUInt8] else none

/-- Whether a Unicode character above Latin-1 belongs to a kind. -/
def hasKindAboveLatin (kind : CharKind) (c : Nat) : Bool :=
  match kind with
  | .alpha => Unicode.isAlphabetic c
  | .blank => Unicode.isWhitespace c && !Unicode.isLineSeparator c
  | .control => Unicode.isControl c
  | .digit => Unicode.isNumeric c
  | .graph => !Unicode.isWhitespace c && !Unicode.isControl c
  | .lower => Unicode.isLowercase c
  | .print => !Unicode.isControl c && !Unicode.isLineSeparator c
  | .punct => !Unicode.isAlphabetic c && !Unicode.isNumeric c && !Unicode.isWhitespace c &&
      !Unicode.isControl c
  | .space => Unicode.isWhitespace c
  | .upper => Unicode.isUppercase c
  | .word | .alnum => Unicode.isAlphabetic c || Unicode.isNumeric c
  | .newline | .hexDigit | .ascii | .unassigned _ => false

/-- Whether a code point belongs to a kind. -/
def hasKind (enc : Encoding) (kind : CharKind) (c : Nat) : Bool :=
  match enc with
  | ascii => kind.hasAscii c
  | utf8 =>
    if c < 0x100 then CharKind.inRanges kind.latinRanges c
    else Unicode.isScalar c && hasKindAboveLatin kind c

/-- Whether a code point is a word character. -/
def isWord (enc : Encoding) (c : Nat) : Bool :=
  enc.hasKind .word c

/-- The small letter of a capital below U+0080. -/
def asciiLower (c : Nat) : Nat :=
  if 0x41 ≤ c && c ≤ 0x5a then c + 0x20 else c

/-- Simple case folding. -/
def fold (enc : Encoding) (c : Nat) : Nat :=
  if c < 0x80 then asciiLower c
  else
    match enc with
    | ascii => c
    | utf8 => if Unicode.isScalar c then Unicode.simpleLower c else c

/-- Whether a text is one of the encoding's. -/
def isValid : Encoding → List UInt8 → Bool
  | utf8, bytes => Utf8.isValid bytes
  | ascii, _ => true

/-- The length of the longest beginning of a text that is a text of the encoding. -/
def validPrefixLength (enc : Encoding) (bytes : List UInt8) : Nat :=
  ((List.range (bytes.length + 1)).reverse.find? fun n => enc.isValid (bytes.take n)).getD 0

/-- The code point of the line feed. -/
def newline : Nat := 0x0a

/-- Whether a text starts with a line feed. -/
def startsWithNewline (bytes : List UInt8) : Bool :=
  bytes.head? == some 0x0a

/-- The value of a hexadecimal digit, if the code point is one. -/
def hexValue? (c : Nat) : Option Nat :=
  if 0x30 ≤ c && c ≤ 0x39 then some (c - 0x30)
  else if 0x41 ≤ c && c ≤ 0x46 then some (c - 0x41 + 10)
  else if 0x61 ≤ c && c ≤ 0x66 then some (c - 0x61 + 10)
  else none

/-- Whether a code point is a decimal digit of US-ASCII. -/
def isAsciiDigit (c : Nat) : Bool :=
  0x30 ≤ c && c ≤ 0x39

end Encoding

end RegexEngine
