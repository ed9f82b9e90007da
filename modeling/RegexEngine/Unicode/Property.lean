import RegexEngine.Unicode.Alphabetic
import RegexEngine.Unicode.Numeric
import RegexEngine.Unicode.Lowercase
import RegexEngine.Unicode.Uppercase
import RegexEngine.Unicode.ToLower

/-!
# Character Properties

The Unicode properties that character classes above Latin-1 are made of, as tests on code points.
The two short properties are written out; the long ones are looked up in their tables.

## Main definitions

* `isScalar`: the code points that are characters at all.
* `isAlphabetic`, `isNumeric`, `isLowercase`, `isUppercase`, `isWhitespace`, `isControl`.
* `simpleLower`: the lower case of a code point, where that is one code point.
-/

namespace RegexEngine

namespace Unicode

/-- A code point below U+110000 that is no surrogate. -/
def isScalar (c : Nat) : Bool :=
  c < 0xd800 || (0xdfff < c && c < 0x110000)

/-- The property Alphabetic. -/
def isAlphabetic (c : Nat) : Bool :=
  inTable alphabeticTable c

/-- The general categories Nd, Nl and No. -/
def isNumeric (c : Nat) : Bool :=
  inTable numericTable c

/-- The property Lowercase. -/
def isLowercase (c : Nat) : Bool :=
  inTable lowercaseTable c

/-- The property Uppercase. -/
def isUppercase (c : Nat) : Bool :=
  inTable uppercaseTable c

/-- The property White_Space. -/
def isWhitespace (c : Nat) : Bool :=
  (0x09 ≤ c && c ≤ 0x0d) || c == 0x20 || c == 0x85 || c == 0xa0 || c == 0x1680 ||
  (0x2000 ≤ c && c ≤ 0x200a) || c == 0x2028 || c == 0x2029 || c == 0x202f || c == 0x205f ||
  c == 0x3000

/-- The general category Cc. -/
def isControl (c : Nat) : Bool :=
  c ≤ 0x1f || (0x7f ≤ c && c ≤ 0x9f)

/-- The line separator U+2028 and the paragraph separator U+2029. -/
def isLineSeparator (c : Nat) : Bool :=
  c == 0x2028 || c == 0x2029

/-- The lower case of a code point, or the code point itself where its lower case
is itself or has more than one code point. -/
def simpleLower (c : Nat) : Nat :=
  match findStretch Prod.fst toLowerTable c with
  | some (stretch, lower) => lower + (c - stretch.first)
  | none => c

end Unicode

end RegexEngine
