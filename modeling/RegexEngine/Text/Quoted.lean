import RegexEngine.Text.Hex
import RegexEngine.Unicode.Extending
import RegexEngine.Unicode.Ignorable
import RegexEngine.Unicode.Unprintable

/-!
# Quoted Text

A text between double quotes, as listings show it. The quote and the backslash are written after a
backslash, and so are the letters that stand for NUL, tab, line feed and carriage return. A
character that would not be seen, or would be drawn on the one before it, is shown by its number in
base sixteen.

Unicode counts the halfwidth voicing marks of Katakana among the characters that extend the one
before, since they belong to its syllable. But they are letters and have a place of their own on the
line, so they are shown as they are.

## Main definitions

* `isDrawnOver`: the characters that would be drawn on the one before.
* `isUnseen`: the characters that would not be seen.
* `needsNumber`: the characters that are shown by number.
* `quoteChar`: the written form of one character.
* `quote`: the written form of a text.
-/

namespace RegexEngine

namespace Text

/-- Whether a code point is a halfwidth voicing mark, U+FF9E or U+FF9F. -/
def isHalfwidthVoicing (c : Nat) : Bool :=
  c == 0xff9e || c == 0xff9f

/-- Whether a code point would be drawn on the one before it. -/
def isDrawnOver (c : Nat) : Bool :=
  Unicode.inTable Unicode.extendingTable c && !isHalfwidthVoicing c

/-- Whether a code point would not be seen: it has no visible form, or a display ignores it. -/
def isUnseen (c : Nat) : Bool :=
  Unicode.inTable Unicode.unprintableTable c || Unicode.inTable Unicode.ignorableTable c

/-- Whether a character is shown by its number. -/
def needsNumber (c : Char) : Bool :=
  isDrawnOver c.toNat || isUnseen c.toNat

/-- The written form of a character between double quotes. -/
def quoteChar (c : Char) : String :=
  match c with
  | '\x00' => "\\0"
  | '\t' => "\\t"
  | '\n' => "\\n"
  | '\r' => "\\r"
  | '"' => "\\\""
  | '\\' => "\\\\"
  | c =>
    if c = ' ' then " "
    else if needsNumber c then "\\u\x7b" ++ hex c.toNat ++ "\x7d"
    else String.singleton c

/-- The written form of a text, quotes included. -/
def quote (text : String) : String :=
  "\"" ++ String.join (text.toList.map quoteChar) ++ "\""

end Text

end RegexEngine
