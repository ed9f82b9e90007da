import RegexEngine.Pattern.Position

/-!
# Numbers and Blank Space in a Pattern

The two things that a pattern holds between its signs: digits of a number, and the blank space and
comments that the extended notation allows.

## Main definitions

* `scanDigits`: reads digits of a base, up to a greatest count.
* `scanNumber`: reads a decimal number of up to ten digits.
* `skipBlank`: skips blank space and comments.
-/

namespace RegexEngine

namespace Pattern

/-- The value of a byte as a digit of a base up to sixteen. -/
def digitValue? (base : Nat) (b : UInt8) : Option Nat :=
  (Encoding.hexValue? b.toNat).filter (· < base)

/-- Reads at most `room` digits onto `value`. The answer tells the value, the count of all digits
read, and the text after them. -/
def scanDigits (base : Nat) :
    (room value count : Nat) → List UInt8 → Nat × Nat × List UInt8
  | 0, value, count, rest => (value, count, rest)
  | _ + 1, value, count, [] => (value, count, [])
  | room + 1, value, count, b :: rest =>
    match digitValue? base b with
    | some d => scanDigits base room (value * base + d) (count + 1) rest
    | none => (value, count, b :: rest)

/-- The greatest number of digits in a decimal number. -/
def maxDigits : Nat := 10

/-- Reads a decimal number, if there is one, of as many digits as a number may have. -/
def scanNumber (rest : List UInt8) : Option Nat × List UInt8 :=
  let (value, count, rest) := scanDigits 10 maxDigits 0 0 rest
  (if count = 0 then none else some value, rest)

/-- Whether a byte is blank space: tab to carriage return, or a space. -/
def isBlank (b : UInt8) : Bool :=
  (0x09 ≤ b && b ≤ 0x0d) || b == 0x20

/-- Skips blank space and comments, from inside a comment or from outside. A comment runs from a
number sign to the end of the line. -/
def skipBlankFrom : (inComment : Bool) → List UInt8 → List UInt8
  | _, [] => []
  | true, b :: rest => skipBlankFrom (b != 0x0a) rest
  | false, b :: rest =>
    if isBlank b then skipBlankFrom false rest
    else if char b == '#' then skipBlankFrom true rest
    else b :: rest

/-- Skips blank space and comments where the notation is extended. -/
def skipBlank (options : Options) (rest : List UInt8) : List UInt8 :=
  if options.extended then skipBlankFrom false rest else rest

end Pattern

end RegexEngine
