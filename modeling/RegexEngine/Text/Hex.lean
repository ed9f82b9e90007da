/-!
# Numbers in Text

Numbers and bytes as digits, and back. Hexadecimal digits are written in lower case and read in
either case.

## Main definitions

* `hexDigits`, `paddedHex`, `hexBytes`: writing.
* `readHex?`, `readHexBytes?`, `readNat?`, `readInt?`: reading all of a text.
* `pieces`: a text cut at each occurrence of a character.
-/

namespace RegexEngine

namespace Text

/-- The digits of a number in base sixteen, at least one. -/
def hexDigits (n : Nat) : List Char :=
  Nat.toDigits 16 n

/-- The digits of a number in base sixteen, filled up with zeros to a width. -/
def paddedHex (width n : Nat) : String :=
  let digits := hexDigits n
  String.ofList (List.replicate (width - digits.length) '0' ++ digits)

/-- The number in base sixteen, without leading zeros. -/
def hex (n : Nat) : String :=
  String.ofList (hexDigits n)

/-- Two digits for each byte. -/
def hexBytes (bytes : List UInt8) : String :=
  String.join (bytes.map fun b => paddedHex 2 b.toNat)

/-- The value of a digit in a base up to sixteen. -/
def digitValue? (base : Nat) (c : Char) : Option Nat :=
  let n := c.toNat
  let value? :=
    if '0' ≤ c ∧ c ≤ '9' then some (n - 48)
    else if 'a' ≤ c ∧ c ≤ 'f' then some (n - 87)
    else if 'A' ≤ c ∧ c ≤ 'F' then some (n - 55)
    else none
  value?.filter (· < base)

/-- Reads digits onto a number. -/
def readDigits? (base : Nat) : List Char → Nat → Option Nat
  | [], n => some n
  | c :: rest, n =>
    match digitValue? base c with
    | none => none
    | some d => readDigits? base rest (n * base + d)

/-- The number that a text of digits in a base spells. -/
def readBase? (base : Nat) (cs : List Char) : Option Nat :=
  if cs.isEmpty then none else readDigits? base cs 0

/-- The number that a text of hexadecimal digits spells. -/
def readHex? (cs : List Char) : Option Nat :=
  readBase? 16 cs

/-- The number that a text of decimal digits spells. -/
def readNat? (cs : List Char) : Option Nat :=
  readBase? 10 cs

/-- The number that a text of decimal digits spells, with a minus sign in front if negative. -/
def readInt? : List Char → Option Int
  | '-' :: cs => (readNat? cs).map fun n => -(n : Int)
  | cs => (readNat? cs).map fun n => (n : Int)

/-- The bytes that a text of digit pairs spells. -/
def readHexBytes? : List Char → Option (List UInt8)
  | [] => some []
  | [_] => none
  | a :: b :: rest =>
    match readHex? [a, b], readHexBytes? rest with
    | some n, some bytes => some (n.toUInt8 :: bytes)
    | _, _ => none

/-- A text cut at each occurrence of a character; the empty text is one empty piece. -/
def pieces (sep : Char) : List Char → List (List Char)
  | [] => [[]]
  | c :: rest =>
    if c = sep then [] :: pieces sep rest
    else
      match pieces sep rest with
      | [] => [[c]]
      | piece :: more => (c :: piece) :: more

/-- The pieces of a text between separators, none if the text is empty. -/
def fields (sep : Char) (cs : List Char) : List (List Char) :=
  if cs.isEmpty then [] else pieces sep cs

end Text

end RegexEngine
