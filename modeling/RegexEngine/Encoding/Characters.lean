import RegexEngine.Encoding.Basic

/-!
# Walking Over Characters

A text is walked in two ways. A pattern is a list of bytes and is split into its characters from the
front. A subject is an array of bytes, and a position in it is an index; from an index one can look
at the character that starts there, and step back to the head of the one before.

In both walks a character has the length that its first byte announces, but never more than what is
left and never less than one byte, so that a walk always advances and always ends.

## Main definitions

* `Encoding.characters`: a text as the list of its characters.
* `Encoding.charLength`, `Encoding.codeAt`: the character at an index.
* `Encoding.charHead`, `Encoding.prevHead`, `Encoding.stepBack`: the way back.

## Theorems

* `charLength_pos`: a character has at least one byte.
* `charLength_le`: a character ends inside the text.
-/

namespace RegexEngine

namespace Encoding

/-- The first character of a text and the text after it. -/
def splitFirst (enc : Encoding) : List UInt8 → Option (List UInt8 × List UInt8)
  | [] => none
  | lead :: rest =>
    let tails := enc.leadLength lead - 1
    some (lead :: rest.take tails, rest.drop tails)

/-- Splits off at most `fuel` characters. -/
def splitMany (enc : Encoding) : (fuel : Nat) → List UInt8 → List (List UInt8)
  | 0, _ => []
  | fuel + 1, bytes =>
    match enc.splitFirst bytes with
    | none => []
    | some (char, rest) => char :: enc.splitMany fuel rest

/-- A text as the list of its characters. -/
def characters (enc : Encoding) (bytes : List UInt8) : List (List UInt8) :=
  enc.splitMany bytes.length bytes

/-- The length in bytes of the character at an index. -/
def charLength (enc : Encoding) (data : Array UInt8) (pos : Nat) : Nat :=
  max 1 (min (enc.leadLength (data.getD pos 0)) (data.size - pos))

/-- The code point of the character at an index. -/
def codeAt (enc : Encoding) (data : Array UInt8) (pos : Nat) : Nat :=
  match enc.charLength data pos with
  | 1 => (data.getD pos 0).toNat
  | n => enc.decode (data.extract pos (pos + n)).toList

/-- The last index at or before `pos`, and not before `start`, that holds no continuing byte. -/
def tailsBack (data : Array UInt8) (start : Nat) : (pos : Nat) → Nat
  | 0 => 0
  | pos + 1 =>
    if start < pos + 1 && Utf8.isTail (data.getD (pos + 1) 0) then tailsBack data start pos
    else pos + 1

/-- The index where the character that covers `pos` starts, looking no further back than `start`. -/
def charHead : Encoding → Array UInt8 → (start pos : Nat) → Nat
  | utf8, data, start, pos => tailsBack data start pos
  | ascii, _, _, pos => pos

/-- The head of the character before `pos`, if `pos` lies after `start`. -/
def prevHead (enc : Encoding) (data : Array UInt8) (start pos : Nat) : Option Nat :=
  if pos ≤ start then none else some (enc.charHead data start (pos - 1))

/-- The index `n` characters before `pos`, if there are so many after `start`. -/
def stepBack (enc : Encoding) (data : Array UInt8) (start : Nat) : (n pos : Nat) → Option Nat
  | 0, pos => some pos
  | n + 1, pos =>
    match enc.prevHead data start pos with
    | none => none
    | some head => stepBack enc data start n head

theorem charLength_pos (enc : Encoding) (data : Array UInt8) (pos : Nat) :
    0 < enc.charLength data pos := by
  unfold charLength
  omega

theorem charLength_le (enc : Encoding) (data : Array UInt8) (pos : Nat) (h : pos < data.size) :
    pos + enc.charLength data pos ≤ data.size := by
  unfold charLength
  omega

end Encoding

end RegexEngine
