/-!
# Characters of a Byte String

Bytes read as UTF-8 text in the strict sense: no surrogates, and every character in its shortest
form. What is not well formed is marked piece by piece, where a piece is the longest beginning of a
well-formed character, or one byte if it can begin none.

## Main definitions

* `scalars`: the characters, with `none` for each ill-formed piece.
* `strictText?`: the text, if all of it is well formed.
* `lossyText`: the text with U+FFFD in the place of each ill-formed piece.
-/

namespace RegexEngine

namespace Text

/-- A character that is not complete: the bytes still owed, the range that the next of them must lie
in, and the bits read so far. -/
structure Unfinished where
  owed : Nat
  low : UInt8
  high : UInt8
  bits : Nat
  deriving DecidableEq, Repr

/-- What a first byte begins. The range of the second byte is narrowed where a wider one would let
in a surrogate, a form longer than needed, or a number above U+10FFFF. -/
inductive Start where
  | complete (c : Char)
  | unfinished (u : Unfinished)
  | illFormed
  deriving Repr

/-- Classifies the first byte of a character. -/
def start (b : UInt8) : Start :=
  let n := b.toNat
  if n < 0x80 then .complete (Char.ofNat n)
  else if n < 0xc2 then .illFormed
  else if n < 0xe0 then .unfinished ⟨1, 0x80, 0xbf, n % 32⟩
  else if n = 0xe0 then .unfinished ⟨2, 0xa0, 0xbf, 0⟩
  else if n = 0xed then .unfinished ⟨2, 0x80, 0x9f, 13⟩
  else if n < 0xf0 then .unfinished ⟨2, 0x80, 0xbf, n % 16⟩
  else if n = 0xf0 then .unfinished ⟨3, 0x90, 0xbf, 0⟩
  else if n = 0xf4 then .unfinished ⟨3, 0x80, 0x8f, 4⟩
  else if n < 0xf4 then .unfinished ⟨3, 0x80, 0xbf, n % 8⟩
  else .illFormed

/-- Reads on from between two characters or from inside one. -/
def scalarsFrom : Option Unfinished → List UInt8 → List (Option Char)
  | none, [] => []
  | some _, [] => [none]
  | none, b :: rest =>
    match start b with
    | .complete c => some c :: scalarsFrom none rest
    | .unfinished u => scalarsFrom (some u) rest
    | .illFormed => none :: scalarsFrom none rest
  | some u, b :: rest =>
    if u.low ≤ b && b ≤ u.high then
      let bits := u.bits * 64 + b.toNat % 64
      if u.owed ≤ 1 then some (Char.ofNat bits) :: scalarsFrom none rest
      else scalarsFrom (some ⟨u.owed - 1, 0x80, 0xbf, bits⟩) rest
    else
      match start b with
      | .complete c => none :: some c :: scalarsFrom none rest
      | .unfinished u => none :: scalarsFrom (some u) rest
      | .illFormed => none :: none :: scalarsFrom none rest

/-- The characters of a byte string, with `none` for each ill-formed piece. -/
def scalars (bytes : List UInt8) : List (Option Char) :=
  scalarsFrom none bytes

/-- Whether a byte string is well-formed UTF-8. -/
def isWellFormed (bytes : List UInt8) : Bool :=
  (scalars bytes).all Option.isSome

/-- The text with U+FFFD for each ill-formed piece. -/
def lossyText (bytes : List UInt8) : String :=
  String.ofList ((scalars bytes).map fun c => c.getD (Char.ofNat 0xfffd))

/-- The text of a well-formed byte string. -/
def strictText? (bytes : List UInt8) : Option String :=
  if isWellFormed bytes then some (lossyText bytes) else none

end Text

end RegexEngine
