/-!
# UTF-8 Sequences

The byte patterns of UTF-8. The first byte of a character announces its length; the bytes after it
carry six bits each. A text is checked by a one-byte-at-a-time machine whose state is the number of
bytes still owed to the current character. The check looks at announced lengths only, so the encoded
surrogates and the three- and four-byte forms of small code points pass it.

Decoding never fails. It takes the announced number of bytes, or what is left of them.

## Main definitions

* `leadLength`: the length that a first byte announces.
* `decode`: the code point of the first character of a text.
* `encode?`: the bytes of a code point up to U+10FFFF.
* `isValid`: the check of a whole text.
-/

namespace RegexEngine

namespace Utf8

/-- The length announced by a first byte; a byte that starts no sequence stands alone. -/
def leadLength (b : UInt8) : Nat :=
  if b < 0xc2 then 1
  else if b < 0xe0 then 2
  else if b < 0xf0 then 3
  else if b < 0xf5 then 4
  else 1

/-- A byte that continues a character, `10xxxxxx` in binary. -/
def isTail (b : UInt8) : Bool :=
  0x80 ≤ b && b < 0xc0

/-- A byte that no character can start with. -/
def isBadLead (b : UInt8) : Bool :=
  0xf4 < b || (0x7f < b && b < 0xc2)

/-- Appends the six bits of a continuing byte to the bits read so far. -/
def appendTail (code : Nat) (b : UInt8) : Nat :=
  code * 64 + b.toNat % 64

/-- The code point of the first character of a text. A character cut short by the end of the text is
read as if it were that short. -/
def decode : List UInt8 → Nat
  | [] => 0
  | lead :: rest =>
    let tails := min (leadLength lead - 1) rest.length
    if tails = 0 then lead.toNat
    else (rest.take tails).foldl appendTail (lead.toNat % (1 <<< (6 - tails)))

/-- The continuing byte that carries the lowest six bits of a number. -/
def tailByte (n : Nat) : UInt8 :=
  (0x80 + n % 64).toUInt8

/-- The bytes of a code point up to U+10FFFF; surrogates are encoded like their neighbours. -/
def encode? (c : Nat) : Option (List UInt8) :=
  if c < 0x80 then some [c.toUInt8]
  else if c < 0x800 then some [(0xc0 + c / 64).toUInt8, tailByte c]
  else if c < 0x10000 then some [(0xe0 + c / 4096).toUInt8, tailByte (c / 64), tailByte c]
  else if c ≤ 0x10ffff then
    some [(0xf0 + c / 262144).toUInt8, tailByte (c / 4096), tailByte (c / 64), tailByte c]
  else none

/-- The check of a text whose current character still owes `pending` bytes. -/
def validFrom : (pending : Nat) → List UInt8 → Bool
  | 0, [] => true
  | _ + 1, [] => false
  | 0, b :: rest => !isBadLead b && validFrom (leadLength b - 1) rest
  | pending + 1, b :: rest => isTail b && validFrom pending rest

/-- Every character starts with a byte that may start one and has all the bytes it announces. -/
def isValid (bytes : List UInt8) : Bool :=
  validFrom 0 bytes

end Utf8

end RegexEngine
