/-!
# Kinds of Characters

The character kinds that classes and escapes name, with their numbers and their bracket names, and
the members that each kind has among the single-byte code points. The two encodings agree on most of
them. They differ on the blanks: only US-ASCII counts the backspace U+0008 among the blank and space
characters, and only UTF-8 counts tab to carriage return among the printable ones.

## Main definitions

* `CharKind`: the kinds, with `number` and `ofNumber`.
* `CharKind.ofBracketName?`: the kind that `[:name:]` asks for.
* `CharKind.asciiRanges`, `CharKind.latinRanges`: the members below U+0080 and below U+0100.
-/

namespace RegexEngine

/-- A kind of characters. A number above the last kind is kept as it is: it has no members. -/
inductive CharKind where
  | newline
  | alpha
  | blank
  | control
  | digit
  | graph
  | lower
  | print
  | punct
  | space
  | upper
  | hexDigit
  | word
  | alnum
  | ascii
  | unassigned (number : Nat)
  deriving DecidableEq, Repr

namespace CharKind

/-- The kinds that have members, in the order of their numbers. -/
def assigned : List CharKind :=
  [newline, alpha, blank, control, digit, graph, lower, print, punct, space, upper, hexDigit, word,
    alnum, ascii]

/-- The number of a kind. -/
def number : CharKind → Nat
  | newline => 0
  | alpha => 1
  | blank => 2
  | control => 3
  | digit => 4
  | graph => 5
  | lower => 6
  | print => 7
  | punct => 8
  | space => 9
  | upper => 10
  | hexDigit => 11
  | word => 12
  | alnum => 13
  | ascii => 14
  | unassigned n => n

/-- The kind of a number. -/
def ofNumber (n : Nat) : CharKind :=
  assigned.getD n (unassigned n)

/-- The bit that stands for a kind in a set of kinds; none for a number without a kind. -/
def mask (kind : CharKind) : Nat :=
  if kind.number < assigned.length then 1 <<< kind.number else 0

/-- The names that a bracket class accepts between `[:` and `:]`. -/
def bracketNames : List (String × CharKind) :=
  [("alnum", alnum), ("alpha", alpha), ("ascii", ascii), ("blank", blank), ("cntrl", control),
    ("digit", digit), ("graph", graph), ("lower", lower), ("print", print), ("punct", punct),
    ("space", space), ("upper", upper), ("xdigit", hexDigit), ("word", word)]

/-- The kind that a bracket name, given as bytes, asks for. -/
def ofBracketName? (name : List UInt8) : Option CharKind :=
  (bracketNames.find? fun entry =>
    entry.1.toList.map (fun c => c.toNat.toUInt8) == name).map Prod.snd

/-- Members below U+0080, as the US-ASCII encoding has them. -/
def asciiRanges : CharKind → List (Nat × Nat)
  | newline => [(0x0a, 0x0a)]
  | alpha => [(0x61, 0x7a), (0x41, 0x5a)]
  | blank => [(0x20, 0x20), (0x08, 0x09)]
  | control => [(0x00, 0x1f), (0x7f, 0x7f)]
  | digit => [(0x30, 0x39)]
  | graph => [(0x21, 0x7e)]
  | lower => [(0x61, 0x7a)]
  | print => [(0x20, 0x7e)]
  | punct => [(0x21, 0x2f), (0x3a, 0x40), (0x5b, 0x60), (0x7b, 0x7e)]
  | space => [(0x20, 0x20), (0x08, 0x0d)]
  | upper => [(0x41, 0x5a)]
  | hexDigit => [(0x30, 0x39), (0x61, 0x66), (0x41, 0x46)]
  | word => [(0x61, 0x7a), (0x41, 0x5a), (0x30, 0x39), (0x5f, 0x5f)]
  | alnum => [(0x61, 0x7a), (0x41, 0x5a), (0x30, 0x39)]
  | ascii => [(0x00, 0x7f)]
  | unassigned _ => []

/-- Members below U+0100, as the UTF-8 encoding has them. -/
def latinRanges : CharKind → List (Nat × Nat)
  | newline => [(0x0a, 0x0a)]
  | alpha => [(0x61, 0x7a), (0x41, 0x5a), (0xaa, 0xaa), (0xb5, 0xb5), (0xba, 0xba), (0xc0, 0xd6),
      (0xd8, 0xf6), (0xf8, 0xff)]
  | blank => [(0x20, 0x20), (0x09, 0x09), (0xa0, 0xa0)]
  | control => [(0x00, 0x1f), (0x7f, 0x9f), (0xad, 0xad)]
  | digit => [(0x30, 0x39)]
  | graph => [(0x21, 0x7e), (0xa1, 0xff)]
  | lower => [(0x61, 0x7a), (0xaa, 0xaa), (0xb5, 0xb5), (0xba, 0xba), (0xdf, 0xf6), (0xf8, 0xff)]
  | print => [(0x20, 0x7e), (0x09, 0x0d), (0x85, 0x85), (0xa0, 0xff)]
  | punct => [(0x21, 0x2f), (0x3a, 0x40), (0x5b, 0x60), (0x7b, 0x7e), (0xa1, 0xa9), (0xab, 0xac),
      (0xae, 0xb1), (0xb4, 0xb4), (0xb6, 0xb8), (0xbb, 0xbb), (0xbf, 0xbf), (0xd7, 0xd7),
      (0xf7, 0xf7)]
  | space => [(0x20, 0x20), (0x09, 0x0d), (0x85, 0x85), (0xa0, 0xa0)]
  | upper => [(0x41, 0x5a), (0xc0, 0xd6), (0xd8, 0xde)]
  | hexDigit => [(0x30, 0x39), (0x61, 0x66), (0x41, 0x46)]
  | word => [(0x61, 0x7a), (0x41, 0x5a), (0x30, 0x39), (0x5f, 0x5f), (0xaa, 0xaa), (0xb2, 0xb3),
      (0xb5, 0xb5), (0xb9, 0xba), (0xbc, 0xbe), (0xc0, 0xd6), (0xd8, 0xf6), (0xf8, 0xff)]
  | alnum => [(0x61, 0x7a), (0x41, 0x5a), (0x30, 0x39), (0xaa, 0xaa), (0xb5, 0xb5), (0xba, 0xba),
      (0xc0, 0xd6), (0xd8, 0xf6), (0xf8, 0xff)]
  | ascii => [(0x00, 0x7f)]
  | unassigned _ => []

/-- Whether a code point lies in one of the ranges, ends included. -/
def inRanges (ranges : List (Nat × Nat)) (c : Nat) : Bool :=
  ranges.any fun r => r.1 ≤ c && c ≤ r.2

/-- Whether a code point below U+0080 has a kind in US-ASCII. -/
def hasAscii (kind : CharKind) (c : Nat) : Bool :=
  inRanges kind.asciiRanges c

end CharKind

end RegexEngine
