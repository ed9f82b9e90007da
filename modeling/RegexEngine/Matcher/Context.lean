import RegexEngine.Program.Basic
import RegexEngine.Encoding.Characters

/-!
# What an Attempt Looks At

A match is attempted on a subject, within a range and under options. Tests that consume text accept
nothing at or behind the end of the range, and no character that reaches over it. Anchors and
look-behind see the whole subject.

Options that a search adds to those of the program change how line anchors and dots are read. Those
that the program has already are in its code.

## Main definitions

* `Context`: subject, range and options.
* `Context.anchorHolds`: whether an anchor holds at a position.
* `Capture`: what a group has captured.
* `Leaf.accept`: where a test goes on if it accepts.

## Theorems

* `charWithin_le`: an accepted character ends within the range.
-/

namespace RegexEngine

/-- What an attempt looks at. -/
structure Context where
  encoding : Encoding
  subject : Array UInt8
  /-- The end of the text that may be consumed. -/
  range : Nat
  /-- Where the search started. -/
  searchStart : Nat
  /-- The options of the search and of the program. -/
  options : Options
  /-- The search, and not the program, makes all line anchors multiline. -/
  multiline : Bool
  /-- The search, and not the program, lets all dots match a newline. -/
  dotAll : Bool
  deriving Repr

namespace Context

/-- The context of a call. -/
def make (program : Program) (subject : Array UInt8) (searchStart range : Nat) (given : Options) :
    Context where
  encoding := program.encoding
  subject := subject
  range := range
  searchStart := searchStart
  options := given.union program.options
  multiline := (given.diff program.options).multiline
  dotAll := (given.diff program.options).dotAll

/-- The end of the subject. -/
def stop (ctx : Context) : Nat :=
  ctx.subject.size

/-- The byte at a position. -/
def byteAt (ctx : Context) (pos : Nat) : UInt8 :=
  ctx.subject.getD pos 0

/-- Whether a newline is at a position. -/
def newlineAt (ctx : Context) (pos : Nat) : Bool :=
  ctx.byteAt pos == 0x0a

/-- The code point at a position. -/
def codeAt (ctx : Context) (pos : Nat) : Nat :=
  ctx.encoding.codeAt ctx.subject pos

/-- The folded code point at a position. -/
def foldedAt (ctx : Context) (pos : Nat) : Nat :=
  ctx.encoding.fold (ctx.codeAt pos)

/-- The length of the character at a position, if it ends within the range. -/
def charWithin (ctx : Context) (pos : Nat) : Option Nat :=
  if pos < ctx.range then
    let n := ctx.encoding.charLength ctx.subject pos
    if pos + n ≤ ctx.range then some n else none
  else none

/-- The position behind the character at a position, if it ends within the range and is accepted. -/
def acceptChar (ctx : Context) (pos : Nat) (accepted : Bool) : Option Nat :=
  (ctx.charWithin pos).bind fun n => if accepted then some (pos + n) else none

/-- The position behind some bytes, if they are here and within the range. -/
def acceptBytes (ctx : Context) : (pos : Nat) → List UInt8 → Option Nat
  | pos, [] => some pos
  | pos, b :: rest =>
    if pos < ctx.range && ctx.byteAt pos == b then ctx.acceptBytes (pos + 1) rest else none

/-- The position behind characters that fold to some code points, if they are here and within the
range. -/
def acceptFolded (ctx : Context) : (pos : Nat) → List Nat → Option Nat
  | pos, [] => some pos
  | pos, c :: rest =>
    (ctx.acceptChar pos (ctx.foldedAt pos == c)).bind fun next => ctx.acceptFolded next rest

/-- The folded code points of the characters that start between two positions, at most `fuel`. -/
def foldedBetween (ctx : Context) : (fuel pos stop : Nat) → List Nat
  | 0, _, _ => []
  | fuel + 1, pos, stop =>
    if pos < stop then
      ctx.foldedAt pos ::
        ctx.foldedBetween fuel (pos + ctx.encoding.charLength ctx.subject pos) stop
    else []

/-- The position behind a repetition of the text between two positions. -/
def acceptCopy (ctx : Context) (pos : Nat) (ignoreCase : Bool) (span : Nat × Nat) : Option Nat :=
  if ignoreCase then
    ctx.acceptFolded pos (ctx.foldedBetween (span.2 - span.1) span.1 span.2)
  else ctx.acceptBytes pos (ctx.subject.extract span.1 span.2).toList

/-- Whether a word character starts at a position. -/
def wordAt (ctx : Context) (pos : Nat) : Bool :=
  pos < ctx.stop && ctx.encoding.isWord (ctx.codeAt pos)

/-- Whether a word character ends at a position. -/
def wordBefore (ctx : Context) (pos : Nat) : Bool :=
  (ctx.encoding.prevHead ctx.subject 0 pos).any ctx.wordAt

/-- Whether one side of a position is a word character and the other is not. -/
def atWordBoundary (ctx : Context) (pos : Nat) : Bool :=
  ctx.wordBefore pos != ctx.wordAt pos

/-- Whether a line starts at a position. None starts behind a newline that ends the subject. -/
def atLineStart (ctx : Context) (multiline : Bool) (pos : Nat) : Bool :=
  if pos = 0 then !ctx.options.notLineStart
  else (multiline || ctx.multiline) && pos < ctx.stop && ctx.newlineAt (pos - 1)

/-- Whether a line ends at a position. The newline that ends the subject ends a line in any case,
but not if the end of the subject does not count as one. -/
def atLineEnd (ctx : Context) (multiline : Bool) (pos : Nat) : Bool :=
  if pos = ctx.stop then !ctx.options.notLineEnd
  else
    ctx.newlineAt pos &&
      (multiline || ctx.multiline || (pos + 1 == ctx.stop && !ctx.options.notLineEnd))

/-- Whether an anchor holds at a position. -/
def anchorHolds (ctx : Context) (kind : Anchor) (multiline : Bool) (pos : Nat) : Bool :=
  match kind with
  | .textStart => pos == 0
  | .textEnd => pos == ctx.stop
  | .lastLineEnd => pos == ctx.stop || (pos + 1 == ctx.stop && ctx.newlineAt pos)
  | .lineStart => ctx.atLineStart multiline pos
  | .lineEnd => ctx.atLineEnd multiline pos
  | .searchStart => pos == ctx.searchStart
  | .wordBoundary => ctx.atWordBoundary pos
  | .noWordBoundary => !ctx.atWordBoundary pos

theorem charWithin_le {ctx : Context} {pos n : Nat} (h : ctx.charWithin pos = some n) :
    pos + n ≤ ctx.range := by
  simp only [charWithin] at h
  split at h
  · split at h
    · obtain rfl := Option.some.inj h
      assumption
    · simp at h
  · simp at h

end Context

/-- What a group has captured. -/
structure Capture where
  /-- Where the group was opened last. -/
  opened : Option Nat := none
  /-- Where the text of the group starts. -/
  start : Option Nat := none
  /-- Where it ends. -/
  stop : Option Nat := none
  deriving DecidableEq, Repr, Inhabited

namespace Capture

/-- The text of a group, if it has one. -/
def span? (capture : Capture) : Option (Nat × Nat) :=
  match capture.start, capture.stop with
  | some start, some stop => some (start, stop)
  | _, _ => none

end Capture

namespace Leaf

/-- The position behind a repetition of the text of a group. -/
def acceptGroup (ctx : Context) (captures : Array Capture) (pos : Nat) (ignoreCase : Bool)
    (number : Nat) : Option Nat :=
  (captures[number]?.bind Capture.span?).bind (ctx.acceptCopy pos ignoreCase)

/-- The position behind the text that a test accepts at a position. -/
def accept (ctx : Context) (captures : Array Capture) (pos : Nat) : Leaf → Option Nat
  | literal bytes => ctx.acceptBytes pos bytes
  | folded codes => ctx.acceptFolded pos codes
  | set chars => ctx.acceptChar pos (chars.contains ctx.encoding (ctx.codeAt pos))
  | anyChar newlines => ctx.acceptChar pos (newlines || ctx.dotAll || !ctx.newlineAt pos)
  | word negated => ctx.acceptChar pos (ctx.wordAt pos != negated)
  | backref groups ignoreCase =>
    groups.reverse.findSome? (acceptGroup ctx captures pos ignoreCase)
  | anchor kind multiline => if ctx.anchorHolds kind multiline pos then some pos else none

end Leaf

end RegexEngine
