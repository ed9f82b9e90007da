import RegexEngine.Proofs.Safety.Inside
import RegexEngine.Search.Scan

/-!
# Calls on the Same Text

Most of what a matcher sees is the text: the subject, how it is divided into characters, and how far
it may be consumed. Calls that have these in common may differ in their options and in where the
search started. All tests accept the same under them, but for anchors and dots.

Much of it is true already if only the text that may be consumed is the same. A test that reads
characters takes none that reaches over the end of the range, a literal is looked for within it, and
a step back looks at the bytes before a position. Characters can be told apart by their bytes only,
and the length of one by its first byte and by the length of the subject.

## Main definitions

* `Context.SameReach`: Calls that may consume the same text.
* `Context.SameText`: Calls on the same text within the same range.

## Theorems

* `SameReach.codeAt`: A character that ends within the range is the same.
* `SameReach.acceptChar`, `SameReach.acceptBytes`, `SameReach.acceptFolded`: So are those that are
  accepted.
* `SameReach.stepBack`, `SameReach.nextOccurrence`: So are the moves of a look-behind and of a scan.
* `accept_sameText`: On the same text, a test other than an anchor or a dot accepts the same.
-/

namespace RegexEngine

namespace Context

/-- The character that ends within the range is the one at the position. -/
theorem charWithin_eq_some {ctx : Context} {pos n : Nat} : ctx.charWithin pos = some n ↔
    pos < ctx.range ∧ ctx.encoding.charLength ctx.subject pos = n ∧ pos + n ≤ ctx.range := by
  simp only [charWithin]
  grind

/-- Two calls have the same text up to the end of the range, and as much text behind it. -/
structure SameReach (ctx other : Context) : Prop where
  encoding : ctx.encoding = other.encoding
  range : ctx.range = other.range
  size : ctx.subject.size = other.subject.size
  bytes : ∀ pos < ctx.range, ctx.subject[pos]? = other.subject[pos]?

namespace SameReach

variable {ctx other : Context} (h : ctx.SameReach other) {pos first last n : Nat}

include h

theorem getD (hpos : pos < ctx.range) : ctx.subject.getD pos 0 = other.subject.getD pos 0 := by
  rw [Array.getD_eq_getD_getElem?, Array.getD_eq_getD_getElem?, h.bytes pos hpos]

theorem newlineAt (hpos : pos < ctx.range) : ctx.newlineAt pos = other.newlineAt pos := by
  rw [Context.newlineAt, Context.newlineAt, byteAt, byteAt, h.getD hpos]

theorem charLength (hpos : pos < ctx.range) :
    other.encoding.charLength ctx.subject pos = other.encoding.charLength other.subject pos := by
  rw [Encoding.charLength, Encoding.charLength, h.size, h.getD hpos]

theorem charWithin : ctx.charWithin pos = other.charWithin pos := by
  rw [Context.charWithin, Context.charWithin, h.encoding, ← h.range]
  split
  · rename_i hpos
    rw [h.charLength hpos]
  · rfl

theorem extract (hlast : last ≤ ctx.range) :
    ctx.subject.extract first last = other.subject.extract first last := by
  apply Array.ext_getElem?
  intro i
  rw [Array.getElem?_extract, Array.getElem?_extract, h.size]
  split
  · exact h.bytes _ (by omega)
  · rfl

/-- A character that ends within the range is the same for both calls. -/
theorem codeAt (hwithin : ctx.charWithin pos = some n) : ctx.codeAt pos = other.codeAt pos := by
  rcases charWithin_eq_some.mp hwithin with ⟨hpos, hlength, hlast⟩
  rw [h.encoding, h.charLength hpos] at hlength
  rw [Context.codeAt, Context.codeAt, Encoding.codeAt, Encoding.codeAt, h.encoding,
    h.charLength hpos, h.getD hpos, hlength]
  -- A single byte stands for itself, and several are decoded.
  split
  · rfl
  · rw [h.extract hlast]

theorem foldedAt (hwithin : ctx.charWithin pos = some n) :
    ctx.foldedAt pos = other.foldedAt pos := by
  rw [Context.foldedAt, Context.foldedAt, h.codeAt hwithin, h.encoding]

theorem wordAt (hwithin : ctx.charWithin pos = some n) : ctx.wordAt pos = other.wordAt pos := by
  rw [Context.wordAt, Context.wordAt, stop, stop, h.size, h.codeAt hwithin, h.encoding]

/-- Whether a character is accepted is asked of characters within the range only. -/
theorem acceptChar {accepted accepted' : Bool}
    (hsame : ∀ n, ctx.charWithin pos = some n → accepted = accepted') :
    ctx.acceptChar pos accepted = other.acceptChar pos accepted' := by
  rw [Context.acceptChar, Context.acceptChar, ← h.charWithin]
  rcases hwithin : ctx.charWithin pos with _ | n
  · rfl
  · rw [hsame n hwithin]

theorem acceptBytes {bytes : List UInt8} :
    ctx.acceptBytes pos bytes = other.acceptBytes pos bytes := by
  induction bytes generalizing pos with
  | nil => rfl
  | cons b rest ih =>
      rw [Context.acceptBytes, Context.acceptBytes, ih, byteAt, byteAt, ← h.range]
      by_cases hpos : pos < ctx.range
      · rw [h.getD hpos]
      · simp only [hpos, decide_false, Bool.false_and]

theorem acceptFolded {codes : List Nat} :
    ctx.acceptFolded pos codes = other.acceptFolded pos codes := by
  induction codes generalizing pos with
  | nil => rfl
  | cons c rest ih =>
      have hchar : ctx.acceptChar pos (ctx.foldedAt pos == c) =
          other.acceptChar pos (other.foldedAt pos == c) :=
        h.acceptChar fun n hwithin => by rw [h.foldedAt hwithin]
      simp only [Context.acceptFolded, hchar, ih]

theorem nextOccurrence {bytes : List UInt8} :
    ctx.nextOccurrence bytes pos = other.nextOccurrence bytes pos := by
  have hamong : ∀ count pos, ctx.occurrenceAmong bytes count pos =
      other.occurrenceAmong bytes count pos := by
    intro count
    induction count with
    | zero => exact fun pos => rfl
    | succ count ih =>
        intro pos
        rw [occurrenceAmong, occurrenceAmong, h.acceptBytes, ih]
  rw [Context.nextOccurrence, Context.nextOccurrence, hamong, h.range]

theorem tailsBack {start : Nat} (hpos : pos < ctx.range) :
    Encoding.tailsBack ctx.subject start pos = Encoding.tailsBack other.subject start pos := by
  induction pos with
  | zero => rfl
  | succ pos ih => rw [Encoding.tailsBack, Encoding.tailsBack, h.getD hpos, ih (by omega)]

theorem prevHead {enc : Encoding} (hpos : pos ≤ ctx.range) :
    enc.prevHead ctx.subject 0 pos = enc.prevHead other.subject 0 pos := by
  rw [Encoding.prevHead, Encoding.prevHead]
  by_cases hzero : pos ≤ 0
  · rw [if_pos hzero, if_pos hzero]
  · have hbefore : pos - 1 < ctx.range := by omega
    rw [if_neg hzero, if_neg hzero]
    cases enc with
    | ascii => rfl
    | utf8 => rw [Encoding.charHead, Encoding.charHead, h.tailsBack hbefore]

/-- The way back from a position leads over bytes before it. -/
theorem stepBack {enc : Encoding} {count : Nat} (hpos : pos ≤ ctx.range) :
    enc.stepBack ctx.subject 0 count pos = enc.stepBack other.subject 0 count pos := by
  induction count generalizing pos with
  | zero => rfl
  | succ count ih =>
      rw [Encoding.stepBack, Encoding.stepBack, ← h.prevHead hpos]
      rcases hprev : enc.prevHead ctx.subject 0 pos with _ | head
      · rfl
      · have hlt := Encoding.prevHead_lt hprev
        exact ih (by omega)

end SameReach

/-- Two calls are on the same text, and may consume the same part of it. -/
structure SameText (ctx other : Context) : Prop where
  encoding : ctx.encoding = other.encoding
  subject : ctx.subject = other.subject
  range : ctx.range = other.range

namespace SameText

variable {ctx other : Context} (h : ctx.SameText other) {pos : Nat}

include h

theorem sameReach : ctx.SameReach other :=
  ⟨h.encoding, h.range, congrArg Array.size h.subject, fun pos _ => by rw [h.subject]⟩

theorem byteAt : ctx.byteAt pos = other.byteAt pos := by
  rw [Context.byteAt, Context.byteAt, h.subject]

theorem newlineAt : ctx.newlineAt pos = other.newlineAt pos := by
  rw [Context.newlineAt, Context.newlineAt, h.byteAt]

theorem stop : ctx.stop = other.stop := by
  rw [Context.stop, Context.stop, h.subject]

theorem codeAt : ctx.codeAt pos = other.codeAt pos := by
  rw [Context.codeAt, Context.codeAt, h.encoding, h.subject]

theorem wordAt : ctx.wordAt pos = other.wordAt pos := by
  rw [Context.wordAt, Context.wordAt, h.stop, h.codeAt, h.encoding]

theorem atWordBoundary : ctx.atWordBoundary pos = other.atWordBoundary pos := by
  have hword : ctx.wordAt = other.wordAt := funext fun _ => h.wordAt
  rw [Context.atWordBoundary, Context.atWordBoundary, wordBefore, wordBefore, hword, h.encoding,
    h.subject]

theorem acceptChar {accepted : Bool} :
    ctx.acceptChar pos accepted = other.acceptChar pos accepted :=
  h.sameReach.acceptChar fun _ _ => rfl

theorem foldedAt : ctx.foldedAt pos = other.foldedAt pos := by
  rw [Context.foldedAt, Context.foldedAt, h.codeAt, h.encoding]

theorem foldedBetween {fuel last : Nat} :
    ctx.foldedBetween fuel pos last = other.foldedBetween fuel pos last := by
  induction fuel generalizing pos with
  | zero => rfl
  | succ fuel ih =>
      rw [Context.foldedBetween, Context.foldedBetween, h.foldedAt, ih, h.encoding, h.subject]

theorem acceptCopy {ignoreCase : Bool} {span : Nat × Nat} :
    ctx.acceptCopy pos ignoreCase span = other.acceptCopy pos ignoreCase span := by
  rw [Context.acceptCopy, Context.acceptCopy, h.sameReach.acceptFolded, h.foldedBetween,
    h.sameReach.acceptBytes, h.subject]

theorem nextOccurrence {bytes : List UInt8} :
    ctx.nextOccurrence bytes pos = other.nextOccurrence bytes pos :=
  h.sameReach.nextOccurrence

end SameText

end Context

/-- All tests but anchors and dots accept the same. -/
theorem Leaf.accept_sameText {ctx other : Context} {test : Leaf} (h : ctx.SameText other)
    (hdot : ∀ newlines, test ≠ .anyChar newlines)
    (hanchor : ∀ kind multiline, test ≠ .anchor kind multiline) (captures : Array Capture)
    (pos : Nat) : test.accept ctx captures pos = test.accept other captures pos := by
  cases test with
  | literal bytes => exact h.sameReach.acceptBytes
  | folded codes => exact h.sameReach.acceptFolded
  | set chars => rw [accept, accept, h.acceptChar, h.encoding, h.codeAt]
  | word negated => rw [accept, accept, h.acceptChar, h.wordAt]
  | backref groups ignoreCase =>
      have hgroup : acceptGroup ctx captures pos ignoreCase =
          acceptGroup other captures pos ignoreCase := by
        funext number
        rw [acceptGroup, acceptGroup]
        exact congrArg _ (funext fun _ => h.acceptCopy)
      rw [accept, accept, hgroup]
  | anyChar newlines => exact absurd rfl (hdot newlines)
  | anchor kind multiline => exact absurd rfl (hanchor kind multiline)

end RegexEngine
