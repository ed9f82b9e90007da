import RegexEngine.Proofs.Range.Walk

/-!
# Calls That Agree up to the End of the Range

Two calls that differ in the text at or behind the end of the range only, and not in how long it is,
can be told apart by few tests. Those that read characters take none that reaches over the end of
the range, and a line starts behind a newline that has been passed. What is left are the anchors
that look at the text in front of them: those for the end of a line and for the boundary of a word.

A repetition of captured text is read character by character if letters may differ in case. There
the captured text has to be one that can be walked over within the range. Otherwise its last
character could reach over the end of the range and be another one in the other call.

## Main definitions

* `Anchor.seesNext`: An anchor that looks at the text in front of it.
* `Context.Agrees`: Two calls that agree up to the end of the range.

## Theorems

* `foldedBetween`, `acceptCopy`: Text that can be walked over is read and repeated in the same way.
* `anchorHolds`: The anchors that do not look in front of them hold in the same places.
* `accept_agrees`: All other tests accept the same.
-/

namespace RegexEngine

/-- The anchor looks at the text in front of it: whether a newline follows, or a word. -/
def Anchor.seesNext : Anchor → Bool
  | lastLineEnd | lineEnd | wordBoundary | noWordBoundary => true
  | textStart | textEnd | lineStart | searchStart => false

namespace Context

/-- Two calls agree in everything but the bytes at or behind the end of the range. -/
structure Agrees (ctx other : Context) : Prop extends ctx.SameReach other where
  searchStart : ctx.searchStart = other.searchStart
  options : ctx.options = other.options
  multiline : ctx.multiline = other.multiline
  dotAll : ctx.dotAll = other.dotAll

namespace Agrees

variable {ctx other : Context} (h : ctx.Agrees other) {pos last : Nat}

include h

/-- Text that can be walked over is read in the same way. -/
theorem foldedBetween {fuel : Nat} (hwalks : ctx.Walks pos last) :
    ctx.foldedBetween fuel pos last = other.foldedBetween fuel pos last := by
  induction fuel generalizing pos with
  | zero => rfl
  | succ fuel ih =>
      rw [Context.foldedBetween, Context.foldedBetween]
      rcases Relation.ReflTransGen.cases_head hwalks with rfl | ⟨next, hpass, hrest⟩
      · rw [if_neg (Nat.lt_irrefl pos), if_neg (Nat.lt_irrefl pos)]
      · -- The walk goes on behind the character that is read.
        obtain ⟨n, hwithin, rfl⟩ := hpass
        rcases charWithin_eq_some.mp hwithin with ⟨hpos, hlength, -⟩
        rw [h.foldedAt hwithin, hlength, ← h.charLength hpos, ← h.encoding, hlength, ih hrest]

/-- Captured text that can be walked over is repeated in the same places. -/
theorem acceptCopy {ignoreCase : Bool} {span : Nat × Nat} (hwalks : ctx.Walks span.1 span.2) :
    ctx.acceptCopy pos ignoreCase span = other.acceptCopy pos ignoreCase span := by
  have htext : ctx.subject.extract span.1 span.2 = other.subject.extract span.1 span.2 := by
    rcases hwalks.ahead with hempty | ⟨-, hlast⟩
    · rw [hempty, Array.extract_empty_of_stop_le_start (Nat.le_refl _),
        Array.extract_empty_of_stop_le_start (Nat.le_refl _)]
    · exact h.extract hlast
  rw [Context.acceptCopy, Context.acceptCopy, h.acceptFolded, h.foldedBetween hwalks, htext,
    h.acceptBytes]

/-- Whether a line starts at a position is told by the byte before it. -/
theorem atLineStart (multiline : Bool) (hpos : pos ≤ ctx.range) :
    ctx.atLineStart multiline pos = other.atLineStart multiline pos := by
  rw [Context.atLineStart, Context.atLineStart, h.options, h.multiline, stop, stop, h.size]
  split
  · rfl
  · rw [h.newlineAt (by omega)]

/-- The anchors that do not look at the text in front of them hold in the same places. -/
theorem anchorHolds {kind : Anchor} (multiline : Bool) (hkind : kind.seesNext = false)
    (hpos : pos ≤ ctx.range) :
    ctx.anchorHolds kind multiline pos = other.anchorHolds kind multiline pos := by
  cases kind with
  | textStart => rfl
  | textEnd => rw [Context.anchorHolds, Context.anchorHolds, stop, stop, h.size]
  | lineStart => exact h.atLineStart multiline hpos
  | searchStart => rw [Context.anchorHolds, Context.anchorHolds, h.searchStart]
  | lastLineEnd | lineEnd | wordBoundary | noWordBoundary => cases hkind

end Agrees

end Context

/-- All tests but the anchors that look at the text in front of them accept the same. -/
theorem Leaf.accept_agrees {ctx other : Context} (h : ctx.Agrees other) {test : Leaf}
    {regs : Registers} {pos : Nat} (hpos : pos ≤ ctx.range)
    (htest : ∀ kind multiline, test = .anchor kind multiline → kind.seesNext = false)
    (hspans : ∀ n first last, regs.spans n = some (first, last) → ctx.Walks first last) :
    test.accept ctx regs.captures pos = test.accept other regs.captures pos := by
  -- A test looks at characters or bytes inside the range, where the subjects agree. A reference
  -- looks at the text of its group too, which lies where both can be walked.
  cases test with
  | literal bytes => exact h.acceptBytes
  | folded codes => exact h.acceptFolded
  | set chars =>
      refine h.acceptChar fun n hwithin => ?_
      rw [h.encoding, h.codeAt hwithin]
  | anyChar newlines =>
      refine h.acceptChar fun n hwithin => ?_
      rw [h.dotAll, h.newlineAt (Context.charWithin_eq_some.mp hwithin).1]
  | word negated =>
      refine h.acceptChar fun n hwithin => ?_
      rw [h.wordAt hwithin]
  | backref groups ignoreCase =>
      have hgroup : acceptGroup ctx regs.captures pos ignoreCase =
          acceptGroup other regs.captures pos ignoreCase := by
        funext number
        rw [acceptGroup, acceptGroup]
        rcases hspan : regs.captures[number]?.bind Capture.span? with _ | ⟨first, last⟩
        · rfl
        · exact h.acceptCopy (hspans number first last hspan)
      rw [accept, accept, hgroup]
  | anchor kind multiline => rw [accept, accept, h.anchorHolds multiline (htest _ _ rfl) hpos]

end RegexEngine
