import RegexEngine.Proofs.Safety.Attempt

/-!
# Looks at the Subject

A matcher looks at the subject in many places, and a look at an index that the subject does not have
is answered somehow. Here it is answered by nothing at all. Every function that looks at the subject
has a variant that gives up at the first look outside of it, be it a single byte or the text between
two indices, and the two agree in every state that is safe. So a matcher never depends on what it
would find outside.

The tests ask whether there is something to look at before they look. What they rely on is that the
position is not behind the range, that the range ends in the subject, and that no group ends before
it starts.

## Main definitions

* `Encoding.slice?`, `Encoding.charLength?`, `Encoding.codeAt?`, `Encoding.stepBack?`: The looks.
* `Leaf.accept?`: A test that gives up when it looks outside of the subject.
* `Machine.LooksInside`: No test and no step back at a state gives up.

## Theorems

* `charLength?_eq`, `codeAt?_eq`, `stepBack?_eq`: What is looked up inside of the subject.
* `accept?_eq`: A test does not give up.
* `Safe.looksInside`: A safe state looks inside only.
-/

namespace RegexEngine

namespace Encoding

/-- The bytes between two indices, if they are in order and the text has them. -/
def slice? (data : Array UInt8) (first last : Nat) : Option (List UInt8) :=
  if first ≤ last ∧ last ≤ data.size then some (data.extract first last).toList else none

/-- The length of the character at an index. -/
def charLength? (enc : Encoding) (data : Array UInt8) (pos : Nat) : Option Nat :=
  data[pos]?.map fun lead => max 1 (min (enc.leadLength lead) (data.size - pos))

/-- The code point of the character at an index. -/
def codeAt? (enc : Encoding) (data : Array UInt8) (pos : Nat) : Option Nat :=
  (enc.charLength? data pos).bind fun n => (slice? data pos (pos + n)).map enc.decode

/-- The last index at or before `pos`, and not before `start`, that holds no continuing byte. -/
def tailsBack? (data : Array UInt8) (start : Nat) : (pos : Nat) → Option Nat
  | 0 => some 0
  | pos + 1 =>
    if start < pos + 1 then
      data[pos + 1]?.bind fun b =>
        if Utf8.isTail b then tailsBack? data start pos else some (pos + 1)
    else some (pos + 1)

/-- The index where the character that covers `pos` starts. -/
def charHead? : Encoding → Array UInt8 → (start pos : Nat) → Option Nat
  | utf8, data, start, pos => tailsBack? data start pos
  | ascii, _, _, pos => some pos

/-- The head of the character before `pos`, if `pos` lies after `start`. -/
def prevHead? (enc : Encoding) (data : Array UInt8) (start pos : Nat) : Option (Option Nat) :=
  if pos ≤ start then some none else (enc.charHead? data start (pos - 1)).map some

/-- The index `n` characters before `pos`, if there are so many after `start`. -/
def stepBack? (enc : Encoding) (data : Array UInt8) (start : Nat) :
    (n pos : Nat) → Option (Option Nat)
  | 0, pos => some (some pos)
  | n + 1, pos =>
    (enc.prevHead? data start pos).bind fun
      | none => some none
      | some head => stepBack? enc data start n head

variable (enc : Encoding) {data : Array UInt8} {start pos : Nat}

theorem getD_of_lt (h : pos < data.size) : data.getD pos 0 = data[pos] := by
  rw [Array.getD_eq_getD_getElem?, Array.getElem?_eq_getElem h, Option.getD_some]

theorem slice?_eq {first last : Nat} (hle : first ≤ last) (hsize : last ≤ data.size) :
    slice? data first last = some (data.extract first last).toList :=
  if_pos ⟨hle, hsize⟩

theorem charLength?_eq (h : pos < data.size) :
    enc.charLength? data pos = some (enc.charLength data pos) := by
  rw [charLength?, charLength, getD_of_lt h, Array.getElem?_eq_getElem h, Option.map_some]

theorem decode_single (b : UInt8) : enc.decode [b] = b.toNat := by
  cases enc with
  | utf8 =>
      rw [decode, Utf8.decode]
      simp
  | ascii => rfl

theorem codeAt?_eq (h : pos < data.size) : enc.codeAt? data pos = some (enc.codeAt data pos) := by
  have hle := charLength_le enc data pos h
  rw [codeAt?, charLength?_eq enc h, Option.bind_some, slice?_eq (by omega) hle, Option.map_some,
    codeAt]
  -- A character of one byte is looked up without a slice.
  split
  · rename_i hone
    have hbyte : (data.extract pos (pos + 1)).toList = [data.getD pos 0] := by
      rw [getD_of_lt h, Array.toList_extract]
      simp [List.take_one, h]
    rw [hone, hbyte, decode_single]
  · rfl

theorem tailsBack?_eq (h : pos < data.size) :
    tailsBack? data start pos = some (tailsBack data start pos) := by
  induction pos with
  | zero => rfl
  | succ pos ih =>
      rw [tailsBack?, tailsBack, getD_of_lt h, Array.getElem?_eq_getElem h, Option.bind_some]
      by_cases hstart : start < pos + 1
      · rw [if_pos hstart, ih (by omega)]
        simp only [hstart, decide_true, Bool.true_and]
        split
        · rfl
        · rfl
      · rw [if_neg hstart, if_neg (by simp [hstart])]

theorem prevHead?_eq (h : pos ≤ data.size) :
    enc.prevHead? data start pos = some (enc.prevHead data start pos) := by
  rw [prevHead?, prevHead]
  by_cases hstart : pos ≤ start
  · rw [if_pos hstart, if_pos hstart]
  · rw [if_neg hstart, if_neg hstart]
    cases enc with
    | utf8 =>
        have hlt : pos - 1 < data.size := by omega
        rw [charHead?, tailsBack?_eq hlt]
        rfl
    | ascii => rfl

theorem stepBack?_eq {n : Nat} (h : pos ≤ data.size) :
    enc.stepBack? data start n pos = some (enc.stepBack data start n pos) := by
  induction n generalizing pos with
  | zero => rfl
  | succ n ih =>
      rw [stepBack?, stepBack, prevHead?_eq enc h, Option.bind_some]
      rcases hhead : enc.prevHead data start pos with _ | head
      · rfl
      · exact ih (by have := prevHead_lt hhead; omega)

end Encoding

namespace Context

variable (ctx : Context)

/-- The length of the character at a position, if it ends within the range. -/
def charWithin? (pos : Nat) : Option (Option Nat) :=
  if pos < ctx.range then
    (ctx.encoding.charLength? ctx.subject pos).map fun n =>
      if pos + n ≤ ctx.range then some n else none
  else some none

/-- The position behind the character at a position, if it ends within the range and is accepted. -/
def acceptChar? (pos : Nat) (accepted : Option Bool) : Option (Option Nat) :=
  (ctx.charWithin? pos).bind fun
    | none => some none
    | some n => accepted.map fun accepted => if accepted then some (pos + n) else none

/-- The position behind some bytes, if they are here and within the range. -/
def acceptBytes? (pos : Nat) (bytes : List UInt8) : Option (Option Nat) :=
  if pos + bytes.length ≤ ctx.range then
    (Encoding.slice? ctx.subject pos (pos + bytes.length)).map fun here =>
      if here = bytes then some (pos + bytes.length) else none
  else some none

/-- The folded code point at a position. -/
def foldedAt? (pos : Nat) : Option Nat :=
  (ctx.encoding.codeAt? ctx.subject pos).map ctx.encoding.fold

/-- The position behind characters that fold to some code points, if they are here and within the
range. -/
def acceptFolded? : (pos : Nat) → List Nat → Option (Option Nat)
  | pos, [] => some (some pos)
  | pos, c :: rest =>
    (ctx.acceptChar? pos ((ctx.foldedAt? pos).map (· == c))).bind fun
      | none => some none
      | some next => acceptFolded? next rest

/-- The folded code points of the characters that start between two positions, at most `fuel`. -/
def foldedBetween? : (fuel pos stop : Nat) → Option (List Nat)
  | 0, _, _ => some []
  | fuel + 1, pos, stop =>
    if pos < stop then
      (ctx.foldedAt? pos).bind fun code =>
        (ctx.encoding.charLength? ctx.subject pos).bind fun n =>
          (foldedBetween? fuel (pos + n) stop).map (code :: ·)
    else some []

/-- The position behind a repetition of the text between two positions. -/
def acceptCopy? (pos : Nat) (ignoreCase : Bool) (span : Nat × Nat) : Option (Option Nat) :=
  if ignoreCase then
    (ctx.foldedBetween? (span.2 - span.1) span.1 span.2).bind (ctx.acceptFolded? pos)
  else (Encoding.slice? ctx.subject span.1 span.2).bind (ctx.acceptBytes? pos)

/-- Whether a newline is at a position. -/
def newlineAt? (pos : Nat) : Option Bool :=
  ctx.subject[pos]?.map (· == 0x0a)

/-- Whether a word character starts at a position. -/
def wordAt? (pos : Nat) : Option Bool :=
  if pos < ctx.stop then (ctx.encoding.codeAt? ctx.subject pos).map ctx.encoding.isWord
  else some false

/-- Whether one side of a position is a word character and the other is not. -/
def atWordBoundary? (pos : Nat) : Option Bool :=
  (ctx.encoding.prevHead? ctx.subject 0 pos).bind fun head =>
    (head.elim (some false) ctx.wordAt?).bind fun before =>
      (ctx.wordAt? pos).map fun after => before != after

/-- Whether a line starts at a position. -/
def atLineStart? (multiline : Bool) (pos : Nat) : Option Bool :=
  if pos = 0 then some !ctx.options.notLineStart
  else if (multiline || ctx.multiline) && pos < ctx.stop then ctx.newlineAt? (pos - 1)
  else some false

/-- Whether a line ends at a position. -/
def atLineEnd? (multiline : Bool) (pos : Nat) : Option Bool :=
  if pos = ctx.stop then some !ctx.options.notLineEnd
  else
    (ctx.newlineAt? pos).map fun newline =>
      newline && (multiline || ctx.multiline || (pos + 1 == ctx.stop && !ctx.options.notLineEnd))

/-- Whether an anchor holds at a position. -/
def anchorHolds? (kind : Anchor) (multiline : Bool) (pos : Nat) : Option Bool :=
  match kind with
  | .textStart => some (pos == 0)
  | .textEnd => some (pos == ctx.stop)
  | .lastLineEnd =>
    if pos = ctx.stop then some true
    else if pos + 1 = ctx.stop then ctx.newlineAt? pos
    else some false
  | .lineStart => ctx.atLineStart? multiline pos
  | .lineEnd => ctx.atLineEnd? multiline pos
  | .searchStart => some (pos == ctx.searchStart)
  | .wordBoundary => ctx.atWordBoundary? pos
  | .noWordBoundary => (ctx.atWordBoundary? pos).map (!·)

end Context

namespace Leaf

/-- The position behind a repetition of the text of a group. -/
def acceptGroup? (ctx : Context) (captures : Array Capture) (pos : Nat) (ignoreCase : Bool)
    (number : Nat) : Option (Option Nat) :=
  (captures[number]?.bind Capture.span?).elim (some none) (ctx.acceptCopy? pos ignoreCase)

/-- The position behind the text that a test accepts at a position. -/
def accept? (ctx : Context) (captures : Array Capture) (pos : Nat) : Leaf → Option (Option Nat)
  | literal bytes => ctx.acceptBytes? pos bytes
  | folded codes => ctx.acceptFolded? pos codes
  | set chars =>
    ctx.acceptChar? pos ((ctx.encoding.codeAt? ctx.subject pos).map (chars.contains ctx.encoding))
  | anyChar newlines =>
    ctx.acceptChar? pos
      (if newlines || ctx.dotAll then some true else (ctx.newlineAt? pos).map (!·))
  | word negated => ctx.acceptChar? pos ((ctx.wordAt? pos).map (· != negated))
  | backref groups ignoreCase =>
    groups.reverse.findSomeM? (acceptGroup? ctx captures pos ignoreCase)
  | anchor kind multiline =>
    (ctx.anchorHolds? kind multiline pos).map fun holds => if holds then some pos else none

end Leaf

namespace Context

variable {ctx : Context} {pos : Nat}

theorem charWithin?_eq (hrange : ctx.range ≤ ctx.stop) :
    ctx.charWithin? pos = some (ctx.charWithin pos) := by
  rw [charWithin?, charWithin]
  by_cases hpos : pos < ctx.range
  · have hsize : pos < ctx.subject.size := Nat.lt_of_lt_of_le hpos hrange
    rw [if_pos hpos, if_pos hpos, Encoding.charLength?_eq ctx.encoding hsize, Option.map_some]
  · rw [if_neg hpos, if_neg hpos]

/-- The character is looked at if it ends within the range. -/
theorem acceptChar?_eq {looked : Option Bool} {accepted : Bool} (hrange : ctx.range ≤ ctx.stop)
    (hlooked : pos < ctx.range → looked = some accepted) :
    ctx.acceptChar? pos looked = some (ctx.acceptChar pos accepted) := by
  rw [acceptChar?, acceptChar, charWithin?_eq hrange, Option.bind_some]
  rcases hwithin : ctx.charWithin pos with _ | n
  · rfl
  · -- There is a character, so the look is at a position within the range.
    have hpos : pos < ctx.range := by
      by_contra hpos
      rw [charWithin, if_neg hpos] at hwithin
      cases hwithin
    rw [hlooked hpos]
    rfl

/-- The text between two indices, split into its first byte and the others. -/
theorem toList_extract_cons {data : Array UInt8} {n : Nat} (h : pos < data.size) :
    (data.extract pos (pos + (n + 1))).toList =
      data[pos] :: (data.extract (pos + 1) (pos + 1 + n)).toList := by
  have hlength : pos < data.toList.length := h
  have hfirst : pos + (n + 1) - pos = n + 1 := by omega
  have hrest : pos + 1 + n - (pos + 1) = n := by omega
  rw [Array.toList_extract, Array.toList_extract, List.extract_eq_take_drop,
    List.extract_eq_take_drop, hfirst, hrest, List.drop_eq_getElem_cons hlength,
    List.take_succ_cons, Array.getElem_toList]

/-- Bytes are accepted one after the other, or all at once. -/
theorem acceptBytes_eq {bytes : List UInt8} (hrange : ctx.range ≤ ctx.stop)
    (hpos : pos ≤ ctx.range) :
    ctx.acceptBytes pos bytes =
      if pos + bytes.length ≤ ctx.range ∧
        (ctx.subject.extract pos (pos + bytes.length)).toList = bytes then some (pos + bytes.length)
      else none := by
  -- By induction on the bytes; each one is compared with the byte at the position, if that is
  -- inside the range.
  induction bytes generalizing pos with
  | nil =>
      have hempty : (ctx.subject.extract pos (pos + 0)).toList = [] := by simp
      exact (if_pos ⟨hpos, hempty⟩).symm
  | cons b rest ih =>
      rw [acceptBytes]
      by_cases hlt : pos < ctx.range
      · have hsize : pos < ctx.subject.size := Nat.lt_of_lt_of_le hlt hrange
        have hsum : pos + (rest.length + 1) = pos + 1 + rest.length := by omega
        have htext := toList_extract_cons (n := rest.length) hsize
        rw [hsum] at htext
        simp only [hlt, decide_true, Bool.true_and, beq_iff_eq, byteAt, Encoding.getD_of_lt hsize,
          @ih (pos + 1) hlt, List.length_cons, hsum, htext, List.cons.injEq]
        by_cases hbyte : ctx.subject[pos] = b
        · simp only [hbyte, if_true, true_and]
        · simp only [hbyte, if_false, false_and, and_false]
      -- The text would not end inside the range.
      · have hlong : ¬ pos + (b :: rest).length ≤ ctx.range := by
          rw [List.length_cons]
          omega
        rw [if_neg (by simp [hlt]), if_neg fun h => hlong h.1]

theorem acceptBytes?_eq {bytes : List UInt8} (hrange : ctx.range ≤ ctx.stop)
    (hpos : pos ≤ ctx.range) :
    ctx.acceptBytes? pos bytes = some (ctx.acceptBytes pos bytes) := by
  rw [acceptBytes?, acceptBytes_eq hrange hpos]
  by_cases hle : pos + bytes.length ≤ ctx.range
  · have hsize : pos + bytes.length ≤ ctx.subject.size := Nat.le_trans hle hrange
    rw [if_pos hle, Encoding.slice?_eq (by omega) hsize, Option.map_some]
    simp only [hle, true_and]
  · rw [if_neg hle, if_neg fun h => hle h.1]

theorem foldedAt?_eq (h : pos < ctx.stop) : ctx.foldedAt? pos = some (ctx.foldedAt pos) := by
  have hcode := Encoding.codeAt?_eq ctx.encoding h
  rw [foldedAt?, hcode]
  rfl

theorem acceptFolded?_eq {codes : List Nat} (hrange : ctx.range ≤ ctx.stop) :
    ctx.acceptFolded? pos codes = some (ctx.acceptFolded pos codes) := by
  induction codes generalizing pos with
  | nil => rfl
  | cons c rest ih =>
      have hlooked : pos < ctx.range →
          (ctx.foldedAt? pos).map (· == c) = some (ctx.foldedAt pos == c) := by
        intro hpos
        rw [foldedAt?_eq (Nat.lt_of_lt_of_le hpos hrange), Option.map_some]
      rw [acceptFolded?, acceptFolded, acceptChar?_eq hrange hlooked, Option.bind_some]
      rcases ctx.acceptChar pos (ctx.foldedAt pos == c) with _ | next
      · rfl
      · exact ih

theorem foldedBetween?_eq {fuel last : Nat} (hlast : last ≤ ctx.stop) :
    ctx.foldedBetween? fuel pos last = some (ctx.foldedBetween fuel pos last) := by
  induction fuel generalizing pos with
  | zero => rfl
  | succ fuel ih =>
      rw [foldedBetween?, foldedBetween]
      by_cases hpos : pos < last
      · have hlt : pos < ctx.stop := Nat.lt_of_lt_of_le hpos hlast
        have hlength := Encoding.charLength?_eq ctx.encoding hlt
        rw [if_pos hpos, if_pos hpos, foldedAt?_eq hlt, Option.bind_some, hlength,
          Option.bind_some, ih]
        rfl
      · rw [if_neg hpos, if_neg hpos]

/-- The text of a group is looked at if the group does not end before it starts. -/
theorem acceptCopy?_eq {ignoreCase : Bool} {span : Nat × Nat} (hrange : ctx.range ≤ ctx.stop)
    (hpos : pos ≤ ctx.range) (hspan : span.1 ≤ span.2) (hlast : span.2 ≤ ctx.range) :
    ctx.acceptCopy? pos ignoreCase span = some (ctx.acceptCopy pos ignoreCase span) := by
  have hstop : span.2 ≤ ctx.stop := Nat.le_trans hlast hrange
  rw [acceptCopy?, acceptCopy]
  cases ignoreCase with
  | true =>
      rw [if_pos rfl, if_pos rfl, foldedBetween?_eq hstop, Option.bind_some]
      exact acceptFolded?_eq hrange
  | false =>
      rw [if_neg Bool.false_ne_true, if_neg Bool.false_ne_true, Encoding.slice?_eq hspan hstop,
        Option.bind_some]
      exact acceptBytes?_eq hrange hpos

theorem newlineAt?_eq (h : pos < ctx.stop) : ctx.newlineAt? pos = some (ctx.newlineAt pos) := by
  rw [newlineAt?, newlineAt, byteAt, Encoding.getD_of_lt h, Array.getElem?_eq_getElem h,
    Option.map_some]

theorem wordAt?_eq (pos : Nat) : ctx.wordAt? pos = some (ctx.wordAt pos) := by
  rw [wordAt?, wordAt]
  by_cases hpos : pos < ctx.stop
  · have hcode := Encoding.codeAt?_eq ctx.encoding hpos
    rw [if_pos hpos, hcode]
    simp only [hpos, decide_true, Bool.true_and]
    rfl
  · rw [if_neg hpos]
    simp [hpos]

theorem atWordBoundary?_eq (h : pos ≤ ctx.stop) :
    ctx.atWordBoundary? pos = some (ctx.atWordBoundary pos) := by
  have hhead : ctx.encoding.prevHead? ctx.subject 0 pos =
      some (ctx.encoding.prevHead ctx.subject 0 pos) := Encoding.prevHead?_eq ctx.encoding h
  rw [atWordBoundary?, hhead, Option.bind_some, atWordBoundary, wordBefore]
  rcases ctx.encoding.prevHead ctx.subject 0 pos with _ | head
  · rw [wordAt?_eq]
    rfl
  · rw [Option.elim_some, wordAt?_eq, wordAt?_eq]
    rfl

theorem atLineStart?_eq {multiline : Bool} :
    ctx.atLineStart? multiline pos = some (ctx.atLineStart multiline pos) := by
  rw [atLineStart?, atLineStart]
  by_cases hpos : pos = 0
  · rw [if_pos hpos, if_pos hpos]
  · rw [if_neg hpos, if_neg hpos]
    split
    · -- The byte before the position is looked at only where a line can start behind it.
      rename_i hlooked
      have hlt : pos - 1 < ctx.stop := by
        simp only [Bool.and_eq_true, decide_eq_true_eq] at hlooked
        omega
      rw [newlineAt?_eq hlt, hlooked, Bool.true_and]
    · rename_i hlooked
      rw [Bool.not_eq_true] at hlooked
      rw [hlooked, Bool.false_and]

theorem atLineEnd?_eq {multiline : Bool} (h : pos ≤ ctx.stop) :
    ctx.atLineEnd? multiline pos = some (ctx.atLineEnd multiline pos) := by
  rw [atLineEnd?, atLineEnd]
  by_cases hpos : pos = ctx.stop
  · rw [if_pos hpos, if_pos hpos]
  · rw [if_neg hpos, if_neg hpos, newlineAt?_eq (by omega), Option.map_some]

theorem anchorHolds?_eq {kind : Anchor} {multiline : Bool} (h : pos ≤ ctx.stop) :
    ctx.anchorHolds? kind multiline pos = some (ctx.anchorHolds kind multiline pos) := by
  cases kind with
  | textStart | textEnd | searchStart => rfl
  -- A byte is read only where it is the last one of the text.
  | lastLineEnd =>
      rw [anchorHolds?, anchorHolds]
      by_cases hpos : pos = ctx.stop
      · simp [hpos]
      · rw [if_neg hpos]
        by_cases hlast : pos + 1 = ctx.stop
        · rw [if_pos hlast, newlineAt?_eq (by omega)]
          simp [hpos, hlast]
        · rw [if_neg hlast]
          simp [hpos, hlast]
  | lineStart => exact atLineStart?_eq
  | lineEnd => exact atLineEnd?_eq h
  | wordBoundary => exact atWordBoundary?_eq h
  | noWordBoundary =>
      rw [anchorHolds?, atWordBoundary?_eq h]
      rfl

end Context

namespace Leaf

variable {ctx : Context} {captures : Array Capture} {pos : Nat}

theorem findSomeM?_some {α β : Type} {look : α → Option (Option β)} {f : α → Option β}
    (items : List α) (h : ∀ item, look item = some (f item)) :
    items.findSomeM? look = some (items.findSome? f) := by
  induction items with
  | nil => rfl
  | cons item rest ih =>
      rw [List.findSomeM?, h, List.findSome?]
      rcases f item with _ | found
      · exact ih
      · rfl

/-- A test does not give up at a position within the range, if no group ends before it starts. -/
theorem accept?_eq (test : Leaf) (hrange : ctx.range ≤ ctx.stop) (hpos : pos ≤ ctx.range)
    (hspans : ∀ (n : Nat) (first last : Nat), captures[n]?.bind Capture.span? = some (first, last) →
      first ≤ last ∧ last ≤ ctx.range) :
    test.accept? ctx captures pos = some (test.accept ctx captures pos) := by
  have hstop : pos ≤ ctx.stop := Nat.le_trans hpos hrange
  cases test with
  | literal bytes => exact Context.acceptBytes?_eq hrange hpos
  | folded codes => exact Context.acceptFolded?_eq hrange
  | set chars =>
      refine Context.acceptChar?_eq hrange fun hlt => ?_
      have hcode := Encoding.codeAt?_eq ctx.encoding (Nat.lt_of_lt_of_le hlt hrange)
      rw [hcode]
      rfl
  | anyChar newlines =>
      refine Context.acceptChar?_eq hrange fun hlt => ?_
      split
      · rename_i hany
        rw [hany, Bool.true_or]
      · rename_i hany
        rw [Bool.not_eq_true] at hany
        rw [hany, Context.newlineAt?_eq (Nat.lt_of_lt_of_le hlt hrange), Option.map_some,
          Bool.false_or]
  | word negated =>
      refine Context.acceptChar?_eq hrange fun _ => ?_
      rw [Context.wordAt?_eq, Option.map_some]
  | backref groups ignoreCase =>
      refine findSomeM?_some groups.reverse fun number => ?_
      rw [acceptGroup?, acceptGroup]
      -- A group that has not been closed is not looked at.
      rcases hspan : captures[number]?.bind Capture.span? with _ | span
      · rfl
      · rcases hspans number span.1 span.2 hspan with ⟨hle, hlast⟩
        exact Context.acceptCopy?_eq hrange hpos hle hlast
  | anchor kind multiline =>
      rw [accept?, Context.anchorHolds?_eq hstop]
      rfl

end Leaf

namespace Machine

variable {program : Program} {ctx : Context} {m first : Machine}

/-- No test and no step back at a state looks outside of the subject. -/
def LooksInside (program : Program) (ctx : Context) (m : Machine) : Prop :=
  (∀ test, m.fetch program = some (.leaf test) →
    test.accept? ctx m.registers.captures m.pos =
      some (test.accept ctx m.registers.captures m.pos)) ∧
  ∀ n, m.fetch program = some (.stepBack n) →
    ctx.encoding.stepBack? ctx.subject 0 n m.pos =
      some (ctx.encoding.stepBack ctx.subject 0 n m.pos)

/-- A safe state looks inside only, if the range ends in the subject. -/
theorem Safe.looksInside (h : m.Safe program ctx first) (hrange : ctx.range ≤ ctx.stop) :
    m.LooksInside program ctx :=
  ⟨fun test _ => test.accept?_eq hrange h.inside.1 h.spans,
    fun _ _ => Encoding.stepBack?_eq ctx.encoding (Nat.le_trans h.inside.1 hrange)⟩

end Machine

end RegexEngine
