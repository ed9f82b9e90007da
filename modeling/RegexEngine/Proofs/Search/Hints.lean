import RegexEngine.Proofs.Search.Answer
import RegexEngine.Proofs.Search.Opening

/-!
# Hints are Invisible

A search that knows something about the start of every match leaves positions out. It answers what a
search answers that knows nothing and attempts a match at every character: the same match, the same
error and the same region. For every position that is left out, the first test of the program
refuses it, and an attempt there changes nothing that a later attempt could see.

An anchor holds at a single position, so there is nothing left to say about the positions behind it.
A literal is looked for byte by byte, and could be found in the middle of a character that the other
search steps over. It is not, in a text of the encoding: a literal begins with a byte that starts a
character, and between a position and the next one there is none.

## Main definitions

* `Program.withoutHints`: A program that knows nothing about the start of a match.

## Theorems

* `not_isHead_between`: No character starts between a position and the next one.
* `nextOccurrence_skip`: Where nothing occurs, the next occurrence stays the same.
* `scan_anchored`, `scan_occurrences`: Scans that leave positions out.
* `findFrom_of_textStart`: A search that trusts the start of the text to be the only place.
* `search_withoutHints`: A search answers the same without hints.
-/

namespace RegexEngine

namespace Utf8

variable {b : UInt8} {n i : Nat} {rest : List UInt8}

theorem leadLength_tail (h : isTail b = true) : leadLength b = 1 := by
  simp only [isTail, Bool.and_eq_true, decide_eq_true_eq] at h
  have hlt : b < 0xc2 := UInt8.lt_trans h.2 (by decide)
  rw [leadLength, if_pos hlt]

/-- The bytes that are owed are continuing ones. -/
theorem isTail_of_validFrom (h : validFrom n rest = true) (hi : i < n) :
    ∃ b, rest[i]? = some b ∧ isTail b = true := by
  induction n generalizing rest i with
  | zero => omega
  | succ n ih =>
      cases rest with
      | nil => cases h
      | cons b rest =>
          simp only [validFrom, Bool.and_eq_true] at h
          cases i with
          | zero => exact ⟨b, rfl, h.1⟩
          | succ i =>
              rw [List.getElem?_cons_succ]
              exact ih h.2 (by omega)

end Utf8

namespace Encoding

variable {enc : Encoding} {text : List UInt8}

theorem Remains.drop (h : enc.Remains text) (n : Nat) : enc.Remains (text.drop n) := by
  induction n generalizing text with
  | zero => exact h
  | succ n ih =>
      cases text with
      | nil => exact h
      | cons b rest => exact ih h.tail

/-- In a text of the encoding, no character starts between a position and the next one. -/
theorem not_isHead_between {data : Array UInt8} (h : enc.isValid data.toList = true) {pos q : Nat}
    (hlow : pos < q) (hhigh : q < pos + enc.charLength data pos) :
    enc.isHead (data.getD q 0) = false := by
  rw [charLength] at hhigh
  cases enc with
  | ascii =>
      -- Every byte is a character.
      rw [leadLength] at hhigh
      omega
  | utf8 =>
      have hq : q < data.size := by omega
      have hpos : pos < data.toList.length := by
        rw [Array.length_toList]
        omega
      have hremains := (Remains.of_isValid h).drop pos
      rw [List.drop_eq_getElem_cons hpos] at hremains
      have hbyte : data.getD pos 0 = data.toList[pos] := getD_of_lt (by omega)
      rw [leadLength, hbyte] at hhigh
      -- A byte that announces more bytes starts a character, so these follow.
      have hhead : isHead utf8 data.toList[pos] = true := by
        rw [isHead, Bool.not_eq_true']
        by_contra htail
        rw [Bool.not_eq_false] at htail
        rw [Utf8.leadLength_tail htail] at hhigh
        omega
      have hvalid := hremains.isValid hhead
      simp only [isValid, Utf8.isValid, Utf8.validFrom, Bool.and_eq_true] at hvalid
      rcases Utf8.isTail_of_validFrom (i := q - pos - 1) hvalid.2 (by omega) with ⟨b, hget, htail⟩
      rw [List.getElem?_drop, Array.getElem?_toList] at hget
      have hindex : pos + 1 + (q - pos - 1) = q := by omega
      rw [hindex] at hget
      rw [Array.getD_eq_getD_getElem?, hget, Option.getD_some, isHead, htail, Bool.not_true]

end Encoding

namespace Context

variable {ctx : Context} {bytes : List UInt8} {pos next count : Nat}

theorem occurrenceAmong_skip {n : Nat} (h : ∀ i, i < n → ctx.acceptBytes (pos + i) bytes = none) :
    ctx.occurrenceAmong bytes (n + count) pos = ctx.occurrenceAmong bytes count (pos + n) := by
  induction n generalizing pos with
  | zero => rw [Nat.zero_add, Nat.add_zero]
  | succ n ih =>
      have hhere : ctx.acceptBytes pos bytes = none := h 0 (Nat.succ_pos n)
      rw [Nat.succ_add, occurrenceAmong, hhere, Option.isSome_none, if_neg Bool.false_ne_true]
      have hrest : ∀ i, i < n → ctx.acceptBytes (pos + 1 + i) bytes = none := by
        intro i hi
        have hlater := h (i + 1) (Nat.succ_lt_succ hi)
        rw [Nat.add_right_comm, Nat.add_assoc]
        exact hlater
      rw [ih hrest, Nat.add_assoc, Nat.add_comm 1 n]

/-- Where nothing occurs, the next occurrence stays the same. -/
theorem nextOccurrence_skip (hle : pos ≤ next) (hnext : next ≤ ctx.range + 1)
    (h : ∀ q, pos ≤ q → q < next → ctx.acceptBytes q bytes = none) :
    ctx.nextOccurrence bytes pos = ctx.nextOccurrence bytes next := by
  have hsplit : ctx.range + 1 - pos = (next - pos) + (ctx.range + 1 - next) := by omega
  have hend : pos + (next - pos) = next := by omega
  rw [nextOccurrence, nextOccurrence, hsplit, occurrenceAmong_skip, hend]
  intro i hi
  exact h (pos + i) (Nat.le_add_right pos i) (by omega)

theorem nextOccurrence_here (hpos : pos ≤ ctx.range) (h : (ctx.acceptBytes pos bytes).isSome) :
    ctx.nextOccurrence bytes pos = some pos := by
  have hcount : ctx.range + 1 - pos = (ctx.range - pos) + 1 := by omega
  rw [nextOccurrence, hcount, occurrenceAmong, if_pos h]

theorem nextOccurrence_none (h : ∀ q, pos ≤ q → ctx.acceptBytes q bytes = none) :
    ctx.nextOccurrence bytes pos = none := by
  have hskip : ctx.occurrenceAmong bytes (ctx.range + 1 - pos + 0) pos = none :=
    occurrenceAmong_skip fun i _ => h (pos + i) (Nat.le_add_right pos i)
  exact hskip

/-- A text that does not begin with the first byte of a character is not what a literal stands for.
-/
theorem acceptBytes_of_not_isHead (hbegins : ctx.encoding.Begins bytes) (hbytes : bytes ≠ [])
    (h : ctx.encoding.isHead (ctx.byteAt pos) = false) : ctx.acceptBytes pos bytes = none := by
  cases bytes with
  | nil => exact absurd rfl hbytes
  | cons b rest =>
      have hdiffers : ctx.byteAt pos ≠ b := by
        intro hsame
        rw [hsame, hbegins b rfl] at h
        cases h
      rw [acceptBytes, if_neg (by simp [hdiffers])]

/-- There is nothing to accept behind the range. -/
theorem acceptBytes_of_range_le (hbytes : bytes ≠ []) (h : ctx.range ≤ pos) :
    ctx.acceptBytes pos bytes = none := by
  cases bytes with
  | nil => exact absurd rfl hbytes
  | cons b rest =>
      have hlt : ¬ pos < ctx.range := Nat.not_lt.mpr h
      rw [acceptBytes, if_neg (by simp [hlt])]

end Context

/-- The program, without what was known about the start of a match. -/
def Program.withoutHints (program : Program) : Program :=
  { program with hints := {} }

namespace Machine

variable {program : Program} {limits : Limits} {ctx : Context} {fuel start : Nat}

/-- A step does not look at the hints, and so a run does not. -/
theorem run_withoutHints (m : Machine) :
    run program.withoutHints limits ctx fuel m = run program limits ctx fuel m :=
  have hstep : ∀ m : Machine, m.step program.withoutHints limits ctx = m.step program limits ctx :=
    fun _ => rfl
  run_congr (fun state _ => hstep state) fuel

theorem attempt_withoutHints (m : Machine) :
    m.attempt program.withoutHints limits ctx fuel start =
      m.attempt program limits ctx fuel start :=
  run_withoutHints _

/-- Matchers that begin an attempt in the same way. -/
def Alike (m other : Machine) : Prop :=
  ∀ start, m.restart start = other.restart start

theorem Alike.attempt {m other : Machine} (h : m.Alike other) :
    m.attempt program limits ctx fuel start = other.attempt program limits ctx fuel start := by
  rw [Machine.attempt, Machine.attempt, h start]

theorem Alike.best {m other : Machine} (h : m.Alike other) : m.best = other.best := by
  have hrestart : (m.restart 0).best = (other.restart 0).best := by rw [h 0]
  exact hrestart

theorem alike_restart {m other : Machine} (h : m.Alike other) (start : Nat) :
    m.Alike (other.restart start) := by
  intro later
  rw [restart_restart]
  exact h later

end Machine

namespace Program

variable {program : Program} {limits : Limits} {ctx : Context} {fuel last pos count : Nat}
  {m : Machine}

/-- An attempt at a position is over at once. -/
def RefusesAt (program : Program) (limits : Limits) (ctx : Context) (fuel pos : Nat) : Prop :=
  ∀ m : Machine, m.attempt program limits ctx fuel pos = .ok (.exhausted (m.restart pos))

/-- A scan finds nothing new where every attempt is over at once. -/
theorem scan_refused (h : ∀ q, pos ≤ q → program.RefusesAt limits ctx fuel q) :
    (program.withoutHints.scan limits ctx fuel last count m pos).map matchOf = .ok m.best := by
  induction count generalizing m pos with
  | zero => rfl
  | succ count ih =>
      rw [scan]
      rcases hoccurs : ctx.nextOccurrence program.withoutHints.hints.literal pos with _ | start
      · rfl
      · have hstart := (Context.nextOccurrence_le hoccurs).1
        have hlength := Encoding.charLength_pos ctx.encoding ctx.subject start
        -- Whatever is attempted, the matcher is handed on with the match that it had noted.
        simp only [Machine.attempt_withoutHints, h start hstart m]
        split
        · rfl
        · exact ih fun q hq => h q (by omega)

/-- A scan may end at a position behind which every attempt is over at once. -/
theorem scan_anchored (hliteral : program.hints.literal = []) (hlast : last ≤ pos)
    (h : ∀ q, pos < q → program.RefusesAt limits ctx fuel q) :
    (program.scan limits ctx fuel last count m pos).map matchOf =
      (program.withoutHints.scan limits ctx fuel ctx.range count m pos).map matchOf := by
  -- An attempt is made at the same position in both scans, and what they make of it differs only
  -- after a failure.
  cases count with
  | zero => rfl
  | succ count =>
      have hsame : program.withoutHints.hints.literal = program.hints.literal := hliteral.symm
      rw [scan, scan, hsame]
      rcases hoccurs : ctx.nextOccurrence program.hints.literal pos with _ | start
      · rfl
      · have hstart := (Context.nextOccurrence_le hoccurs).1
        have hlength := Encoding.charLength_pos ctx.encoding ctx.subject start
        simp only [Machine.attempt_withoutHints]
        rcases m.attempt program limits ctx fuel start with interrupt | after | after
        · rfl
        · rfl
        · -- The scan that goes on finds what has been found by now.
          simp only [if_pos (Or.inl (Nat.le_trans hlast hstart))]
          split
          · rfl
          · exact (scan_refused fun q hq => h q (by omega)).symm

/-- A scan may leave positions out where every attempt is over at once. The two scans are at the
same position, but the one that leaves none out has restarted its matcher more often. -/
theorem scan_occurrences {count' : Nat} {m' : Machine}
    (hrefuses : ∀ q, ctx.acceptBytes q program.hints.literal = none →
      program.RefusesAt limits ctx fuel q)
    (hbetween : ∀ pos q, pos < q → q < pos + ctx.encoding.charLength ctx.subject pos →
      ctx.acceptBytes q program.hints.literal = none)
    (hbehind : ∀ q, ctx.range ≤ q → ctx.acceptBytes q program.hints.literal = none)
    (halike : m.Alike m') (hpos : pos ≤ ctx.range) (hcount : ctx.range + 1 - pos ≤ count)
    (hcount' : ctx.range + 1 - pos ≤ count') :
    (program.scan limits ctx fuel ctx.range count m pos).map matchOf =
      (program.withoutHints.scan limits ctx fuel ctx.range count' m' pos).map matchOf := by
  -- The induction is on the count of the scan that leaves no position out; the other one may need
  -- less. Both counts are enough for what is left of the range.
  induction count' generalizing count m m' pos with
  | zero => omega
  | succ count' ih =>
      obtain ⟨count, rfl⟩ : ∃ before, count = before + 1 := ⟨count - 1, by omega⟩
      have hlength := Encoding.charLength_pos ctx.encoding ctx.subject pos
      have heverywhere : ctx.nextOccurrence program.withoutHints.hints.literal pos = some pos :=
        Context.nextOccurrence_here hpos rfl
      rcases haccepts : ctx.acceptBytes pos program.hints.literal with _ | stop
      · -- Nothing occurs here nor before the next character, which is where both go on.
        have hskips : ∀ q, pos ≤ q → q < pos + ctx.encoding.charLength ctx.subject pos →
            ctx.acceptBytes q program.hints.literal = none := by
          intro q hle hlt
          rcases Nat.eq_or_lt_of_le hle with rfl | hlater
          · exact haccepts
          · exact hbetween pos q hlater hlt
        rw [scan.eq_def program.withoutHints]
        simp only [heverywhere, Machine.attempt_withoutHints, hrefuses pos haccepts m']
        -- The scan is at its end, or the next character is still inside of the range.
        by_cases hstops :
            ctx.range ≤ pos ∨ ctx.range < pos + ctx.encoding.charLength ctx.subject pos
        -- Behind this character the range is over, so the literal does not occur any more.
        · have hnone : ctx.nextOccurrence program.hints.literal pos = none := by
            refine Context.nextOccurrence_none fun q hle => ?_
            by_cases hlt : q < pos + ctx.encoding.charLength ctx.subject pos
            · exact hskips q hle hlt
            · exact hbehind q (by omega)
          rw [if_pos hstops, scan, hnone]
          exact congrArg Except.ok halike.best
        -- The occurrence that the hint leads to is the same from here and from the next character
        -- on.
        · have hskip := Context.nextOccurrence_skip (Nat.le_add_right pos _) (by omega) hskips
          have hscan : program.scan limits ctx fuel ctx.range (count + 1) m pos =
              program.scan limits ctx fuel ctx.range (count + 1) m
                (pos + ctx.encoding.charLength ctx.subject pos) := by
            rw [scan, scan, hskip]
          rw [if_neg hstops, hscan]
          exact ih (Machine.alike_restart halike pos) (by omega) (by omega) (by omega)
      · -- The literal occurs here, so both make an attempt, and from then on are at one again.
        have hhere : ctx.nextOccurrence program.hints.literal pos = some pos :=
          Context.nextOccurrence_here hpos (by rw [haccepts]; rfl)
        rw [scan, scan]
        simp only [hhere, heverywhere, Machine.attempt_withoutHints, halike.attempt]
        rcases m'.attempt program limits ctx fuel pos with interrupt | after | after
        · rfl
        · rfl
        · simp only
          split
          · rfl
          · exact ih (fun _ => rfl) (by omega) (by omega) (by omega)

/-- Without a literal to look for, all positions are scanned. -/
theorem scan_withoutHints (hliteral : program.hints.literal = []) :
    program.scan limits ctx fuel last count m pos =
      program.withoutHints.scan limits ctx fuel last count m pos := by
  have hsame : program.withoutHints.hints.literal = program.hints.literal := hliteral.symm
  induction count generalizing m pos with
  | zero => rfl
  | succ count ih => simp only [scan, hsame, Machine.attempt_withoutHints, ih]

/-- A position is refused where the first test of the program accepts nothing. -/
theorem refusesAt_of_startsWith {test : Leaf} (hstarts : program.StartsWith test)
    (h : ∀ captures, test.accept ctx captures pos = none) :
    program.RefusesAt limits ctx (fuel + 1) pos :=
  fun m => m.attempt_refused fuel hstarts (h _)

theorem refusesAt_anchor {kind : Anchor} {multiline : Bool}
    (hstarts : program.StartsWith (.anchor kind multiline))
    (h : ctx.anchorHolds kind multiline pos = false) :
    program.RefusesAt limits ctx (fuel + 1) pos := by
  refine refusesAt_of_startsWith hstarts fun captures => ?_
  rw [Leaf.accept, h, if_neg Bool.false_ne_true]

/-- The search that knows nothing is a scan of the whole range. -/
theorem findFrom_plain : program.withoutHints.findFrom limits ctx fuel =
    (program.withoutHints.scan limits ctx fuel ctx.range (ctx.range + 1 - ctx.searchStart)
      (Machine.initial program ctx.searchStart) ctx.searchStart).map matchOf :=
  rfl

/-- Where a match starts at the start of the text only, no other position is needed. -/
theorem findFrom_textStart (hhints : program.hints = { textStart := true })
    (h : ctx.multiline = false → ∀ q, 0 < q → program.RefusesAt limits ctx fuel q) :
    program.findFrom limits ctx fuel = program.withoutHints.findFrom limits ctx fuel := by
  have hliteral : program.hints.literal = [] := by rw [hhints]
  rw [findFrom_plain, findFrom, lastStart, hhints]
  cases hmultiline : ctx.multiline with
  | true =>
      rw [← scan_withoutHints hliteral]
      rfl
  | false =>
      by_cases hstart : ctx.searchStart = 0
      · simp only [hstart, Bool.not_false, Bool.and_self, if_true]
        exact scan_anchored hliteral (Nat.le_refl 0) (h hmultiline)
      · -- The search starts behind the only position, and makes no attempt at all.
        simp only [hstart, Bool.not_false, Bool.and_self, Bool.false_eq_true, if_true, if_false]
        change Except.ok (Machine.initial program ctx.searchStart).best = _
        refine (scan_refused fun q hq => h hmultiline q ?_).symm
        exact Nat.lt_of_lt_of_le (Nat.pos_of_ne_zero hstart) hq

/-- Where a match starts where the search starts, no other position is needed. -/
theorem findFrom_searchStart (hhints : program.hints = { searchStart := true })
    (h : ∀ q, ctx.searchStart < q → program.RefusesAt limits ctx fuel q) :
    program.findFrom limits ctx fuel = program.withoutHints.findFrom limits ctx fuel := by
  have hliteral : program.hints.literal = [] := by rw [hhints]
  have hlast : program.lastStart ctx = some ctx.searchStart := by rw [lastStart, hhints, if_pos rfl]
  rw [findFrom_plain, findFrom, hlast]
  exact scan_anchored hliteral (Nat.le_refl _) h

/-- Where a match starts with a literal, the positions where it occurs are enough. -/
theorem findFrom_literal {bytes : List UInt8} (hhints : program.hints = { literal := bytes })
    (hbytes : bytes ≠ []) (hbegins : ctx.encoding.Begins bytes)
    (hvalid : ctx.encoding.isValid ctx.subject.toList = true) (hstart : ctx.searchStart ≤ ctx.range)
    (h : ∀ q, ctx.acceptBytes q bytes = none → program.RefusesAt limits ctx fuel q) :
    program.findFrom limits ctx fuel = program.withoutHints.findFrom limits ctx fuel := by
  have hliteral : program.hints.literal = bytes := by rw [hhints]
  have hlast : program.lastStart ctx = some ctx.range := by rw [lastStart, hhints]; rfl
  rw [findFrom_plain, findFrom, hlast]
  refine scan_occurrences ?_ ?_ ?_ (fun _ => rfl) hstart (Nat.le_refl _) (Nat.le_refl _)
  · rw [hliteral]
    exact h
  -- The literal begins with a byte that starts a character, and there is none in between.
  · intro pos q hlow hhigh
    rw [hliteral]
    have hhead := Encoding.not_isHead_between hvalid hlow hhigh
    exact Context.acceptBytes_of_not_isHead hbegins hbytes hhead
  · intro q hq
    rw [hliteral]
    exact Context.acceptBytes_of_range_le hbytes hq

/-- The hint that a match starts at the start of the text is never seen in what is found. -/
theorem findFrom_of_textStart (htells : program.Tells program.hints)
    (htext : program.hints.textStart = true) :
    program.findFrom limits ctx (fuel + 1) =
      program.withoutHints.findFrom limits ctx (fuel + 1) := by
  generalize hhints : program.hints = hints at htells
  rw [hhints] at htext
  cases htells with
  | textStart starts =>
      refine findFrom_textStart hhints fun _ q hq => refusesAt_anchor starts ?_
      rw [Context.anchorHolds, beq_eq_false_iff_ne]
      omega
  | lineStart starts =>
      refine findFrom_textStart hhints fun hmultiline q hq => refusesAt_anchor starts ?_
      have hne : ¬ q = 0 := by omega
      rw [Context.anchorHolds, Context.atLineStart, if_neg hne, hmultiline]
      rfl
  | nothing | searchStart | literal => cases htext

/-- A search finds the same without hints, in a text of the encoding. -/
theorem findFrom_withoutHints (htells : program.Tells program.hints)
    (hencoding : ctx.encoding = program.encoding)
    (hvalid : ctx.encoding.isValid ctx.subject.toList = true)
    (hstart : ctx.searchStart ≤ ctx.range) :
    program.findFrom limits ctx (fuel + 1) =
      program.withoutHints.findFrom limits ctx (fuel + 1) := by
  have hnothing : program.hints = {} → program.findFrom limits ctx (fuel + 1) =
      program.withoutHints.findFrom limits ctx (fuel + 1) := by
    intro hhints
    rw [withoutHints, ← hhints]
  by_cases htext : program.hints.textStart = true
  · exact findFrom_of_textStart htells htext
  generalize hhints : program.hints = hints at htells
  rw [hhints] at htext
  -- What a hint tells is what the first test asks for, so the test refuses everywhere else.
  cases htells with
  | nothing => exact hnothing hhints
  | textStart | lineStart => exact absurd rfl htext
  | searchStart starts =>
      refine findFrom_searchStart hhints fun q hq => refusesAt_anchor starts ?_
      rw [Context.anchorHolds, beq_eq_false_iff_ne]
      omega
  | @literal bytes begins starts =>
      by_cases hbytes : bytes = []
      · exact hnothing (by rw [hhints, hbytes])
      · exact findFrom_literal hhints hbytes (hencoding ▸ begins) hvalid hstart
          fun q hq => refusesAt_of_startsWith starts fun _ => hq

/-- A search answers the same without hints, and leaves the same region. -/
theorem searchWithin_withoutHints {subject : Array UInt8} {start range : Nat} {region : Region}
    {given : Options} (htells : program.Tells program.hints)
    (hvalid : program.encoding.isValid subject.toList = true) :
    program.searchWithin (fuel + 1) subject start range region given limits =
      program.withoutHints.searchWithin (fuel + 1) subject start range region given limits := by
  have hoptions : program.withoutHints.checkOptions given = program.checkOptions given := rfl
  have hregion : program.withoutHints.checkRegion region = program.checkRegion region := rfl
  have hmake : Context.make program.withoutHints subject start range given =
      Context.make program subject start range given := rfl
  rw [searchWithin, searchWithin, hoptions, hregion, hmake]
  by_cases hrange : start ≤ range
  · rw [findFrom_withoutHints htells rfl hvalid hrange]
  · -- The range is refused either way.
    have hrefused : ¬ (start ≤ range ∧ range ≤ subject.size) := fun h => hrange h.1
    rw [checkRange, if_neg hrefused]
    rfl

section Compiled

variable {pattern : List UInt8} {asked : Options} {enc : Encoding} {dialect : Dialect}
  {readLimits : Limits}

/-- Hints are invisible: a search of a text of the encoding answers the same without them, be it a
match or an error, and leaves the same region, however many steps an attempt may take if it may take
any. -/
theorem search_withoutHints (hcompile : compile pattern asked enc dialect readLimits = .ok program)
    {subject : Array UInt8} (hvalid : enc.isValid subject.toList = true) (start range : Nat)
    (region : Region) (given : Options) (limits : Limits) :
    program.search subject start range region given limits =
        program.withoutHints.search subject start range region given limits ∧
      ∀ fuel, program.searchWithin (fuel + 1) subject start range region given limits =
        program.withoutHints.searchWithin (fuel + 1) subject start range region given limits := by
  rcases compile_ok hcompile with ⟨parsed, hparse, hprogram⟩
  have htells := tells_hints hparse hprogram
  have hencoding := (ofParsed_ok hparse hprogram).2.1
  rw [← hencoding] at hvalid
  have hwithin := fun fuel => @searchWithin_withoutHints program limits fuel subject start range
    region given htells hvalid
  -- A search may take some steps, so an attempt can be refused at its first one.
  have hbound : stepBound = (2 ^ 62 - 1) + 1 := rfl
  rw [search, search, hbound]
  exact ⟨hwithin _, hwithin⟩

/-- A search for `ab` in a text that begins with a character of two bytes. -/
theorem search_withoutHints_literal :
    ∃ program, compile [97, 98] {} .utf8 Dialect.standard {} = .ok program ∧
      program.hints.literal = [97, 98] ∧
      Encoding.utf8.isValid #[0xc3, 0xa9, 97, 98].toList = true ∧
      program.search #[0xc3, 0xa9, 97, 98] 0 4 (Region.ofCapacity 1) {} {} =
        program.withoutHints.search #[0xc3, 0xa9, 97, 98] 0 4 (Region.ofCapacity 1) {} {} := by
  have hcomputed : ((compile [97, 98] {} .utf8 Dialect.standard {}).toOption.any
      fun program => program.hints.literal == [97, 98]) = true := by decide +kernel
  have hvalid : Encoding.utf8.isValid #[0xc3, 0xa9, 97, 98].toList = true := by decide
  rcases exists_compiled hcomputed with ⟨program, hcompile, hliteral⟩
  refine ⟨program, hcompile, eq_of_beq hliteral, hvalid, ?_⟩
  exact (search_withoutHints hcompile hvalid 0 4 (Region.ofCapacity 1) {} {}).1

end Compiled

end Program

end RegexEngine
