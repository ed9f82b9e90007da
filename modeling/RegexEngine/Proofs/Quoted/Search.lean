import Mathlib.Order.Bounds.Defs
import RegexEngine.Proofs.Fragment.Basic
import RegexEngine.Proofs.Program.Compile
import RegexEngine.Proofs.Quoted.Reading
import RegexEngine.Proofs.Search.Leftmost

/-!
# Searching for a Text

A quoted text is compiled to the code that compares its bytes and ends the match. A search with this
code jumps from one occurrence of the text to the next. It looks for occurrences byte by byte, so
none is passed over, and the subject need not be a text of the encoding. At an occurrence the
attempt matches; and if the longest match is wanted, the first one is kept, since all are of the
same length.

Nothing is ever put on the stack and no choice is left, so no limit is met.

## Main definitions

* `Program.LooksFor`: A program has the code that looks for a text.
* `OccursAt`: A text occurs at a position.

## Theorems

* `nextOccurrence_eq_some`, `nextOccurrence_eq_none`: The next occurrence is the first one.
* `attempt_found`, `attempt_noted`: An attempt at an occurrence.
* `scan_text`, `scan_kept`: A scan finds the first occurrence and keeps it.
* `quoted_search`: A quoted text is looked for literally.
-/

namespace RegexEngine

/-- A text occurs at a position and ends at the limit or before it. -/
def OccursAt (subject : Array UInt8) (limit : Nat) (text : List UInt8) (pos : Nat) : Prop :=
  pos + text.length ≤ limit ∧ (subject.extract pos (pos + text.length)).toList = text

instance (subject : Array UInt8) (limit : Nat) (text : List UInt8) (pos : Nat) :
    Decidable (OccursAt subject limit text pos) :=
  inferInstanceAs (Decidable (_ ∧ _))

/-- A program that looks for a text. -/
structure Program.LooksFor (program : Program) (text : List UInt8) : Prop where
  code : program.code.toList = (if text = [] then [] else [.leaf (.literal text)]) ++ [.finish]
  groups : program.groups = 0
  hints : program.hints = { literal := text }

namespace Context

variable {ctx : Context} {text : List UInt8} {pos found count : Nat}

theorem acceptBytes_iff (hrange : ctx.range ≤ ctx.stop) (hpos : pos ≤ ctx.range) :
    (ctx.acceptBytes pos text).isSome ↔ OccursAt ctx.subject ctx.range text pos := by
  rw [acceptBytes_eq hrange hpos, OccursAt]
  split
  · exact iff_of_true rfl ‹_›
  · exact iff_of_false Bool.false_ne_true ‹_›

theorem occurrenceAmong_first (h : ctx.occurrenceAmong text count pos = some found) :
    (ctx.acceptBytes found text).isSome ∧
      ∀ q, pos ≤ q → q < found → (ctx.acceptBytes q text).isSome = false := by
  induction count generalizing pos with
  | zero => cases h
  | succ count ih =>
      rw [occurrenceAmong] at h
      split at h
      · cases h
        exact ⟨‹_›, fun q hlow hhigh => absurd hlow (Nat.not_le.mpr hhigh)⟩
      · rename_i hhere
        rcases ih h with ⟨haccept, hnone⟩
        refine ⟨haccept, fun q hlow hhigh => ?_⟩
        rcases Nat.eq_or_lt_of_le hlow with rfl | hlt
        · exact Bool.not_eq_true _ ▸ hhere
        · exact hnone q hlt hhigh

theorem occurrenceAmong_none (h : ctx.occurrenceAmong text count pos = none) {q : Nat}
    (hlow : pos ≤ q) (hhigh : q < pos + count) : (ctx.acceptBytes q text).isSome = false := by
  induction count generalizing pos with
  | zero => omega
  | succ count ih =>
      rw [occurrenceAmong] at h
      split at h
      · cases h
      · rename_i hhere
        rcases Nat.eq_or_lt_of_le hlow with rfl | hlt
        · exact Bool.not_eq_true _ ▸ hhere
        · exact ih h hlt (by omega)

theorem acceptBytes_next (h : ctx.nextOccurrence text pos = some found) :
    ctx.acceptBytes found text = some (found + text.length) := by
  rcases Option.isSome_iff_exists.mp (occurrenceAmong_first h).1 with ⟨last, hlast⟩
  rw [hlast, (ahead_of_acceptBytes hlast).1]

/-- The next occurrence is the first one from here on. -/
theorem nextOccurrence_eq_some (hrange : ctx.range ≤ ctx.stop)
    (h : ctx.nextOccurrence text pos = some found) :
    IsLeast {i | pos ≤ i ∧ OccursAt ctx.subject ctx.range text i} found := by
  rcases nextOccurrence_le h with ⟨hle, hfound⟩
  rcases occurrenceAmong_first h with ⟨haccept, hnone⟩
  refine ⟨⟨hle, (acceptBytes_iff hrange hfound).mp haccept⟩, fun q ⟨hlow, hoccurs⟩ => ?_⟩
  by_contra hlt
  rw [Nat.not_le] at hlt
  have hq := (acceptBytes_iff hrange (Nat.le_of_lt (Nat.lt_of_lt_of_le hlt hfound))).mpr hoccurs
  rw [hnone q hlow hlt] at hq
  cases hq

/-- Without a next occurrence there is none. -/
theorem nextOccurrence_eq_none (hrange : ctx.range ≤ ctx.stop)
    (h : ctx.nextOccurrence text pos = none) {q : Nat} (hlow : pos ≤ q) :
    ¬ OccursAt ctx.subject ctx.range text q := by
  intro hoccurs
  have hle : q ≤ ctx.range := Nat.le_trans (Nat.le_add_right _ _) hoccurs.1
  have hq := (acceptBytes_iff hrange hle).mpr hoccurs
  rw [occurrenceAmong_none h hlow (by omega)] at hq
  cases hq

end Context

/-- A match without groups leaves its own span. -/
theorem Region.toList_fill {region : Region} (h : 0 < region.capacity) (start stop : Nat) :
    (region.fill ⟨start, stop, Array.replicate 1 {}⟩).toList = [some (start, stop)] := by
  have hfirst : (region.fill ⟨start, stop, Array.replicate 1 {}⟩).get? 0 = some (start, stop) := by
    rw [get?, slot_fill, if_pos h]
    rfl
  exact congrArg (fun span => [span]) hfirst

namespace Program.LooksFor

variable {program : Program} {text : List UInt8} {ctx : Context} {fuel last count : Nat}
  (h : program.LooksFor text) (limits : Limits) (m : Machine) {pos : Nat}

include h

/-- Where the text occurs, an attempt comes to the end of the code, behind the text. -/
theorem attempt_arrives (hoccurs : ctx.acceptBytes pos text = some last) (hfuel : 2 ≤ fuel) :
    ∃ pc left, program.instrAt pc = some .finish ∧
      m.attempt program limits ctx fuel pos =
        (m.restart pos).resume program limits ctx (left + 1)
          (.running pc last m.registers.clear []) := by
  obtain ⟨left, rfl⟩ : ∃ left, fuel = left + 2 := ⟨fuel - 2, by omega⟩
  -- The code is the comparison with the text, if there is any, and the end of the match.
  have hat : program.CodeAt 0 ((if text = [] then [] else [.leaf (.literal text)]) ++ [.finish]) :=
    ⟨[], [], by rw [h.code, List.append_nil, List.nil_append], rfl⟩
  by_cases hempty : text = []
  · rw [if_pos hempty] at hat
    rw [hempty] at hoccurs
    cases hoccurs
    exact ⟨0, left + 1, hat.head, rfl⟩
  · rw [if_neg hempty] at hat
    refine ⟨1, left, hat.tail.head, ?_⟩
    -- The comparison succeeds where the text occurs, and the next instruction ends the match.
    have hobey : (m.restart pos).obey program limits ctx (.leaf (.literal text)) =
        .ok (.goOn { (m.restart pos).next with pos := last }) :=
      congrArg (fun found => Except.ok ((m.restart pos).moveTo found)) hoccurs
    rw [Machine.attempt, Machine.run_succ, Machine.step_effect hat.head hobey]
    rfl

/-- There the text is found. -/
theorem attempt_found (hoccurs : ctx.acceptBytes pos text = some last) (hfuel : 2 ≤ fuel)
    (hempty : ctx.options.findNotEmpty = false) (hshortest : ctx.options.findLongest = false) :
    ∃ after, m.attempt program limits ctx fuel pos = .ok (.matched after) ∧
      after.found = ⟨pos, last, m.registers.clear.captures⟩ := by
  rcases h.attempt_arrives limits m hoccurs hfuel with ⟨pc, left, hends, hattempt⟩
  rw [hattempt, Machine.resume_finish _ hends, if_neg (Means.not_refuses hempty _), hshortest,
    if_neg Bool.false_ne_true]
  exact ⟨_, rfl, rfl⟩

/-- If the longest match is wanted, it is noted there. -/
theorem attempt_noted (hoccurs : ctx.acceptBytes pos text = some last) (hfuel : 2 ≤ fuel)
    (hempty : ctx.options.findNotEmpty = false) (hlongest : ctx.options.findLongest = true) :
    ∃ after, m.attempt program limits ctx fuel pos = .ok (.exhausted after) ∧
      after.best = Found.orLonger m.best ⟨pos, last, m.registers.clear.captures⟩ := by
  rcases h.attempt_arrives limits m hoccurs hfuel with ⟨pc, left, hends, hattempt⟩
  rw [hattempt, Machine.resume_finish _ hends, if_neg (Means.not_refuses hempty _), if_pos hlongest]
  exact ⟨_, rfl, rfl⟩

/-- When an occurrence has been noted, a scan notes no other one. -/
theorem scan_kept (hfuel : 2 ≤ fuel) (hempty : ctx.options.findNotEmpty = false)
    (hlongest : ctx.options.findLongest = true) {best : Found} (hbest : m.best = some best)
    (hlength : best.length = text.length) (count pos : Nat) :
    ∃ after, program.scan limits ctx fuel ctx.range count m pos = .ok (.exhausted after) ∧
      after.best = some best := by
  induction count generalizing m pos with
  | zero => exact ⟨m, rfl, hbest⟩
  | succ count ih =>
      rw [scan, h.hints]
      rcases hnext : ctx.nextOccurrence text pos with _ | found
      · exact ⟨m, rfl, hbest⟩
      · rcases h.attempt_noted limits m (Context.acceptBytes_next hnext) hfuel
          hempty hlongest with ⟨after, hattempt, hnoted⟩
        -- All occurrences are of the same length, and of those the first one is kept.
        have hsame : ¬ best.length < Found.length
            ⟨found, found + text.length, m.registers.clear.captures⟩ := by
          rw [hlength]
          exact Nat.not_lt.mpr (Nat.le_of_eq (Nat.add_sub_cancel_left _ _))
        rw [hbest, Found.orLonger, if_neg hsame] at hnoted
        simp only [hattempt]
        split
        · exact ⟨after, rfl, hnoted⟩
        · exact ih after hnoted _

/-- A scan finds the next occurrence. -/
theorem scan_text (pos : Nat) (hfuel : 2 ≤ fuel) (hempty : ctx.options.findNotEmpty = false)
    (hbest : m.best = none) (hcount : 0 < count) :
    ∃ verdict, program.scan limits ctx fuel ctx.range count m pos = .ok verdict ∧
      matchOf verdict = (ctx.nextOccurrence text pos).map fun found =>
        ⟨found, found + text.length, m.registers.clear.captures⟩ := by
  -- One attempt is enough, at the first occurrence.
  obtain ⟨count, rfl⟩ : ∃ k, count = k + 1 := ⟨count - 1, by omega⟩
  rw [scan, h.hints]
  rcases hnext : ctx.nextOccurrence text pos with _ | found
  · exact ⟨_, rfl, hbest⟩
  have hoccurs := Context.acceptBytes_next hnext
  simp only
  -- The match is the answer, or it is noted and stays the longest one, since the later ones are as
  -- long and lie behind.
  rcases hlongest : ctx.options.findLongest with _ | _
  · rcases h.attempt_found limits m hoccurs hfuel hempty hlongest with
      ⟨after, hattempt, hfound⟩
    rw [hattempt]
    exact ⟨_, rfl, congrArg some hfound⟩
  · rcases h.attempt_noted limits m hoccurs hfuel hempty hlongest with
      ⟨after, hattempt, hnoted⟩
    rw [hbest] at hnoted
    rw [hattempt]
    simp only
    split
    · exact ⟨_, rfl, hnoted⟩
    · rcases h.scan_kept limits after hfuel hempty hlongest hnoted
        (Nat.add_sub_cancel_left _ _) count
        (found + ctx.encoding.charLength ctx.subject found) with ⟨last, hscan, hkept⟩
      exact ⟨_, hscan, hkept⟩

/-- What a search finds is the first occurrence. -/
theorem findFrom_text (hfuel : 2 ≤ fuel) (hempty : ctx.options.findNotEmpty = false)
    (hstart : ctx.searchStart ≤ ctx.range) :
    program.findFrom limits ctx fuel =
      .ok ((ctx.nextOccurrence text ctx.searchStart).map fun found =>
        ⟨found, found + text.length, Array.replicate 1 {}⟩) := by
  -- Without hints on anchors every start up to the range is tried.
  have hlast : program.lastStart ctx = some ctx.range := by
    rw [lastStart, h.hints]
    rfl
  have hcount : 0 < ctx.range + 1 - ctx.searchStart := by omega
  rcases h.scan_text limits (Machine.initial program ctx.searchStart) ctx.searchStart hfuel hempty
    rfl hcount with ⟨verdict, hscan, hfound⟩
  have hcaptures : (Machine.initial program ctx.searchStart).registers.clear.captures =
      Array.replicate 1 {} := by
    have hsize : (Registers.fresh program).captures.size = 1 := by
      rw [Registers.fresh, Array.size_replicate, slotCount, h.groups]
    exact congrArg (Array.replicate · ({} : Capture)) hsize
  rw [findFrom, hlast]
  simp only [hscan]
  rw [hcaptures] at hfound
  exact congrArg Except.ok hfound

/-- A search answers with the first occurrence. -/
theorem searchWithin_text {subject : Array UInt8} {start range : Nat} {region : Region}
    {asked : Options} (hstart : start ≤ range) (hrange : range ≤ subject.size)
    (hregion : program.slotCount ≤ region.capacity) (hasked : program.checkOptions asked = .ok ())
    (hempty : (asked.union program.options).findNotEmpty = false) (hfuel : 2 ≤ fuel) :
    let answer := program.searchWithin fuel subject start range region asked limits
    (∃ i, IsLeast {i | start ≤ i ∧ OccursAt subject range text i} i ∧ answer.1 = .ok (some i) ∧
        answer.2.toList = [some (i, i + text.length)]) ∨
      (∀ i, start ≤ i → ¬ OccursAt subject range text i) ∧ answer.1 = .ok none ∧
        answer.2.toList = [] := by
  intro answer
  let ctx := Context.make program subject start range asked
  -- The call is not refused, so its answer is that of the search.
  have hchecks : program.checkCall region asked = .ok () := by
    rw [checkCall, hasked, checkRegion, if_pos hregion]
    rfl
  have hanswer : answer = report region Found.start
      (.ok ((ctx.nextOccurrence text start).map fun found =>
        ⟨found, found + text.length, Array.replicate 1 {}⟩)) := by
    refine (searchWithin_checked ⟨hstart, hrange⟩).trans ?_
    rw [hchecks]
    exact congrArg (report region Found.start) (h.findFrom_text limits hfuel hempty hstart)
  -- The next occurrence is the least one in the range, or there is none.
  rcases hnext : ctx.nextOccurrence text start with _ | found
  · rw [hnext] at hanswer
    rw [hanswer]
    exact .inr ⟨fun i hi => Context.nextOccurrence_eq_none hrange hnext hi, rfl, rfl⟩
  · rw [hnext] at hanswer
    rw [hanswer]
    refine .inl ⟨found, Context.nextOccurrence_eq_some hrange hnext, rfl, ?_⟩
    rw [slotCount, h.groups] at hregion
    exact Region.toList_fill hregion _ _

end Program.LooksFor

namespace Program

variable {enc : Encoding} {dialect : Dialect} {given : Options} {text pattern : List UInt8}

theorem optionsFor_plain (h : dialect.options = Options.empty) :
    optionsFor given dialect = given.diff Options.searchOnly := by
  rw [optionsFor, h]
  simp [Options.union, Options.empty]

/-- A quoted text is compiled to a program that looks for it. -/
theorem compile_quoted (readLimits : Limits) (hvalid : enc.isValid text = true)
    (hdefaults : dialect.options = Options.empty) (hcase : given.ignoreCase = false)
    (hquotes : Pattern.Quotes enc given.extended text pattern) :
    ∃ program, compile pattern given enc dialect readLimits = .ok program ∧ program.LooksFor text ∧
      program.options = given.diff Options.searchOnly := by
  have hoptions : optionsFor given dialect = _ := optionsFor_plain hdefaults
  have hcased : (optionsFor given dialect).ignoreCase = false := by
    rw [hoptions, Options.diff, hcase, Bool.false_and]
  have hextended : (optionsFor given dialect).extended = given.extended := by
    rw [hoptions]
    exact Bool.and_true _
  have hparse := Pattern.parse_quoted dialect readLimits hvalid hcased
    (hextended.symm ▸ hquotes)
  have hprepare : prepare enc dialect (.literal text false) = .literal text false := by
    rw [prepare]
    exact ite_self _
  simp only [compile, hparse, ofParsed, hprepare, Node.emit]
  refine ⟨_, rfl, ⟨?_, rfl, rfl⟩, hoptions⟩
  cases text <;> rfl

/-- A quoted text is looked for literally. Take a text of the encoding and a pattern that is the
text quoted, in a dialect that sets no options; in the extended notation the pattern may have blank
space and comments before, between and after the characters.

If case is regarded, the pattern is compiled to the comparison with the text and the end of the
match, or to the end alone if the text is empty. Every search that accepts empty matches answers
with the first position in the range where the text occurs, and with its span, whatever the bytes of
the subject are and whatever the limits. If the text does not occur there, it answers that there is
no match. -/
theorem quoted_search (readLimits : Limits) (hvalid : enc.isValid text = true)
    (hdefaults : dialect.options = Options.empty) (hcase : given.ignoreCase = false)
    (hquotes : Pattern.Quotes enc given.extended text pattern) :
    ∃ program, compile pattern given enc dialect readLimits = .ok program ∧
      program.code.toList = (if text = [] then [] else [.leaf (.literal text)]) ++ [.finish] ∧
      ∀ (subject : Array UInt8) (start range : Nat) (region : Region) (asked : Options)
        (limits : Limits), start ≤ range → range ≤ subject.size → 0 < region.capacity →
        program.checkOptions asked = .ok () → given.findNotEmpty = false →
        asked.findNotEmpty = false →
        let answer := program.search subject start range region asked limits
        (subject.size ≤ maxSubjectLength → answer = onSubject subject
          (fun region => program.search subject start range region asked limits) region) ∧
        ((∃ i, IsLeast {i | start ≤ i ∧ OccursAt subject range text i} i ∧
            answer.1 = .ok (some i) ∧ answer.2.toList = [some (i, i + text.length)]) ∨
          (∀ i, start ≤ i → ¬ OccursAt subject range text i) ∧ answer.1 = .ok none ∧
            answer.2.toList = []) := by
  rcases compile_quoted readLimits hvalid hdefaults hcase hquotes with
    ⟨program, hcompile, hlooks, hoptions⟩
  refine ⟨program, hcompile, hlooks.code, ?_⟩
  intro subject start range region asked limits hstart hrange hregion hasked hgiven hempty answer
  constructor
  · intro hsize
    rw [onSubject, checkSubject, if_pos hsize]
  -- The hypotheses about the call, from those about the options that were given and asked for.
  · have hslots : program.slotCount ≤ region.capacity := by
      rw [slotCount, hlooks.groups]
      exact hregion
    have haccepts : (asked.union program.options).findNotEmpty = false := by
      rw [hoptions, Options.union, Options.diff, hempty, hgiven]
      rfl
    exact hlooks.searchWithin_text limits hstart hrange hslots hasked haccepts (by decide)

/-- The text `a #`, quoted in the extended notation with blank space and a comment, is found behind
the first character of `xa #a #`. -/
theorem quoted_search_comment :
    let text : List UInt8 := [97, 32, 35]
    let pattern : List UInt8 := [32, 97, 9, 92, 32, 35, 99, 10, 92, 35]
    let subject : Array UInt8 := #[120, 97, 32, 35, 97, 32, 35]
    Pattern.Quotes .utf8 true text pattern ∧
    ∃ program, compile pattern { extended := true } .utf8 Dialect.standard {} = .ok program ∧
      program.code.toList = [.leaf (.literal text), .finish] ∧
      let answer := program.search subject 0 7 (Region.ofCapacity 1) {} Limits.off
      answer.1 = .ok (some 1) ∧ answer.2.toList = [some (1, 4)] := by
  intro text pattern subject
  -- Blank space before `a`, a tab behind it, and a comment behind the escaped blank.
  have hquotes : Pattern.Quotes .utf8 true text pattern := by
    refine .inr ⟨rfl, fun i => [[32], [9], [35, 99, 10], []].getD i [], fun i => ?_, rfl⟩
    match i with
    | 0 | 1 => exact .blank (by decide) .nil
    | 2 => exact .comment (show Encoding.utf8.isValid [99] = true from rfl) (by decide) .nil
    | 3 | _ + 4 => exact .nil
  rcases @quoted_search .utf8 Dialect.standard { extended := true } text pattern {} (by decide) rfl
    rfl hquotes with ⟨program, hcompile, hcode, hsearch⟩
  refine ⟨hquotes, program, hcompile, hcode, ?_⟩
  have hoptions : program.checkOptions {} = .ok () := by
    rw [checkOptions]
    exact if_pos rfl
  -- The first occurrence is neither at 0 nor behind 1.
  rcases (hsearch subject 0 7 (Region.ofCapacity 1) {} Limits.off (by decide) (by decide)
    (by decide) hoptions rfl rfl).2 with ⟨i, hleast, hanswer⟩ | ⟨hnone, -⟩
  · have hle : i ≤ 1 := hleast.2 ⟨by decide, by decide⟩
    have hne : i ≠ 0 := by
      rintro rfl
      exact absurd hleast.1.2 (by decide)
    obtain rfl : i = 1 := by omega
    exact hanswer
  · exact absurd (by decide) (hnone 1 (by decide))

end Program

end RegexEngine
