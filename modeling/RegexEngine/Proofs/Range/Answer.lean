import RegexEngine.Proofs.Range.Agree
import RegexEngine.Proofs.Search.Spans

/-!
# Text Behind the Range

The text at or behind the end of the range does not influence a search, if no anchor of the program
looks at the text in front of it. Two searches of subjects that differ there only go through the
same states, come to the same answer or the same error, and leave the same region.

The states of an attempt are followed one by one. In each of them the position is within the range,
and what a group has captured can be walked over, so that the next step is the same in both calls.
After a failed attempt the scan goes on behind the character at the position. The length of that
character is the same in both calls, unless the position is the end of the range, where both scans
stop. If the range is the whole subject there is nothing behind it, and the calls are the same.

## Main definitions

* `Program.RestBlind`: A program none of whose anchors looks at the text in front of it.

## Theorems

* `step_agrees`, `attempt_agrees`, `scan_agrees`: Steps, attempts and scans are the same in two
  calls that agree up to the end of the range.
* `search_restBlind`: The text behind the range does not influence a search.
-/

namespace RegexEngine

/-- The instruction is an anchor that looks at the text in front of it. -/
def Instr.seesNext : Instr → Bool
  | leaf (.anchor kind _) => kind.seesNext
  | _ => false

/-- A program none of whose anchors looks at the text in front of it. -/
def Program.RestBlind (program : Program) : Prop :=
  ∀ instr ∈ program.code, instr.seesNext = false

instance (program : Program) : Decidable program.RestBlind :=
  inferInstanceAs (Decidable (∀ instr ∈ program.code, _ = _))

/-- If the range is the whole subject, calls that agree up to its end are the same. -/
theorem Context.Agrees.eq {ctx other : Context} (h : ctx.Agrees other)
    (hrange : ctx.stop ≤ ctx.range) : ctx = other := by
  have hsubject : ctx.subject = other.subject := by
    apply Array.ext_getElem?
    intro i
    by_cases hi : i < ctx.range
    · exact h.bytes i hi
    · have hsize := h.size
      unfold stop at hrange
      rw [Array.getElem?_eq_none (by omega), Array.getElem?_eq_none (by omega)]
  rcases ctx with ⟨⟩
  rcases other with ⟨⟩
  simp only [mk.injEq]
  exact ⟨h.encoding, hsubject, h.range, h.searchStart, h.options, h.multiline, h.dotAll⟩

namespace Machine

variable {program : Program} {limits : Limits} {ctx other : Context} {m : Machine}

/-- An instruction that is no such anchor does the same in both calls, where the position is within
the range and the text of every group can be walked over. -/
theorem obey_agrees (h : ctx.Agrees other) {instr : Instr} (hinstr : instr.seesNext = false)
    (hpos : m.pos ≤ ctx.range)
    (hspans : ∀ n first last, m.registers.spans n = some (first, last) → ctx.Walks first last) :
    m.obey program limits ctx instr = m.obey program limits other instr := by
  cases instr with
  | leaf test =>
      have htest : ∀ kind multiline, test = .anchor kind multiline → kind.seesNext = false := by
        rintro kind multiline rfl
        exact hinstr
      rw [obey, obey, test.accept_agrees h hpos htest hspans]
  | stepBack n => rw [obey, obey, h.encoding, h.stepBack hpos]
  | finish => rw [obey, obey, obeyFinish, obeyFinish, h.options, h.searchStart]
  | _ => rfl

theorem step_agrees (h : ctx.Agrees other) (hblind : program.RestBlind) (hpos : m.pos ≤ ctx.range)
    (hspans : ∀ n first last, m.registers.spans n = some (first, last) → ctx.Walks first last) :
    m.step program limits ctx = m.step program limits other := by
  rcases hinstr : m.fetch program with _ | instr
  · rw [step, step, hinstr]
  · have hnext := hblind instr (Program.mem_of_instrAt hinstr)
    simp only [step, hinstr, obey_agrees h hnext hpos hspans]

end Machine

namespace Program

variable {program : Program} {limits : Limits} {ctx other : Context} {fuel : Nat}

theorem lastStart_agrees (h : ctx.Agrees other) :
    program.lastStart ctx = program.lastStart other := by
  rw [lastStart, lastStart, h.searchStart, h.multiline, h.range]

namespace Means

variable {tree : Tree} {m : Machine} (h : program.Means tree)
  (hencoding : ctx.encoding = program.encoding)
  (hliterals : ∀ bytes, .literal bytes ∈ tree.leaves program.encoding →
    program.encoding.isValid bytes = true)
  (hblind : program.RestBlind) (hagrees : ctx.Agrees other)

include h hencoding hliterals hblind hagrees

/-- An attempt is the same in both calls, if the subject goes on behind the range. -/
theorem attempt_agrees (hrange : ctx.range < ctx.stop) (hm : m.Rests program ctx.range)
    {start : Nat} (hstart : start ≤ ctx.range) :
    m.attempt program limits ctx fuel start = m.attempt program limits other fuel start := by
  refine Machine.run_congr (fun state hreach => ?_) fuel
  have hsafe := h.attempt_safe hencoding hm hstart hreach
  refine state.step_agrees hagrees hblind hsafe.inside.1 fun n first last hspan => ?_
  exact h.attempt_walks hencoding hrange (hencoding ▸ hliterals) hm.registers.fits hreach hspan

/-- So is a scan. -/
theorem scan_agrees (hrange : ctx.range < ctx.stop) {last count pos : Nat}
    (hm : m.Rests program ctx.range) :
    program.scan limits ctx fuel last count m pos =
      program.scan limits other fuel last count m pos := by
  -- By induction on the count. The attempts agree, so the two scans have the same matcher at every
  -- start.
  induction count generalizing m pos with
  | zero => rfl
  | succ count ih =>
      rw [scan, scan, ← hagrees.nextOccurrence]
      rcases hoccurs : ctx.nextOccurrence program.hints.literal pos with _ | start
      · rfl
      have hle := (Context.nextOccurrence_le hoccurs).2
      simp only [← h.attempt_agrees hencoding hliterals hblind hagrees hrange hm hle]
      rcases hattempt : m.attempt program limits ctx fuel start with interrupt | ⟨after⟩ | ⟨after⟩
      · rfl
      · rfl
      · rw [← hagrees.encoding, ← hagrees.range]
        rcases Nat.lt_or_eq_of_le hle with hlt | rfl
        · have hlength := hagrees.charLength hlt
          rw [← hagrees.encoding] at hlength
          simp only [hlength, ih (h.attempt_rests hencoding hm hle hattempt)]
        · -- At the end of the range both scans stop, whatever stands there.
          have hstops : ∀ data, ctx.range < ctx.range + ctx.encoding.charLength data ctx.range :=
            fun data => Nat.lt_add_of_pos_right (ctx.encoding.charLength_pos data ctx.range)
          simp only [hstops, or_true, if_true]

/-- What a search finds is the same in both calls. -/
theorem findFrom_agrees :
    program.findFrom limits ctx fuel = program.findFrom limits other fuel := by
  by_cases hrange : ctx.range < ctx.stop
  · have hrests := Machine.rests_initial program ctx.range ctx.searchStart
    have hscan : ∀ last count,
        program.scan limits ctx fuel last count (Machine.initial program ctx.searchStart)
            ctx.searchStart =
          program.scan limits other fuel last count (Machine.initial program ctx.searchStart)
            ctx.searchStart :=
      fun last count => h.scan_agrees hencoding hliterals hblind hagrees hrange hrests
    simp only [findFrom, lastStart_agrees hagrees, ← hagrees.searchStart, ← hagrees.range, hscan]
  · rw [hagrees.eq (Nat.le_of_not_lt hrange)]

end Means

variable {pattern : List UInt8} {asked : Options} {enc : Encoding} {dialect : Dialect}
  {readLimits : Limits}

/-- The text at or behind the end of the range does not influence a search, if the program has no
anchor for the end of a line or for the boundary of a word. On two subjects of one length that have
the same bytes before the end of the range, a search has the same answer or the same error, and
leaves the same region. -/
theorem search_restBlind (hcompile : compile pattern asked enc dialect readLimits = .ok program)
    (hblind : program.RestBlind) {subject other : Array UInt8} {range : Nat}
    (hsize : subject.size = other.size) (hbytes : ∀ i < range, subject[i]? = other[i]?)
    (start : Nat) (region : Region) (given : Options) (limits : Limits) :
    onSubject subject (fun region => program.search subject start range region given limits)
        region =
      onSubject other (fun region => program.search other start range region given limits)
        region ∧
    ∀ fuel, program.searchWithin fuel subject start range region given limits =
      program.searchWithin fuel other start range region given limits := by
  rcases compile_ok hcompile with ⟨parsed, hparse, hprogram⟩
  rcases exists_means hparse hprogram with ⟨tree, hmeans, hliterals⟩
  -- The contexts of the two searches differ in the subject alone, and the subjects agree before the
  -- end of the range.
  have hagrees : (Context.make program subject start range given).Agrees
      (Context.make program other start range given) :=
    ⟨⟨rfl, rfl, hsize, hbytes⟩, rfl, rfl, rfl, rfl⟩
  have hwithin : ∀ fuel, program.searchWithin fuel subject start range region given limits =
      program.searchWithin fuel other start range region given limits := by
    intro fuel
    -- The checks look at the size of the subject only, and the search at what agrees.
    rw [searchWithin, searchWithin, hsize, hmeans.findFrom_agrees rfl hliterals hblind hagrees]
  refine ⟨?_, hwithin⟩
  rw [onSubject, onSubject, hsize, search, search, hwithin]

/-- With `(?i)(\w+)\1`, a match of `äÄ` is found before a byte that starts a character in one of
the subjects and stands alone in the other. -/
theorem search_restBlind_copy :
    ∃ program, compile [40, 63, 105, 41, 40, 92, 119, 43, 41, 92, 49] {} .utf8 Dialect.standard {} =
        .ok program ∧ program.RestBlind ∧
      ∃ subject other : Array UInt8, subject = #[120, 195, 164, 195, 132, 195, 132] ∧
        other = #[120, 195, 164, 195, 132, 195, 10] ∧ subject.size = other.size ∧
        (∀ i < 6, subject[i]? = other[i]?) ∧
        (program.searchWithin 100 subject 0 6 (Region.ofCapacity 2) {} {}).1 = .ok (some 1) ∧
        program.searchWithin 100 subject 0 6 (Region.ofCapacity 2) {} {} =
          program.searchWithin 100 other 0 6 (Region.ofCapacity 2) {} {} := by
  -- That the program has no such anchor, and the answer for the first subject, are computed.
  have hcomputed : ((compile [40, 63, 105, 41, 40, 92, 119, 43, 41, 92, 49] {} .utf8
      Dialect.standard {}).toOption.any fun program => decide program.RestBlind &&
        (program.searchWithin 100 #[120, 195, 164, 195, 132, 195, 132] 0 6 (Region.ofCapacity 2) {}
          {}).1.toOption == some (some 1)) = true := by decide +kernel
  rcases exists_compiled hcomputed with ⟨program, hprogram, hfound⟩
  rw [Bool.and_eq_true, decide_eq_true_eq, beq_iff_eq] at hfound
  -- The subjects have one size and the same first six bytes.
  have hsize : (#[120, 195, 164, 195, 132, 195, 132] : Array UInt8).size =
      (#[120, 195, 164, 195, 132, 195, 10] : Array UInt8).size := rfl
  have hbytes : ∀ i < 6, (#[120, 195, 164, 195, 132, 195, 132] : Array UInt8)[i]? =
      (#[120, 195, 164, 195, 132, 195, 10] : Array UInt8)[i]? := by decide
  have hsame := search_restBlind hprogram hfound.1 hsize hbytes 0 (Region.ofCapacity 2) {} {}
  exact ⟨program, hprogram, hfound.1, _, _, rfl, rfl, hsize, hbytes, eq_ok_of_toOption hfound.2,
    hsame.2 100⟩

end Program

end RegexEngine
