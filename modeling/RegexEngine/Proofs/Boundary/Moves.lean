import RegexEngine.Proofs.Boundary.Positions
import RegexEngine.Proofs.Boundary.Text
import RegexEngine.Proofs.Emission.Leaves
import RegexEngine.Proofs.Search.Opening
import RegexEngine.Proofs.Search.Scan

/-!
# Moves Between Boundaries

A matcher that stands between two characters of the subject comes to positions between characters
only. A test that reads characters stops behind one. A literal is a text of the encoding, and so is
what a group has captured between two boundaries, and what follows on a text of the encoding is one
again. A step back stops at a byte that does not continue a character, and so does the jump to the
next occurrence of a literal, since a literal begins with such a byte.

The literals of a program may be surrogates or longer than they have to be. It does not matter here,
since the subject is read by the same loose rules.

## Main definitions

* `Context.Clean`: The subject is a text of the encoding, and the range ends in it.

## Theorems

* `Between.charLength`, `Between.skip`: The position behind a character, and the one behind a text
  of the encoding, are between characters.
* `between_stepBack`: So is a position that is stepped back to.
* `nextOccurrence_between`: So is the place where a literal is found next.
* `accept_between`: So is the end of what a test accepts.
* `closed_between`: The moves of a matcher stay between characters.
-/

namespace RegexEngine

namespace Utf8

/-- A text is complete if what follows on it is judged by itself. -/
theorem validFrom_of_append {n : Nat} {bytes more : List UInt8}
    (h : validFrom n (bytes ++ more) = true) (hmore : validFrom 0 more = true) :
    validFrom n bytes = true := by
  induction bytes generalizing n with
  | nil =>
      cases n with
      | zero => rfl
      | succ n =>
          cases more with
          | nil => cases h
          | cons b rest =>
              -- The byte would have to continue a character and to start one.
              simp only [List.nil_append, validFrom, Bool.and_eq_true, Bool.not_eq_true'] at h hmore
              rw [isTail_of_isBadLead hmore.1] at h
              cases h.1
  | cons b rest ih =>
      cases n with
      | zero | succ n =>
          simp only [List.cons_append, validFrom, Bool.and_eq_true] at h ⊢
          exact ⟨h.1, ih h.2⟩

theorem leadLength_pos (b : UInt8) : 0 < leadLength b := by
  rw [leadLength]
  repeat' split
  all_goals omega

end Utf8

namespace Encoding

variable {enc : Encoding} {data : Array UInt8} {pos first last : Nat}

theorem isValid_of_append {bytes more : List UInt8} (h : enc.isValid (bytes ++ more) = true)
    (hmore : enc.isValid more = true) : enc.isValid bytes = true := by
  cases enc with
  | utf8 => exact Utf8.validFrom_of_append h hmore
  | ascii => rfl

theorem leadLength_pos (enc : Encoding) (b : UInt8) : 0 < enc.leadLength b := by
  cases enc with
  | utf8 => exact Utf8.leadLength_pos b
  | ascii => exact Nat.one_pos

/-- The length of a character is that which its first byte announces, or the text ends there. -/
theorem charLength_cases (h : pos < data.size) :
    enc.charLength data pos = enc.leadLength data[pos] ∨ pos + enc.charLength data pos = data.size ∧
      data.size < pos + enc.leadLength data[pos] := by
  have hlead := enc.leadLength_pos data[pos]
  rw [charLength, getD_of_lt h]
  omega

theorem between_zero (h : enc.isValid data.toList = true) : enc.Between data 0 :=
  ⟨Nat.zero_le _, h⟩

namespace Between

/-- Behind a character. -/
theorem charLength (h : enc.Between data pos) (hlt : pos < data.size) :
    enc.Between data (pos + enc.charLength data pos) := by
  rcases charLength_cases hlt with hlength | ⟨hend, -⟩
  · have hle := charLength_le enc data pos hlt
    have hlead := enc.leadLength_pos data[pos]
    have hvalid := h.2
    have hlist : pos < data.toList.length := hlt
    rw [List.drop_eq_getElem_cons hlist, Array.getElem_toList] at hvalid
    have hrest := isValid_splitFirst hvalid rfl
    rw [List.drop_drop] at hrest
    have hindex : pos + 1 + (enc.leadLength data[pos] - 1) = pos + enc.leadLength data[pos] := by
      omega
    rw [hindex, ← hlength] at hrest
    exact ⟨hle, hrest⟩
  · rw [hend]
    exact between_size enc data

/-- Behind a text of the encoding. -/
theorem skip (h : enc.Between data first) (hle : first ≤ last) (hlast : last ≤ data.size)
    (hvalid : enc.isValid (data.extract first last).toList = true) : enc.Between data last := by
  have hrest := h.2
  rw [Text.drop_eq_extract_append data hle, isValid_append hvalid] at hrest
  exact ⟨hlast, hrest⟩

/-- The text between two such positions is one of the encoding. -/
theorem isValid_extract (hfirst : enc.Between data first) (hlast : enc.Between data last) :
    enc.isValid (data.extract first last).toList = true := by
  by_cases hle : first ≤ last
  · have hrest := hfirst.2
    rw [Text.drop_eq_extract_append data hle] at hrest
    exact isValid_of_append hrest hlast.2
  · have hempty : (data.extract first last).toList = [] := by
      simp [Nat.le_of_not_le hle]
    rw [hempty]
    exact isValid_nil

end Between

/-- The way back stops at the first byte, or at one that does not continue a character. -/
theorem tailsBack_stops (data : Array UInt8) (pos : Nat) :
    tailsBack data 0 pos = 0 ∨ Utf8.isTail (data.getD (tailsBack data 0 pos) 0) = false := by
  induction pos with
  | zero => exact Or.inl rfl
  | succ pos ih =>
      rw [tailsBack]
      split
      · exact ih
      · rename_i hstops
        simp only [Nat.zero_lt_succ, decide_true, Bool.true_and, Bool.not_eq_true] at hstops
        exact Or.inr hstops

/-- The head of a character is between two characters. -/
theorem between_prevHead {head : Nat} (h : enc.isValid data.toList = true) (hpos : pos ≤ data.size)
    (hprev : enc.prevHead data 0 pos = some head) : enc.Between data head := by
  have hlt : head < data.size := Nat.lt_of_lt_of_le (prevHead_lt hprev) hpos
  cases enc with
  | ascii => exact ⟨Nat.le_of_lt hlt, rfl⟩
  | utf8 =>
      rw [prevHead] at hprev
      split at hprev
      · cases hprev
      · cases hprev
        rw [charHead] at hlt ⊢
        rcases tailsBack_stops data (pos - 1) with hzero | htail
        · rw [hzero]
          exact between_zero h
        · exact between_of_isHead h hlt (by rw [isHead, htail, Bool.not_false])

/-- A step back leads to a position between two characters. -/
theorem between_stepBack {n : Nat} (h : enc.isValid data.toList = true)
    (hpos : enc.Between data pos) (hback : enc.stepBack data 0 n pos = some last) :
    enc.Between data last := by
  induction n generalizing pos with
  | zero =>
      cases hback
      exact hpos
  | succ n ih =>
      rw [stepBack] at hback
      split at hback
      · cases hback
      · rename_i head hprev
        exact ih (between_prevHead h hpos.1 hprev) hback

end Encoding

namespace Context

open Encoding

/-- The subject is a text of the encoding, and the range ends in it. -/
structure Clean (ctx : Context) : Prop where
  valid : ctx.encoding.isValid ctx.subject.toList = true
  range : ctx.range ≤ ctx.stop

/-- The position is between two characters of the subject. -/
def Between (ctx : Context) (pos : Nat) : Prop :=
  ctx.encoding.Between ctx.subject pos

variable {ctx : Context} {pos last : Nat}

theorem acceptChar_between {accepted : Bool} (h : ctx.Clean) (hpos : ctx.Between pos)
    (haccept : ctx.acceptChar pos accepted = some last) : ctx.Between last := by
  rcases Option.bind_eq_some_iff.mp haccept with ⟨n, hwithin, haccept⟩
  simp only [charWithin] at hwithin
  split at hwithin
  · rename_i hrange
    split at hwithin
    · cases hwithin
      split at haccept
      · cases haccept
        exact hpos.charLength (Nat.lt_of_lt_of_le hrange h.range)
      · cases haccept
    · cases hwithin
  · cases hwithin

theorem acceptFolded_between {codes : List Nat} (h : ctx.Clean) (hpos : ctx.Between pos)
    (haccept : ctx.acceptFolded pos codes = some last) : ctx.Between last := by
  induction codes generalizing pos with
  | nil =>
      cases haccept
      exact hpos
  | cons c rest ih =>
      rcases Option.bind_eq_some_iff.mp haccept with ⟨next, hnext, hrest⟩
      exact ih (acceptChar_between h hpos hnext) hrest

/-- A text of the encoding is accepted as a whole. -/
theorem acceptBytes_between {bytes : List UInt8} (h : ctx.Clean)
    (hbytes : ctx.encoding.isValid bytes = true) (hpos : ctx.Between pos)
    (haccept : ctx.acceptBytes pos bytes = some last) : ctx.Between last := by
  by_cases hempty : bytes = []
  · subst hempty
    cases haccept
    exact hpos
  have hinside : pos ≤ ctx.range := by
    by_contra hbehind
    rw [acceptBytes_of_range_le hempty (Nat.le_of_not_le hbehind)] at haccept
    cases haccept
  rw [acceptBytes_eq h.range hinside] at haccept
  split at haccept
  · rename_i hhere
    cases haccept
    refine hpos.skip (Nat.le_add_right _ _) (Nat.le_trans hhere.1 h.range) ?_
    rw [hhere.2]
    exact hbytes
  · cases haccept

/-- A repetition of a text between two boundaries ends at one. -/
theorem acceptCopy_between {ignoreCase : Bool} {span : Nat × Nat} (h : ctx.Clean)
    (hfirst : ctx.Between span.1) (hlast : ctx.Between span.2) (hpos : ctx.Between pos)
    (haccept : ctx.acceptCopy pos ignoreCase span = some last) : ctx.Between last := by
  rw [acceptCopy] at haccept
  split at haccept
  · exact acceptFolded_between h hpos haccept
  · exact acceptBytes_between h (hfirst.isValid_extract hlast) hpos haccept

/-- The jump to an occurrence leads to where the bytes are. -/
theorem occurrenceAmong_accepts {bytes : List UInt8} {count : Nat}
    (h : ctx.occurrenceAmong bytes count pos = some last) :
    (ctx.acceptBytes last bytes).isSome = true := by
  induction count generalizing pos with
  | zero => cases h
  | succ count ih =>
      rw [occurrenceAmong] at h
      split at h
      · rename_i haccept
        cases h
        exact haccept
      · exact ih h

/-- A text that begins with the first byte of a character occurs at boundaries only. -/
theorem nextOccurrence_between {bytes : List UInt8} (h : ctx.Clean)
    (hbegins : ctx.encoding.Begins bytes) (hpos : ctx.Between pos)
    (hoccurs : ctx.nextOccurrence bytes pos = some last) : ctx.Between last := by
  have haccept := occurrenceAmong_accepts hoccurs
  cases bytes with
  | nil =>
      -- Nothing is looked for, and is here.
      have hle := nextOccurrence_le hoccurs
      rw [nextOccurrence_here (Nat.le_trans hle.1 hle.2) rfl] at hoccurs
      cases hoccurs
      exact hpos
  | cons b rest =>
      rw [acceptBytes] at haccept
      split at haccept
      · rename_i hhere
        simp only [Bool.and_eq_true, decide_eq_true_eq, beq_iff_eq] at hhere
        have hhead : ctx.encoding.isHead (ctx.byteAt last) = true := by
          rw [hhere.2]
          exact hbegins b rfl
        exact between_of_isHead h.valid (Nat.lt_of_lt_of_le hhere.1 h.range) hhead
      · cases haccept

end Context

/-- What a test accepts at a boundary ends at one, if the literals are texts of the encoding. -/
theorem Leaf.accept_between {ctx : Context} {regs : Registers} {pos last : Nat} (test : Leaf)
    (h : ctx.Clean) (hliteral : ∀ bytes, test = .literal bytes → ctx.encoding.isValid bytes = true)
    (hregs : regs.Holds ctx.Between) (hpos : ctx.Between pos)
    (haccept : test.accept ctx regs.captures pos = some last) : ctx.Between last := by
  cases test with
  | literal bytes => exact Context.acceptBytes_between h (hliteral bytes rfl) hpos haccept
  | folded codes => exact Context.acceptFolded_between h hpos haccept
  | set | anyChar | word => exact Context.acceptChar_between h hpos haccept
  | backref groups ignoreCase =>
      -- What is repeated is what one of the groups has captured.
      rcases List.exists_of_findSome?_eq_some haccept with ⟨number, -, hgroup⟩
      rcases Option.bind_eq_some_iff.mp hgroup with ⟨⟨start, stop⟩, hspan, hcopy⟩
      rcases hregs.spans hspan with ⟨hstart, hstop⟩
      exact Context.acceptCopy_between h hstart hstop hpos hcopy
  | anchor kind multiline =>
      simp only [accept] at haccept
      split at haccept
      · cases haccept
        exact hpos
      · cases haccept

namespace Program

variable {pattern : List UInt8} {options : Options} {enc : Encoding} {dialect : Dialect}
  {limits : Limits} {parsed : Pattern.Parsed} {program : Program} {ctx : Context}

/-- The literal that a search looks for begins with the first byte of a character. -/
theorem Tells.begins {hints : Hints} (h : program.Tells hints) :
    program.encoding.Begins hints.literal := by
  cases h with
  | literal begins starts => exact begins
  | nothing | textStart | lineStart | searchStart =>
      rintro b ⟨⟩

/-- The moves of a matcher stay between the characters of a subject that is a text of the encoding.
-/
theorem closed_between (hparse : Pattern.parse pattern options enc dialect limits = .ok parsed)
    (hprogram : ofParsed pattern options enc dialect parsed = .ok program)
    (hencoding : ctx.encoding = program.encoding) (h : ctx.Clean) :
    program.Closed ctx ctx.Between where
  test pc test regs pos last hinstr hregs hpos haccept := by
    refine test.accept_between h (fun bytes hbytes => ?_) hregs hpos haccept
    subst hbytes
    rw [hencoding]
    exact isValid_literal hparse hprogram hinstr
  back n pos last hpos hback := Encoding.between_stepBack h.valid hpos hback
  occurs pos start hpos hoccurs := by
    have hbegins := (tells_hints hparse hprogram).begins
    rw [← hencoding] at hbegins
    exact Context.nextOccurrence_between h hbegins hpos hoccurs
  next pos hpos hrange := by
    -- A character has a byte, which lies within the range.
    have hlength := Encoding.charLength_pos ctx.encoding ctx.subject pos
    have hsize : ctx.range ≤ ctx.subject.size := h.range
    exact hpos.charLength (by omega)

end Program

end RegexEngine
