import RegexEngine.Proofs.Boundary.Moves
import RegexEngine.Proofs.Search.SameText

/-!
# Whole Characters Within the Range

A matcher consumes whole characters, and none that reaches over the end of its range. A test that
reads characters takes one after the other, a literal is a text of the encoding, and what a group
has captured is text over which tests have led, so a repetition of it is made of whole characters
again. It follows that the text of every group can be walked over, from its start to its end, by
characters that end within the range. This is true of every subject: the bytes need not be a text of
the encoding, and a group may start in the middle of a character.

The subject has to go on behind the range. Where it does not, its last character may be cut short,
and the bytes of that character may stand elsewhere with others behind them that belong to it.

## Main definitions

* `Encoding.Complete`: A text whose characters have all their bytes.
* `Context.Passes`: A character within the range stands between two positions.
* `Context.Walks`: Such characters stand between two positions, one after the other.

## Theorems

* `complete_of_isValid`: A text of the encoding is complete.
* `complete_of_walks`, `walks_of_complete`: A walk is over a complete text, and where a complete
  text is accepted there is a walk.
* `leading_walks`: What a test accepts can be walked over.
* `attempt_walks`: So can what a group captures in an attempt.
-/

namespace RegexEngine

namespace Utf8

/-- A text has the bytes that are owed to its first character. -/
theorem le_length_of_validFrom {n : Nat} {bytes : List UInt8} (h : validFrom n bytes = true) :
    n ≤ bytes.length := by
  induction bytes generalizing n with
  | nil =>
      cases n with
      | zero => exact Nat.le_refl 0
      | succ n => cases h
  | cons b rest ih =>
      cases n with
      | zero => exact Nat.zero_le _
      | succ n =>
          simp only [validFrom, Bool.and_eq_true] at h
          exact Nat.succ_le_succ (ih h.2)

end Utf8

namespace Encoding

variable {enc : Encoding}

/-- Every character of a text has all the bytes that its first one announces. -/
inductive Complete (enc : Encoding) : List UInt8 → Prop where
  | nil : Complete enc []
  | char {lead : UInt8} {tails rest : List UInt8}
      (announces : enc.leadLength lead = tails.length + 1) (later : Complete enc rest) :
      Complete enc (lead :: tails ++ rest)

/-- A text of the encoding is complete. -/
theorem complete_of_isValid {bytes : List UInt8} (h : enc.isValid bytes = true) :
    enc.Complete bytes := by
  -- On the length of the text, since a character may have several bytes.
  induction hlength : bytes.length using Nat.strongRecOn generalizing bytes with
  | ind n ih =>
      cases bytes with
      | nil => exact .nil
      | cons lead rest =>
          have hlead := enc.leadLength_pos lead
          have htails : enc.leadLength lead - 1 ≤ rest.length := by
            cases enc with
            | ascii => exact Nat.zero_le _
            | utf8 =>
                simp only [isValid, Utf8.isValid, Utf8.validFrom, Bool.and_eq_true] at h
                exact Utf8.le_length_of_validFrom h.2
          have hrest : enc.isValid (rest.drop (enc.leadLength lead - 1)) = true :=
            isValid_splitFirst h rfl
          have hlater : enc.Complete (rest.drop (enc.leadLength lead - 1)) := by
            refine ih _ ?_ hrest rfl
            rw [← hlength, List.length_drop, List.length_cons]
            omega
          rw [← List.take_append_drop (enc.leadLength lead - 1) rest]
          refine .char ?_ hlater
          rw [List.length_take_of_le htails]
          omega

end Encoding

namespace Context

variable {ctx : Context} {pos next last : Nat}

/-- A character that ends within the range stands between two positions. -/
def Passes (ctx : Context) (pos next : Nat) : Prop :=
  ∃ n, ctx.charWithin pos = some n ∧ next = pos + n

/-- Characters that end within the range stand between two positions, one after the other. -/
def Walks (ctx : Context) : Nat → Nat → Prop :=
  Relation.ReflTransGen ctx.Passes

/-- Where the subject goes on behind the range, the first byte of a character tells where it ends.
-/
theorem passes_iff (hrange : ctx.range < ctx.stop) :
    ctx.Passes pos next ↔
      next = pos + ctx.encoding.leadLength (ctx.byteAt pos) ∧ next ≤ ctx.range := by
  have hlead := ctx.encoding.leadLength_pos (ctx.byteAt pos)
  unfold stop at hrange
  unfold Passes byteAt at *
  simp only [charWithin_eq_some, Encoding.charLength]
  constructor
  · rintro ⟨n, hwithin, hnext⟩
    omega
  · intro hnext
    exact ⟨ctx.encoding.leadLength (ctx.subject.getD pos 0), by omega, hnext.1⟩

theorem Passes.ahead (h : ctx.Passes pos next) : pos < next ∧ next ≤ ctx.range := by
  rcases h with ⟨n, hwithin, rfl⟩
  have haccept : ctx.acceptChar pos true = some (pos + n) := by
    rw [acceptChar, hwithin]
    rfl
  exact ahead_of_acceptChar haccept

theorem Walks.ahead (h : ctx.Walks pos last) : ctx.Ahead pos last := by
  induction h with
  | refl => exact Ahead.refl ctx pos
  | tail _ hpass ih => exact ih.trans (Or.inr hpass.ahead)

/-- A walk is over a complete text. -/
theorem complete_of_walks (hrange : ctx.range < ctx.stop) (h : ctx.Walks pos last) :
    ctx.encoding.Complete (ctx.subject.extract pos last).toList := by
  induction h using Relation.ReflTransGen.head_induction_on with
  | refl =>
      have hempty : (ctx.subject.extract last last).toList = [] := by simp
      rw [hempty]
      exact .nil
  | @head pos next hpass hwalks ih =>
      have hahead := hpass.ahead
      have hle := Walks.ahead hwalks
      have hnext := ((passes_iff hrange).mp hpass).1
      unfold Ahead stop at *
      -- The text is that of the first character and the one that is left behind it.
      have hsplit : (ctx.subject.extract pos last).toList =
          (ctx.subject.extract pos next).toList ++ (ctx.subject.extract next last).toList := by
        rw [← Array.toList_append, Array.extract_append_extract, Nat.min_eq_left (by omega),
          Nat.max_eq_right (by omega)]
      have hpos : pos < ctx.subject.size := by omega
      have hsum : next = pos + ((next - pos - 1) + 1) := by omega
      have hfirst := @toList_extract_cons pos ctx.subject (next - pos - 1) hpos
      rw [← hsum] at hfirst
      rw [hsplit, hfirst]
      refine .char ?_ ih
      rw [byteAt, Encoding.getD_of_lt hpos] at hnext
      simp only [Array.length_toList, Array.size_extract]
      omega

/-- Bytes are accepted in two parts, or at once. -/
theorem acceptBytes_append (first second : List UInt8) :
    ctx.acceptBytes pos (first ++ second) =
      (ctx.acceptBytes pos first).bind fun mid => ctx.acceptBytes mid second := by
  induction first generalizing pos with
  | nil => rfl
  | cons b rest ih =>
      rw [List.cons_append, acceptBytes, acceptBytes]
      split
      · exact ih
      · rfl

/-- Where a complete text is accepted, it can be walked over. -/
theorem walks_of_complete {bytes : List UInt8} (hrange : ctx.range < ctx.stop)
    (h : ctx.encoding.Complete bytes) (haccept : ctx.acceptBytes pos bytes = some last) :
    ctx.Walks pos last := by
  -- By induction on the characters of the text. The first byte announces as many bytes as the
  -- character has.
  induction h generalizing pos with
  | nil =>
      cases haccept
      exact .refl
  | @char lead tails rest announces later ih =>
      rw [acceptBytes_append, Option.bind_eq_some_iff] at haccept
      rcases haccept with ⟨next, hchar, hrest⟩
      have hahead := ahead_of_acceptBytes hchar
      -- The first byte stands at the position.
      have hlead : ctx.byteAt pos = lead := by
        rw [acceptBytes] at hchar
        split at hchar
        · rename_i hhere
          simp only [Bool.and_eq_true, beq_iff_eq] at hhere
          exact hhere.2
        · cases hchar
      -- All of the character lies inside of the range.
      have hpass : ctx.Passes pos next := by
        rw [passes_iff hrange, hlead, announces]
        exact ⟨hahead.1, hahead.2 (List.cons_ne_nil lead tails)⟩
      exact .head hpass (ih hrest)

theorem walks_acceptChar {accepted : Bool} (h : ctx.acceptChar pos accepted = some last) :
    ctx.Walks pos last := by
  rw [acceptChar, Option.bind_eq_some_iff] at h
  rcases h with ⟨n, hwithin, h⟩
  split at h
  · cases h
    exact .single ⟨n, hwithin, rfl⟩
  · cases h

theorem walks_acceptFolded {codes : List Nat} (h : ctx.acceptFolded pos codes = some last) :
    ctx.Walks pos last := by
  induction codes generalizing pos with
  | nil =>
      cases h
      exact .refl
  | cons c rest ih =>
      rw [acceptFolded, Option.bind_eq_some_iff] at h
      rcases h with ⟨next, hchar, hrest⟩
      exact (walks_acceptChar hchar).trans (ih hrest)

/-- A repetition of text that can be walked over can be walked over. -/
theorem walks_acceptCopy {ignoreCase : Bool} {span : Nat × Nat} (hrange : ctx.range < ctx.stop)
    (hspan : ctx.Walks span.1 span.2) (h : ctx.acceptCopy pos ignoreCase span = some last) :
    ctx.Walks pos last := by
  rw [acceptCopy] at h
  split at h
  · exact walks_acceptFolded h
  · exact walks_of_complete hrange (complete_of_walks hrange hspan) h

/-- What a test accepts can be walked over, if the literals are texts of the encoding. -/
theorem leading_walks (hrange : ctx.range < ctx.stop) :
    Node.Leading ctx
      (fun test => ∀ bytes, test = .literal bytes → ctx.encoding.isValid bytes = true)
      ctx.Walks ctx.Walks where
  refl pos := .refl
  trans a b c h1 h2 := h1.trans h2
  spans a b h := h
  test leaf place pos hliteral hspans haccept := by
    -- Literals are whole characters, and the other tests take one each. A reference takes what
    -- could be walked over when the group was closed.
    cases leaf with
    | literal bytes =>
        have hcomplete := Encoding.complete_of_isValid (hliteral bytes rfl)
        exact walks_of_complete hrange hcomplete haccept
    | folded codes => exact walks_acceptFolded haccept
    | set | anyChar | word => exact walks_acceptChar haccept
    | backref groups ignoreCase =>
        rcases List.exists_of_findSome?_eq_some haccept with ⟨number, -, hgroup⟩
        rcases Option.bind_eq_some_iff.mp hgroup with ⟨⟨start, stop⟩, hspan, hcopy⟩
        exact walks_acceptCopy hrange (hspans number start stop hspan) hcopy
    | anchor kind multiline =>
        simp only [Leaf.acceptWith, Leaf.accept, Option.ite_none_right_eq_some,
          Option.some.injEq] at haccept
        rw [haccept.2]
        exact .refl

end Context

namespace Program.Means

variable {program : Program} {tree : Tree} {ctx : Context} {limits : Limits} {m state : Machine}
  {start : Nat}

/-- What a group has captured can be walked over, in every state of an attempt. -/
theorem attempt_walks (h : program.Means tree) (hencoding : ctx.encoding = program.encoding)
    (hrange : ctx.range < ctx.stop)
    (hliterals : ∀ bytes, .literal bytes ∈ tree.leaves ctx.encoding →
      ctx.encoding.isValid bytes = true)
    (hfits : m.registers.Fits program)
    (hreach : Machine.Reaches program limits ctx (m.restart start) state) {n first last : Nat}
    (hspan : state.registers.spans n = some (first, last)) : ctx.Walks first last := by
  have hallowed : ∀ test ∈ tree.leaves ctx.encoding, ∀ bytes, test = .literal bytes →
      ctx.encoding.isValid bytes = true := by
    rintro test hmem bytes rfl
    exact hliterals bytes hmem
  have hexplores := h.explores_joined hencoding (Context.leading_walks hrange) hallowed
    (Registers.records_clear _ hfits start)
  rcases Control.explores_safe hexplores (fun _ => trivial) (Machine.reaches_control hreach) with
    ⟨instr, -, hwalks, -⟩
  exact hwalks n first last hspan

end Program.Means

end RegexEngine
