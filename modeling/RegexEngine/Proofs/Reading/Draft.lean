import RegexEngine.Pattern.Parse
import RegexEngine.Proofs.Coding.Character
import RegexEngine.Proofs.Outcome.Progress
import RegexEngine.Proofs.Reading.Text

/-!
# What Reading Leaves

Three things hold of every tree that is read from a pattern. Its groups are numbered from one on, in
the order of their parentheses and without a gap. The bounds of its repeats are in order. Its
literals are texts of the encoding, so that they begin with a byte that starts a character.

`Reads` says so of the trees that have been read between two states, and that the text which is left
is one of the encoding. Reading one part after the other composes: `Reads.append` is how every
sequence is dealt with, and the groups of the two parts are one stretch of numbers. Trees are put
together afterwards, by joining literals and by wrapping repeats around them; that changes neither
the groups nor the two properties.

## Main definitions

* `Encoding.Begins`: A text is empty or begins with a byte that starts a character.
* `Node.LiteralsValid`: All literals of a tree are texts of the encoding.
* `Pattern.Reads`: What the trees read so far are like.

## Theorems

* `isValid_encode`: The bytes of a code point are a text of the encoding.
* `Reads.append`: One part is read after the other.
* `Reads.branchNode`, `Reads.alternationNode`, `Reads.apply`: Trees put together from those that
  were read.
-/

namespace RegexEngine

namespace Encoding

/-- The text is empty or begins with a byte that starts a character. -/
def Begins (enc : Encoding) (bytes : List UInt8) : Prop :=
  ∀ b, bytes.head? = some b → enc.isHead b = true

variable {enc : Encoding} {bytes : List UInt8}

theorem begins_of_isValid (h : enc.isValid bytes = true) : enc.Begins bytes := by
  cases bytes with
  | nil =>
      rintro b ⟨⟩
  | cons b rest =>
      rintro first ⟨⟩
      exact isHead_of_isValid h

/-- The bytes of a code point are a text of the encoding. -/
theorem isValid_encode {c : Nat} (h : enc.encode? c = some bytes) : enc.isValid bytes = true := by
  cases enc with
  | ascii => rfl
  | utf8 =>
      have hvalid := (Utf8.encode?_isCharacter h).1.validFrom_append []
      rw [List.append_nil] at hvalid
      exact hvalid

end Encoding

namespace Node

variable {ρ : Type}

mutual

/-- All literals of a tree are texts of the encoding. -/
def LiteralsValid (enc : Encoding) : Node ρ → Prop
  | literal bytes _ => enc.isValid bytes = true
  | set .. | anyChar .. | word .. | backref .. | anchor .. => True
  | repeated _ _ _ body | group _ body | atomic body | look _ _ body => LiteralsValid enc body
  | sequence items | alternation items => LiteralsValidAll enc items

/-- All literals of several trees are. -/
def LiteralsValidAll (enc : Encoding) : List (Node ρ) → Prop
  | [] => True
  | node :: rest => LiteralsValid enc node ∧ LiteralsValidAll enc rest

end

theorem literalsValidAll_iff (enc : Encoding) (items : List (Node ρ)) :
    LiteralsValidAll enc items ↔ ∀ node ∈ items, LiteralsValid enc node := by
  induction items with
  | nil => simp only [LiteralsValidAll, List.not_mem_nil, false_implies, implies_true]
  | cons node rest ih => simp only [LiteralsValidAll, List.forall_mem_cons, ih]

end Node

namespace Pattern

open Node

section Joining

variable {ρ : Type} {items : List (Node ρ)}

/-- Literals have no groups, so joining them moves none. -/
theorem groupNumbersOf_joinLiteral (before : List (Node ρ)) (node : Node ρ) :
    groupNumbersOf (joinLiteral before node).reverse =
      groupNumbersOf before.reverse ++ node.groupNumbers := by
  have hcons : groupNumbersOf (node :: before).reverse =
      groupNumbersOf before.reverse ++ node.groupNumbers := by
    rw [List.reverse_cons, groupNumbersOf_append]
    simp only [groupNumbersOf, List.append_nil]
  rw [joinLiteral.eq_def]
  split
  · split
    · simp only [List.reverse_cons, groupNumbersOf_append, groupNumbersOf, groupNumbers,
        List.append_nil]
    · exact hcons
  · exact hcons

theorem groupNumbersOf_joinLiterals (items : List (Node ρ)) :
    groupNumbersOf (joinLiterals items) = groupNumbersOf items := by
  -- The items joined so far are kept in reverse, so the statement is about what they are added to.
  have hfold : ∀ before : List (Node ρ), groupNumbersOf (items.foldl joinLiteral before).reverse =
      groupNumbersOf before.reverse ++ groupNumbersOf items := by
    induction items with
    | nil =>
        intro before
        simp only [List.foldl_nil, groupNumbersOf, List.append_nil]
    | cons node rest ih =>
        intro before
        rw [List.foldl_cons, ih, groupNumbersOf_joinLiteral, groupNumbersOf, List.append_assoc]
  exact hfold []

/-- What holds of all items and is kept when literals are joined holds of what they are joined to.
-/
theorem forall_joinLiterals {motive : Node ρ → Prop}
    (hjoin : ∀ {bytes more : List UInt8} {ignoreCase moreIgnoreCase : Bool},
      motive (.literal bytes ignoreCase) → motive (.literal more moreIgnoreCase) →
        motive (.literal (bytes ++ more) ignoreCase))
    (h : ∀ node ∈ items, motive node) : ∀ node ∈ joinLiterals items, motive node := by
  -- One node is added: it is joined to the last literal or stands by itself.
  have hstep : ∀ (before : List (Node ρ)) (node : Node ρ), (∀ found ∈ before, motive found) →
      motive node → ∀ found ∈ joinLiteral before node, motive found := by
    intro before node hbefore hnode
    have hcons : ∀ found ∈ node :: before, motive found :=
      List.forall_mem_cons.mpr ⟨hnode, hbefore⟩
    rw [joinLiteral.eq_def]
    split
    · split
      · rw [List.forall_mem_cons] at hbefore ⊢
        exact ⟨hjoin hbefore.1 hnode, hbefore.2⟩
      · exact hcons
    · exact hcons
  -- The nodes are added one after the other, so the induction is over what was added before.
  have hfold : ∀ before : List (Node ρ), (∀ found ∈ before, motive found) →
      ∀ found ∈ items.foldl joinLiteral before, motive found := by
    induction items with
    | nil => exact fun before hbefore => hbefore
    | cons node rest ih =>
        intro before hbefore
        rw [List.forall_mem_cons] at h
        exact ih h.2 _ (hstep before node hbefore h.1)
  intro node hnode
  exact hfold [] (List.forall_mem_nil _) node (List.mem_reverse.mp hnode)

end Joining

/-- What the trees are like that have been read since `groups` groups were open, when the state is
`after`. -/
structure Reads (env : Setting) (groups : Nat) (drafts : List Draft) (after : State) : Prop where
  valid : env.encoding.isValid after.rest = true
  numbers : ∃ count, after.groups = groups + count ∧
    groupNumbersOf drafts = List.range' (groups + 1) count
  bounded : ∀ draft ∈ drafts, draft.Bounded
  literals : ∀ draft ∈ drafts, draft.LiteralsValid env.encoding

namespace Reads

variable {env : Setting} {groups : Nat} {draft : Draft} {drafts more : List Draft}
  {mid after : State}

theorem nil (hvalid : env.encoding.isValid after.rest = true) (hgroups : after.groups = groups) :
    Reads env groups [] after :=
  ⟨hvalid, ⟨0, hgroups, rfl⟩, List.forall_mem_nil _, List.forall_mem_nil _⟩

/-- A tree without groups. -/
theorem leaf (hvalid : env.encoding.isValid after.rest = true) (hgroups : after.groups = groups)
    (hnumbers : draft.groupNumbers = []) (hbounded : draft.Bounded)
    (hliterals : draft.LiteralsValid env.encoding) : Reads env groups [draft] after := by
  refine ⟨hvalid, ⟨0, hgroups, ?_⟩, List.forall_mem_singleton.mpr hbounded,
    List.forall_mem_singleton.mpr hliterals⟩
  rw [groupNumbersOf, hnumbers]
  rfl

/-- What is read in one part and then in another has been read in both. -/
theorem append (h : Reads env groups drafts mid) (hmore : Reads env mid.groups more after) :
    Reads env groups (drafts ++ more) after := by
  rcases h.numbers with ⟨first, hmid, hdrafts⟩
  rcases hmore.numbers with ⟨second, hafter, hnumbers⟩
  refine ⟨hmore.valid, ⟨first + second, by omega, ?_⟩, ?_, ?_⟩
  · -- The second stretch of numbers begins where the first one ends.
    rw [groupNumbersOf_append, hdrafts, hnumbers, hmid, ← List.range'_append_1,
      Nat.add_right_comm]
  · rw [List.forall_mem_append]
    exact ⟨h.bounded, hmore.bounded⟩
  · rw [List.forall_mem_append]
    exact ⟨h.literals, hmore.literals⟩

/-- The text that is left may be another one, as long as it is one of the encoding. -/
theorem move {last : State} (h : Reads env groups drafts after)
    (hvalid : env.encoding.isValid last.rest = true) (hgroups : last.groups = after.groups) :
    Reads env groups drafts last :=
  ⟨hvalid, hgroups ▸ h.numbers, h.bounded, h.literals⟩

/-- Other trees with the same groups may take the place of those that were read. -/
theorem change (h : Reads env groups drafts after)
    (hnumbers : groupNumbersOf more = groupNumbersOf drafts)
    (hbounded : ∀ draft ∈ more, draft.Bounded)
    (hliterals : ∀ draft ∈ more, draft.LiteralsValid env.encoding) : Reads env groups more after :=
  ⟨h.valid, hnumbers ▸ h.numbers, hbounded, hliterals⟩

theorem bounded_single (h : Reads env groups [draft] after) : draft.Bounded :=
  h.bounded draft List.mem_cons_self

theorem literals_single (h : Reads env groups [draft] after) : draft.LiteralsValid env.encoding :=
  h.literals draft List.mem_cons_self

/-- A single tree may take the place of the one that was read. -/
theorem wrap {other : Draft} (h : Reads env groups [draft] after)
    (hnumbers : other.groupNumbers = draft.groupNumbers) (hbounded : other.Bounded)
    (hliterals : other.LiteralsValid env.encoding) : Reads env groups [other] after := by
  refine h.change ?_ (List.forall_mem_singleton.mpr hbounded)
    (List.forall_mem_singleton.mpr hliterals)
  simp only [groupNumbersOf, hnumbers]

/-- A group around a tree has the number that comes before those of the tree. -/
theorem group (h : Reads env (groups + 1) [draft] after) :
    Reads env groups [.group (groups + 1) draft] after := by
  rcases h.numbers with ⟨count, hgroups, hnumbers⟩
  refine ⟨h.valid, ⟨count + 1, by omega, ?_⟩, List.forall_mem_singleton.mpr h.bounded_single,
    List.forall_mem_singleton.mpr h.literals_single⟩
  rw [List.range'_succ, ← hnumbers]
  rfl

theorem look (h : Reads env groups [draft] after) (direction : Direction) (negated : Bool) :
    Reads env groups [.look direction negated draft] after :=
  h.wrap rfl h.bounded_single h.literals_single

theorem atomic (h : Reads env groups [draft] after) : Reads env groups [.atomic draft] after :=
  h.wrap rfl h.bounded_single h.literals_single

/-- A repeat whose bounds are in order. -/
theorem apply {q : Quantifier} (h : Reads env groups [draft] after)
    (hq : ∀ n, q.upper = some n → q.lower ≤ n) : Reads env groups [q.apply draft] after := by
  have hrepeated : Reads env groups [.repeated q.lower q.upper q.greedy draft] after :=
    h.wrap rfl ⟨hq, h.bounded_single⟩ h.literals_single
  rw [Quantifier.apply]
  split
  · exact hrepeated.atomic
  · exact hrepeated

/-- The node of a branch. -/
theorem branchNode (h : Reads env groups drafts after) :
    Reads env groups [branchNode drafts] after := by
  have hjoined : Reads env groups (joinLiterals drafts) after :=
    h.change (groupNumbersOf_joinLiterals drafts)
      (forall_joinLiterals (fun _ _ => trivial) h.bounded)
      (forall_joinLiterals (fun h hmore => (Encoding.isValid_append h _).trans hmore) h.literals)
  rw [Pattern.branchNode]
  split
  · rename_i hnil
    rw [hnil] at hjoined
    exact hjoined.change rfl (List.forall_mem_singleton.mpr trivial)
      (List.forall_mem_singleton.mpr Encoding.isValid_nil)
  · rename_i node hsingle
    rw [hsingle] at hjoined
    exact hjoined
  · refine hjoined.change ?_ (List.forall_mem_singleton.mpr ?_) (List.forall_mem_singleton.mpr ?_)
    · simp only [groupNumbersOf, groupNumbers, List.append_nil]
    · exact (boundedAll_iff _).mpr hjoined.bounded
    · exact (literalsValidAll_iff _ _).mpr hjoined.literals

/-- The node of an alternation. -/
theorem alternationNode (h : Reads env groups drafts after) :
    Reads env groups [alternationNode drafts] after := by
  rw [Pattern.alternationNode.eq_def]
  split
  · exact h
  · refine h.change ?_ (List.forall_mem_singleton.mpr ?_) (List.forall_mem_singleton.mpr ?_)
    · simp only [groupNumbersOf, groupNumbers, List.append_nil]
    · exact (boundedAll_iff _).mpr h.bounded
    · exact (literalsValidAll_iff _ _).mpr h.literals

end Reads

end Pattern

end RegexEngine
