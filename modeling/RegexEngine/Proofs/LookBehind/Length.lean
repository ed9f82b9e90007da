import RegexEngine.Proofs.Coding.Ahead
import RegexEngine.Proofs.Emission.Exists
import RegexEngine.Proofs.Longest.Reorder
import RegexEngine.Proofs.Outcome.Schemes

/-!
# Trees of a Known Length

A look-behind relies on the number of characters of its body, which is read off the tree. Nothing
checks it while a match is attempted: where a look-behind has stepped back over as many characters,
the body has to end where the look-behind started, of itself.

It does. Whatever the bytes of the subject are, every outcome of a tree with a known length lies as
many characters ahead, if steps ahead are counted by the lengths that first bytes announce. A
literal is a text of the pattern's encoding, so where its bytes are accepted, each of its characters
is one of the subject, be it cut short in the subject or not; without regard to case the literal is
compared character by character to begin with. A repeat has a known length if it runs exactly so
many times, and then it does so by every scheme.

## Main definitions

* `Ways.Measures`: All outcomes of a part lie a number of characters ahead.
* `Node.TestsTexts`: The bytes that a tree asks for are texts of the encoding.

## Theorems

* `measures_stay`, `measures_andThen`, `measures_times`, `measures_look`: Compounds.
* `outcomes_measures`: The outcomes of a tree with a known length.
* `charLength_divideAll`, `charLength_prepare`: Dividing look-behinds keeps the length of a tree
  that there is code for.
-/

namespace RegexEngine

namespace Context

variable {ctx : Context} {pos last : Nat}

/-- A character that is accepted is one character. -/
theorem stepAhead_acceptChar {accepted : Bool} (hrange : ctx.range ≤ ctx.stop)
    (h : ctx.acceptChar pos accepted = some last) :
    ctx.encoding.stepAhead ctx.subject 1 pos = some last := by
  rcases Option.bind_eq_some_iff.mp h with ⟨n, hwithin, haccept⟩
  rcases charWithin_eq_some.mp hwithin with ⟨hpos, rfl, -⟩
  rw [Option.ite_none_right_eq_some, Option.some.injEq] at haccept
  rw [Encoding.stepAhead_one (Nat.lt_of_lt_of_le hpos hrange), haccept.2]

/-- Folded characters that are accepted are as many characters. -/
theorem stepAhead_acceptFolded {codes : List Nat} (hrange : ctx.range ≤ ctx.stop)
    (h : ctx.acceptFolded pos codes = some last) :
    ctx.encoding.stepAhead ctx.subject codes.length pos = some last := by
  induction codes generalizing pos with
  | nil =>
      cases h
      rfl
  | cons c rest ih =>
      rcases Option.bind_eq_some_iff.mp h with ⟨next, hnext, hrest⟩
      have hone := Encoding.stepAhead_add (stepAhead_acceptChar hrange hnext) (ih hrest)
      rwa [Nat.add_comm] at hone

/-- The bytes of a complete text that are accepted are as many characters as the text has. -/
theorem stepAhead_acceptBytes {bytes : List UInt8} (hrange : ctx.range ≤ ctx.stop)
    (hcomplete : ctx.encoding.Complete bytes) (h : ctx.acceptBytes pos bytes = some last) :
    ctx.encoding.stepAhead ctx.subject (ctx.encoding.characters bytes).length pos = some last := by
  induction hcomplete generalizing pos with
  | nil =>
      cases h
      rfl
  | @char lead tails rest announces later ih =>
      rw [acceptBytes_append, Option.bind_eq_some_iff] at h
      rcases h with ⟨next, hchar, hrest⟩
      rcases ahead_of_acceptBytes hchar with ⟨hnext, hwithin⟩
      have hle := hwithin (List.cons_ne_nil lead tails)
      rw [List.length_cons] at hnext
      have hlead : ctx.byteAt pos = lead := by
        simp only [acceptBytes, Option.ite_none_right_eq_some, Bool.and_eq_true,
          beq_iff_eq] at hchar
        exact hchar.1.2
      -- The range ends in the subject, so the character has all the bytes that it announces.
      have hlength : ctx.encoding.charLength ctx.subject pos = tails.length + 1 := by
        unfold byteAt at hlead
        unfold stop at hrange
        rw [Encoding.charLength, hlead, announces]
        omega
      have hsize : pos < ctx.subject.size := by
        unfold stop at hrange
        omega
      have hone : ctx.encoding.stepAhead ctx.subject 1 pos = _ := Encoding.stepAhead_one hsize
      rw [hlength, ← hnext] at hone
      rw [Encoding.characters_append announces, List.length_cons, Nat.add_comm]
      exact Encoding.stepAhead_add hone (ih hrest)

end Context

namespace Ways

variable {ctx : Context} {first second body : Ways} {n m : Nat}

/-- All outcomes of a part lie `n` characters ahead. -/
def Measures (ctx : Context) (n : Nat) (ways : Ways) : Prop :=
  Relates (fun place last => ctx.encoding.stepAhead ctx.subject n place.pos = some last.pos) ways

theorem measures_stay : Measures ctx 0 stay :=
  relates_stay fun _ => rfl

theorem measures_andThen (h1 : Measures ctx n first) (h2 : Measures ctx m second) :
    Measures ctx (n + m) (andThen first second) := by
  intro place last hlast
  rcases List.mem_flatMap.mp hlast with ⟨mid, hmid, hlast⟩
  exact Encoding.stepAhead_add (h1 place mid hmid) (h2 mid last hlast)

theorem measures_times (h : Measures ctx n body) (count : Nat) :
    Measures ctx (n * count) (times count body) := by
  induction count with
  | zero => exact measures_stay
  | succ count ih =>
      rw [Nat.mul_succ, Nat.add_comm]
      exact measures_andThen h ih

theorem measures_group (h : Measures ctx n body) (number : Nat) :
    Measures ctx n (group number body) := by
  intro place last hlast
  rcases List.mem_map.mp hlast with ⟨inner, hinner, rfl⟩
  exact h place inner hinner

/-- A look-around returns to where it started. -/
theorem measures_look (negated : Bool) (body : Ways) : Measures ctx 0 (look negated body) := by
  intro place last hlast
  rw [look] at hlast
  split at hlast
  · rw [List.mem_ite_nil_right] at hlast
    rw [List.mem_singleton.mp hlast.2]
    rfl
  · rcases List.mem_map.mp hlast with ⟨inner, -, rfl⟩
    rfl

end Ways

namespace Node

variable {ctx : Context} {enc : Encoding} {n : Nat}

/-- The bytes that the tests of a tree ask for are texts of the encoding. -/
def TestsTexts (enc : Encoding) (tree : Tree) : Prop :=
  ∀ bytes, .literal bytes ∈ tree.leaves enc → enc.isValid bytes = true

/-- The outcomes of a test lie as far ahead as the positions that it accepts. -/
theorem measures_test {leaf : Leaf}
    (h : ∀ (place : Place) (pos : Nat), leaf.acceptWith ctx place.spans place.pos = some pos →
      ctx.encoding.stepAhead ctx.subject n place.pos = some pos) :
    Ways.Measures ctx n (Ways.test ctx leaf) := by
  intro place last hlast
  rcases Ways.mem_test hlast with ⟨pos, hpos, rfl⟩
  exact h place pos hpos

/-- A literal is as many characters as it is made of, whether case is regarded or not. -/
theorem measures_literal (hrange : ctx.range ≤ ctx.stop) {bytes : List UInt8} {ignoreCase : Bool}
    (hvalid : literalLeaf ctx.encoding bytes ignoreCase = .literal bytes →
      ctx.encoding.isValid bytes = true) :
    Ways.Measures ctx (ctx.encoding.characters bytes).length
      (Ways.test ctx (literalLeaf ctx.encoding bytes ignoreCase)) := by
  refine measures_test fun place pos haccept => ?_
  cases ignoreCase with
  | false =>
      exact Context.stepAhead_acceptBytes hrange (Encoding.complete_of_isValid (hvalid rfl)) haccept
  | true =>
      have hfolded := Context.stepAhead_acceptFolded hrange haccept
      rwa [List.length_map] at hfolded

/-- Trees one after the other lie as many characters ahead as they have together. -/
theorem measures_inOrder {items : List Tree} (ih : ∀ node ∈ items, ∀ {n},
      node.charLength ctx.encoding = some n → Ways.Measures ctx n (node.outcomes ctx))
    (hlength : charLengthSum ctx.encoding items = some n) :
    Ways.Measures ctx n (outcomesInOrder ctx items) := by
  induction items generalizing n with
  | nil =>
      cases hlength
      exact Ways.measures_stay
  | cons node rest ihrest =>
      rw [List.forall_mem_cons] at ih
      rw [charLengthSum] at hlength
      split at hlength
      · rename_i first later hfirst hlater
        rw [knownLength, Option.ite_none_right_eq_some, Option.some.injEq] at hlength
        rw [← hlength.2]
        exact Ways.measures_andThen (ih.1 hfirst) (ihrest ih.2 hlater)
      · cases hlength

/-- The outcomes of a tree with a known length lie as many characters ahead, if its literals are
texts of the encoding. -/
theorem outcomes_measures (hrange : ctx.range ≤ ctx.stop) (tree : Tree)
    (hliterals : tree.TestsTexts ctx.encoding)
    (hlength : tree.charLength ctx.encoding = some n) :
    Ways.Measures ctx n (tree.outcomes ctx) := by
  -- The cases are those of `charLength`. Leaves step over one character or none, and the other
  -- constructs add or share the lengths of their parts.
  induction tree using Node.induct generalizing n with
  | literal bytes ignoreCase =>
      cases hlength
      refine measures_literal hrange fun hleaf => hliterals bytes ?_
      rw [leaves, hleaf]
      exact List.mem_singleton_self _
  | set | anyChar | word =>
      cases hlength
      exact measures_test fun _ _ => Context.stepAhead_acceptChar hrange
  | backref => cases hlength
  | anchor kind multiline =>
      cases hlength
      refine measures_test fun place pos haccept => ?_
      rw [Leaf.acceptWith, Leaf.accept, Option.ite_none_right_eq_some] at haccept
      · exact haccept.2
      · rintro _ _ ⟨⟩
  | repeated lower upper greedy body ih =>
      rw [charLength] at hlength
      rw [outcomes]
      split at hlength
      · -- The repeat runs not at all, and its bounds are in order.
        rename_i hupper
        rw [Option.ite_none_right_eq_some, Option.some.injEq] at hlength
        rw [hupper, hlength.1, ← hlength.2, Ways.repeated_exact (Scheme.choose_suits _ _ _)]
        exact Ways.measures_stay
      -- As many rounds as the two bounds agree on, each as long as the body.
      · rw [Option.ite_none_right_eq_some, Option.bind_eq_some_iff] at hlength
        rcases hlength with ⟨hexact, count, hcount, hknown⟩
        rw [knownLength, Option.ite_none_right_eq_some, Option.some.injEq] at hknown
        rw [hexact, Ways.repeated_exact (Scheme.choose_suits _ _ _), ← hknown.2]
        exact Ways.measures_times (ih hliterals hcount) lower
  | group number body ih => exact Ways.measures_group (ih hliterals hlength) number
  | atomic body ih => exact Ways.relates_atomic (ih hliterals hlength)
  | look direction negated body ih =>
      cases hlength
      rcases outcomes_look ctx direction negated body with hnever | ⟨next, hlook⟩
      · rw [hnever]
        exact Ways.relates_never
      · rw [hlook]
        exact Ways.measures_look negated _
  -- The parts of a sequence stand one after the other, so their lengths add up.
  | sequence items ih =>
      refine measures_inOrder (fun node hnode => ih node hnode fun bytes hbytes => ?_) hlength
      exact hliterals bytes (mem_leavesOf.mpr ⟨node, hnode, hbytes⟩)
  | alternation items ih =>
      -- All alternatives are as long as the alternation.
      have heach := (charLengthCommon_eq_some.mp hlength).2
      refine relates_ofAny fun node hnode => ih node hnode (fun bytes hbytes => ?_)
        (heach node hnode)
      exact hliterals bytes (mem_leavesOf.mpr ⟨node, hnode, hbytes⟩)

/-- What a look-behind is divided into consumes nothing, if there is code for it. -/
theorem charLength_divide (negated : Bool) (body : Tree)
    (h : (divide enc negated body).HasCode enc) :
    (divide enc negated body).charLength enc = some 0 := by
  induction body using Node.induct with
  | alternation items ih =>
      rcases hlength : (alternation items : Tree).charLength enc with _ | k
      · rw [divide, hlength, divideEach_eq_map] at h ⊢
        cases negated with
        | true =>
            rw [if_pos rfl] at h ⊢
            refine charLengthSum_of_zero (List.forall_mem_map.mpr fun node hnode => ?_)
            exact ih node hnode ((hasCodeAll_iff _).mp h _ (List.mem_map_of_mem hnode))
        | false =>
            rw [if_neg Bool.false_ne_true] at h ⊢
            refine charLengthCommon_eq_some.mpr ⟨h.1, List.forall_mem_map.mpr fun node hnode => ?_⟩
            exact ih node hnode ((hasCodeAll_iff _).mp h.2 _ (List.mem_map_of_mem hnode))
      · rw [divide, hlength]
        rfl
  | _ => rfl

/-- Dividing look-behinds keeps the length of a tree that there is code for. -/
theorem charLength_divideAll (tree : Tree) (h : (divideAll enc tree).HasCode enc) :
    (divideAll enc tree).charLength enc = tree.charLength enc := by
  -- Only the look-behinds inside are replaced, and a look-behind has no length. So every construct
  -- has the length that its parts give it, before and after.
  induction tree using Node.induct with
  | repeated lower upper greedy body ih =>
      rw [divideAll, charLength, charLength]
      by_cases hupper : upper = some 0
      · rw [if_pos hupper, if_pos hupper]
      · rw [if_neg hupper, if_neg hupper, ih (h hupper)]
  | group number body ih | atomic body ih => exact ih h
  | look direction negated body ih =>
      cases direction with
      | ahead => rfl
      | behind => exact charLength_divide negated _ h
  | sequence items ih =>
      rw [divideAll, divideAllOf_eq_map] at h ⊢
      rw [charLength, charLength]
      have hitems := (hasCodeAll_iff _).mp h
      -- The sum is taken apart along the items; the equation of the whole is not needed any more.
      clear h
      induction items with
      | nil => rfl
      | cons node rest ihrest =>
          rw [List.forall_mem_cons] at ih
          rw [List.map_cons, List.forall_mem_cons] at hitems
          rw [List.map_cons, charLengthSum, charLengthSum, ih.1 hitems.1, ihrest ih.2 hitems.2]
  | alternation items ih =>
      rw [divideAll, divideAllOf_eq_map] at h ⊢
      have hitems := (hasCodeAll_iff _).mp h.2
      refine charLengthCommon_congr List.map_eq_nil_iff fun n => ?_
      rw [List.forall_mem_map]
      refine forall₂_congr fun node hnode => ?_
      rw [ih node hnode (hitems _ (List.mem_map_of_mem hnode))]
  | _ => rfl

end Node

/-- A tree that is prepared is as long as before, if there is code for it. -/
theorem Program.charLength_prepare {enc : Encoding} {dialect : Dialect} {tree : Tree}
    (h : (prepare enc dialect tree).HasCode enc) :
    (prepare enc dialect tree).charLength enc = tree.charLength enc := by
  rw [prepare] at h ⊢
  split at h
  · rename_i huneven
    rw [if_pos huneven]
    exact Node.charLength_divideAll tree h
  · rename_i heven
    rw [if_neg heven]

end RegexEngine
