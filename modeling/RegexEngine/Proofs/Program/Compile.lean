import RegexEngine.Proofs.Program.Attempt
import RegexEngine.Proofs.Reading.Parse

/-!
# Compiled Programs

What reading leaves is what the code of a tree needs: groups that are numbered without a gap have
numbers that differ, and each has its slot. So every program that a pattern is compiled to is the
program of a well-formed tree, and all that holds of the programs of such trees holds of every
program there is.

A look-behind whose alternatives differ in length is divided before its code is made. That moves
neither groups nor bounds.

## Theorems

* `bounded_divideAll`: Dividing look-behinds keeps the bounds.
* `ofParsed_ok`: The program of a pattern that was read.
* `compile_ok`: Every compiled program is that of a pattern that was read.
* `exists_program`: A computation with the program of a single pattern.
-/

namespace RegexEngine

namespace Node

variable {ρ : Type}

theorem boundedAll_map {f : Node ρ → Node ρ} {items : List (Node ρ)}
    (ih : ∀ node ∈ items, node.Bounded → (f node).Bounded) (h : BoundedAll items) :
    BoundedAll (items.map f) := by
  rw [boundedAll_iff] at h ⊢
  exact List.forall_mem_map.mpr fun node hmem => ih node hmem (h node hmem)

theorem bounded_divide (enc : Encoding) (negated : Bool) (node : Node ρ) (h : node.Bounded) :
    (divide enc negated node).Bounded := by
  induction node with
  | alternation items ih =>
      have hitems : BoundedAll (divideEach enc negated items) :=
        divideEach_eq_map enc negated items ▸ boundedAll_map ih h
      rw [divide]
      split
      · exact h
      · split
        · exact hitems
        · exact hitems
  | _ => exact h

/-- Dividing look-behinds keeps the bounds. -/
theorem bounded_divideAll (enc : Encoding) (node : Node ρ) (h : node.Bounded) :
    (divideAll enc node).Bounded := by
  induction node with
  | look direction negated body ih =>
      cases direction with
      | ahead => exact ih h
      | behind => exact bounded_divide enc negated _ (ih h)
  | repeated lower upper greedy body ih => exact ⟨h.1, ih h.2⟩
  | group number body ih | atomic body ih => exact ih h
  | sequence items ih | alternation items ih =>
      rw [divideAll, divideAllOf_eq_map]
      exact boundedAll_map ih h
  | _ => exact h

end Node

namespace Program

variable {pattern : List UInt8} {options : Options} {enc : Encoding} {dialect : Dialect}
  {limits : Limits} {parsed : Pattern.Parsed} {program : Program}

/-- A tree that is prepared has the groups that it had before. -/
theorem groupNumbers_prepare (enc : Encoding) (dialect : Dialect) (tree : Tree) :
    (prepare enc dialect tree).groupNumbers = tree.groupNumbers := by
  rw [prepare]
  split
  · exact Node.groupNumbers_divideAll enc tree
  · rfl

/-- A tree that is prepared is as well-formed as before. -/
theorem wellFormed_prepared {tree : Tree} {slots : Nat} (h : tree.WellFormed slots) :
    (prepare enc dialect tree).WellFormed slots := by
  have hgroups := groupNumbers_prepare enc dialect tree
  refine ⟨?_, hgroups ▸ h.distinct, hgroups ▸ h.numbers⟩
  rw [prepare]
  split
  · exact Node.bounded_divideAll enc tree h.bounded
  · exact h.bounded

/-- The tree that is read is well-formed, if there is a slot for each of its groups. -/
theorem wellFormed_parsed (h : Pattern.parse pattern options enc dialect limits = .ok parsed)
    {slots : Nat} (hslots : parsed.groups < slots) : parsed.tree.WellFormed slots := by
  rcases Pattern.parse_ok h with ⟨hnumbers, hbounded, -⟩
  refine ⟨hbounded, hnumbers ▸ List.nodup_range', fun n hn => ?_⟩
  rw [hnumbers, List.mem_range'_1] at hn
  omega

/-- The tree whose code is made is well-formed. -/
theorem wellFormed_prepare (h : Pattern.parse pattern options enc dialect limits = .ok parsed) :
    (prepare enc dialect parsed.tree).WellFormed (parsed.groups + 1) :=
  wellFormed_prepared (wellFormed_parsed h (Nat.lt_succ_self _))

/-- The program of a pattern that was read is that of the tree which was prepared. -/
theorem ofParsed_ok (hparse : Pattern.parse pattern options enc dialect limits = .ok parsed)
    (h : ofParsed pattern options enc dialect parsed = .ok program) :
    program.Means (prepare enc dialect parsed.tree) ∧ program.encoding = enc ∧
      program.hints = Hints.ofTree parsed.tree := by
  rw [ofParsed] at h
  split at h
  · cases h
  · rename_i code ids hemit
    cases h
    exact ⟨⟨wellFormed_prepare hparse, code, ids, hemit, rfl, rfl, rfl⟩, rfl, rfl⟩

/-- Every compiled program is that of a pattern that was read. -/
theorem compile_ok {given : Options} (h : compile pattern given enc dialect limits = .ok program) :
    ∃ parsed, Pattern.parse pattern (optionsFor given dialect) enc dialect limits = .ok parsed ∧
      ofParsed pattern (optionsFor given dialect) enc dialect parsed = .ok program := by
  rw [compile] at h
  split at h
  · cases h
  · rename_i parsed hparse
    exact ⟨parsed, hparse, h⟩

theorem encoding_of_compile {given : Options}
    (h : compile pattern given enc dialect limits = .ok program) : program.encoding = enc := by
  rcases compile_ok h with ⟨parsed, hparse, hprogram⟩
  exact (ofParsed_ok hparse hprogram).2.1

/-- What a computation shows of a single program. -/
theorem exists_compiled {given : Options} {holds : Program → Bool}
    (h : (compile pattern given enc dialect limits).toOption.any holds = true) :
    ∃ program, compile pattern given enc dialect limits = .ok program ∧ holds program = true := by
  rcases hcompile : compile pattern given enc dialect limits with failure | program
  · rw [hcompile] at h
    cases h
  · rw [hcompile] at h
    exact ⟨program, rfl, h⟩

/-- What a computation shows of a pattern and its program. -/
theorem exists_program {holds : Pattern.Parsed → Program → Bool}
    (h : ((Pattern.parse pattern options enc dialect limits).toOption.any fun parsed =>
      (ofParsed pattern options enc dialect parsed).toOption.any (holds parsed)) = true) :
    ∃ parsed program, Pattern.parse pattern options enc dialect limits = .ok parsed ∧
      ofParsed pattern options enc dialect parsed = .ok program ∧ holds parsed program = true := by
  rcases hparse : Pattern.parse pattern options enc dialect limits with failure | parsed
  · rw [hparse] at h
    cases h
  · rcases hprogram : ofParsed pattern options enc dialect parsed with failure | program
    · simp only [hparse, Except.toOption, Option.any_some, hprogram, Option.any_none] at h
      cases h
    · simp only [hparse, Except.toOption, Option.any_some, hprogram] at h
      exact ⟨parsed, program, rfl, hprogram, h⟩

end Program

end RegexEngine
