import RegexEngine.Proofs.Class.Closure
import RegexEngine.Proofs.Class.Written

/-!
# A Class Is the Union of Its Items

A set of characters is kept in parts: a byte set for the code points below 256, and ranges and kinds
in the order in which they were added. Each question about membership is answered by one of the two
sides alone. Whatever is added, and in whatever order, the set has what the added items have.

A bracket class is read into such a set, item by item. If case matters, it has a code point just if
one of the items in its text has it; after a caret, just if none has.

## Theorems

* `contains_insertAll`: Membership in a set that items were added to.
* `bracketClass_union`: The sets that are built, and the classes that are read.
-/

namespace RegexEngine

namespace Pattern

variable {enc : Encoding} {added order : List Entry} {negated : Bool} {c : Nat}

/-- What a set has that items were added to, if it stands for what it lists and if it does not. -/
theorem contains_insertAll : (insertAll enc { negated := negated } added).contains enc c = true ↔
    Xor (Covered enc added c) (negated = true) := by
  rw [CharSet.contains, negated_insertAll, bne_iff_ne, Ne, Bool.eq_iff_iff, lists_iff_covered,
    ← xor_iff_not_iff]

/-- Items may be added in any order. -/
theorem covered_perm (h : order.Perm added) : Covered enc order c ↔ Covered enc added c :=
  exists_congr fun _ => and_congr_left fun _ => h.mem_iff

/-- Added in any order, items make a set that has what one of them has. A bracket class that is read
while case matters has what one of the items in its text has, or after a caret what none has. -/
theorem bracketClass_union :
    (∀ (enc : Encoding) (added order : List Entry) (negated : Bool) (c : Nat), order.Perm added →
      ((insertAll enc { negated := negated } order).contains enc c = true ↔
        Xor (Covered enc added c) (negated = true))) ∧
    ∀ (env : Setting) (start after : List UInt8) (set : CharSet),
      bracketClass env false start = .ok (set, after) →
        (∃ entries, ClassLists env start entries after) ∧
        ∀ entries, ClassLists env start entries after →
          (∀ entry ∈ entries, entry.WrittenIn env start) ∧
          ∀ c, set.contains env.encoding c = true ↔
            Xor (Covered env.encoding entries c) (startsWith start.tail '^' = true) := by
  constructor
  · intro enc added order negated c horder
    rw [contains_insertAll, covered_perm horder]
  · intro env start after set hread
    refine ⟨exists_classLists hread, fun entries hlists => ?_⟩
    refine ⟨writtenIn_of_classLists hlists, fun c => ?_⟩
    rcases bracketClass_of_lists hlists hread with ⟨plain, rfl, hset⟩
    rw [if_neg Bool.false_ne_true] at hset
    rw [hset]
    exact contains_insertAll

/-- The class `[^a-c\d]` does not have `b`, which lies in the range, and it has `z`. The same items
make a set when they are added from the last to the first. -/
theorem bracketClass_union_negated :
    (∃ set, bracketClass (standardSetting [91, 94, 97, 45, 99, 92, 100, 93]) false
          [91, 94, 97, 45, 99, 92, 100, 93] = .ok (set, []) ∧
      set.contains .utf8 0x62 = false ∧ set.contains .utf8 0x7a = true) ∧
    [Entry.kind .digit false, .span 97 99].Perm [.span 97 99, .kind .digit false] ∧
      (insertAll .utf8 {} [.kind .digit false, .span 97 99]).contains .utf8 0x62 = true := by
  have hlists : ClassLists (standardSetting [91, 94, 97, 45, 99, 92, 100, 93])
      [91, 94, 97, 45, 99, 92, 100, 93] [.span 97 97, .span 97 99, .kind .digit false] [] :=
    ⟨_, rfl, .code (by decide) rfl (.range rfl rfl rfl (by decide)
      (.kind (by decide) rfl (.close rfl)))⟩
  have hunion := (bracketClass_union.2 (standardSetting _) _ [] _ rfl).2 _ hlists
  have hperm : [Entry.kind .digit false, .span 97 99].Perm [.span 97 99, .kind .digit false] :=
    .swap _ _ []
  -- The letter `b` is listed by the range alone, and `z` by none of the items.
  have hlisted : Covered .utf8 [.span 97 97, .span 97 99, .kind .digit false] 0x62 :=
    ⟨.span 97 99, by simp, by decide⟩
  have hmissing : ¬Covered .utf8 [.span 97 97, .span 97 99, .kind .digit false] 0x7a := by
    unfold Covered
    decide
  refine ⟨⟨_, rfl, ?_, ?_⟩, hperm, ?_⟩
  · rw [← Bool.not_eq_true, hunion.2, not_xor]
    exact iff_of_true hlisted rfl
  · rw [hunion.2]
    exact Or.inr ⟨rfl, hmissing⟩
  · rw [bracketClass_union.1 _ _ _ _ _ hperm]
    exact Or.inl ⟨⟨_, List.mem_cons_self, by decide⟩, by decide⟩

end Pattern

end RegexEngine
