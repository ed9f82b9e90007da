import RegexEngine.Proofs.Emission.Exists
import RegexEngine.Proofs.Longest.Ends
import RegexEngine.Proofs.Longest.Reorder

/-!
# Outcomes in Another Order

A plain tree leads to the same positions when greediness and the order of alternatives change. By
what has been shown of each construct, it is enough to look at the place where something changes.

A lazy repeat has longer code than a greedy one, so a repeat around it may be written out where it
was a loop before. That is why the ways to run a repeat have to lead to the same positions, too.

Whether there is code for a tree at all depends on the lengths of its look-behinds and on nothing
that a change touches.

## Theorems

* `sameEnds_rearranged`: A change keeps the positions that a plain tree leads to.
* `hasCode_rearranged`: A change does not decide on whether there is code.
* `keeps_rearranged`: What any number of changes keep.
-/

namespace RegexEngine

namespace Node

open Ways

variable {ctx : Context} {tree tree' : Tree} {items items' : List Tree}

theorem sameEnds_behind {body body' : Tree} (negated : Bool)
    (hlength : body.charLength ctx.encoding = body'.charLength ctx.encoding)
    (h : SameEnds (outcomes ctx body) (outcomes ctx body')) :
    SameEnds (outcomes ctx (.look .behind negated body))
      (outcomes ctx (.look .behind negated body')) := by
  rw [outcomes, outcomes, hlength]
  split
  · exact sameEnds_never
  · exact sameEnds_look (sameEnds_andThen (sameEnds_stepBack _) h)

/-- What a plain tree leads to depends on the position that it is tried at and on nothing else. -/
theorem sameEnds_outcomes (tree : Tree) (h : tree.plain = true) :
    SameEnds (outcomes ctx tree) (outcomes ctx tree) := by
  -- Leaves look at the position only. References would not, and parts that give nothing back would
  -- depend on the order; a plain tree has neither.
  induction tree using Node.induct with
  | repeated lower upper greedy body ih =>
      have hsuits := Scheme.choose_suits lower upper (body.codeLength ctx.encoding)
      have hadvances := outcomes_advances ctx body
      exact sameEnds_repeats hsuits hsuits hadvances hadvances (ih h)
  | group number body ih => exact sameEnds_group (ih h)
  | look direction negated body ih =>
      cases direction with
      | ahead => exact sameEnds_look (ih h)
      | behind => exact sameEnds_behind negated rfl (ih h)
  | sequence items ih =>
      rw [plain, plainAll_iff] at h
      induction items with
      | nil => exact sameEnds_stay
      | cons node rest ihrest =>
          refine sameEnds_andThen (ih node List.mem_cons_self (h node List.mem_cons_self)) ?_
          exact ihrest (fun t ht => ih t (List.mem_cons_of_mem _ ht))
            fun t ht => h t (List.mem_cons_of_mem _ ht)
  | alternation items ih =>
      rw [plain, plainAll_iff] at h
      have hself : EndsIn (outcomesOfAny ctx items) (outcomesOfAny ctx items) := by
        rw [outcomesOfAny_eq]
        refine endsIn_anyOf (List.forall_mem_map.mpr fun node hnode => ?_)
        exact ⟨_, List.mem_map_of_mem hnode, (ih node hnode (h node hnode)).1⟩
      exact ⟨hself, hself⟩
  | literal bytes ignoreCase =>
      refine sameEnds_test fun groups other => ?_
      cases ignoreCase <;> rintro ⟨⟩
  | set | anyChar | word | anchor => exact sameEnds_test fun _ _ => by rintro ⟨⟩
  | backref | atomic => cases h

/-- Alternatives lead to the same positions in any order. -/
theorem endsIn_order (horder : items.Perm items') (h : plainAll items = true) :
    EndsIn (outcomesOfAny ctx items) (outcomesOfAny ctx items') := by
  rw [plainAll_iff] at h
  rw [outcomesOfAny_eq, outcomesOfAny_eq]
  refine endsIn_anyOf (List.forall_mem_map.mpr fun node hnode => ?_)
  exact ⟨_, List.mem_map_of_mem (horder.mem_iff.mp hnode),
    (sameEnds_outcomes node (h node hnode)).1⟩

/-- A change to one alternative changes nothing about the others. -/
theorem endsIn_alternative {before behind : List Tree} {node node' : Tree}
    (hbefore : ∀ item ∈ before, plain item = true) (hbehind : ∀ item ∈ behind, plain item = true)
    (h : EndsIn (outcomes ctx node) (outcomes ctx node')) :
    EndsIn (outcomesOfAny ctx (before ++ node :: behind))
      (outcomesOfAny ctx (before ++ node' :: behind)) := by
  rw [outcomesOfAny_eq, outcomesOfAny_eq]
  refine endsIn_anyOf (List.forall_mem_map.mpr fun item hitem => ?_)
  rcases List.mem_append.mp hitem with hitem | hitem
  · exact ⟨_, List.mem_map_of_mem (List.mem_append_left _ hitem),
      (sameEnds_outcomes item (hbefore item hitem)).1⟩
  rcases List.mem_cons.mp hitem with rfl | hitem
  · exact ⟨_, List.mem_map_of_mem (List.mem_append_right _ List.mem_cons_self), h⟩
  · exact ⟨_, List.mem_map_of_mem (List.mem_append_right _ (List.mem_cons_of_mem _ hitem)),
      (sameEnds_outcomes item (hbehind item hitem)).1⟩

/-- Nor does a change to one item of a sequence. -/
theorem sameEnds_item {before behind : List Tree} {node node' : Tree}
    (hbefore : ∀ item ∈ before, plain item = true) (hbehind : ∀ item ∈ behind, plain item = true)
    (h : SameEnds (outcomes ctx node) (outcomes ctx node')) :
    SameEnds (outcomesInOrder ctx (before ++ node :: behind))
      (outcomesInOrder ctx (before ++ node' :: behind)) := by
  induction before with
  | nil =>
      have hrest : (sequence behind).plain = true := (plainAll_iff behind).mpr hbehind
      exact sameEnds_andThen h (sameEnds_outcomes _ hrest)
  | cons first rest ih =>
      rw [List.forall_mem_cons] at hbefore
      exact sameEnds_andThen (sameEnds_outcomes first hbefore.1) (ih hbefore.2)

theorem Negative.tests (h : tree.Negative) : Tests (outcomes ctx tree) := by
  induction h with
  | look direction body =>
      rcases outcomes_look ctx direction true body with hnever | ⟨next, hlook⟩
      · rw [hnever]
        exact tests_never
      · rw [hlook]
        exact tests_look _
  | @sequence items each ih =>
      clear each
      induction items with
      | nil => exact tests_stay
      | cons node rest ihrest =>
          rw [List.forall_mem_cons] at ih
          exact ih.1.andThen (ihrest ih.2)

/-- Tests in a sequence may be made in any order. -/
theorem outcomesInOrder_perm (horder : items.Perm items') (h : ∀ node ∈ items, Negative node) :
    outcomesInOrder ctx items = outcomesInOrder ctx items' := by
  induction horder with
  | nil => rfl
  | cons node _ ih =>
      rw [outcomesInOrder, outcomesInOrder, ih fun t ht => h t (List.mem_cons_of_mem _ ht)]
  | swap second first rest =>
      simp only [List.forall_mem_cons] at h
      have htests : andThen (outcomes ctx first) (outcomes ctx second) =
          andThen (outcomes ctx second) (outcomes ctx first) := andThen_tests h.1.tests h.2.1.tests
      simp only [outcomesInOrder]
      rw [← andThen_assoc, ← andThen_assoc, htests]
  | trans horder _ ih ih' =>
      exact (ih h).trans (ih' fun node hnode => h node (horder.mem_iff.mpr hnode))

/-- A change keeps the positions that a plain tree leads to. -/
theorem sameEnds_rearranged (h : Somewhere Rearranges tree tree') (hplain : tree.plain = true) :
    SameEnds (outcomes ctx tree) (outcomes ctx tree') := by
  induction h with
  | here change =>
      rcases change with ⟨⟨lower, upper, greedy, greedy', body⟩ | ⟨order⟩⟩ | ⟨order, each⟩
      · have hsuits := Scheme.choose_suits lower upper (body.codeLength ctx.encoding)
        have hadvances := outcomes_advances ctx body
        exact sameEnds_repeats hsuits hsuits hadvances hadvances (sameEnds_outcomes body hplain)
      · have hplain' := (plain_rearranged (.here (.priorities (.alternatives order)))).mp hplain
        exact ⟨endsIn_order order hplain, endsIn_order order.symm hplain'⟩
      · have hsame := @outcomesInOrder_perm ctx _ _ order each
        have hself := @sameEnds_outcomes ctx _ hplain
        simp only [outcomes] at hself ⊢
        rw [← hsame]
        exact hself
  | @repeated lower upper greedy body body' _ ih =>
      -- The code of the body may have another length, and so the scheme may be another one.
      exact sameEnds_repeats (Scheme.choose_suits _ _ _) (Scheme.choose_suits _ _ _)
        (outcomes_advances ctx body) (outcomes_advances ctx body') (ih hplain)
  | group _ ih => exact sameEnds_group (ih hplain)
  | atomic => cases hplain
  | @look direction negated _ _ inner ih =>
      cases direction with
      | ahead => exact sameEnds_look (ih hplain)
      | behind => exact sameEnds_behind negated (charLength_rearranged inner) (ih hplain)
  | item _ ih =>
      simp only [plain, plainAll_iff, List.forall_mem_append, List.forall_mem_cons] at hplain
      exact sameEnds_item hplain.1 hplain.2.2 (ih hplain.2.1)
  | alternative _ ih =>
      simp only [plain, plainAll_iff, List.forall_mem_append, List.forall_mem_cons] at hplain
      have hnode := ih hplain.2.1
      exact ⟨endsIn_alternative hplain.1 hplain.2.2 hnode.1,
        endsIn_alternative hplain.1 hplain.2.2 hnode.2⟩

/-- A change does not decide on whether there is code for a tree. -/
theorem hasCode_rearranged {enc : Encoding} (h : Somewhere Rearranges tree tree') :
    tree.HasCode enc ↔ tree'.HasCode enc := by
  -- Where the change is, alternatives or tests are reordered, which keeps how many there are and
  -- what each of them needs. Around it nothing else is changed.
  induction h with
  | here change =>
      rcases change with ⟨⟨⟩ | ⟨order⟩⟩ | ⟨order, each⟩
      · exact Iff.rfl
      · simp only [HasCode, hasCodeAll_iff]
        refine and_congr (not_congr ?_) (forall_mem_perm order)
        exact ⟨fun h => (h ▸ order).nil_eq.symm, fun h => (h ▸ order).eq_nil⟩
      · simp only [HasCode, hasCodeAll_iff]
        exact forall_mem_perm order
  | repeated _ ih => simp only [HasCode, ih]
  | group _ ih | atomic _ ih => exact ih
  | @look direction _ _ _ inner ih =>
      cases direction with
      | ahead => exact ih
      | behind => simp only [HasCode, ih, @charLength_rearranged _ enc _ _ inner]
  | item _ ih =>
      simp only [HasCode, hasCodeAll_iff]
      exact forall_mem_item ih
  | alternative _ ih =>
      simp only [HasCode, hasCodeAll_iff, ne_eq, List.append_eq_nil_iff, reduceCtorEq, and_false,
        not_false_eq_true, true_and]
      exact forall_mem_item ih

/-- What any number of changes keep of a plain tree: that it is well-formed, whether there is code
for it, and where it leads. -/
theorem keeps_rearranged {slots : Nat}
    (h : Relation.ReflTransGen (Somewhere Rearranges) tree tree') (hwell : tree.WellFormed slots)
    (hplain : tree.plain = true) :
    tree'.WellFormed slots ∧ (∀ enc, tree.HasCode enc ↔ tree'.HasCode enc) ∧
      ∀ ctx, SameEnds (outcomes ctx tree) (outcomes ctx tree') := by
  have hkeeps : tree'.plain = true ∧ tree'.WellFormed slots ∧
      (∀ enc, tree.HasCode enc ↔ tree'.HasCode enc) ∧
      ∀ ctx, SameEnds (outcomes ctx tree) (outcomes ctx tree') := by
    induction h with
    | refl => exact ⟨hplain, hwell, fun _ => Iff.rfl, fun _ => sameEnds_outcomes tree hplain⟩
    | tail _ hchange ih =>
        rcases ih with ⟨hplain, hwell, hcode, hends⟩
        exact ⟨(plain_rearranged hchange).mp hplain, wellFormed_rearranged hchange hwell,
          fun enc => (hcode enc).trans (hasCode_rearranged hchange),
          fun ctx => (hends ctx).trans (sameEnds_rearranged hchange hplain)⟩
  exact hkeeps.2

end Node

end RegexEngine
