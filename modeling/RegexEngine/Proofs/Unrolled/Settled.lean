import RegexEngine.Proofs.Unrolled.Closing

/-!
# Bodies that Settle

An empty match of a tree makes no difference to the match that follows it if all that it has left
behind is overwritten before it is looked at. What an empty match leaves behind is the spans of the
groups that it has closed. They are overwritten if every match of the tree closes these groups anew,
and they are not looked at before if no reference to such a group can be tried earlier than the
group is closed.

So a tree is run from two places that agree on all groups but some, none of which it asks for before
it has closed it. The tests then come to the same positions, and the groups on which the places do
not agree become fewer on the way: those that the tree always closes are the same in the end.

## Main definitions

* `Node.Settled`: What an empty match closes is closed anew, and is not asked for before.
* `Place.AgreesBut`: Two places agree on all groups but some.
* `Ways.Overwrites`: What a part asks for and what it closes, from places that do not agree.

## Theorems

* `outcomes_overwrites`: A tree overwrites the groups that it always closes.
* `settled_of_groupless`, `settled_of_minLength`: Trees that are settled.
* `settles_of_settled`: An empty match of a settled tree makes no difference to the next one.
-/

namespace RegexEngine

/-- Two places are at the same position and agree on all groups but some. -/
structure Place.AgreesBut (stale : Nat → Prop) (p q : Place) : Prop where
  pos : p.pos = q.pos
  spans : ∀ n, ¬ stale n → p.spans n = q.spans n

namespace Place.AgreesBut

variable {stale more : Nat → Prop} {p q : Place}

theorem mono (h : p.AgreesBut stale q) (hmore : ∀ n, stale n → more n) : p.AgreesBut more q :=
  ⟨h.pos, fun n hn => h.spans n fun hstale => hn (hmore n hstale)⟩

theorem moveTo (h : p.AgreesBut stale q) (pos : Nat) :
    (p.moveTo pos).AgreesBut stale (q.moveTo pos) :=
  ⟨rfl, h.spans⟩

/-- A group that is closed at both places is no longer one on which they differ. -/
theorem close (h : p.AgreesBut stale q) (number start : Nat) :
    (p.close number start).AgreesBut (fun n => stale n ∧ n ≠ number) (q.close number start) := by
  refine ⟨h.pos, fun n hn => ?_⟩
  rw [spans_close, spans_close, h.pos]
  split
  · rfl
  · rename_i hne
    exact h.spans n fun hstale => hn ⟨hstale, hne⟩

/-- Places that agree on all groups are the same. -/
theorem eq (h : p.AgreesBut stale q) (hnone : ∀ n, ¬ stale n) : p = q := by
  cases p
  cases q
  obtain rfl := h.pos
  congr
  exact funext fun n => h.spans n (hnone n)

end Place.AgreesBut

namespace Ways

variable {ctx : Context} {asks asks' closes closes' : Nat → Prop} {body first second : Ways}

/-- From places that agree on all groups but some, none of which the part asks for, it comes to
places that agree on all groups but those of them that it does not close. -/
def Overwrites (asks closes : Nat → Prop) (ways : Ways) : Prop :=
  ∀ stale : Nat → Prop, (∀ n, stale n → ¬ asks n) → ∀ p q, Place.AgreesBut stale p q →
    List.Forall₂ (Place.AgreesBut fun n => stale n ∧ ¬ closes n) (ways p) (ways q)

theorem Overwrites.mono (h : Overwrites asks closes body) (hasks : ∀ n, asks n → asks' n)
    (hcloses : ∀ n, closes' n → closes n) : Overwrites asks' closes' body := by
  intro stale hstale p q hpq
  refine (h stale (fun n hn hask => hstale n hn (hasks n hask)) p q hpq).imp fun _ _ hlast => ?_
  exact hlast.mono fun n hn => ⟨hn.1, fun hclose => hn.2 (hcloses n hclose)⟩

theorem overwrites_stay : Overwrites asks (fun _ => False) stay :=
  fun _ _ _ _ hpq => .cons (hpq.mono fun _ hn => ⟨hn, not_false⟩) .nil

theorem overwrites_never : Overwrites asks closes never :=
  fun _ _ _ _ _ => .nil

theorem overwrites_step (next : Nat → Option Nat) :
    Overwrites asks (fun _ => False) (step next) := by
  intro stale hstale p q hpq
  rw [step, step, hpq.pos]
  rcases next q.pos with _ | pos
  · exact .nil
  · exact .cons ((hpq.moveTo pos).mono fun _ hn => ⟨hn, not_false⟩) .nil

/-- A test for the text of groups asks for these. -/
theorem overwrites_backref (groups : List Nat) (ignoreCase : Bool) :
    Overwrites (· ∈ groups) (fun _ => False) (test ctx (.backref groups ignoreCase)) := by
  intro stale hstale p q hpq
  have haccept : Leaf.acceptWith ctx p.spans p.pos (.backref groups ignoreCase) =
      Leaf.acceptWith ctx q.spans q.pos (.backref groups ignoreCase) := by
    have hfind : ∀ f : Nat → Option Nat,
        groups.reverse.findSome? f = (groups.reverse.map f).findSome? id := by
      intro f
      rw [List.findSome?_map, Function.id_comp]
    rw [Leaf.acceptWith, Leaf.acceptWith, hpq.pos, hfind, hfind]
    refine congrArg (List.findSome? id) (List.map_congr_left fun n hn => ?_)
    rw [hpq.spans n fun hstaleN => hstale n hstaleN (List.mem_reverse.mp hn)]
  rw [test, test, haccept]
  rcases Leaf.acceptWith ctx q.spans q.pos (.backref groups ignoreCase) with _ | pos
  · exact .nil
  · exact .cons ((hpq.moveTo pos).mono fun _ hn => ⟨hn, not_false⟩) .nil

/-- What the second part asks for may have been closed by the first. -/
theorem overwrites_andThen (h1 : Overwrites asks closes first)
    (h2 : Overwrites asks' closes' second) :
    Overwrites (fun n => asks n ∨ (asks' n ∧ ¬ closes n)) (fun n => closes n ∨ closes' n)
      (andThen first second) := by
  intro stale hstale p q hpq
  refine List.rel_flatMap (h1 stale (fun n hn hask => hstale n hn (Or.inl hask)) p q hpq) ?_
  intro mid mid' hmid
  refine (h2 _ (fun n hn hask => hstale n hn.1 (Or.inr ⟨hask, hn.2⟩)) mid mid' hmid).imp ?_
  intro last last' hlast
  exact hlast.mono fun n hn => ⟨hn.1.1, not_or.mpr ⟨hn.1.2, hn.2⟩⟩

theorem overwrites_orElse (h1 : Overwrites asks closes first)
    (h2 : Overwrites asks closes second) : Overwrites asks closes (orElse first second) :=
  fun stale hstale p q hpq =>
    List.rel_append (h1 stale hstale p q hpq) (h2 stale hstale p q hpq)

theorem overwrites_group (number : Nat) (h : Overwrites asks closes body) :
    Overwrites asks (fun n => n = number ∨ closes n) (group number body) := by
  intro stale hstale p q hpq
  rw [group, group, hpq.pos]
  refine List.rel_map ?_ (h stale hstale p q hpq)
  intro last last' hlast
  exact (hlast.close number q.pos).mono fun n hn => ⟨hn.1.1, not_or.mpr ⟨hn.2, hn.1.2⟩⟩

theorem overwrites_atomic (h : Overwrites asks closes body) :
    Overwrites asks closes (atomic body) :=
  fun stale hstale p q hpq => List.forall₂_take 1 (h stale hstale p q hpq)

theorem overwrites_look {negated : Bool} (h : Overwrites asks closes body) :
    Overwrites asks (fun n => negated = false ∧ closes n) (look negated body) := by
  intro stale hstale p q hpq
  have hbody := h stale hstale p q hpq
  cases negated with
  | false =>
      rw [look, look, if_neg Bool.false_ne_true, if_neg Bool.false_ne_true, hpq.pos]
      refine List.rel_map ?_ (List.forall₂_take 1 hbody)
      intro last last' hlast
      exact (hlast.moveTo q.pos).mono fun n hn => ⟨hn.1, fun hclose => hn.2 hclose.2⟩
  | true =>
      rw [look, look, if_pos rfl, if_pos rfl]
      have hempty : (body p).isEmpty = (body q).isEmpty := by
        rw [Bool.eq_iff_iff, List.isEmpty_iff_length_eq_zero, List.isEmpty_iff_length_eq_zero,
          hbody.length_eq]
      rw [hempty]
      split
      · exact .cons (hpq.mono fun n hn => ⟨hn, by rintro ⟨⟨⟩, -⟩⟩) .nil
      · exact .nil

theorem overwrites_times (h : Overwrites asks closes body) (k : Nat) :
    Overwrites asks (fun n => 0 < k ∧ closes n) (times k body) := by
  induction k with
  | zero => exact overwrites_stay.mono (fun _ => id) fun n hn => absurd hn.1 (Nat.lt_irrefl 0)
  | succ k ih =>
      refine (overwrites_andThen h ih).mono ?_ fun n hn => Or.inl hn.2
      rintro n (hn | hn)
      · exact hn
      · exact hn.1

/-- An iteration that the lower bound asks for closes what the body does. -/
theorem overwrites_iterate {lower : Nat} {upper : Option Nat} {greedy : Bool}
    (h : Overwrites asks closes body) (rounds count : Nat) :
    Overwrites asks (fun n => count < lower ∧ closes n)
      (iterate lower upper greedy body rounds count) := by
  -- The induction is on the rounds. The first round closes what the body closes, if it has to be
  -- run, and later rounds keep that.
  induction rounds generalizing count with
  | zero => exact overwrites_never
  | succ rounds ih =>
      intro stale hstale p q hpq
      -- A round of the body, and what follows it.
      have hmore : List.Forall₂ (Place.AgreesBut fun n => stale n ∧ ¬ closes n)
          (more lower upper greedy body rounds count p)
          (more lower upper greedy body rounds count q) := by
        refine List.rel_flatMap (h stale hstale p q hpq) fun mid mid' hmid => ?_
        -- Whether the loop ends here depends on positions alone, which agree.
        have hiff := @endsLoop_congr lower (count + 1) upper _ _ _ _ hpq.pos hmid.pos
        rw [afterRound, afterRound]
        simp only [hiff]
        split
        · exact .cons hmid .nil
        · refine (ih (count + 1) _ (fun n hn => hstale n hn.1) mid mid' hmid).imp ?_
          exact fun last last' hlast => hlast.mono fun n hn => hn.1
      -- A round that need not be run closes nothing for sure.
      have hweak : List.Forall₂ (Place.AgreesBut fun n => stale n ∧ ¬ (count < lower ∧ closes n))
          (more lower upper greedy body rounds count p)
          (more lower upper greedy body rounds count q) :=
        hmore.imp fun _ _ hlast => hlast.mono fun n hn => ⟨hn.1, fun hclose => hn.2 hclose.2⟩
      rw [iterate_succ, iterate_succ]
      split
      · exact hweak
      -- Where the loop may be left at once, the lower bound has been reached.
      · rename_i hcount
        have hstay := hpq.mono fun n (hn : stale n) =>
          (⟨hn, fun hclose => hcount hclose.1⟩ : stale n ∧ ¬ (count < lower ∧ closes n))
        split
        · exact List.rel_append hweak (.cons hstay .nil)
        · exact .cons hstay hweak

theorem overwrites_loop {lower : Nat} {upper : Option Nat} {greedy : Bool}
    (hupper : ∀ n, upper = some n → lower ≤ n) (h : Overwrites asks closes body) :
    Overwrites asks (fun n => 0 < lower ∧ closes n) (loop ctx lower upper greedy body) := by
  intro stale hstale p q hpq
  rw [loop, loop, hpq.pos]
  split
  · rename_i hzero
    have hlower := hupper 0 hzero
    exact .cons (hpq.mono fun n hn => ⟨hn, fun hclose => by omega⟩) .nil
  · exact overwrites_iterate h _ 0 stale hstale p q hpq

theorem overwrites_repeated {scheme : Scheme} {lower : Nat} {upper : Option Nat} {greedy : Bool}
    (hsuits : scheme.Suits lower upper) (hupper : ∀ n, upper = some n → lower ≤ n)
    (h : Overwrites asks closes body) :
    Overwrites asks (fun n => 0 < lower ∧ closes n)
      (repeated ctx scheme lower upper greedy body) := by
  cases scheme with
  | plus =>
      have hstar : Overwrites asks (fun n => 0 < 0 ∧ closes n) (loop ctx 0 none greedy body) :=
        overwrites_loop (by rintro n ⟨⟩) h
      refine (overwrites_andThen h hstar).mono ?_ fun n hn => Or.inl hn.2
      rintro n (hn | hn)
      · exact hn
      · exact hn.1
  | copies k =>
      obtain rfl : k = lower := hsuits.1
      exact overwrites_times h k
  | _ => exact overwrites_loop hupper h

end Ways

namespace Node

variable {ctx : Context}

theorem asks_subset {items : List Tree} {node : Tree} (h : node ∈ items) :
    node.asks ⊆ asksOfAny items := by
  induction items with
  | nil => exact absurd h List.not_mem_nil
  | cons first rest ih =>
      rcases List.mem_cons.mp h with rfl | h
      · exact List.subset_append_left _ _
      · exact List.subset_append_of_subset_right _ (ih h)

theorem overwrites_inOrder {items : List Tree}
    (h : ∀ node ∈ items, Ways.Overwrites (· ∈ node.asks) (· ∈ node.closes) (node.outcomes ctx)) :
    Ways.Overwrites (· ∈ asksInOrder items) (· ∈ closesInOrder items)
      (outcomesInOrder ctx items) := by
  induction items with
  | nil => exact Ways.overwrites_stay.mono (fun _ => id) fun n hn => absurd hn List.not_mem_nil
  | cons node rest ih =>
      rw [List.forall_mem_cons] at h
      refine (Ways.overwrites_andThen h.1 (ih h.2)).mono (fun n hn => ?_) fun n hn => ?_
      · rw [asksInOrder, List.mem_append, List.mem_filter, decide_eq_true_eq]
        exact hn
      · exact List.mem_append.mp hn

theorem overwrites_ofAny {items : List Tree} {asks : Nat → Prop}
    (h : ∀ node ∈ items, Ways.Overwrites asks (fun _ => False) (node.outcomes ctx)) :
    Ways.Overwrites asks (fun _ => False) (outcomesOfAny ctx items) := by
  induction items with
  | nil => exact Ways.overwrites_never
  | cons node rest ih =>
      rw [List.forall_mem_cons] at h
      exact Ways.overwrites_orElse h.1 (ih h.2)

/-- A tree overwrites the groups that it always closes. -/
theorem outcomes_overwrites (ctx : Context) (tree : Tree) (hbound : tree.Bounded) :
    Ways.Overwrites (· ∈ tree.asks) (· ∈ tree.closes) (tree.outcomes ctx) := by
  -- A leaf other than a reference looks at the position only.
  have hstep : ∀ {leaf : Leaf}, (∀ groups ignoreCase, leaf ≠ .backref groups ignoreCase) →
      Ways.Overwrites (· ∈ ([] : List Nat)) (· ∈ ([] : List Nat)) (Ways.test ctx leaf) := by
    intro leaf hleaf
    rw [Ways.test_eq_step hleaf]
    exact (Ways.overwrites_step _).mono (fun _ => id) fun n hn => absurd hn List.not_mem_nil
  -- A sequence closes what one of its parts does; a reference asks for its groups; an alternation
  -- closes nothing for sure.
  induction tree using Node.induct with
  | literal bytes ignoreCase =>
      refine hstep fun groups folds => ?_
      rw [literalLeaf]
      split
      · rintro ⟨⟩
      · rintro ⟨⟩
  | set | anyChar | word | anchor => exact hstep (by rintro groups ignoreCase ⟨⟩)
  | backref groups ignoreCase offset =>
      exact (Ways.overwrites_backref groups ignoreCase).mono (fun _ => id)
        fun n hn => absurd hn List.not_mem_nil
  | repeated lower upper greedy body ih =>
      -- A repeat closes what its body does only if the body has to be run.
      refine (Ways.overwrites_repeated (Scheme.choose_suits _ _ _) hbound.1
        (ih hbound.2)).mono (fun _ => id) fun n hn => ?_
      rw [closes] at hn
      split at hn
      · exact absurd hn List.not_mem_nil
      · rename_i hlower
        exact ⟨Nat.pos_of_ne_zero hlower, hn⟩
  | group number body ih =>
      exact (Ways.overwrites_group number (ih hbound)).mono (fun _ => id)
        fun n hn => List.mem_cons.mp hn
  | atomic body ih => exact Ways.overwrites_atomic (ih hbound)
  | look direction negated body ih =>
      rcases outcomes_look ctx direction negated body with hnever | ⟨next, hlook⟩
      · rw [hnever]
        exact Ways.overwrites_never
      · rw [hlook]
        -- What a look-around closes is closed behind it, unless it is negated.
        have hinside := Ways.overwrites_andThen
          (@Ways.overwrites_step (fun _ => False) next) (ih hbound)
        refine (Ways.overwrites_look hinside).mono ?_ fun n hn => ?_
        · rintro n (hn | hn)
          · exact hn.elim
          · exact hn.1
        · rw [closes] at hn
          cases negated with
          | false => exact ⟨rfl, Or.inr hn⟩
          | true => exact absurd hn List.not_mem_nil
  | sequence items ih =>
      have hitems := (boundedAll_iff items).mp hbound
      exact overwrites_inOrder fun node hnode => ih node hnode (hitems node hnode)
  | alternation items ih =>
      have hitems := (boundedAll_iff items).mp hbound
      refine (overwrites_ofAny fun node hnode => ?_).mono (fun _ => id)
        fun n hn => absurd hn List.not_mem_nil
      exact (ih node hnode (hitems node hnode)).mono (fun n hn => asks_subset hnode hn)
        fun n hn => hn.elim

/-- Every group that an empty match of the tree may close is closed by every match of the tree, and
is not asked for before. -/
def Settled (tree : Tree) : Prop :=
  ∀ n ∈ tree.emptyCloses, n ∈ tree.closes ∧ n ∉ tree.asks

instance (tree : Tree) : Decidable tree.Settled :=
  inferInstanceAs (Decidable (∀ n ∈ tree.emptyCloses, n ∈ tree.closes ∧ n ∉ tree.asks))

section Settled

variable {tree : Tree}

/-- An empty match closes no groups but those of the tree. -/
theorem emptyCloses_subset_groupNumbers (tree : Tree) : tree.emptyCloses ⊆ tree.groupNumbers := by
  -- What the items of a list close, from what each of them does.
  have hitems : ∀ {items : List Tree}, (∀ node ∈ items, node.emptyCloses ⊆ node.groupNumbers) →
      emptyClosesOf items ⊆ groupNumbersOf items := by
    intro items ih
    induction items with
    | nil => exact List.Subset.refl _
    | cons node rest ihrest =>
        rw [List.forall_mem_cons] at ih
        intro n hn
        rcases List.mem_append.mp hn with hfirst | hlater
        · exact List.mem_append_left _ (ih.1 hfirst)
        · exact List.mem_append_right _ (ihrest ih.2 hlater)
  -- Each construct closes groups of its own and of its parts, or none.
  induction tree using Node.induct with
  | literal | set | anyChar | word | backref | anchor => exact List.nil_subset _
  | repeated lower upper greedy body ih | atomic body ih => exact ih
  | group number body ih =>
      rw [emptyCloses]
      split
      · exact List.cons_subset_cons number ih
      · exact List.nil_subset _
  | look direction negated body ih =>
      rw [emptyCloses]
      split
      · exact List.nil_subset _
      · exact List.Subset.refl _
  | sequence items ih =>
      rw [emptyCloses]
      split
      · exact hitems ih
      · exact List.nil_subset _
  | alternation items ih => exact hitems ih

theorem emptyClosesOf_eq_nil {items : List Tree} (h : ∀ node ∈ items, node.emptyCloses = []) :
    emptyClosesOf items = [] := by
  induction items with
  | nil => rfl
  | cons node rest ih =>
      rw [List.forall_mem_cons] at h
      rw [emptyClosesOf, h.1, ih h.2, List.append_nil]

theorem minLengthMin_le {items : List Tree} {node : Tree} (h : node ∈ items) :
    minLengthMin items ≤ node.minLength := by
  induction items with
  | nil => exact absurd h List.not_mem_nil
  | cons first rest ih =>
      cases rest with
      | nil =>
          cases List.mem_singleton.mp h
          exact Nat.le_refl _
      | cons other more =>
          have hleast : minLengthMin (first :: other :: more) =
              min first.minLength (minLengthMin (other :: more)) := rfl
          rw [hleast]
          rcases List.mem_cons.mp h with rfl | hlater
          · exact Nat.min_le_left _ _
          · exact Nat.le_trans (Nat.min_le_right _ _) (ih hlater)

/-- A tree that needs a byte has no empty match that could close a group. -/
theorem emptyCloses_of_minLength (tree : Tree) (h : tree.minLength ≠ 0) :
    tree.emptyCloses = [] := by
  induction tree using Node.induct with
  | literal | set | anyChar | word | backref | anchor => rfl
  | repeated lower upper greedy body ih =>
      exact ih fun hzero => h (by rw [minLength, hzero, Nat.zero_mul])
  | group number body ih => exact if_neg h
  | atomic body ih => exact ih h
  | look => exact absurd rfl h
  | sequence items ih => exact if_neg h
  | alternation items ih =>
      -- The least of several lengths is not zero, so that none of them is.
      refine emptyClosesOf_eq_nil fun node hnode => ih node hnode fun hzero => h ?_
      exact Nat.eq_zero_of_le_zero (hzero ▸ minLengthMin_le hnode)

/-- A tree without groups is settled. -/
theorem settled_of_groupless (h : tree.groupNumbers = []) : tree.Settled := by
  intro n hn
  have hmem := emptyCloses_subset_groupNumbers tree hn
  rw [h] at hmem
  exact absurd hmem List.not_mem_nil

/-- A tree that needs a byte is settled. -/
theorem settled_of_minLength (h : tree.minLength ≠ 0) : tree.Settled := by
  intro n hn
  rw [emptyCloses_of_minLength tree h] at hn
  exact absurd hn List.not_mem_nil

end Settled

/-- An empty match of a settled tree makes no difference to the match that follows it. -/
theorem settles_of_settled {tree : Tree} (hbound : tree.Bounded) (hsettled : tree.Settled) :
    Ways.Settles (tree.outcomes ctx) := by
  intro place last hlast hpos
  have hspares := (outcomes_sparesEmpty ctx tree hbound place last hlast).2 hpos
  have hagrees : Place.AgreesBut (· ∈ tree.emptyCloses) last place := ⟨hpos, hspares⟩
  have hsame := outcomes_overwrites ctx tree hbound _ (fun n hn => (hsettled n hn).2) last place
    hagrees
  refine List.forall₂_eq_eq_eq ▸ hsame.imp fun _ _ h => ?_
  exact h.eq fun n hn => hn.2 (hsettled n hn.1).1

end Node

end RegexEngine
