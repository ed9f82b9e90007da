import RegexEngine.Proofs.Reading.Draft
import RegexEngine.Proofs.Reading.Passing
import RegexEngine.Proofs.Reading.Refusal

/-!
# Every Pattern Is Read or Refused

From the items without parentheses up to the whole pattern, each reader either leaves trees that are
sound or refuses the pattern with blame. A tree is sound if its references stand in the pattern and
its alternations have alternatives; the first is what resolving a reference may report, the second
is what there is code for.

The grammar goes round through its groups. A reader that is made from the reader of the inside of
groups is dealt with for any such reader, and the levels of groups follow by induction on how many
there may be. With so many levels open and room for so many more, the limit on nesting is met before
the room is used up. An item leaves less text than there was, which is what the loop over the items
of a branch runs on.

## Main definitions

* `Node.Sound`: The references and the alternations of a tree are as they should be.
* `Pattern.Leaves`: What has been read is sound, and an end of the text is left.
* `Pattern.Stands`: A state is at a position in the pattern, with so many levels open.

## Theorems

* `ends_simpleItem`, `ends_parenthesis`, `ends_branch`, `ends_alternatives`: The levels of the
  grammar.
* `ends_groupsWithin`: Groups inside of groups.
* `ends_resolve`: Resolving references.
* `ends_parse`: A pattern is read, or refused with blame.
-/

namespace RegexEngine

/-- The longest beginning of a text that is one of the encoding is no longer than the text. -/
theorem Encoding.validPrefixLength_le (enc : Encoding) (bytes : List UInt8) :
    enc.validPrefixLength bytes ≤ bytes.length := by
  rw [validPrefixLength]
  rcases hfind : (List.range (bytes.length + 1)).reverse.find? fun n => enc.isValid (bytes.take n)
    with _ | n
  · exact Nat.zero_le _
  · have hmem := List.mem_of_find?_eq_some hfind
    rw [List.mem_reverse, List.mem_range] at hmem
    exact Nat.le_of_lt_succ hmem

namespace Node

variable {ρ : Type} {size : Nat}

mutual

/-- The references of a tree stand in a pattern of the given length or at its end, and every
alternation has alternatives. -/
def Sound (size : Nat) : Node ρ → Prop
  | backref _ _ offset => offset ≤ size
  | literal .. | set .. | anyChar .. | word .. | anchor .. => True
  | repeated _ _ _ body | group _ body | atomic body | look _ _ body => Sound size body
  | sequence items => SoundAll size items
  | alternation items => items ≠ [] ∧ SoundAll size items

/-- Several trees are sound. -/
def SoundAll (size : Nat) : List (Node ρ) → Prop
  | [] => True
  | node :: rest => Sound size node ∧ SoundAll size rest

end

theorem soundAll_iff (items : List (Node ρ)) :
    SoundAll size items ↔ ∀ node ∈ items, Sound size node := by
  induction items with
  | nil => simp only [SoundAll, List.not_mem_nil, false_implies, implies_true]
  | cons node rest ih => simp only [SoundAll, List.forall_mem_cons, ih]

end Node

namespace Pattern

open Node

section Sound

variable {ρ : Type} {size : Nat} {items : List (Node ρ)}

theorem sound_branchNode (h : ∀ node ∈ items, node.Sound size) : (branchNode items).Sound size := by
  have hjoined : ∀ node ∈ joinLiterals items, node.Sound size :=
    forall_joinLiterals (fun _ _ => trivial) h
  rw [branchNode]
  split
  · trivial
  · rename_i node hsingle
    exact hjoined node (hsingle ▸ List.mem_cons_self)
  · exact (soundAll_iff _).mpr hjoined

theorem sound_alternationNode (hne : items ≠ []) (h : ∀ node ∈ items, node.Sound size) :
    (alternationNode items).Sound size := by
  rw [alternationNode.eq_def]
  split
  · exact h _ List.mem_cons_self
  · exact ⟨hne, (soundAll_iff _).mpr h⟩

theorem sound_apply (q : Quantifier) {node : Node ρ} (h : node.Sound size) :
    (q.apply node).Sound size := by
  rw [Quantifier.apply]
  split
  · exact h
  · exact h

end Sound

variable {env : Setting} {st : State} {text : List UInt8} {depth : Nat}

/-- The trees that have been read are sound, and what is left is an end of the text. -/
structure Leaves (env : Setting) (text : List UInt8) (drafts : List Draft) (after : State) :
    Prop where
  sound : ∀ draft ∈ drafts, draft.Sound env.size
  suffix : after.rest <:+ text

namespace Leaves

variable {draft : Draft} {drafts : List Draft} {after : State}

theorem single (hsound : draft.Sound env.size) (hsuffix : after.rest <:+ text) :
    Leaves env text [draft] after :=
  ⟨List.forall_mem_singleton.mpr hsound, hsuffix⟩

theorem sound_single (h : Leaves env text [draft] after) : draft.Sound env.size :=
  h.sound draft List.mem_cons_self

/-- Less may be left of a longer text, and another tree may take the place of the one that was read.
-/
theorem wrap {other : Draft} {last : State} {more : List UInt8} (h : Leaves env text [draft] after)
    (hsound : draft.Sound env.size → other.Sound env.size) (hsuffix : last.rest <:+ after.rest)
    (hmore : text <:+ more) : Leaves env more [other] last :=
  .single (hsound h.sound_single) (hsuffix.trans (h.suffix.trans hmore))

theorem mono {more : List UInt8} (h : Leaves env text drafts after) (hmore : text <:+ more) :
    Leaves env more drafts after :=
  ⟨h.sound, h.suffix.trans hmore⟩

end Leaves

/-- A state is at a position in the pattern, and so many levels are open. -/
structure Stands (env : Setting) (depth : Nat) (st : State) : Prop where
  suffix : st.rest <:+ env.pattern
  depth_eq : st.depth = depth

/-- Reading goes on in the text. -/
theorem Stands.move (h : Stands env depth st) {rest : List UInt8} (hrest : rest <:+ st.rest)
    (options : Options) : Stands env depth { st with rest := rest, options := options } :=
  ⟨hrest.trans h.suffix, h.depth_eq⟩

/-- A reader of a tree leaves a sound one and an end of the text. -/
def EndsTree (env : Setting) (text : List UInt8) (result : Except Failure (Draft × State)) : Prop :=
  Ends env.size result fun found => Leaves env text [found.1] found.2

/-- So does a reader of what may leave no tree. -/
def EndsOption (env : Setting) (text : List UInt8)
    (result : Except Failure (Option Draft × State)) : Prop :=
  Ends env.size result fun found => Leaves env text found.1.toList found.2

section Escapes

variable {esc : List UInt8} (hesc : esc <:+ env.pattern)
include hesc

theorem ends_numberEscape (h : st.rest ≠ []) :
    EndsTree env st.rest (numberEscape env esc st) := by
  rw [numberEscape]
  simp only
  split
  · split
    · exact ends_fail rfl hesc
    · exact .single (offset_le_iff.mpr hesc) (suffix_scanNumber st.rest)
  · split
    · rename_i heq
      exact absurd heq h
    · rename_i first tail heq
      have hdigits := suffix_scanDigits 8 3 0 0 st.rest
      split
      · -- Without an octal digit, the escape stands for the byte behind the backslash.
        exact .single trivial (heq ▸ List.suffix_cons first tail)
      · rename_i hscan
        rw [hscan] at hdigits
        exact (ends_encodeCode hesc _).bind fun bytes _ => .single trivial hdigits

theorem ends_characterEscape (b : UInt8) (st : State) :
    EndsTree env st.rest (characterEscape env esc b st) := by
  refine (ends_escapedCode hesc st.rest).bind fun ⟨code, rest⟩ hrest => ?_
  simp only
  split
  · exact (ends_encodeCode hesc code).bind fun bytes _ => .single trivial hrest
  · exact (ends_slice hrest).bind fun bytes _ => .single trivial hrest

end Escapes

theorem sound_kindNode (env : Setting) (kind : CharKind) (negated : Bool) :
    (kindNode env kind negated).Sound env.size := by
  rw [kindNode.eq_def]
  split
  · trivial
  · trivial

/-- A backslash and what it makes of the text after it. -/
theorem ends_escape (hst : st.rest <:+ env.pattern) :
    EndsTree env st.rest.tail (escape env st) := by
  have hinside := (List.tail_suffix st.rest).trans hst
  rw [escape]
  simp only
  split
  · exact ends_fail rfl hst
  · rename_i b tail heq
    rw [heq] at hinside ⊢
    have htail : tail <:+ b :: tail := List.suffix_cons b tail
    split
    -- A kind, an anchor, a reference to a name, one to a number, or a character.
    · exact .single (sound_kindNode env _ _) htail
    · split
      · exact .single trivial htail
      · split
        · have hname := (List.tail_suffix tail).trans htail
          refine (ends_readReference st.groups _ (hname.trans hinside)).bind fun found hfound => ?_
          exact .single (offset_le_iff.mpr hst) (hfound.trans hname)
        · split
          · exact ends_numberEscape hst (List.cons_ne_nil b tail)
          · exact ends_characterEscape hst b { st with rest := b :: tail }

/-- An item without parentheses takes a byte at least, if there is one. -/
theorem ends_simpleItem {b : UInt8} {tail : List UInt8} (h : st.rest = b :: tail)
    (hst : st.rest <:+ env.pattern) : EndsTree env tail (simpleItem env st) := by
  have htail : st.rest.tail = tail := by rw [h, List.tail_cons]
  rw [simpleItem, h]
  simp only
  split
  · refine (ends_bracketClass st.options.ignoreCase (h ▸ hst)).bind fun found hfound => ?_
    exact .single trivial hfound
  · exact .single trivial List.suffix_rfl
  · exact .single trivial List.suffix_rfl
  · exact .single trivial List.suffix_rfl
  · rw [← htail]
    exact ends_escape hst
  · split
    · rename_i hsplit
      cases hsplit
    · rename_i hsplit
      cases hsplit
      exact .single trivial (List.drop_suffix _ tail)

section Groups

variable {inside : Reader Draft} {start : List UInt8}

theorem ends_openGroup (hstart : start <:+ env.pattern) (hst : Stands env depth st) :
    Ends env.size (st.openGroup env start) fun found =>
      found.2.rest = st.rest ∧ Stands env depth found.2 := by
  rw [State.openGroup]
  split
  · exact ends_fail rfl hstart
  · exact ⟨rfl, hst.suffix, hst.depth_eq⟩

theorem ends_nameGroup (name : List UInt8) (number : Nat) (hstart : start <:+ env.pattern)
    (hst : Stands env depth st) :
    Ends env.size (st.nameGroup env start name number) fun named =>
      named.rest = st.rest ∧ Stands env depth named := by
  rw [State.nameGroup]
  split
  · exact ⟨rfl, hst.suffix, hst.depth_eq⟩
  · exact ends_failName rfl hstart

theorem ends_optionLetters (options : Options) (value : Bool) {rest : List UInt8}
    (hrest : rest <:+ env.pattern) :
    Ends env.size (optionLetters env options value rest) fun found => found.2.2 <:+ rest := by
  have hbehind : ∀ {b : UInt8} {rest : List UInt8}, b :: rest <:+ env.pattern →
      rest <:+ env.pattern := fun h => (List.suffix_cons _ _).trans h
  fun_induction optionLetters env options value rest with
  | case1 | case6 => exact ends_fail rfl hrest
  | case2 _ _ _ _ _ ih | case5 _ _ _ _ _ _ _ _ _ ih =>
      exact (ih (hbehind hrest)).mono fun _ hfound => hfound.trans (List.suffix_cons _ _)
  | case3 | case4 => exact List.suffix_cons _ _

theorem ends_commentGroup (env : Setting) (st : State) :
    EndsOption env st.rest (commentGroup env st) := by
  rw [commentGroup]
  split
  · exact ends_fail rfl List.nil_suffix
  · rename_i hskip
    exact ⟨List.forall_mem_nil _, suffix_skipComment hskip⟩

theorem ends_leavesNode {reader : Reader Draft} (h : EndsTree env text (reader st)) :
    EndsOption env text (leavesNode reader st) :=
  h.bind fun _ hfound => hfound

/-- What is read inside of a group, with so many levels open, is sound. -/
def EndsInside (env : Setting) (depth : Nat) (inside : Reader Draft) : Prop :=
  ∀ {st : State}, Stands env depth st → EndsTree env st.rest (inside st)

variable (hinside : EndsInside env depth inside)
include hinside

theorem ends_groupBody : EndsInside env depth (groupBody inside) :=
  fun hst => (hinside hst).bind fun found hfound =>
    hfound.wrap id (List.tail_suffix found.2.rest) List.suffix_rfl

theorem ends_namedGroup (close : Char) (hstart : start <:+ env.pattern) :
    EndsInside env depth (namedGroup env inside start close) := by
  intro st hst
  refine (ends_readName close hst.suffix).bind fun ⟨name, rest⟩ hrest => ?_
  refine (ends_openGroup hstart (hst.move hrest st.options)).bind
    fun ⟨number, opened⟩ ⟨hopened, hopenedStands⟩ => ?_
  refine (ends_nameGroup name number hst.suffix hopenedStands).bind
    fun named ⟨hnamed, hnamedStands⟩ => ?_
  -- Neither the number nor the name of the group takes any text.
  have hsuffix : named.rest <:+ st.rest := by
    rw [hnamed, hopened]
    exact hrest
  exact (ends_groupBody hinside hnamedStands).bind fun found hfound =>
    hfound.wrap id List.suffix_rfl hsuffix

theorem ends_lookAround (direction : Direction) (negated : Bool) :
    EndsInside env depth (lookAround inside direction negated) :=
  fun hst => (ends_groupBody hinside hst).bind fun _ hfound =>
    hfound.wrap id List.suffix_rfl List.suffix_rfl

theorem ends_atomicGroup : EndsInside env depth (atomicGroup inside) :=
  fun hst => (ends_groupBody hinside hst).bind fun _ hfound =>
    hfound.wrap id List.suffix_rfl List.suffix_rfl

theorem ends_optionGroup (hst : Stands env depth st) :
    EndsOption env st.rest (optionGroup env inside st) := by
  refine (ends_optionLetters st.options true hst.suffix).bind
    fun ⟨options, hasGroup, rest⟩ hrest => ?_
  simp only
  split
  · exact (ends_groupBody hinside (hst.move hrest options)).bind
      fun _ hfound => hfound.wrap id List.suffix_rfl hrest
  · exact ⟨List.forall_mem_nil _, hrest⟩

theorem ends_angleGroup (hstart : start <:+ env.pattern) :
    EndsInside env depth (angleGroup env inside start) := by
  intro st hst
  have htail := List.tail_suffix st.rest
  rw [angleGroup]
  split
  · exact (ends_lookAround hinside .behind _ (hst.move htail st.options)).mono
      fun _ hfound => hfound.mono htail
  · split
    · exact ends_fail rfl hst.suffix
    · split
      · exact ends_namedGroup hinside '>' hstart hst
      · exact ends_fail rfl hst.suffix

theorem ends_capitalGroup (hstart : start <:+ env.pattern) :
    EndsInside env depth (capitalGroup env inside start) := by
  intro st hst
  rw [capitalGroup]
  split
  · exact ends_fail rfl hst.suffix
  · rename_i b rest heq
    have hrest : rest <:+ st.rest := by
      rw [heq]
      exact List.suffix_cons b rest
    split
    · exact (ends_namedGroup hinside '>' hstart (hst.move hrest st.options)).mono
        fun _ hfound => hfound.mono hrest
    · refine (ends_readName ')' (hrest.trans hst.suffix)).bind fun found hfound => ?_
      exact .single (offset_le_iff.mpr hstart) (hfound.trans hrest)
    · exact ends_fail rfl hst.suffix

theorem ends_specialGroup (hstart : start <:+ env.pattern) (hst : Stands env depth st) :
    EndsOption env st.rest (specialGroup env inside start st) := by
  rw [specialGroup]
  split
  · exact ends_fail rfl hst.suffix
  · rename_i b rest heq
    simp only
    have hrest : rest <:+ st.rest := by
      rw [heq]
      exact List.suffix_cons b rest
    -- The state behind the sign is named, since every kind of group reads on from it.
    obtain ⟨next, hnext⟩ : ∃ next : State, next = { st with rest := rest } := ⟨_, rfl⟩
    have hstands : Stands env depth next := hnext ▸ hst.move hrest st.options
    rw [← hnext]
    have hmore : ∀ {result : Except Failure (Option Draft × State)},
        EndsOption env next.rest result → EndsOption env st.rest result := by
      intro result h
      refine h.mono fun _ hfound => hfound.mono ?_
      rw [hnext]
      exact hrest
    split
    · exact hmore (ends_commentGroup env next)
    · exact hmore (ends_leavesNode (ends_groupBody hinside hstands))
    · exact hmore (ends_leavesNode (ends_lookAround hinside .ahead _ hstands))
    · exact hmore (ends_leavesNode (ends_atomicGroup hinside hstands))
    · exact hmore (ends_leavesNode (ends_angleGroup hinside hstart hstands))
    · exact hmore (ends_leavesNode (ends_namedGroup hinside '\x27' hstart hstands))
    · exact hmore (ends_leavesNode (ends_capitalGroup hinside hstart hstands))
    · exact ends_optionGroup hinside hst
    · exact ends_fail rfl hst.suffix

/-- A parenthesis takes a byte at least. -/
theorem ends_parenthesis (hst : Stands env depth st) :
    EndsOption env st.rest.tail (parenthesis env inside st) := by
  have htail := List.tail_suffix st.rest
  rw [parenthesis]
  simp only
  split
  · have hsign := List.tail_suffix st.rest.tail
    exact (ends_specialGroup hinside hst.suffix
      (hst.move (hsign.trans htail) st.options)).mono fun _ hfound => hfound.mono hsign
  · refine (ends_openGroup hst.suffix (hst.move htail st.options)).bind
      fun found hfound => ?_
    rcases found with ⟨number, opened⟩
    rcases hfound with ⟨hopened, hstands⟩
    refine (ends_groupBody hinside hstands).bind fun _ hfound => ?_
    exact hfound.wrap id List.suffix_rfl (hopened ▸ List.suffix_rfl)

end Groups

/-- Repeat operators. Each takes a byte at least, so fuel for the bytes is fuel for the operators.
-/
theorem ends_repeats {fuel : Nat} (wraps : Nat) {node : Draft} (hst : st.rest <:+ env.pattern)
    (hfuel : st.rest.length < fuel) (hnode : node.Sound env.size) :
    EndsTree env st.rest (repeats env fuel wraps node st) := by
  induction fuel generalizing wraps node st with
  | zero => exact absurd hfuel (Nat.not_lt_zero _)
  | succ fuel ih =>
      have hblank := suffix_skipBlank st.options st.rest
      rw [repeats]
      generalize skipBlank st.options st.rest = rest at hblank ⊢
      simp only
      have hrest := hblank.trans hst
      cases rest with
      | nil => exact .single hnode hblank
      | cons b tail =>
          refine (ends_quantifier hrest).bind fun found hfound => ?_
          split
          · exact .single hnode hblank
          · rename_i q after
            have hafter : after <:+ tail := hfound q after rfl
            have hbehind := hafter.trans (List.suffix_cons b tail)
            have hlength : after.length < fuel := by
              have hle := hafter.length_le
              have hless := hblank.length_le
              rw [List.length_cons] at hless
              omega
            -- Whether the operator wraps the node or changes nothing, reading goes on behind it.
            have hnext : ∀ (wraps depth : Nat) {node : Draft}, node.Sound env.size →
                EndsTree env st.rest
                  (repeats env fuel wraps node { st with rest := after, depth := depth }) := by
              intro wraps depth node hnode
              have hmoved := @ih { st with rest := after, depth := depth } wraps node
                (hbehind.trans hrest) hlength hnode
              exact hmoved.mono fun _ hlast => hlast.mono (hbehind.trans hblank)
            split
            · exact ends_fail rfl hrest
            · split
              · exact hnext wraps st.depth hnode
              · split
                · exact ends_nestingLimit hrest
                · exact hnext (wraps + 1) (st.depth + 1) (sound_apply q hnode)

section Branches

/-- What a parenthesis opens is sound, if there may be one level more than so many. -/
def EndsParentheses (env : Setting) (depth : Nat) (group : Reader (Option Draft)) : Prop :=
  depth < env.nestingLimit → ∀ {st : State}, Stands env (depth + 1) st →
    EndsOption env st.rest.tail (group st)

variable {group : Reader (Option Draft)} (hgroup : EndsParentheses env depth group)
include hgroup

/-- An item takes a byte at least, if there is one. -/
theorem ends_item {b : UInt8} {tail : List UInt8} (h : st.rest = b :: tail)
    (hst : Stands env depth st) : EndsOption env tail (item env group st) := by
  rw [item]
  split
  · rw [deeper]
    split
    · exact ends_nestingLimit hst.suffix
    · rename_i hlimit
      have hroom : depth < env.nestingLimit := by
        rw [hst.depth_eq] at hlimit
        omega
      have hstands : Stands env (depth + 1) { st with depth := st.depth + 1 } :=
        ⟨hst.suffix, congrArg Nat.succ hst.depth_eq⟩
      have htail : st.rest.tail = tail := congrArg List.tail h
      refine Ends.bind (htail ▸ hgroup hroom hstands) fun found hfound => ?_
      rcases found with ⟨draft?, after⟩
      exact (⟨hfound.sound, hfound.suffix⟩ : Leaves env tail draft?.toList
        { after with depth := after.depth - 1 })
  · exact ends_leavesNode (ends_simpleItem h hst.suffix)

variable (hpassing : Passing env group)
include hpassing

/-- The items of a branch, up to where it ends. -/
theorem ends_branchItems {fuel : Nat} {items : List Draft} (hst : Stands env depth st)
    (hfuel : st.rest.length < fuel) (hitems : ∀ draft ∈ items, draft.Sound env.size) :
    Ends env.size (branchItems env group fuel items st) fun found =>
      Leaves env st.rest found.1 found.2 ∧ atBranchEnd found.2.rest = true := by
  induction fuel generalizing items st with
  | zero => exact absurd hfuel (Nat.not_lt_zero _)
  | succ fuel ih =>
      have hblank := suffix_skipBlank st.options st.rest
      rw [branchItems]
      generalize skipBlank st.options st.rest = rest at hblank ⊢
      simp only
      have hstands : Stands env depth { st with rest := rest } := hst.move hblank st.options
      split
      · rename_i hend
        exact ⟨⟨fun draft hmem => hitems draft (List.mem_reverse.mp hmem), hblank⟩, hend⟩
      · rename_i hend
        cases rest with
        | nil => exact absurd rfl hend
        | cons b tail =>
            have htail := (List.suffix_cons b tail).trans hblank
            -- An item has been read, so the fuel that is left is enough for what is left of the
            -- text. As many levels are open as before.
            have hnext : ∀ {items : List Draft} {after : State}, after.rest <:+ tail →
                after.depth = st.depth → (∀ draft ∈ items, draft.Sound env.size) →
                Ends env.size (branchItems env group fuel items after) fun found =>
                  Leaves env st.rest found.1 found.2 ∧ atBranchEnd found.2.rest = true := by
              intro items after hafter hdepth hitems
              have hlength : after.rest.length < fuel := by
                have hle := hafter.length_le
                have hless := hblank.length_le
                rw [List.length_cons] at hless
                omega
              have hmoved : Stands env depth after :=
                ⟨(hafter.trans htail).trans hst.suffix, hdepth.trans hst.depth_eq⟩
              exact (ih hmoved hlength hitems).mono fun _ hlast =>
                ⟨hlast.1.mono (hafter.trans htail), hlast.2⟩
            refine (ends_quantifier hstands.suffix).bind fun operator? _ => ?_
            split
            · exact ends_fail rfl hstands.suffix
            · refine (ends_item hgroup rfl hstands).bind_ok fun found hread hitem => ?_
              rcases found with ⟨node?, after⟩
              have hdepth : after.depth = st.depth := (passing_item hpassing hread).depth_eq
              have hafter : after.rest <:+ tail := hitem.suffix
              cases node? with
              | none => exact hnext hafter hdepth hitems
              | some node =>
                  have hinside := (hafter.trans htail).trans hst.suffix
                  refine (ends_repeats 0 hinside (Nat.lt_succ_self _) hitem.sound_single).bind_ok
                    fun found hrepeats hwrapped => ?_
                  rcases found with ⟨wrapped, last⟩
                  rcases repeats_ok hrepeats with ⟨rest, rfl⟩
                  exact hnext (hwrapped.suffix.trans hafter) hdepth
                    (List.forall_mem_cons.mpr ⟨hwrapped.sound_single, hitems⟩)

theorem ends_branch (hst : Stands env depth st) :
    Ends env.size (branch env group st) fun found =>
      Leaves env st.rest [found.1] found.2 ∧ atBranchEnd found.2.rest = true :=
  (ends_branchItems hgroup hpassing hst (Nat.lt_succ_self _) (List.forall_mem_nil _)).bind
    fun _ hfound => ⟨.single (sound_branchNode hfound.1.sound) hfound.1.suffix, hfound.2⟩

/-- The branches of an alternation. Where a branch ends there is a bar, a closing parenthesis or the
end of the pattern. -/
theorem ends_branches (inGroup : Bool) {fuel : Nat} {nodes : List Draft}
    (hst : Stands env depth st) (hfuel : st.rest.length < fuel)
    (hnodes : ∀ draft ∈ nodes, draft.Sound env.size) :
    Ends env.size (branches env group inGroup fuel nodes st) fun found =>
      Leaves env st.rest found.1 found.2 ∧ found.1 ≠ [] := by
  induction fuel generalizing nodes st with
  | zero => exact absurd hfuel (Nat.not_lt_zero _)
  | succ fuel ih =>
      rw [branches]
      refine (ends_branch hgroup hpassing hst).bind_ok fun found hread hfound => ?_
      rcases found with ⟨node, after⟩
      rcases hfound with ⟨hbranch, hend⟩
      have hdepth : after.depth = depth :=
        (passing_branch hpassing hread).depth_eq.trans hst.depth_eq
      have hcons : ∀ draft ∈ node :: nodes, draft.Sound env.size :=
        List.forall_mem_cons.mpr ⟨hbranch.sound_single, hnodes⟩
      -- With the branch just read, there is one branch at least.
      have hdone : Leaves env st.rest (node :: nodes).reverse after ∧
          (node :: nodes).reverse ≠ [] := by
        refine ⟨⟨fun draft hmem => hcons draft (List.mem_reverse.mp hmem), hbranch.suffix⟩, ?_⟩
        exact List.reverse_ne_nil_iff.mpr (List.cons_ne_nil _ _)
      have hsuffix : after.rest <:+ st.rest := hbranch.suffix
      have hinside := hsuffix.trans hst.suffix
      simp only at hend ⊢
      split
      · split
        · exact ends_fail rfl hinside
        · exact hdone
      · rename_i b rest heq
        rw [heq] at hend hsuffix
        have hrest := (List.suffix_cons b rest).trans hsuffix
        split
        · have hstands : Stands env depth { after with rest := rest } :=
            ⟨hrest.trans hst.suffix, hdepth⟩
          have hlength : rest.length < fuel := by
            have hle := hsuffix.length_le
            rw [List.length_cons] at hle
            omega
          exact (ih hstands hlength hcons).mono fun _ hlast => ⟨hlast.1.mono hrest, hlast.2⟩
        · split
          · exact hdone
          · exact ends_fail rfl hinside
        · rename_i hbar hclose
          -- A branch does not end before any other byte.
          simp only [atBranchEnd, startsWith, List.isEmpty_cons, Bool.false_or, Bool.or_eq_true,
            beq_iff_eq] at hend
          exact absurd hend (not_or.mpr ⟨hbar, hclose⟩)

theorem ends_alternatives (inGroup : Bool) :
    EndsInside env depth (alternatives env group inGroup) :=
  fun hst =>
    (ends_branches hgroup hpassing inGroup hst (Nat.lt_succ_self _) (List.forall_mem_nil _)).bind
      fun _ hfound => .single (sound_alternationNode hfound.2 hfound.1.sound) hfound.1.suffix

end Branches

/-- Groups inside of groups, as many as levels may be opened. -/
theorem ends_groupsWithin (room : Nat) (hroom : depth + room = env.nestingLimit) :
    EndsParentheses env depth (groupsWithin env room) := by
  induction room generalizing depth with
  | zero =>
      -- No level may be opened, so there is no parenthesis to read.
      intro hlimit
      omega
  | succ room ih =>
      intro _ st hst
      have hinside : depth + 1 + room = env.nestingLimit := by omega
      exact ends_parenthesis (ends_alternatives (ih hinside) (passing_groupsWithin env room) true)
        hst

section Resolving

variable {size groups : Nat} {names : GroupNames}

theorem ends_resolveReference {offset : Nat} (h : offset ≤ size) (target : Reference) :
    Ends size (resolveReference names offset target) fun _ => True := by
  cases target with
  | number n => trivial
  | name name =>
      rw [resolveReference]
      split
      · trivial
      · exact ⟨Or.inl rfl, h⟩

/-- The references of several trees. Alternatives stay alternatives. -/
theorem ends_resolveAll {items : List Draft} (h : SoundAll size items)
    (ih : ∀ draft ∈ items, draft.Sound size →
      Ends size (resolve groups names draft) fun tree => tree.Sound size) :
    Ends size (resolveAll groups names items) fun trees =>
      SoundAll size trees ∧ (items ≠ [] → trees ≠ []) := by
  induction items with
  | nil => exact ⟨trivial, fun hne => absurd rfl hne⟩
  | cons draft rest ihrest =>
      rw [resolveAll]
      refine (ih draft List.mem_cons_self h.1).bind fun tree htree => ?_
      refine (ihrest h.2 fun t ht => ih t (List.mem_cons_of_mem _ ht)).bind fun trees htrees => ?_
      exact ⟨⟨htree, htrees.1⟩, fun _ => List.cons_ne_nil _ _⟩

/-- A reference to a name or a number that no group has is refused where the reference stands. -/
theorem ends_resolve (draft : Draft) (h : draft.Sound size) :
    Ends size (resolve groups names draft) fun tree => tree.Sound size := by
  induction draft using Node.induct with
  | literal | set | anyChar | word | anchor => trivial
  | backref target ignoreCase offset =>
      rw [resolve]
      refine (ends_resolveReference h target).bind fun numbers _ => ?_
      split
      · exact ⟨Or.inl rfl, h⟩
      · exact h
  | repeated lower upper greedy body ih => exact (ih h).bind fun _ hbody => hbody
  | group number body ih => exact (ih h).bind fun _ hbody => hbody
  | atomic body ih => exact (ih h).bind fun _ hbody => hbody
  | look direction negated body ih => exact (ih h).bind fun _ hbody => hbody
  | sequence items ih => exact (ends_resolveAll h ih).bind fun _ hitems => hitems.1
  | alternation items ih =>
      exact (ends_resolveAll h.2 ih).bind fun _ hitems => ⟨hitems.2 h.1, hitems.1⟩

end Resolving

/-- Every pattern is read, or refused for a fault of its own or its nesting at an offset in it. -/
theorem ends_parse (pattern : List UInt8) (options : Options) (enc : Encoding) (dialect : Dialect)
    (limits : Limits) :
    Ends pattern.length (parse pattern options enc dialect limits) fun parsed =>
      parsed.tree.Sound pattern.length := by
  rw [parse]
  simp only
  split
  · exact ⟨Or.inl rfl, enc.validPrefixLength_le pattern⟩
  · have hstart : Stands ⟨pattern, enc, dialect, limits.captures, limits.nesting⟩ 0
        { rest := pattern, options := options } := ⟨List.suffix_rfl, rfl⟩
    refine (ends_alternatives (ends_groupsWithin limits.nesting (Nat.zero_add _))
      (passing_groupsWithin _ _) false hstart).bind fun ⟨draft, after⟩ hdraft => ?_
    exact (ends_resolve draft hdraft.sound_single).bind fun tree htree => htree

end Pattern

end RegexEngine
