import RegexEngine.Proofs.Emission.Layout

/-!
# Targets

Every offset in the code of a tree leads to an instruction of that code, or to the one just behind
it. So the code can be put anywhere, as often as wanted: whatever stands around it, a run comes in
at its start and leaves it at its end.

An empty check is a thing apart. Where an iteration has consumed nothing, the end of the check skips
the next instruction without having an offset for it. It has to be the jump back of the loop, and
then it is the loop that is left.

Both are seen construct by construct. A construct puts some instructions before and behind the code
of its body, and moves the body, which its offsets do not notice.

## Main definitions

* `Instr.target?`: Where an instruction may lead.
* `Code.LeadsWithin`: All offsets of the code lead to places between two others.
* `Code.ClosesLoop`: The end of a check is that of a loop.
* `Code.SelfContained`: Code that can be put anywhere.

## Theorems

* `SelfContained.wrap`, `SelfContained.append`: Self-contained code in other code.
* `selfContained_star`, `selfContained_counted`, …: Every construct.
* `selfContained_emit`: The code of a tree.
-/

namespace RegexEngine

/-- Where an instruction may lead to besides the one behind it, counted from itself. -/
@[simp] def Instr.target? : Instr → Option Int
  | jump offset | fork offset | enter _ offset _ | again _ offset _ => some offset
  | leaf _ | finish | openGroup _ | closeGroup _ | fail | mark .. | cut .. | rewind _
  | emptyStart _ | emptyEnd _ | stepBack _ | bare _ => none

namespace Code

/-- All offsets of the code lead to places from `low` up to `high`, counted from its start. -/
def LeadsWithin (low high : Int) (code : Code) : Prop :=
  ∀ (i : Nat) instr offset, code[i]? = some instr → instr.target? = some offset →
    low ≤ i + offset ∧ i + offset ≤ high

/-- The end of an empty check is the last but one instruction of a loop, and the one behind it jumps
back to the start of the loop. -/
def ClosesLoop (code : Code) (i id : Nat) : Prop :=
  ∃ before greedy inner after, code = before ++ star greedy (some id) inner ++ after ∧
    i + 2 = before.length + (star greedy (some id) inner).length

/-- Every check of the code ends where a loop does. -/
def ChecksClose (code : Code) : Prop :=
  ∀ i id, code[i]? = some (.emptyEnd id) → code.ClosesLoop i id

/-- Code that can be put anywhere: its offsets lead to its own instructions or just behind them, and
its empty checks end where a loop does. -/
structure SelfContained (code : Code) : Prop where
  leads : code.LeadsWithin 0 code.length
  closes : code.ChecksClose

variable {low high : Int} {code first second body last : Code} {instr : Instr}

section Leads

@[simp] theorem leadsWithin_nil : LeadsWithin low high [] := by
  intro i instr offset hinstr
  rw [List.getElem?_nil] at hinstr
  cases hinstr

/-- The places that code behind an instruction leads to are counted from one further on. -/
@[simp] theorem leadsWithin_cons :
    LeadsWithin low high (instr :: code) ↔
      (∀ offset, instr.target? = some offset → low ≤ offset ∧ offset ≤ high) ∧
        code.LeadsWithin (low - 1) (high - 1) := by
  -- The first instruction has the index zero, and the others have one less than they had.
  constructor
  · intro h
    refine ⟨fun offset htarget => ?_, fun i found offset hfound htarget => ?_⟩
    · have hfirst := h 0 instr offset rfl htarget
      omega
    · have hlater := h (i + 1) found offset hfound htarget
      omega
  · rintro ⟨hfirst, hrest⟩ i found offset hfound htarget
    cases i with
    | zero =>
        cases hfound
        have hbounds := hfirst offset htarget
        omega
    | succ i =>
        have hbounds := hrest i found offset hfound htarget
        omega

theorem leadsWithin_append :
    LeadsWithin low high (first ++ second) ↔
      first.LeadsWithin low high ∧
        second.LeadsWithin (low - first.length) (high - first.length) := by
  induction first generalizing low high with
  | nil => simp [leadsWithin_nil]
  | cons instr rest ih =>
      -- Both sides come to count from behind the first part, one instruction after the other.
      rw [List.cons_append, leadsWithin_cons, leadsWithin_cons, ih, and_assoc, List.length_cons]
      rw [show low - 1 - (rest.length : Int) = low - ((rest.length + 1 : Nat) : Int) by omega,
        show high - 1 - (rest.length : Int) = high - ((rest.length + 1 : Nat) : Int) by omega]

theorem LeadsWithin.mono {low' high' : Int} (h : code.LeadsWithin low high) (hlow : low' ≤ low)
    (hhigh : high ≤ high') : code.LeadsWithin low' high' := by
  intro i instr offset hinstr htarget
  have hbounds := h i instr offset hinstr htarget
  omega

/-- A body that is moved keeps leading to its own instructions or just behind them. -/
theorem LeadsWithin.wrap (h : body.LeadsWithin 0 body.length) (first last : Code)
    (hfirst : first.LeadsWithin 0 (first ++ body ++ last).length)
    (hlast : last.LeadsWithin (-(first ++ body).length) last.length) :
    (first ++ body ++ last).LeadsWithin 0 (first ++ body ++ last).length := by
  refine leadsWithin_append.mpr ⟨leadsWithin_append.mpr ⟨hfirst, ?_⟩, ?_⟩
  · refine h.mono (by omega) ?_
    simp only [List.length_append]
    omega
  · refine hlast.mono (by omega) ?_
    simp only [List.length_append]
    omega

end Leads

section Checks

/-- A check that ends with a loop does so in all code around. -/
theorem ClosesLoop.within {i id : Nat} (h : code.ClosesLoop i id) (first last : Code) :
    (first ++ code ++ last).ClosesLoop (first.length + i) id := by
  rcases h with ⟨before, greedy, inner, after, rfl, hend⟩
  refine ⟨first ++ before, greedy, inner, after ++ last, by simp only [List.append_assoc], ?_⟩
  rw [List.length_append]
  omega

theorem checksClose_append (hfirst : first.ChecksClose) (hsecond : second.ChecksClose) :
    (first ++ second).ChecksClose := by
  intro i id hinstr
  by_cases hi : i < first.length
  · rw [List.getElem?_append_left hi] at hinstr
    have hwithin := (hfirst i id hinstr).within [] second
    rwa [List.nil_append, List.length_nil, Nat.zero_add] at hwithin
  · rw [List.getElem?_append_right (Nat.le_of_not_lt hi)] at hinstr
    have hwithin := (hsecond _ id hinstr).within first []
    rwa [List.append_nil, Nat.add_sub_cancel' (Nat.le_of_not_lt hi)] at hwithin

/-- Where no check ends there is nothing to show. -/
theorem checksClose_plain (h : ∀ id, .emptyEnd id ∉ code) : code.ChecksClose :=
  fun _ id hinstr => absurd (List.mem_of_getElem? hinstr) (h id)

/-- A loop with a check has the end of the check and the jump back behind the body, and no other end
of a check before the body. -/
theorem star_some (greedy : Bool) (id : Nat) (body : Code) :
    ∃ first, (∀ other, .emptyEnd other ∉ first) ∧ star greedy (some id) body =
      first ++ body ++ [.emptyEnd id, .jump (-((first ++ body).length + 1))] := by
  let size : Int := (checked (some id) body).length
  have hsize : size = body.length + 2 := congrArg Nat.cast (length_checked_some id body)
  cases greedy with
  | true =>
      refine ⟨[.fork (size + 2), .emptyStart id], by simp, ?_⟩
      simp [star, checked]
      omega
  | false =>
      refine ⟨[.fork 2, .jump (size + 2), .emptyStart id], by simp, ?_⟩
      simp [star, checked]
      omega

/-- If the end of a check stands behind some code, and then a jump, only this end matters. -/
theorem checksClose_back {id : Nat} {offset : Int} (h : first.ChecksClose)
    (hcloses : (first ++ [Instr.emptyEnd id, .jump offset]).ClosesLoop first.length id) :
    (first ++ [Instr.emptyEnd id, .jump offset]).ChecksClose := by
  intro i other hinstr
  by_cases hi : i < first.length
  · rw [List.getElem?_append_left hi] at hinstr
    have hwithin := (h i other hinstr).within [] [.emptyEnd id, .jump offset]
    rwa [List.nil_append, List.length_nil, Nat.zero_add] at hwithin
  · rw [List.getElem?_append_right (Nat.le_of_not_lt hi)] at hinstr
    obtain ⟨k, rfl⟩ : ∃ k, i = first.length + k := ⟨i - first.length, by omega⟩
    rw [Nat.add_sub_cancel_left] at hinstr
    -- Of the two instructions only the first one ends a check, so it is the one that was found.
    match k with
    | 0 =>
        cases hinstr
        exact hcloses
    | 1 => cases hinstr
    | k + 2 => cases hinstr

theorem checksClose_star (h : body.ChecksClose) (greedy : Bool) (check : Option Nat) :
    (star greedy check body).ChecksClose := by
  -- Without a check there is nothing to close: the code around the body are forks and jumps.
  cases check with
  | none =>
      rw [star, checked]
      have hback : ∀ offset : Int, ChecksClose [.jump offset] :=
        fun _ => checksClose_plain (by simp)
      split
      · have hfork : ChecksClose [.fork (body.length + 2)] := checksClose_plain (by simp)
        exact checksClose_append (checksClose_append hfork h) (hback _)
      · have hfork : ChecksClose [.fork 2, .jump (body.length + 2)] := checksClose_plain (by simp)
        exact checksClose_append (checksClose_append hfork h) (hback _)
  | some id =>
      -- With a check, its end stands behind the body, just before the jump that goes back.
      rcases star_some greedy id body with ⟨first, hplain, hstar⟩
      have hcloses : (star greedy (some id) body).ClosesLoop (first ++ body).length id := by
        refine ⟨[], greedy, body, [], (List.append_nil _).symm, ?_⟩
        rw [hstar]
        simp only [List.length_append, List.length_cons, List.length_nil]
        omega
      rw [hstar] at hcloses ⊢
      exact checksClose_back (checksClose_append (checksClose_plain hplain) h) hcloses

end Checks

namespace SelfContained

theorem nil : SelfContained [] :=
  ⟨leadsWithin_nil, checksClose_plain fun _ => List.not_mem_nil⟩

/-- An instruction that leads nowhere else and ends no check stands for itself. -/
theorem single (htarget : instr.target? = none) (hcheck : ∀ id, instr ≠ .emptyEnd id) :
    SelfContained [instr] := by
  refine ⟨leadsWithin_cons.mpr ⟨?_, leadsWithin_nil⟩, checksClose_plain fun id hmem => ?_⟩
  · rw [htarget]
    rintro offset ⟨⟩
  · exact hcheck id (List.mem_singleton.mp hmem).symm

theorem append (hfirst : first.SelfContained) (hsecond : second.SelfContained) :
    (first ++ second).SelfContained := by
  refine ⟨leadsWithin_append.mpr ⟨?_, ?_⟩, checksClose_append hfirst.closes hsecond.closes⟩
  · refine hfirst.leads.mono (Int.le_refl _) ?_
    rw [List.length_append]
    omega
  · refine hsecond.leads.mono (by omega) ?_
    rw [List.length_append]
    omega

/-- Instructions before and behind a body lead into the whole, and end no check. -/
theorem wrap (h : body.SelfContained) (first last : Code)
    (hfirst : first.LeadsWithin 0 (first ++ body ++ last).length)
    (hlast : last.LeadsWithin (-(first ++ body).length) last.length)
    (hplain : ∀ id, .emptyEnd id ∉ first ∧ .emptyEnd id ∉ last) :
    (first ++ body ++ last).SelfContained := by
  refine ⟨h.leads.wrap first last hfirst hlast, ?_⟩
  refine checksClose_append (checksClose_append ?_ h.closes) ?_
  · exact checksClose_plain fun id => (hplain id).1
  · exact checksClose_plain fun id => (hplain id).2

end SelfContained

section Constructs

open SelfContained

theorem selfContained_group (h : body.SelfContained) (number : Nat) :
    (group number body).SelfContained := by
  have hstart : SelfContained [.openGroup number] := single rfl (by simp)
  have hend : SelfContained [.closeGroup number] := single rfl (by simp)
  exact (hstart.append h).append hend

theorem selfContained_atomic (h : body.SelfContained) (id : Nat) :
    (atomic id body).SelfContained := by
  have hstart : SelfContained [.mark id false] := single rfl (by simp)
  have hend : SelfContained [.cut id false] := single rfl (by simp)
  exact (hstart.append h).append hend

/-- If negated, the choice leads behind the whole. -/
theorem selfContained_look (h : body.SelfContained) (id : Nat) (negated : Bool) :
    (look id negated body).SelfContained := by
  rw [look]
  split
  · -- The choice leads over the body and over the two instructions behind it.
    refine h.wrap [.mark id false, .fork (body.length + 3)] [.rewind id, .fail] ?_ ?_ ?_
    · simp
      omega
    · simp
    · simp
  · have hstart : SelfContained [.mark id true] := single rfl (by simp)
    have hend : SelfContained [.cut id true] := single rfl (by simp)
    exact (hstart.append h).append hend

theorem selfContained_optional (h : body.SelfContained) (greedy : Bool) :
    (optional greedy body).SelfContained := by
  rw [optional]
  split
  · have hwrap := h.wrap [.fork (body.length + 1)] [] (by simp; omega) leadsWithin_nil (by simp)
    rwa [List.append_nil] at hwrap
  · have hwrap := h.wrap [.fork 2, .jump (body.length + 1)] [] (by simp; omega) leadsWithin_nil
      (by simp)
    rwa [List.append_nil] at hwrap

/-- The exit lies behind the whole, and the way back leads to the body. -/
theorem selfContained_counted (h : body.SelfContained) (id : Nat) (greedy : Bool) :
    (counted id greedy body).SelfContained := by
  refine h.wrap [.enter id (body.length + 2) greedy] [.again id (-body.length) greedy] ?_ ?_ ?_
  · simp
    omega
  · simp only [leadsWithin_cons, leadsWithin_nil, and_true, Instr.target?, Option.some.injEq,
      forall_eq', List.length_append, List.length_singleton]
    omega
  · simp

theorem selfContained_copies (h : body.SelfContained) (n : Nat) :
    (copies n body).SelfContained := by
  induction n with
  | zero => exact .nil
  | succ n ih => exact h.append ih

/-- The check of a loop has no offsets. -/
theorem leads_checked (h : body.LeadsWithin 0 body.length) (check : Option Nat) :
    (checked check body).LeadsWithin 0 (checked check body).length := by
  cases check with
  | none => exact h
  | some id => exact h.wrap [.emptyStart id] [.emptyEnd id] (by simp) (by simp)

theorem leads_star (h : body.LeadsWithin 0 body.length) (greedy : Bool) (check : Option Nat) :
    (star greedy check body).LeadsWithin 0 (star greedy check body).length := by
  have hinner := leads_checked h check
  rw [star]
  split
  · exact hinner.wrap [.fork _] [.jump _] (by simp; omega) (by simp; omega)
  · exact hinner.wrap [.fork 2, .jump _] [.jump _] (by simp; omega) (by simp; omega)

theorem selfContained_star (h : body.SelfContained) (greedy : Bool) (check : Option Nat) :
    (star greedy check body).SelfContained :=
  ⟨leads_star h.leads greedy check, checksClose_star h.closes greedy check⟩

theorem selfContained_flatten {parts : List Code} (h : ∀ part ∈ parts, part.SelfContained) :
    SelfContained parts.flatten := by
  induction parts with
  | nil => exact .nil
  | cons part rest ih =>
      rw [List.forall_mem_cons] at h
      exact h.1.append (ih h.2)

/-- The choice leads to the other parts, and the jump behind the first part leads behind them. -/
theorem selfContained_choices {parts : List Code} (h : ∀ part ∈ parts, part.SelfContained) :
    (choices parts).SelfContained := by
  induction parts with
  | nil => exact single rfl (by simp)
  | cons part rest ih =>
      rw [List.forall_mem_cons] at h
      cases rest with
      | nil => exact h.1
      | cons next more =>
          have hrest := ih h.2
          rw [choices]
          · -- Nothing matters of the other parts but that they can be put anywhere.
            generalize choices (next :: more) = rest at hrest
            have hpart := h.1.leads
            have hfork : ChecksClose [.fork (part.length + 2)] := checksClose_plain (by simp)
            have hjump : ChecksClose [.jump (rest.length + 1)] := checksClose_plain (by simp)
            refine ⟨?_, checksClose_append (checksClose_append hfork h.1.closes)
              (checksClose_append hjump hrest.closes)⟩
            -- Of the jumps, only their distances from both ends matter from here on.
            simp only [leadsWithin_append, leadsWithin_cons, Instr.target?, Option.some.injEq,
              forall_eq', List.length_append, List.length_cons]
            refine ⟨⟨by omega, hpart.mono (by omega) (by omega)⟩, by omega, ?_⟩
            exact hrest.leads.mono (by omega) (by omega)
          · exact List.cons_ne_nil _ _

end Constructs

end Code

namespace Node

variable {enc : Encoding} {allows : Nat → Option Nat → Tree → Scheme → Prop} {ids later : Ids}
  {code : Code}

/-- The code of a repeat can be put anywhere if that of its body can, whatever scheme it is run by.
-/
theorem selfContained_repeat {bounds : Bounds} {greedy mayBeEmpty : Bool} {body : Code}
    {scheme : Scheme} (h : EmitsRepeat bounds greedy mayBeEmpty body ids scheme code later)
    (hbody : body.SelfContained) : code.SelfContained := by
  cases h with
  | never => exact .nil
  | once => exact hbody
  | optional => exact Code.selfContained_optional hbody greedy
  | star hstar =>
      rcases emitStar_ok hstar with ⟨check, rfl, -⟩
      exact Code.selfContained_star hbody greedy check
  | plus hstar =>
      rcases emitStar_ok hstar with ⟨check, rfl, -⟩
      exact hbody.append (Code.selfContained_star hbody greedy check)
  | copies n => exact Code.selfContained_copies hbody n
  | counted => exact Code.selfContained_counted hbody _ greedy

theorem selfContained_each {items : List Tree} {parts : List Code}
    (ih : ∀ node ∈ items, ∀ {ids code later}, node.Layout enc allows ids code later →
      code.SelfContained)
    (h : EmitsEach (Layout enc allows) items ids parts later) :
    ∀ part ∈ parts, part.SelfContained := by
  induction h with
  | nil => exact fun _ hpart => absurd hpart List.not_mem_nil
  | cons first others ihothers =>
      rw [List.forall_mem_cons] at ih ⊢
      exact ⟨ih.1 first, ihothers ih.2⟩

/-- Every layout of a tree can be put anywhere. -/
theorem selfContained_layout (tree : Tree) :
    ∀ {ids code later}, tree.Layout enc allows ids code later → code.SelfContained := by
  -- The code of every construct leads inside of itself or just behind, if that of its parts does.
  induction tree using Node.induct with
  | literal bytes ignoreCase =>
      intro ids code later h
      cases h
      split
      · exact .nil
      · exact .single rfl (by simp)
  | set | anyChar | word | backref | anchor =>
      intro ids code later h
      cases h
      exact .single rfl (by simp)
  | repeated lower upper greedy body ih =>
      intro ids code later h
      cases h with
      | never => exact .nil
      | repeated runs inside allowed made => exact selfContained_repeat made (ih inside)
  | group number body ih =>
      intro ids code later h
      cases h with
      | group inside => exact Code.selfContained_group (ih inside) number
  | atomic body ih =>
      intro ids code later h
      cases h with
      | atomic inside => exact Code.selfContained_atomic (ih inside) _
  | look direction negated body ih =>
      intro ids code later h
      cases h with
      | ahead inside => exact Code.selfContained_look (ih inside) _ negated
      | @behind _ _ _ _ _ n _ inside =>
          have hback : Code.SelfContained [.stepBack n] := .single rfl (by simp)
          exact Code.selfContained_look (hback.append (ih inside)) _ negated
  | sequence items ih =>
      intro ids code later h
      cases h with
      | sequence inside => exact Code.selfContained_flatten (selfContained_each ih inside)
  | alternation items ih =>
      intro ids code later h
      cases h with
      | alternation inside => exact Code.selfContained_choices (selfContained_each ih inside)

/-- The code of a tree can be put anywhere. -/
theorem selfContained_emit (tree : Tree) (h : tree.emit enc ids = .ok (code, later)) :
    code.SelfContained :=
  selfContained_layout tree (layout_emit tree h)

end Node

end RegexEngine
