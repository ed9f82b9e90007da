import RegexEngine.Proofs.Fragment.Choice

/-!
# Parts that Give Nothing Back

An atomic group, a look-ahead and a look-behind put a mark on the stack and cut back to it, or undo
everything down to it. What makes this right is that the newest mark with the number is the one that
was put at the beginning. The body does not name the mark, so whatever it leaves on the stack lies
above the mark and is no mark with that number. A mark that a look-around has left behind further
down is never looked at.

The body of such a part has outcomes that are never tried. The claim for the body is therefore the
claim for the part with the list cut short, and it is only made of controls that the run comes to
without leaving the part: that is what shows an instruction its own mark.

## Theorems

* `ownsMark_of_stays`: A run that has stayed in the code finds its own mark.
* `realizes_marked`: A part whose first outcome is kept, and maybe the position not.
* `realizes_atomic`: A part that gives nothing back.
* `realizes_look`: A look-around.
-/

namespace RegexEngine

variable {program : Program} {joins : Nat → Nat → Prop} {ctx : Context} {start : Control}

/-- A run that has stayed in the code finds the mark that was put at its beginning. -/
theorem ownsMark_of_stays {code : Code} {id : Nat} {saves : Bool} {base pc : Int} {pos pos' : Nat}
    {before after : Registers} {above below : List Entry}
    (hmark : program.instrAt base = some (.mark id saves))
    (hreach : Control.Reaches program ctx start (.running base pos before below))
    (hsaves : Saves code before above after) (hslot : .mark id ∉ Code.slots code)
    (hstays : Control.Stays program ctx (Control.Within (base + 1) pc (.mark id pos :: below))
      (.running (base + 1) pos before (.mark id pos :: below))
      (.running pc pos' after (above ++ .mark id pos :: below))) :
    Control.OwnsMark program ctx start id pc (above ++ .mark id pos :: below)
      (.running pc pos' after (above ++ .mark id pos :: below)) :=
  ⟨base, saves, pos, before, above, below, hmark, hreach, rfl, hsaves.not_isMark hslot, hstays⟩

/-- A step that puts a mark. The run has come to where the mark is put. -/
theorem CarriesBack.marking {claim : Claim} {inside : Control → Prop} {pc : Int} {pos id : Nat}
    {saves : Bool} {regs : Registers} {stack : List Entry} {place : Place} {places : List Place}
    (h : CarriesBack program joins ctx start inside claim)
    (hmark : program.instrAt pc = some (.mark id saves))
    (hrecords : regs.Records program joins place)
    (hinside : inside (.running pc pos regs stack))
    (hclaim : Control.Reaches program ctx start (.running pc pos regs stack) →
      claim (.running (pc + 1) pos regs (.mark id pos :: stack)) places) :
    claim (.running pc pos regs stack) places :=
  h _ _ places hinside (Control.next_mark hmark) fun hreach =>
    ⟨Control.sound_of_plain hmark rfl hrecords, hclaim hreach⟩

namespace Ways

/-- The first outcome of a part, which may be taken back to where the part began. -/
def marked (returns : Bool) (body : Ways) : Ways := fun place =>
  ((body place).take 1).map fun last => if returns then last.moveTo place.pos else last

theorem marked_false (body : Ways) : marked false body = atomic body := by
  funext place
  exact List.map_id _

theorem marked_true (body : Ways) : marked true body = look false body :=
  rfl

end Ways

/-- A part whose first outcome is kept. The choices that the body has left are dropped, and what it
has saved stays on the stack, so that falling back later undoes the part as a whole. -/
theorem realizes_marked {body : Code} {ways : Ways} {id : Nat} (saves returns : Bool)
    (hbody : Realizes program joins ctx start body ways) (hslot : .mark id ∉ Code.slots body) :
    Realizes program joins ctx start (Instr.mark id saves :: body ++ [Instr.cut id returns])
      (Ways.marked returns ways) := by
  intro base place before below claim hcode hrecords hsurrounds
  have hlength : (Instr.mark id saves :: body ++ [Instr.cut id returns]).length =
      body.length + 2 := by
    simp only [List.length_append, List.length_cons, List.length_nil]
  have hmark : program.instrAt base = some (.mark id saves) := hcode.left.head
  have hcut : program.instrAt (base + 1 + body.length) = some (.cut id returns) := by
    refine (hcode.right ?_).head
    simp only [List.length_cons]
    omega
  refine hsurrounds.carries.marking hmark hrecords ⟨Int.le_refl base, by omega, List.suffix_rfl⟩
    fun hreach => ?_
  -- The claim for the body is about its whole list only, of which the part keeps one outcome.
  refine hbody (base + 1) place before (.mark id place.pos :: below)
    (fun c places =>
      Control.Stays program ctx
        (Control.Within (base + 1) (base + 1 + body.length) (.mark id place.pos :: below))
        (.running (base + 1) place.pos before (.mark id place.pos :: below)) c →
      places = ways place → claim c (Ways.marked returns ways place))
    hcode.left.tail hrecords ⟨?_, ?_, ?_⟩ Relation.ReflTransGen.refl rfl
  · refine hsurrounds.carries.stays (fun c hc => ?_) (fun c hc => hc) _ _ _
    exact hc.mono (by omega) (by omega) (List.suffix_cons _ _)
  · -- The first outcome is the only one, since the cut drops the choices for the others.
    intro last hlast after above rest hafter hsaves _ hstays hwhole
    have hmarked : Ways.marked returns ways place =
        [if returns then last.moveTo place.pos else last] := by
      rw [Ways.marked, ← hwhole]
      rfl
    have hkept : ∀ entry ∈ above.filter Entry.isSaved, ∀ pc pos, entry ≠ .choice pc pos := by
      rintro entry hentry pc pos rfl
      cases (List.mem_filter.mp hentry).2
    have hdone : Saves (Instr.mark id saves :: body ++ [Instr.cut id returns]) before
        (above.filter Entry.isSaved) after :=
      hsaves.saved.mono fun slot hmem => Code.mem_slots_left (Code.mem_slots_cons hmem)
    have hnext : (Control.running (base + 1 + body.length) last.pos after
        (above ++ .mark id place.pos :: below)).next program ctx =
          some (.running (base + 1 + body.length + 1) (if returns then place.pos else last.pos)
            after (above.filter Entry.isSaved ++ below)) := by
      rw [Control.next_cut hcut, cutTo_mark (hsaves.not_isMark hslot) []]
      rfl
    refine hsurrounds.carries.looking hcut rfl hafter ⟨by omega, by omega, suffix_above ..⟩ hnext
      (ownsMark_of_stays hmark hreach hsaves hslot hstays) ?_
    rw [hmarked] at hsurrounds ⊢
    have hfalls : claim (.falling after (above.filter Entry.isSaved ++ below)) [] := by
      refine hsurrounds.carries.unwind hkept ?_
      rw [hdone.undoes]
      exact hsurrounds.fails
    cases returns with
    | true =>
        exact hsurrounds.leave List.mem_cons_self (hafter.moveTo place.pos) (by omega) _ rfl hdone
          hfalls
    | false => exact hsurrounds.leave List.mem_cons_self hafter (by omega) _ rfl hdone hfalls
  · -- The body has failed, and the mark is dropped on the way back.
    intro _ hwhole
    have hmarked : Ways.marked returns ways place = [] := by
      rw [Ways.marked, ← hwhole]
      rfl
    rw [hmarked] at hsurrounds ⊢
    exact hsurrounds.falling (List.suffix_cons _ _) rfl hsurrounds.fails

/-- A part that gives nothing back. -/
theorem realizes_atomic {body : Code} {ways : Ways} {id : Nat}
    (hbody : Realizes program joins ctx start body ways) (hslot : .mark id ∉ Code.slots body) :
    Realizes program joins ctx start (Code.atomic id body) (Ways.atomic ways) := by
  have h := realizes_marked false false hbody hslot
  rw [Ways.marked_false] at h
  exact h

/-- A negated look-around. Whatever its body has done is undone, and a mark stays behind when the
body has failed. -/
theorem realizes_negated {body : Code} {ways : Ways} {id : Nat}
    (hbody : Realizes program joins ctx start body ways) (hslot : .mark id ∉ Code.slots body) :
    Realizes program joins ctx start (Code.look id true body) (Ways.look true ways) := by
  intro base place before below claim hcode hrecords hsurrounds
  have hlength := Code.length_look id true body
  rw [if_pos rfl] at hlength
  have hmark : program.instrAt base = some (.mark id false) := hcode.left.head
  have hfork : program.instrAt (base + 1) = some (.fork (body.length + 3)) := hcode.left.tail.head
  have hend : program.CodeAt (base + 2 + body.length) [.rewind id, .fail] := by
    refine hcode.right ?_
    simp only [List.length_cons]
    omega
  have hinner : program.CodeAt (base + 2) body := by
    have htail := hcode.left.tail.tail
    rw [show base + 1 + 1 = base + 2 by omega] at htail
    exact htail
  let exit : Int := base + 1 + (body.length + 3)
  let marked : List Entry := .mark id place.pos :: below
  have hforked : (Control.running (base + 1) place.pos before marked).next program ctx =
      some (.running (base + 2) place.pos before (.choice exit place.pos :: marked)) := by
    rw [Control.next_fork hfork, show base + 1 + 1 = base + 2 by omega]
  have hinside : ∀ {c}, Control.Within (base + 2) (base + 2 + body.length)
      (.choice exit place.pos :: marked) c →
      Control.Within (base + 1) (base + 2 + body.length) marked c :=
    fun hc => hc.mono (by omega) (by omega) (List.suffix_cons _ _)
  refine hsurrounds.carries.marking hmark hrecords ⟨Int.le_refl base, by omega, List.suffix_rfl⟩
    fun hreach => ?_
  refine hsurrounds.running hfork rfl (by omega) (by omega) (List.suffix_cons _ _) hrecords
    hforked ?_
  -- The body runs above a choice that leads behind the look-around, for when it fails.
  refine hbody (base + 2) place before (.choice exit place.pos :: marked)
    (fun c places =>
      Control.Stays program ctx (Control.Within (base + 1) (base + 2 + body.length) marked)
        (.running (base + 1) place.pos before marked) c →
      places = ways place → claim c (Ways.look true ways place))
    hinner hrecords ⟨?_, ?_, ?_⟩ ?_ rfl
  · refine hsurrounds.carries.stays (fun c hc => ?_) (fun c hc => hinside hc) _ _ _
    exact (hinside hc).mono (by omega) (by omega) (List.suffix_cons _ _)
  · -- The body has matched: the look-around fails, as if the body had not been tried.
    intro last hlast after above rest hafter hsaves _ hstays hwhole
    have hlook : Ways.look true ways place = [] := by
      rw [Ways.look, if_pos rfl, ← hwhole]
      rfl
    have habove : above ++ .choice exit place.pos :: marked =
        (above ++ [.choice exit place.pos]) ++ .mark id place.pos :: below := by
      rw [List.append_assoc]
      rfl
    have hall : Saves body before (above ++ [.choice exit place.pos]) after :=
      (Saves.choice body before exit place.pos).trans hsaves
    rw [habove] at hstays ⊢
    have hnext : (Control.running (base + 2 + body.length) last.pos after
        ((above ++ [.choice exit place.pos]) ++ .mark id place.pos :: below)).next program ctx =
          some (.running (base + 2 + body.length + 1) last.pos before below) := by
      rw [Control.next_rewind hend.head, rewindTo_mark after (hall.not_isMark hslot), hall.undoes]
      rfl
    refine hsurrounds.carries.looking hend.head rfl hafter
      ⟨by omega, by omega, suffix_above ..⟩ hnext
      (ownsMark_of_stays hmark hreach hall hslot hstays) ?_
    rw [hlook] at hsurrounds ⊢
    exact hsurrounds.running hend.tail.head rfl (by omega) (by omega) List.suffix_rfl hrecords
      (Control.next_fail hend.tail.head) hsurrounds.fails
  · -- The body has failed: the run goes on behind it, with the mark left on the stack.
    intro _ hwhole
    have hlook : Ways.look true ways place = [place] := by
      rw [Ways.look, if_pos rfl, ← hwhole]
      rfl
    rw [hlook] at hsurrounds ⊢
    refine hsurrounds.falling ((List.suffix_cons _ _).trans (List.suffix_cons _ _))
      (Control.next_choice _ _) ?_
    refine hsurrounds.leave List.mem_cons_self hrecords (by omega) [.mark id place.pos]
      rfl (Saves.single rfl ?_) ?_
    · rintro slot ⟨⟩
      exact Code.mem_slots_left (Code.mem_slots_head rfl)
    · exact hsurrounds.falling (List.suffix_cons _ _) rfl hsurrounds.fails
  · exact Relation.ReflTransGen.single ⟨⟨by omega, by omega, List.suffix_rfl⟩, hforked⟩

/-- A look-around. -/
theorem realizes_look {body : Code} {ways : Ways} {id : Nat} (negated : Bool)
    (hbody : Realizes program joins ctx start body ways) (hslot : .mark id ∉ Code.slots body) :
    Realizes program joins ctx start (Code.look id negated body) (Ways.look negated ways) := by
  cases negated with
  | true => exact realizes_negated hbody hslot
  | false =>
      rw [← Ways.marked_true]
      exact realizes_marked true true hbody hslot

end RegexEngine
