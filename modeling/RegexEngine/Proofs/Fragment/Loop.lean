import RegexEngine.Proofs.Fragment.Mark

/-!
# Loops

A loop runs its body from a position and a count that change from one iteration to the next, so a
loop is followed by induction on the rounds that `Ways.iterate` has left. What is left to try below
an iteration stays on the stack: the choices of the iterations before, and the saved counters.

A loop with an empty check compares the position with the one it has noted at the start of the
iteration, and leaves if they are equal. The note survives the body, which does not name the check.
A loop without a check jumps back in any case, which is right since its body consumes something. A
counted loop notes the position together with its count and does both.

## Main definitions

* `Ways.afterRound`: What a loop does after an iteration.
* `Ways.more`: An iteration and what comes after it.

## Theorems

* `claim_iteration`: One iteration of a loop that does not count.
* `realizes_star`: A loop that does not count.
* `claim_decision`: Whether a counted loop goes on.
* `realizes_counted`: A counted loop.
* `realizes_copies`: A part written out several times.
-/

namespace RegexEngine

variable {program : Program} {joins : Nat → Nat → Prop} {ctx : Context} {start : Control}

namespace Ways

/-- What a loop does after an iteration from `place`, with the rounds that are left. -/
def afterRound (lower : Nat) (upper : Option Nat) (greedy : Bool) (body : Ways)
    (rounds count : Nat) (place : Place) : Ways := fun last =>
  if endsLoop lower upper (count + 1) place last then [last]
  else iterate lower upper greedy body rounds (count + 1) last

/-- One iteration of a loop that has come to `count`, and what the loop does after it. -/
def more (lower : Nat) (upper : Option Nat) (greedy : Bool) (body : Ways) (rounds count : Nat) :
    Ways := fun place =>
  (body place).flatMap (afterRound lower upper greedy body rounds count place)

theorem iterate_succ (lower : Nat) (upper : Option Nat) (greedy : Bool) (body : Ways)
    (rounds count : Nat) (place : Place) :
    iterate lower upper greedy body (rounds + 1) count place =
      if count < lower then more lower upper greedy body rounds count place
      else if greedy then more lower upper greedy body rounds count place ++ [place]
      else place :: more lower upper greedy body rounds count place :=
  rfl

theorem afterRound_ends {lower : Nat} {upper : Option Nat} (greedy : Bool) (body : Ways)
    (rounds : Nat) {count : Nat} {place last : Place}
    (h : endsLoop lower upper (count + 1) place last) :
    afterRound lower upper greedy body rounds count place last = [last] :=
  if_pos h

theorem afterRound_goes {lower : Nat} {upper : Option Nat} (greedy : Bool) (body : Ways)
    (rounds : Nat) {count : Nat} {place last : Place}
    (h : ¬ endsLoop lower upper (count + 1) place last) :
    afterRound lower upper greedy body rounds count place last =
      iterate lower upper greedy body rounds (count + 1) last :=
  if_neg h

/-- What an iteration comes to is among the outcomes of a loop that is free to go on. -/
theorem mem_iterate_of_more {lower : Nat} {upper : Option Nat} {greedy : Bool} {body : Ways}
    {rounds count : Nat} {place last : Place}
    (h : last ∈ more lower upper greedy body rounds count place) :
    last ∈ iterate lower upper greedy body (rounds + 1) count place := by
  rw [iterate_succ]
  split
  · exact h
  · exact mem_branch_of_mem h

/-- A loop that has run enough iterations may stay where it is. -/
theorem mem_iterate_self {lower : Nat} (upper : Option Nat) (greedy : Bool) (body : Ways)
    (rounds : Nat) {count : Nat} (place : Place) (h : lower ≤ count) :
    place ∈ iterate lower upper greedy body (rounds + 1) count place := by
  rw [iterate_succ, if_neg (Nat.not_lt.mpr h)]
  exact mem_branch_self greedy place _

/-- A loop without bounds ends after an iteration that has consumed nothing. -/
theorem endsLoop_star {count : Nat} {first last : Place} :
    endsLoop 0 none count first last ↔ last.pos = first.pos := by
  simp only [endsLoop, Nat.zero_le, and_true, Option.any_none, Bool.false_eq_true, or_false]

end Ways

/-- One iteration of a loop that does not count. If it has consumed something the jump behind it is
taken, and if not the loop ends. -/
theorem claim_iteration {body : Code} {ways : Ways} (next : Ways) {check : Option Nat}
    (hbody : Realizes program joins ctx start body ways)
    (hcheck : ∀ id, check = some id → id < program.emptyChecks ∧ .check id ∉ Code.slots body)
    (hconsumes : check = none → Ways.Consumes ways)
    {claim : Claim} {low high first offset : Int} {place : Place} {before : Registers}
    {below : List Entry} {tail : List Place}
    (hcarries : CarriesBack program joins ctx start (Control.Within low high below) claim)
    (hcode : program.CodeAt first (Code.checked check body ++ [.jump offset]))
    (hlow : low ≤ first) (hhigh : first + (Code.checked check body).length < high)
    (hrecords : before.Records program joins place)
    (hleaves : ∀ last ∈ ways place, ∀ after above rest, after.Records program joins last →
      Saves (Code.checked check body) before above after →
      claim (.falling after (above ++ below)) rest →
      claim (.running (if last.pos = place.pos then first + (Code.checked check body).length + 1
        else first + (Code.checked check body).length + offset) last.pos after (above ++ below))
        (next last ++ rest))
    (hfails : claim (.falling before below) tail) :
    claim (.running first place.pos before below) ((ways place).flatMap next ++ tail) := by
  have hjump := (hcode.right rfl).head
  cases check with
  | none =>
      simp only [Code.checked] at hcode hhigh hleaves hjump
      refine hbody first place before below (fun c places => claim c (places.flatMap next ++ tail))
        hcode.left hrecords ⟨?_, ?_, hfails⟩
      · refine (hcarries.mono fun c hc => ?_).map fun places => places.flatMap next ++ tail
        exact hc.mono hlow (by omega) List.suffix_rfl
      · intro last hlast after above rest hafter hsaves hclaim
        -- Without a check the jump is taken in any case, so the body must have moved on.
        have hne : last.pos ≠ place.pos := Nat.ne_of_gt (hconsumes rfl place last hlast)
        have hleave := hleaves last hlast after above _ hafter hsaves hclaim
        rw [if_neg hne] at hleave
        refine hcarries.running hjump rfl hafter ⟨by omega, by omega, List.suffix_append _ _⟩
          (Control.next_jump hjump) ?_
        rw [List.flatMap_cons, List.append_assoc]
        exact hleave
  | some id =>
      rcases hcheck id rfl with ⟨hid, hslot⟩
      have hlength : (Code.checked (some id) body).length = body.length + 2 :=
        Code.length_checked_some id body
      have hbegin : program.instrAt first = some (.emptyStart id) := hcode.left.left.head
      have hend : program.instrAt (first + 1 + body.length) = some (.emptyEnd id) := by
        refine (hcode.left.right ?_).head
        simp only [List.length_cons]
        omega
      rw [hlength] at hhigh hleaves hjump
      refine hcarries.running hbegin rfl hrecords ⟨hlow, by omega, List.suffix_rfl⟩
        (Control.next_emptyStart hbegin) ?_
      -- The body runs with the position noted, and with the older note on the stack.
      refine hbody (first + 1) place _ _ (fun c places => claim c (places.flatMap next ++ tail))
        hcode.left.left.tail (hrecords.setCheck id _) ⟨?_, ?_, ?_⟩
      · refine (hcarries.mono fun c hc => ?_).map fun places => places.flatMap next ++ tail
        exact hc.mono (by omega) (by omega) (List.suffix_cons _ _)
      · intro last hlast after above rest hafter hsaves hclaim
        -- The body has not touched the note of where the iteration began.
        have hnoted : after.checkOf id = some place.pos := by
          have hsame : Registers.checkOf _ id = after.checkOf id := hsaves.sameAt hslot
          rw [← hsame, Registers.checkOf, Registers.setCheck,
            Registers.getD_setIfInBounds_self _ _ _ (by rw [hrecords.fits.checks]; exact hid)]
        have hall : Saves (Code.checked (some id) body) before
            (above ++ [.check id (before.checkOf id)]) after := by
          refine (Saves.single (Registers.undo_setCheck ..) ?_).trans (hsaves.mono ?_)
          · rintro slot ⟨⟩
            exact Code.mem_slots_left (Code.mem_slots_head rfl)
          · exact fun slot hmem => Code.mem_slots_left (Code.mem_slots_cons hmem)
        have hleave := hleaves last hlast after (above ++ [.check id (before.checkOf id)])
          (rest.flatMap next ++ tail) hafter hall (by rw [List.append_assoc]; exact hclaim)
        rw [List.append_assoc, List.singleton_append] at hleave
        have hnext : (Control.running (first + 1 + body.length) last.pos after
            (above ++ .check id (before.checkOf id) :: below)).next program ctx = _ :=
          Control.next_emptyEnd hend
        rw [hnoted] at hnext
        refine hcarries.running hend rfl hafter ⟨by omega, by omega, suffix_above ..⟩ hnext ?_
        rw [List.flatMap_cons, List.append_assoc]
        by_cases hpos : last.pos = place.pos
        · rw [if_pos hpos, show first + ((body.length + 2 : Nat) : Int) + 1 =
            first + 1 + body.length + 2 by omega] at hleave
          rw [if_pos (congrArg some hpos.symm)]
          exact hleave
        · rw [if_neg hpos] at hleave
          rw [if_neg fun h => hpos (Option.some.inj h).symm,
            show first + 1 + (body.length : Int) + 1 = first + ((body.length + 2 : Nat) : Int) by
              omega]
          exact hcarries.running hjump rfl hafter ⟨by omega, by omega, suffix_above ..⟩
            (Control.next_jump hjump) hleave
      · refine hcarries.falling (List.suffix_cons _ _) rfl ?_
        rw [Registers.undo_setCheck]
        exact hfails

namespace Code

/-- The instructions of a loop that does not count, in the form of an entrance and a body that ends
with the jump back. -/
theorem star_eq (greedy : Bool) (check : Option Nat) (body : Code) :
    star greedy check body =
      let rest := checked check body ++
        [.jump (-((checked check body).length + (if greedy then 1 else 2)))]
      if greedy then .fork (((checked check body).length + 1 : Nat) + 1) :: rest
      else .fork 2 :: .jump (((checked check body).length + 1 : Nat) + 1) :: rest := by
  have hcast : (((checked check body).length + 1 : Nat) : Int) + 1 =
      (checked check body).length + 2 := by omega
  cases greedy with
  | true => simp only [star, hcast, if_true, List.cons_append]
  | false => simp only [star, hcast, Bool.false_eq_true, if_false, List.cons_append]

theorem slots_star (greedy : Bool) (check : Option Nat) (body : Code) {slot : Slot}
    (h : slot ∈ slots (checked check body)) : slot ∈ slots (star greedy check body) := by
  rw [star_eq]
  cases greedy with
  | true => exact mem_slots_cons (mem_slots_left h)
  | false => exact mem_slots_cons (mem_slots_cons (mem_slots_left h))

end Code

/-- The rounds of a loop that does not count. -/
theorem claim_star {body : Code} {ways : Ways} {check : Option Nat} (greedy : Bool)
    (hbody : Realizes program joins ctx start body ways) (hadvances : Ways.Advances ctx ways)
    (hcheck : ∀ id, check = some id → id < program.emptyChecks ∧ .check id ∉ Code.slots body)
    (hconsumes : check = none → Ways.Consumes ways) {base : Int}
    (hcode : program.CodeAt base (Code.star greedy check body)) (rounds : Nat) :
    ∀ count place before below claim, ctx.range - place.pos < rounds →
      before.Records program joins place →
      Surrounds program joins ctx start base (Code.star greedy check body) before below
        (Ways.iterate 0 none greedy ways rounds count place) claim →
      claim (.running base place.pos before below)
        (Ways.iterate 0 none greedy ways rounds count place) := by
  have hlength := Code.length_star greedy check body
  have hend : base + ((Code.star greedy check body).length : Int) =
      base + (if greedy then 1 else 2) + (Code.checked check body).length + 1 := by
    rw [hlength]
    cases greedy <;> simp only [if_true, Bool.false_eq_true, if_false] <;> omega
  have hfront := entrance_pos greedy
  have hentrance := hcode
  rw [Code.star_eq] at hentrance
  -- The rounds bound what is left of the range, of which every round but the last consumes some.
  induction rounds with
  | zero =>
      intro count place before below claim hrounds
      omega
  | succ rounds ih =>
      intro count place before below claim hrounds hrecords hsurrounds
      rw [Ways.iterate_succ, if_neg (Nat.not_lt_zero count)] at hsurrounds ⊢
      refine claim_entrance _ hsurrounds.carries hentrance (Int.le_refl base) (by omega) hrecords
        (hsurrounds.carries.branch ?_ ?_ hsurrounds.fails)
      · intro above tail hnone hundo htail
        have hcarries : CarriesBack program joins ctx start (Control.Within base
            (base + (Code.star greedy check body).length) (above ++ below)) claim :=
          hsurrounds.carries.mono fun c hc =>
            hc.mono (Int.le_refl _) (Int.le_refl _) (List.suffix_append _ _)
        -- What follows an iteration depends on its outcome, so it is a part of its own.
        refine claim_iteration (Ways.afterRound 0 none greedy ways rounds count place) hbody hcheck
          hconsumes hcarries hentrance.entrance (by omega) (by omega) hrecords ?_ htail
        · intro last hlast after later rest hafter hsaves hclaim
          have hall : Saves (Code.star greedy check body) before (later ++ above) after :=
            (Saves.of_none hnone hundo).trans (hsaves.mono fun _ => Code.slots_star _ _ _)
          have hmem : ∀ found ∈ Ways.afterRound 0 none greedy ways rounds count place last,
              found ∈ (if greedy then Ways.more 0 none greedy ways rounds count place ++ [place]
                else place :: Ways.more 0 none greedy ways rounds count place) :=
            fun found hfound => mem_branch_of_mem (List.mem_flatMap.mpr ⟨last, hlast, hfound⟩)
          by_cases hpos : last.pos = place.pos
          · -- Nothing was consumed: the loop is left, in the tree and in the code.
            rw [if_pos hpos]
            rw [Ways.afterRound_ends greedy ways rounds (Ways.endsLoop_star.mpr hpos)] at hmem ⊢
            exact hsurrounds.leave (hmem last List.mem_cons_self) hafter hend.symm
              _ (List.append_assoc ..).symm hall hclaim
          · -- The code jumps back to its start, with what is left of this iteration on the stack.
            rw [if_neg hpos]
            rw [Ways.afterRound_goes greedy ways rounds (mt Ways.endsLoop_star.mp hpos)] at hmem ⊢
            have hback : base + (if greedy then 1 else 2) +
                ((Code.checked check body).length : Int) +
                -((Code.checked check body).length + (if greedy then 1 else 2)) = base := by
              omega
            rw [hback]
            have hahead := hadvances place last hlast
            refine ih (count + 1) last after (later ++ (above ++ below))
              (fun c places => claim c (places ++ rest)) ?_ hafter ⟨?_, ?_, hclaim⟩
            · unfold Context.Ahead at hahead
              omega
            · refine (hsurrounds.carries.mono fun c hc => ?_).map (· ++ rest)
              refine hc.mono (Int.le_refl _) (Int.le_refl _) ?_
              rw [← List.append_assoc]
              exact List.suffix_append _ _
            · intro end_ hend_ after' above' rest' hafter' hsaves' hclaim'
              exact hsurrounds.leave (hmem end_ hend_) hafter' rfl (above' ++ (later ++ above))
                (by simp only [List.append_assoc]) (hall.trans hsaves') hclaim'
      · intro above tail hnone hundo htail
        exact hsurrounds.leave (mem_branch_self greedy place _) hrecords (by omega) _ rfl
          (Saves.of_none hnone hundo) htail

/-- A loop that does not count. -/
theorem realizes_star {body : Code} {ways : Ways} {check : Option Nat} (greedy : Bool)
    (hbody : Realizes program joins ctx start body ways) (hadvances : Ways.Advances ctx ways)
    (hcheck : ∀ id, check = some id → id < program.emptyChecks ∧ .check id ∉ Code.slots body)
    (hconsumes : check = none → Ways.Consumes ways) :
    Realizes program joins ctx start (Code.star greedy check body)
      (Ways.loop ctx 0 none greedy ways) := by
  intro base place before below claim hcode hrecords hsurrounds
  have hloop : Ways.loop ctx 0 none greedy ways place =
      Ways.iterate 0 none greedy ways (0 + (ctx.range - place.pos) + 1) 0 place :=
    if_neg (by rintro ⟨⟩)
  rw [hloop] at hsurrounds ⊢
  exact claim_star greedy hbody hadvances hcheck hconsumes hcode _ 0 place before below claim
    (by omega) hrecords hsurrounds

/-- Whether a counted loop goes on. An iteration that is not required is tried before leaving if the
loop is greedy, and after leaving if not. -/
theorem claim_decision {ways : Ways} {bounds : Bounds} {greedy : Bool} {claim : Claim}
    {low high body exit : Int} {stack : List Entry} {regs : Registers} {place : Place}
    {rounds count : Nat}
    (hcarries : CarriesBack program joins ctx start (Control.Within low high stack) claim)
    (hbody : ∀ above tail, (∀ entry ∈ above, entry.slot? = none) → regs.undoAll above = regs →
      claim (.falling regs (above ++ stack)) tail →
      claim (.running body place.pos regs (above ++ stack))
        (Ways.more bounds.lower bounds.upper greedy ways rounds count place ++ tail))
    (hexit : bounds.lower ≤ count → ∀ above tail, (∀ entry ∈ above, entry.slot? = none) →
      regs.undoAll above = regs → claim (.falling regs (above ++ stack)) tail →
      claim (.running exit place.pos regs (above ++ stack)) (place :: tail))
    (hfails : claim (.falling regs stack) []) :
    claim (if bounds.lower ≤ count then Control.branch greedy body exit place.pos regs stack
        else .running body place.pos regs stack)
      (Ways.iterate bounds.lower bounds.upper greedy ways (rounds + 1) count place) := by
  rw [Ways.iterate_succ]
  -- Before there are enough iterations, one more is the only way on.
  by_cases henough : bounds.lower ≤ count
  · rw [if_pos henough, if_neg (Nat.not_lt.mpr henough)]
    exact hcarries.branch hbody (hexit henough) hfails
  · rw [if_neg henough, if_pos (Nat.lt_of_not_le henough)]
    have hmore := hbody [] [] (fun _ hmem => absurd hmem List.not_mem_nil) rfl hfails
    rw [List.append_nil] at hmore
    exact hmore

/-- One iteration of a counted loop. The instruction behind the body counts it, and then the loop
ends or decides whether to go on. -/
theorem claim_round {body : Code} {ways : Ways} (next : Ways) {id : Nat} {bounds : Bounds}
    {greedy : Bool} (hbody : Realizes program joins ctx start body ways)
    (hbounds : program.loops[id]? = some bounds) (hslot : .loop id ∉ Code.slots body)
    {claim : Claim} {base : Int} {place : Place}
    {before : Registers} {below : List Entry} {tail : List Place} {count : Nat}
    (hcode : program.CodeAt base (Code.counted id greedy body))
    (hrecords : before.Records program joins place)
    (hcounter : before.counterOf id = ⟨count, place.pos⟩)
    (hcarries : CarriesBack program joins ctx start
      (Control.Within base (base + (Code.counted id greedy body).length) below) claim)
    (hends : ∀ last ∈ ways place, ∀ after above rest, after.Records program joins last →
      Saves (Code.counted id greedy body) before above after →
      Ways.endsLoop bounds.lower bounds.upper (count + 1) place last →
      claim (.falling after (above ++ below)) rest →
      claim (.running (base + (Code.counted id greedy body).length) last.pos after (above ++ below))
        (next last ++ rest))
    (hgoes : ∀ last ∈ ways place, ∀ after above rest, after.Records program joins last →
      Saves (Code.counted id greedy body) before above after →
      ¬ Ways.endsLoop bounds.lower bounds.upper (count + 1) place last →
      after.counterOf id = ⟨count + 1, last.pos⟩ → claim (.falling after (above ++ below)) rest →
      claim (if bounds.lower ≤ count + 1 then
          Control.branch greedy (base + 1) (base + (Code.counted id greedy body).length) last.pos
            after (above ++ below)
        else .running (base + 1) last.pos after (above ++ below)) (next last ++ rest))
    (hfails : claim (.falling before below) tail) :
    claim (.running (base + 1) place.pos before below) ((ways place).flatMap next ++ tail) := by
  have hlength := Code.length_counted id greedy body
  have hagain : program.instrAt (base + 1 + body.length) =
      some (.again id (-body.length) greedy) := by
    refine (hcode.right ?_).head
    simp only [List.length_cons]
    omega
  have hnamed : .loop id ∈ Code.slots (Code.counted id greedy body) :=
    Code.mem_slots_left (Code.mem_slots_head rfl)
  refine hbody (base + 1) place before below (fun c places => claim c (places.flatMap next ++ tail))
    hcode.left.tail hrecords ⟨?_, ?_, hfails⟩
  · refine (hcarries.mono fun c hc => ?_).map fun places => places.flatMap next ++ tail
    exact hc.mono (by omega) (by omega) List.suffix_rfl
  · intro last hlast after above rest hafter hsaves hclaim
    -- The body has not touched the counter, which still says how far the loop had come.
    have hold : after.counterOf id = ⟨count, place.pos⟩ := by
      have hsame : before.counterOf id = after.counterOf id := hsaves.sameAt hslot
      rw [← hsame, hcounter]
    have hid : id < after.counters.size := by
      rw [hafter.fits.counters]
      exact (Array.getElem?_eq_some_iff.mp hbounds).1
    -- Whatever the counter is set to, its entry puts back what it was.
    have hall : ∀ value, Saves (Code.counted id greedy body) before
        (.counter id ⟨count, place.pos⟩ :: above) (after.setCounter id value) := by
      intro value
      have hundo := Registers.undo_setCounter after id value
      rw [hold] at hundo
      have hbefore : Saves (Code.counted id greedy body) before above after :=
        hsaves.mono fun slot hmem => Code.mem_slots_left (Code.mem_slots_cons hmem)
      exact hbefore.trans (Saves.single hundo (by rintro slot ⟨⟩; exact hnamed))
    have hfall : ∀ value, claim (.falling (after.setCounter id value)
        (.counter id ⟨count, place.pos⟩ :: above ++ below)) (rest.flatMap next ++ tail) := by
      intro value
      have hundo := Registers.undo_setCounter after id value
      rw [hold] at hundo
      refine hcarries.falling (List.suffix_append _ _) rfl ?_
      rw [hundo]
      exact hclaim
    have hset : ∀ value, (after.setCounter id value).counterOf id = value :=
      fun value => Registers.getD_setIfInBounds_self _ _ _ hid
    refine hcarries.running hagain rfl hafter ⟨by omega, by omega, List.suffix_append _ _⟩
      (Control.next_again hagain hbounds hold) ?_
    rw [List.flatMap_cons, List.append_assoc]
    rw [show base + 1 + (body.length : Int) + 1 =
        base + (Code.counted id greedy body).length by omega,
      show base + 1 + (body.length : Int) + -body.length = base + 1 by omega]
    by_cases hend : (last.pos = place.pos ∧ bounds.lower ≤ count + 1) ∨
        bounds.upper.any (· ≤ count + 1)
    · rw [if_pos hend]
      exact hends last hlast _ _ _ (hafter.setCounter id _) (hall _) hend (hfall _)
    · rw [if_neg hend]
      exact hgoes last hlast _ _ _ (hafter.setCounter id _) (hall _) hend (hset _) (hfall _)

/-- A counted loop that ends after an iteration is left behind the code. -/
theorem claim_ended {body : Code} {ways : Ways} {id : Nat} {bounds : Bounds} {greedy : Bool}
    {base : Int} {before after : Registers} {above below : List Entry} {place last : Place}
    {rest : List Place} {claim : Claim} {rounds count : Nat}
    (hsurrounds : Surrounds program joins ctx start base (Code.counted id greedy body) before below
      (Ways.more bounds.lower bounds.upper greedy ways rounds count place) claim)
    (hlast : last ∈ ways place) (hrecords : after.Records program joins last)
    (hsaves : Saves (Code.counted id greedy body) before above after)
    (hend : Ways.endsLoop bounds.lower bounds.upper (count + 1) place last)
    (hclaim : claim (.falling after (above ++ below)) rest) :
    claim (.running (base + (Code.counted id greedy body).length) last.pos after (above ++ below))
      (Ways.afterRound bounds.lower bounds.upper greedy ways rounds count place last ++ rest) := by
  have hnext := Ways.afterRound_ends greedy ways rounds hend
  rw [hnext]
  refine hsurrounds.leave ?_ hrecords rfl _ rfl hsaves hclaim
  exact List.mem_flatMap.mpr ⟨last, hlast, hnext ▸ List.mem_cons_self⟩

/-- The rounds of a counted loop, from the start of an iteration. -/
theorem claim_counted {body : Code} {ways : Ways} {id : Nat} {bounds : Bounds} {greedy : Bool}
    (hbody : Realizes program joins ctx start body ways) (hadvances : Ways.Advances ctx ways)
    (hbounds : program.loops[id]? = some bounds) (hslot : .loop id ∉ Code.slots body) {base : Int}
    (hcode : program.CodeAt base (Code.counted id greedy body)) (rounds : Nat) :
    ∀ count place before below claim,
      (bounds.lower - count) + (ctx.range - place.pos) ≤ rounds →
      before.Records program joins place → before.counterOf id = ⟨count, place.pos⟩ →
      Surrounds program joins ctx start base (Code.counted id greedy body) before below
        (Ways.more bounds.lower bounds.upper greedy ways rounds count place) claim →
      claim (.running (base + 1) place.pos before below)
        (Ways.more bounds.lower bounds.upper greedy ways rounds count place) := by
  induction rounds with
  | zero =>
      intro count place before below claim hrounds hrecords hcounter hsurrounds
      rw [← List.append_nil (Ways.more bounds.lower bounds.upper greedy ways 0 count place)]
      refine claim_round (Ways.afterRound bounds.lower bounds.upper greedy ways 0 count place) hbody
        hbounds hslot hcode hrecords hcounter hsurrounds.carries ?_ ?_ hsurrounds.fails
      · intro last hlast after above rest hafter hsaves hend hclaim
        exact claim_ended hsurrounds hlast hafter hsaves hend hclaim
      · -- Enough iterations have been run and nothing is left to consume.
        intro last hlast after above rest hafter hsaves hend
        have hahead := hadvances place last hlast
        unfold Ways.endsLoop at hend
        unfold Context.Ahead at hahead
        omega
  | succ rounds ih =>
      intro count place before below claim hrounds hrecords hcounter hsurrounds
      rw [← List.append_nil (Ways.more bounds.lower bounds.upper greedy ways (rounds + 1) count
        place)]
      refine claim_round
        (Ways.afterRound bounds.lower bounds.upper greedy ways (rounds + 1) count place) hbody
        hbounds hslot hcode hrecords hcounter hsurrounds.carries ?_ ?_ hsurrounds.fails
      · intro last hlast after above rest hafter hsaves hend hclaim
        exact claim_ended hsurrounds hlast hafter hsaves hend hclaim
      · intro last hlast after above rest hafter hsaves hend hcount hclaim
        have hnext := Ways.afterRound_goes greedy ways (rounds + 1) hend
        have hmem : ∀ found ∈
            Ways.iterate bounds.lower bounds.upper greedy ways (rounds + 1) (count + 1) last,
            found ∈ Ways.more bounds.lower bounds.upper greedy ways (rounds + 1) count place :=
          fun found hfound => List.mem_flatMap.mpr ⟨last, hlast, hnext.symm ▸ hfound⟩
        rw [hnext]
        -- An iteration that does not end the loop is one of those required, or consumes something.
        have hahead := hadvances place last hlast
        have hleft : (bounds.lower - (count + 1)) + (ctx.range - last.pos) ≤ rounds := by
          unfold Ways.endsLoop at hend
          unfold Context.Ahead at hahead
          omega
        have hcarries : CarriesBack program joins ctx start (Control.Within base
            (base + (Code.counted id greedy body).length) (above ++ below)) claim :=
          hsurrounds.carries.mono fun c hc =>
            hc.mono (Int.le_refl _) (Int.le_refl _) (List.suffix_append _ _)
        refine claim_decision (hcarries.map (· ++ rest)) ?_ ?_ hclaim
        · -- The loop goes on: what the iterations so far have left to try is `tail` and `rest`.
          intro more tail hnone hundo htail
          refine ih (count + 1) last after (more ++ (above ++ below))
            (fun c places => claim c ((places ++ tail) ++ rest)) hleft hafter hcount
            ⟨?_, ?_, htail⟩
          · refine (hsurrounds.carries.mono fun c hc => ?_).map fun places =>
              (places ++ tail) ++ rest
            refine hc.mono (Int.le_refl _) (Int.le_refl _) ?_
            rw [← List.append_assoc]
            exact List.suffix_append _ _
          · intro end_ hend_ after' above' rest' hafter' hsaves' hclaim'
            exact hsurrounds.leave (hmem end_ (Ways.mem_iterate_of_more hend_)) hafter' rfl
              (above' ++ (more ++ above)) (by simp only [List.append_assoc])
              ((hsaves.trans (Saves.of_none hnone hundo)).trans hsaves') hclaim'
        · intro henough more tail hnone hundo htail
          exact hsurrounds.leave (hmem last (Ways.mem_iterate_self _ _ _ _ _ henough)) hafter rfl
            (more ++ above) (List.append_assoc ..).symm (hsaves.trans (Saves.of_none hnone hundo))
            htail

/-- A counted loop. -/
theorem realizes_counted {body : Code} {ways : Ways} {id : Nat} {bounds : Bounds} (greedy : Bool)
    (hbody : Realizes program joins ctx start body ways) (hadvances : Ways.Advances ctx ways)
    (hbounds : program.loops[id]? = some bounds) (hupper : bounds.upper ≠ some 0)
    (hslot : .loop id ∉ Code.slots body) :
    Realizes program joins ctx start (Code.counted id greedy body)
      (Ways.loop ctx bounds.lower bounds.upper greedy ways) := by
  intro base place before below claim hcode hrecords hsurrounds
  have hlength := Code.length_counted id greedy body
  have henter : program.instrAt base = some (.enter id (body.length + 2) greedy) := hcode.left.head
  have hid : id < before.counters.size := by
    rw [hrecords.fits.counters]
    exact (Array.getElem?_eq_some_iff.mp hbounds).1
  have hsaves : Saves (Code.counted id greedy body) before
      [.counter id (before.counterOf id)] (before.setCounter id ⟨0, place.pos⟩) := by
    refine Saves.single (Registers.undo_setCounter ..) ?_
    rintro slot ⟨⟩
    exact Code.mem_slots_left (Code.mem_slots_head rfl)
  have hloop : Ways.loop ctx bounds.lower bounds.upper greedy ways place =
      Ways.iterate bounds.lower bounds.upper greedy ways
        (bounds.lower + (ctx.range - place.pos) + 1) 0 place := if_neg hupper
  rw [hloop] at hsurrounds ⊢
  have hnext : (Control.running base place.pos before below).next program ctx = _ :=
    Control.next_enter henter hbounds
  -- The first decision is the one that every later iteration takes, with a count of zero.
  simp only [← Nat.le_zero] at hnext
  refine hsurrounds.running henter rfl (Int.le_refl base) (by omega) List.suffix_rfl hrecords hnext
    ?_
  have hcarries : CarriesBack program joins ctx start (Control.Within base
      (base + (Code.counted id greedy body).length)
      (.counter id (before.counterOf id) :: below)) claim :=
    hsurrounds.carries.mono fun c hc =>
      hc.mono (Int.le_refl _) (Int.le_refl _) (List.suffix_cons _ _)
  refine claim_decision hcarries ?_ ?_ ?_
  · intro above tail hnone hundo htail
    refine claim_counted hbody hadvances hbounds hslot hcode _ 0 place _ _
      (fun c places => claim c (places ++ tail)) (by omega) (hrecords.setCounter id _)
      (Registers.getD_setIfInBounds_self _ _ _ hid) ⟨?_, ?_, htail⟩
    · refine (hsurrounds.carries.mono fun c hc => ?_).map (· ++ tail)
      exact hc.mono (Int.le_refl _) (Int.le_refl _) (suffix_above ..)
    · intro last hlast after above' rest hafter hsaves' hclaim
      exact hsurrounds.leave (Ways.mem_iterate_of_more hlast) hafter rfl
        (above' ++ (above ++ [.counter id (before.counterOf id)]))
        (by simp only [List.append_assoc, List.singleton_append])
        ((hsaves.trans (Saves.of_none hnone hundo)).trans hsaves') hclaim
  · intro henough above tail hnone hundo htail
    exact hsurrounds.leave (Ways.mem_iterate_self _ _ _ _ _ henough) (hrecords.setCounter id _)
      (by omega) (above ++ [.counter id (before.counterOf id)])
      (by simp only [List.append_assoc, List.singleton_append])
      (hsaves.trans (Saves.of_none hnone hundo)) htail
  · -- The loop has failed, and its counter is put back.
    refine hsurrounds.falling (List.suffix_cons _ _) rfl ?_
    rw [Registers.undo_setCounter]
    exact hsurrounds.fails

/-- A part written out several times. -/
theorem realizes_copies {body : Code} {ways : Ways}
    (hbody : Realizes program joins ctx start body ways)
    (n : Nat) : Realizes program joins ctx start (Code.copies n body) (Ways.times n ways) := by
  induction n with
  | zero => exact realizes_nil
  | succ n ih => exact realizes_append hbody ih

end RegexEngine
