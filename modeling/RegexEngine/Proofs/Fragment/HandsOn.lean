import RegexEngine.Proofs.Fragment.Basic

/-!
# What Code Hands On

`Realizes` speaks about all claims at once. The claim that says most about a single run is that the
code hands on its outcomes: the run stays in the code until it leaves it with the first of them, and
when what stands behind the code has fallen back to where the code was left, the run stays in the
code until it leaves it with the next one, until nothing is left and the run falls back further,
with the registers as they were before the code.

Nothing depends on what stands behind the code. So for the proof the program may end there: then the
run does fall back wherever it has left the code.

This is all that becomes of the code. A run of the code alone, in which everything behind it fails
at once, comes to the end of the code with those outcomes and with no others.

## Main definitions

* `Program.endedAt`: A program that ends at an address.
* `Control.HandsOn`: From a control, a run leaves some code with one place after the other.
* `Control.RunsAlone`: One control comes after another in a run of some code alone.

## Theorems

* `handsOn_of_realizes`: Code hands on what it realizes.
* `HandsOn.comes`: A run of the code alone comes to nothing but what is handed on.
-/

namespace RegexEngine

/-- The program ends at an address. -/
def Program.endedAt (program : Program) (exit : Int) : Program :=
  { program with code := (program.code.toList.take exit.toNat ++ [Instr.finish]).toArray }

namespace Control

/-- The run from a control stays in some code until it leaves it with the first of the places in the
list. If it falls back to where it has left the code, it leaves it with the others in the same way.
After the last one it falls back to the stack below, with the registers of before. -/
inductive HandsOn (program : Program) (ctx : Context) (base : Int) (code : Code)
    (before : Registers) (below : List Entry) : Control → List Place → Prop
  /-- Nothing is left. -/
  | fails {c : Control}
      (comes : Stays program ctx (Within base (base + code.length) below) c
        (.falling before below)) :
      HandsOn program ctx base code before below c []
  /-- The next place. -/
  | leaves {c : Control} {last : Place} {after : Registers} {above : List Entry} {rest : List Place}
      (comes : Stays program ctx (Within base (base + code.length) below) c
        (.running (base + code.length) last.pos after (above ++ below)))
      (spans : after.spans = last.spans) (saves : Saves code before above after)
      (again : HandsOn program ctx base code before below (.falling after (above ++ below)) rest) :
      HandsOn program ctx base code before below c (last :: rest)

/-- One control comes after another in a run of some code alone: whenever it has left the code, it
falls back. -/
def RunsAlone (program : Program) (ctx : Context) (base : Int) (code : Code) (below : List Entry) :
    Control → Control → Prop :=
  Relation.ReflTransGen fun c d =>
    Within base (base + code.length) below c ∧ c.next program ctx = some d ∨
      ∃ pos regs above, c = .running (base + code.length) pos regs (above ++ below) ∧
        d = .falling regs (above ++ below)

end Control

variable {program : Program} {joins : Nat → Nat → Prop} {ctx : Context} {code : Code} {ways : Ways}
  {base : Int} {place : Place} {before regs : Registers} {below above : List Entry}
  {c d m : Control} {places : List Place}

/-- A program that ends behind some code has the code, and then its end. -/
theorem Program.CodeAt.ended (h : program.CodeAt base code) :
    (program.endedAt (base + code.length)).CodeAt base (code ++ [.finish]) := by
  rcases h with ⟨front, back, hcode, rfl⟩
  refine ⟨front, [], ?_, rfl⟩
  have hexit : ((front.length : Int) + code.length).toNat = (front ++ code).length := by
    rw [List.length_append]
    omega
  rw [endedAt, hexit, hcode, List.take_left, List.append_nil, List.append_assoc]

/-- Before that, it has the instructions of the program. -/
theorem Program.CodeAt.instrAt_ended (h : program.CodeAt base code) {pc : Int}
    (hpc : pc < base + code.length) :
    (program.endedAt (base + code.length)).instrAt pc = program.instrAt pc := by
  rcases h with ⟨front, back, hcode, rfl⟩
  have hexit : ((front.length : Int) + code.length).toNat = (front ++ code).length := by
    rw [List.length_append]
    omega
  rw [instrAt, instrAt]
  split
  · rfl
  · have hlt : pc.toNat < (front ++ code).length := by
      rw [List.length_append]
      omega
    rw [endedAt, hexit, ← Array.getElem?_toList, ← Array.getElem?_toList, hcode, List.take_left,
      List.getElem?_append_left hlt, List.getElem?_append_left hlt]

namespace Control

/-- A step within the code is the same, wherever the program ends behind it. -/
theorem next_ended (h : program.CodeAt base code)
    (hinside : Within base (base + code.length) below c) :
    c.next (program.endedAt (base + code.length)) ctx = c.next program ctx := by
  cases c with
  | falling regs stack =>
      cases stack with
      | nil => rfl
      | cons entry stack => cases entry <;> rfl
  | running pc pos regs stack =>
      have hobey : ∀ instr, (Machine.standing pc pos regs stack).obey
          (program.endedAt (base + code.length)) Limits.off ctx instr =
            (Machine.standing pc pos regs stack).obey program Limits.off ctx instr := by
        intro instr
        cases instr <;> rfl
      simp only [next, h.instrAt_ended hinside.2.1, hobey]

/-- What is handed on after a step within the code is handed on before it. -/
theorem HandsOn.step (h : HandsOn program ctx base code before below d places)
    (hinside : Within base (base + code.length) below c) (hnext : c.next program ctx = some d) :
    HandsOn program ctx base code before below c places := by
  cases h with
  | fails comes => exact .fails (.head ⟨hinside, hnext⟩ comes)
  | leaves comes spans saves again => exact .leaves (.head ⟨hinside, hnext⟩ comes) spans saves again

end Control

/-- Code hands on what it realizes in a program that ends behind it. -/
theorem handsOn_of_realizes (hat : program.CodeAt base code)
    (hrecords : before.Records program joins place)
    (h : Realizes (program.endedAt (base + code.length)) joins ctx
      (.running base place.pos before below) code ways) :
    Control.HandsOn program ctx base code before below (.running base place.pos before below)
      (ways place) := by
  have hended := hat.ended
  -- The claim is that the places are handed on, if the run comes there at all.
  refine h base place before below
    (fun c places => Control.Reaches (program.endedAt (base + code.length)) ctx
      (.running base place.pos before below) c →
      Control.HandsOn program ctx base code before below c places)
    hended.left ⟨⟨hrecords.fits.captures, hrecords.fits.counters, hrecords.fits.checks⟩,
      hrecords.spans, hrecords.joined⟩ ⟨?_, ?_, fun _ => .fails .refl⟩ .refl
  · intro c d places hinside hnext hstep hreach
    have hlater := (hstep hreach).2 (hreach.tail hnext)
    rw [Control.next_ended hat hinside] at hnext
    exact hlater.step hinside hnext
  · intro last _ after above rest hafter hsaves hclaim hreach
    refine .leaves .refl hafter.spans hsaves (hclaim (hreach.tail ?_))
    exact Control.next_finish (hended.right rfl).head

namespace Control

/-- A run of the code alone that has to leave a region comes through the controls that a run in the
region comes to. -/
theorem RunsAlone.through {inside : Control → Prop} (hstays : Stays program ctx inside c m)
    (hinside : ∀ c, inside c → Within base (base + code.length) below c) (hd : ¬ inside d)
    (h : RunsAlone program ctx base code below c d) :
    RunsAlone program ctx base code below m d := by
  induction hstays using Relation.ReflTransGen.head_induction_on with
  | refl => exact h
  | @head c e hstep _ ih =>
      rcases Relation.ReflTransGen.cases_head h with
        rfl | ⟨e', ⟨-, hnext⟩ | ⟨_, _, _, rfl, -⟩, hlater⟩
      · exact absurd hstep.1 hd
      · rw [hstep.2, Option.some.injEq] at hnext
        exact ih (hnext ▸ hlater)
      · -- The end of the code is not within it.
        exact absurd (hinside _ hstep.1).2.1 (Int.lt_irrefl _)

/-- A control has some entries at the bottom of its stack. -/
def Above (below : List Entry) : Control → Prop
  | running _ _ _ stack | falling _ stack => below <:+ stack

/-- A run of the code alone ends as soon as it has left the entries below. -/
theorem RunsAlone.stays_above (h : RunsAlone program ctx base code below c d) (hd : d.Above below) :
    c.Above below := by
  rcases Relation.ReflTransGen.cases_head h with rfl | ⟨e, ⟨hinside, -⟩ | ⟨_, _, _, rfl, -⟩, -⟩
  · exact hd
  · cases c with
    | running => exact hinside.2.2
    | falling => exact hinside
  · exact List.suffix_append _ _

/-- What falls back below the code does not come back to it. -/
theorem RunsAlone.not_below {regs : Registers}
    (h : RunsAlone program ctx base code below (.falling regs below) d) (hd : d.Above below) :
    d = .falling regs below := by
  rcases Relation.ReflTransGen.cases_head h with rfl | ⟨e, ⟨-, hnext⟩ | ⟨_, _, _, heq, -⟩, hlater⟩
  · rfl
  · -- The next control has one entry less on its stack.
    have habove := RunsAlone.stays_above hlater hd
    cases below with
    | nil => cases hnext
    | cons entry below =>
        have hlength : entry :: below <:+ below := by
          cases entry <;> cases hnext <;> exact habove
        exact absurd hlength.length_le (Nat.not_succ_le_self _)
  · cases heq

/-- A run of the code alone comes to the end of the code with what is handed on, and with nothing
else. -/
theorem HandsOn.comes (h : HandsOn program ctx base code before below c places) {last : Nat}
    (hrun : RunsAlone program ctx base code below c
      (.running (base + code.length) last regs (above ++ below))) :
    ∃ found ∈ places, found.pos = last ∧ regs.spans = found.spans := by
  have hleft : ¬ Within base (base + code.length) below
      (.running (base + code.length) last regs (above ++ below)) :=
    fun hinside => Int.lt_irrefl _ hinside.2.1
  -- The run ends outside of the code, so that it gets to wherever the code hands something on.
  induction h with
  | fails comes =>
      have hend := (hrun.through comes (fun _ => id) hleft).not_below (List.suffix_append _ _)
      cases hend
  -- The run either is where the code leaves, or goes back to the rest from there.
  | @leaves c found after above' rest comes spans saves again ih =>
      rcases Relation.ReflTransGen.cases_head (hrun.through comes (fun _ => id) hleft) with
        heq | ⟨e, ⟨hinside, -⟩ | ⟨_, _, _, heq, rfl⟩, hlater⟩
      · injection heq with _ hpos hregs
        exact ⟨found, List.mem_cons_self, hpos, hregs ▸ spans⟩
      -- Behind the end nothing goes on inside of the code.
      · exact absurd hinside.2.1 (Int.lt_irrefl _)
      · injection heq with _ _ hregs hstack
        subst hregs
        rw [← hstack] at hlater
        rcases ih hlater with ⟨other, hother, hsame⟩
        exact ⟨other, List.mem_cons_of_mem _ hother, hsame⟩

end Control

end RegexEngine
