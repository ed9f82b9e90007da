import RegexEngine.Proofs.Backtracking.Entries

/-!
# Backtracking Restores the Registers

When a failure resumes a choice, captures, counters and checks are what they were at the moment when
the choice was put on the stack, whatever happened in between; and so they are when the matcher has
rewound to a mark. This holds for every program, in particular for those that no pattern is compiled
to.

The moment when a choice or a mark was put on the stack is the state in which it was on top: there
was a step that led to this state, before that step it was not on the stack, and it has been there
at every moment since. It is told from others that look alike by the entries below it, which never
change while it is there. That there is such a moment is proved as well.

Between that moment and now each step carries the choice over, so undoing what lies above it leads
to the same registers at all moments. At the first of them nothing lies above it; at the last one,
what lies above it is what falling back undoes.

## Main definitions

* `Machine.PushedAt`: The moment when a choice or a mark was put on the stack.
* `Machine.Restores`: The registers are those of that moment.

## Theorems

* `exists_pushedAt`: There is such a moment for each choice and mark on the stack.
* `undoAll_pushedAt`: Undoing what lies above leads to the registers of that moment.
* `backtracking_restores`: Resuming a choice and rewinding to a mark restore the registers.
-/

namespace RegexEngine

namespace Machine

/-- In a run from `first` that has come to `m`, the newest entry of `part` was put on top of the
others by the step to `born`, and they all have been on the stack since. -/
structure PushedAt (program : Program) (limits : Limits) (ctx : Context) (first : Machine)
    (part : List Entry) (born m : Machine) : Prop where
  pushed : ∃ before, Reaches program limits ctx first before ∧
    before.step program limits ctx = .ok (.running born) ∧ ¬ part <:+ before.stack
  top : born.stack = part
  stays : Relation.ReflTransGen
    (fun earlier later => earlier.step program limits ctx = .ok (.running later) ∧
      part <:+ later.stack) born m

/-- The newest entry of `part` was put on the stack at some moment before `m`, and the registers of
`after` are those of that moment. -/
structure Restores (program : Program) (limits : Limits) (ctx : Context) (first : Machine)
    (part : List Entry) (m after : Machine) : Prop where
  moment : ∃ born, PushedAt program limits ctx first part born m
  registers : ∀ born, PushedAt program limits ctx first part born m →
    after.registers = born.registers

variable {program : Program} {limits : Limits} {ctx : Context} {first born m after : Machine}

/-- Every choice and mark on the stack of an attempt has been put there at some moment. -/
theorem exists_pushedAt (hfirst : first.stack = []) (hreach : Reaches program limits ctx first m)
    {above below : List Entry} {entry : Entry} (hentry : entry.isSaved = false)
    (hstack : m.stack = above ++ entry :: below) :
    ∃ born, PushedAt program limits ctx first (entry :: below) born m := by
  induction hreach generalizing above with
  | refl =>
      rw [hfirst] at hstack
      cases above <;> cases hstack
  | @tail earlier later hearlier hstep ih =>
      rcases step_carries hstep above entry below hentry hstack with
        ⟨rfl, hnew⟩ | ⟨above', hold, -⟩
      · exact ⟨later, ⟨earlier, hearlier, hstep, hnew⟩, hstack, .refl⟩
      · rcases ih hold with ⟨born, hborn⟩
        exact ⟨born, hborn.pushed, hborn.top, hborn.stays.tail ⟨hstep, above, hstack.symm⟩⟩

/-- What stays on the stack is there. -/
theorem suffix_of_stays {part : List Entry} (htop : born.stack = part)
    (hstays : Relation.ReflTransGen
      (fun earlier later => earlier.step program limits ctx = .ok (.running later) ∧
        part <:+ later.stack) born m) : part <:+ m.stack := by
  rcases Relation.ReflTransGen.cases_tail hstays with rfl | ⟨earlier, -, -, hlater⟩
  · exact htop ▸ List.suffix_rfl
  · exact hlater

/-- Undoing what lies above a choice or a mark leads to the registers of the moment when it was put
on the stack. -/
theorem undoAll_pushedAt {above below : List Entry} {entry : Entry}
    (hborn : PushedAt program limits ctx first (entry :: below) born m)
    (hentry : entry.isSaved = false) (hstack : m.stack = above ++ entry :: below) :
    m.registers.undoAll above = born.registers := by
  have htop := hborn.top
  have hstays := hborn.stays
  -- On the steps since that moment, each of which keeps what undoing leads to.
  induction hstays generalizing above with
  | refl =>
      rw [htop] at hstack
      obtain rfl : above = [] := List.append_left_eq_self.mp hstack.symm
      rfl
  | @tail earlier later hearlier hstep ih =>
      rcases step_carries hstep.1 above entry below hentry hstack with
        ⟨-, hnew⟩ | ⟨above', hold, hsame⟩
      · exact absurd (suffix_of_stays htop hearlier) hnew
      · rw [← hsame]
        exact ih ⟨hborn.pushed, htop, hearlier⟩ hold

/-- What undoes all that lies above a choice or a mark restores the registers. -/
theorem restores_of_undoAll (hfirst : first.stack = [])
    (hreach : Reaches program limits ctx first m) {above below : List Entry} {entry : Entry}
    (hentry : entry.isSaved = false) (hstack : m.stack = above ++ entry :: below)
    (hundone : after.registers = m.registers.undoAll above) :
    Restores program limits ctx first (entry :: below) m after :=
  ⟨exists_pushedAt hfirst hreach hentry hstack,
    fun _ hborn => hundone.trans (undoAll_pushedAt hborn hentry hstack)⟩

/-- If a step of an attempt falls back to a choice, the registers are restored to what they were
when the choice was put on the stack; it is the newest choice there is. If it rewinds to a mark,
they are restored to what they were when the mark was put there, which is the newest one with its
number. Nothing is assumed of the program. -/
theorem backtracking_restores {rested : Machine} {start : Nat} {instr : Instr}
    (hreach : Reaches program limits ctx (rested.restart start) m)
    (hinstr : m.fetch program = some instr)
    (hstep : m.step program limits ctx = .ok (.running after)) :
    (∀ fallen, m.obey program limits ctx instr = .ok (.fallBack fallen) →
      ∃ above, m.stack = above ++ .choice after.pc after.pos :: after.stack ∧
        (∀ entry ∈ above, ∀ pc pos, entry ≠ .choice pc pos) ∧
        Restores program limits ctx (rested.restart start)
          (.choice after.pc after.pos :: after.stack) m after) ∧
    ∀ id, instr = .rewind id →
      ∃ above pos, m.stack = above ++ .mark id pos :: after.stack ∧
        (∀ entry ∈ above, entry.isMark id = false) ∧
        Restores program limits ctx (rested.restart start) (.mark id pos :: after.stack) m
          after := by
  constructor
  · intro fallen hobey
    rw [step_effect hinstr hobey] at hstep
    rcases fallBack_running hstep with ⟨above, hstack, hnone, hregs⟩
    rcases obey_fallen hinstr hobey with ⟨hsame, hstay⟩
    rw [hstay] at hstack
    rw [hsame] at hregs
    exact ⟨above, hstack, hnone, restores_of_undoAll rfl hreach rfl hstack hregs⟩
  · rintro id rfl
    -- A step that rewinds and succeeds has found the mark.
    rcases hrewind : rewindTo id m.stack m.registers with _ | ⟨rest, undone⟩
    · have hobey : m.obey program limits ctx (.rewind id) = .error .stackBug := by
        simp only [obey, obeyRewind, hrewind]
        rfl
      rw [step_error hinstr hobey] at hstep
      cases hstep
    · have hobey : m.obey program limits ctx (.rewind id) =
          .ok (.goOn { m.next with stack := rest, registers := undone }) := by
        simp only [obey, obeyRewind, hrewind]
        rfl
      rw [step_effect hinstr hobey] at hstep
      cases hstep
      rcases rewindTo_some hrewind with ⟨above, pos, hstack, hnone, hregs⟩
      exact ⟨above, pos, hstack, hnone, restores_of_undoAll rfl hreach rfl hstack hregs⟩

/-- A choice is left, and above it a mark and another choice. A group is opened, and a cut to the
mark drops both of them but keeps what was saved. Failing then resumes the first choice, with the
group as it was. -/
theorem backtracking_restores_cut :
    let program : Program :=
      { code := #[.fork 6, .mark 0 false, .fork 1, .openGroup 1, .cut 0 false, .fail, .finish]
        groups := 1, marks := 1 }
    let ctx := Context.make program #[] 0 0 {}
    let first := (initial program 0).restart 0
    ∃ m after, Reaches program Limits.off ctx first m ∧ m.fetch program = some .fail ∧
      m.step program Limits.off ctx = .ok (.running after) ∧
      (m.registers.captureOf 1).opened = some 0 ∧ (after.registers.captureOf 1).opened = none ∧
      Restores program Limits.off ctx first (.choice 6 0 :: []) m after := by
  intro program ctx first
  -- Five steps: the choice, the mark, the other choice, the group and the cut.
  have hreach : Reaches program Limits.off ctx first
      { first with
        pc := 5, stack := [.capture 1 {}, .choice 6 0],
        registers := first.registers.setCapture 1 { opened := some 0 } } := by
    refine .head (b := { first with pc := 1, stack := [.choice 6 0] }) rfl ?_
    refine .head (b := { first with pc := 2, stack := [.mark 0 0, .choice 6 0] }) rfl ?_
    refine .head
      (b := { first with pc := 3, stack := [.choice 3 0, .mark 0 0, .choice 6 0] }) rfl ?_
    refine .head
      (b := { first with
        pc := 4, stack := [.capture 1 {}, .choice 3 0, .mark 0 0, .choice 6 0],
        registers := first.registers.setCapture 1 { opened := some 0 } }) rfl ?_
    exact .single rfl
  -- The instruction behind the cut fails, and the first choice is resumed.
  have hstep : step { first with
        pc := 5, stack := [.capture 1 {}, .choice 6 0],
        registers := first.registers.setCapture 1 { opened := some 0 } }
      program Limits.off ctx =
      .ok (.running { first with pc := 6, retries := 1, searchRetries := 1 }) := rfl
  rcases (backtracking_restores hreach rfl hstep).1 _ rfl with ⟨above, -, -, hrestores⟩
  exact ⟨_, _, hreach, rfl, hstep, rfl, rfl, hrestores⟩

end Machine

end RegexEngine
