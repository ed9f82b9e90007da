import RegexEngine.Proofs.Search.Spans

/-!
# The Positions of a Matcher

A matcher comes to new positions by a test, by a step back, and at the start of an attempt. All
others that it holds, on the stack and in the captures, have been its position before. So a property
of positions that these keep is a property of every position that a match reports. `Closed` says
what they have to keep; nothing here depends on what the property is.

An attempt begins without captures, and with no positions but its start and those of a match that
was noted. A search hands the noted match from one attempt to the next and finds the start of each
from the start of the one before.

## Main definitions

* `Control.Holds`, `Found.Holds`: All positions of a control and of a match have a property.
* `Program.Closed`: New positions have the property if those they come from have it.

## Theorems

* `holds_next`, `holds_reaches`: A step and a run keep the property.
* `attempt_holds`, `scan_holds`: What an attempt and a scan find has it.
* `get_fill_holds`: So have the spans that a region reports.
-/

namespace RegexEngine

/-- The positions in a capture have a property. -/
structure Capture.Holds (ok : Nat → Prop) (capture : Capture) : Prop where
  opened : ∀ pos, capture.opened = some pos → ok pos
  start : ∀ pos, capture.start = some pos → ok pos
  stop : ∀ pos, capture.stop = some pos → ok pos

/-- The positions in the captures have a property. -/
def Registers.Holds (ok : Nat → Prop) (regs : Registers) : Prop :=
  ∀ n, (regs.captureOf n).Holds ok

/-- The positions that an entry of the stack may bring back have a property. -/
def Entry.Holds (ok : Nat → Prop) : Entry → Prop
  | choice _ pos | mark _ pos => ok pos
  | capture _ old => old.Holds ok
  | counter .. | check .. => True

/-- The positions that a control holds have a property. -/
def Control.Holds (ok : Nat → Prop) : Control → Prop
  | running _ pos regs stack => ok pos ∧ regs.Holds ok ∧ ∀ entry ∈ stack, entry.Holds ok
  | falling regs stack => regs.Holds ok ∧ ∀ entry ∈ stack, entry.Holds ok

/-- The positions of a match and of its groups have a property. -/
structure Found.Holds (ok : Nat → Prop) (found : Found) : Prop where
  start : ok found.start
  stop : ok found.stop
  spans : ∀ n first last, found.place.spans n = some (first, last) → ok first ∧ ok last

/-- The positions that a matcher comes to have a property if those it comes from have it. -/
structure Program.Closed (program : Program) (ctx : Context) (ok : Nat → Prop) : Prop where
  test : ∀ pc test (regs : Registers) pos last, program.instrAt pc = some (.leaf test) →
    regs.Holds ok → ok pos → test.accept ctx regs.captures pos = some last → ok last
  back : ∀ n pos last, ok pos → ctx.encoding.stepBack ctx.subject 0 n pos = some last → ok last
  occurs : ∀ pos start, ok pos → ctx.nextOccurrence program.hints.literal pos = some start →
    ok start
  next : ∀ pos, ok pos → pos + ctx.encoding.charLength ctx.subject pos ≤ ctx.range →
    ok (pos + ctx.encoding.charLength ctx.subject pos)

variable {ok : Nat → Prop} {program : Program} {ctx : Context} {limits : Limits}

theorem Capture.holds_empty : ({} : Capture).Holds ok :=
  ⟨by rintro pos ⟨⟩, by rintro pos ⟨⟩, by rintro pos ⟨⟩⟩

namespace Registers

variable {regs : Registers}

theorem Holds.setCapture (h : regs.Holds ok) (number : Nat) {value : Capture}
    (hvalue : value.Holds ok) : (regs.setCapture number value).Holds ok := by
  intro n
  rcases getD_setIfInBounds_or regs.captures number n value {} with hnew | hold
  · rw [captureOf, Registers.setCapture, hnew]
    exact hvalue
  · rw [captureOf, Registers.setCapture, hold]
    exact h n

theorem Holds.undo {entry : Entry} (h : regs.Holds ok) (hentry : entry.Holds ok) :
    (regs.undo entry).Holds ok := by
  cases entry with
  | capture number old => exact h.setCapture number hentry
  | choice | mark | counter | check => exact h

/-- Nothing is captured at the start of an attempt. -/
theorem holds_clear (regs : Registers) : regs.clear.Holds ok := by
  intro n
  rw [clear, captureOf_replicate]
  exact Capture.holds_empty

/-- A span has the property at both ends. -/
theorem Holds.spans (h : regs.Holds ok) {n first last : Nat}
    (hspan : regs.captures[n]?.bind Capture.span? = some (first, last)) : ok first ∧ ok last := by
  rcases Option.bind_eq_some_iff.mp hspan with ⟨capture, hcapture, hspan⟩
  have hcaptureOf : regs.captureOf n = capture := by
    rw [captureOf, Array.getD_eq_getD_getElem?, hcapture, Option.getD_some]
  have hholds := hcaptureOf ▸ h n
  rw [Capture.span?] at hspan
  split at hspan
  · rename_i hstart hstop
    cases hspan
    exact ⟨hholds.start _ hstart, hholds.stop _ hstop⟩
  · cases hspan

end Registers

theorem Registers.Holds.undoAll {regs : Registers} {stack : List Entry} (h : regs.Holds ok)
    (hstack : ∀ entry ∈ stack, entry.Holds ok) : (regs.undoAll stack).Holds ok := by
  induction stack generalizing regs with
  | nil => exact h
  | cons entry rest ih =>
      rw [List.forall_mem_cons] at hstack
      exact ih (h.undo hstack.1) hstack.2

namespace Control

variable {c d : Control}

/-- A step keeps the property. -/
theorem holds_next (hclosed : program.Closed ctx ok) (h : c.Holds ok)
    (hnext : c.next program ctx = some d) : d.Holds ok := by
  cases c with
  | falling regs stack =>
      rcases h with ⟨hregs, hstack⟩
      cases stack with
      | nil => cases hnext
      | cons entry stack =>
          rw [List.forall_mem_cons] at hstack
          cases entry with
          | choice pc pos =>
              cases hnext
              exact ⟨hstack.1, hregs, hstack.2⟩
          | mark | capture | counter | check =>
              cases hnext
              exact ⟨hregs.undo hstack.1, hstack.2⟩
  | running pc pos regs stack =>
      rcases h with ⟨hpos, hregs, hstack⟩
      rcases makes_of_next hnext with ⟨instr, hinstr, hmakes⟩
      have hpush : ∀ {entry : Entry}, entry.Holds ok → ∀ found ∈ entry :: stack, found.Holds ok :=
        fun hentry => List.forall_mem_cons.mpr ⟨hentry, hstack⟩
      -- A new position comes from a test or a step back. All others are taken from the control.
      cases hmakes with
      | falls => exact ⟨hregs, hstack⟩
      | stays => exact ⟨hpos, hregs, hstack⟩
      | accepts _ haccept =>
          exact ⟨hclosed.test pc _ regs pos _ hinstr hregs hpos haccept, hregs, hstack⟩
      | stepsBack _ hback => exact ⟨hclosed.back _ pos _ hpos hback, hregs, hstack⟩
      | leaves | marks => exact ⟨hpos, hregs, hpush hpos⟩
      | opens number =>
          have hold := hregs number
          refine ⟨hpos, hregs.setCapture number ⟨?_, hold.start, hold.stop⟩, hpush hold⟩
          rintro opened ⟨⟩
          exact hpos
      | closes number =>
          have hold := hregs number
          -- The group starts where it was opened, and that was a position of the matcher before.
          refine ⟨hpos, hregs.setCapture number ⟨hold.opened, hold.opened, ?_⟩, hpush hold⟩
          rintro stop ⟨⟩
          exact hpos
      | checks | counts => exact ⟨hpos, hregs, hpush trivial⟩
      | decides => exact ⟨hpos, hregs, List.forall_mem_cons.mpr ⟨hpos, hpush trivial⟩⟩
      | cuts _ _ hcut =>
          subst hcut
          rw [List.forall_mem_append, List.forall_mem_cons] at hstack
          refine ⟨?_, hregs, List.forall_mem_append.mpr ⟨?_, hstack.2.2⟩⟩
          · split
            · exact hstack.2.1
            · exact hpos
          · exact fun entry hentry => hstack.1 entry (List.mem_filter.mp hentry).1
      | rewinds _ hcut =>
          subst hcut
          rw [List.forall_mem_append, List.forall_mem_cons] at hstack
          exact ⟨hpos, hregs.undoAll hstack.1, hstack.2.2⟩

/-- A run keeps the property. -/
theorem holds_reaches (hclosed : program.Closed ctx ok) (h : c.Holds ok)
    (hreach : Reaches program ctx c d) : d.Holds ok := by
  induction hreach with
  | refl => exact h
  | tail _ hnext ih => exact holds_next hclosed ih hnext

end Control

section Attempts

variable {m : Machine} {start fuel : Nat} {verdict : Verdict}

/-- A match that ends in a state has the property if the state has it. -/
theorem Machine.found_holds {state : Machine} (hcontrol : state.control.Holds ok)
    (hstart : ok state.start) : state.found.Holds ok :=
  ⟨hstart, hcontrol.1, fun _ _ _ hspan => hcontrol.2.1.spans hspan⟩

/-- What an attempt finds has the property, if the match has it that was noted before. -/
theorem attempt_holds (hclosed : program.Closed ctx ok)
    (hbest : ∀ found, m.best = some found → found.Holds ok) (hstart : ok start)
    (h : m.attempt program limits ctx fuel start = .ok verdict) :
    ∀ found, Program.matchOf verdict = some found → found.Holds ok := by
  have hfirst : (m.restart start).control.Holds ok :=
    ⟨hstart, Registers.holds_clear _, List.forall_mem_nil _⟩
  have hfound : ∀ state, Machine.Reaches program limits ctx (m.restart start) state →
      state.found.Holds ok := by
    intro state hreach
    refine Machine.found_holds
      (Control.holds_reaches hclosed hfirst (Machine.reaches_control hreach)) ?_
    rw [Program.Means.start_reaches hreach]
    exact hstart
  -- The match that is noted is carried along, step by step.
  have hnoted : ∀ state, Machine.Reaches program limits ctx (m.restart start) state →
      ∀ found, state.best = some found → found.Holds ok := by
    intro state hreach
    induction hreach with
    | refl => exact hbest
    | @tail before after hbefore hstep ih =>
        intro found hsome
        rcases (Machine.step_keeps hstep).2 with hkept | ⟨-, hnew⟩
        · exact ih found (hkept.symm.trans hsome)
        · obtain rfl : before.found = found := Option.some.inj (hnew.symm.trans hsome)
          exact hfound before hbefore
  rcases Machine.run_ends h with ⟨last, hreach, hstep⟩
  cases verdict with
  | matched after =>
      rcases Machine.matched_of_step hstep with ⟨rfl, -⟩
      rintro found ⟨⟩
      exact hfound after hreach
  | exhausted after =>
      intro found hsome
      rcases (Machine.step_keeps hstep).2 with hkept | ⟨-, hnew⟩
      · exact hnoted last hreach found (hkept.symm.trans hsome)
      · obtain rfl : last.found = found := Option.some.inj (hnew.symm.trans hsome)
        exact hfound last hreach

/-- So has what a scan finds. -/
theorem scan_holds (hclosed : program.Closed ctx ok) {last count pos : Nat}
    (hbest : ∀ found, m.best = some found → found.Holds ok) (hpos : ok pos)
    (h : program.scan limits ctx fuel last count m pos = .ok verdict) :
    ∀ found, Program.matchOf verdict = some found → found.Holds ok := by
  -- By induction on the count. A start that is an occurrence is a position, and so is the one
  -- behind it.
  induction count generalizing m pos with
  | zero =>
      cases h
      exact hbest
  | succ count ih =>
      rw [Program.scan] at h
      split at h
      · cases h
        exact hbest
      · rename_i start hoccurs
        have hstart := hclosed.occurs pos start hpos hoccurs
        split at h
        · cases h
        · rename_i after hattempt
          cases h
          -- A match ends the scan; otherwise what has been noted is handed on.
          exact attempt_holds hclosed hbest hstart hattempt
        · rename_i after hattempt
          have hafter := attempt_holds hclosed hbest hstart hattempt
          simp only at h
          split at h
          · cases h
            exact hafter
          · exact ih hafter (hclosed.next start hstart (by omega)) h

/-- So has what a search finds. -/
theorem findFrom_holds (hclosed : program.Closed ctx ok) (hstart : ok ctx.searchStart)
    {found : Found} (h : program.findFrom limits ctx fuel = .ok (some found)) : found.Holds ok := by
  rw [Program.findFrom] at h
  split at h
  · cases h
  · rcases Program.ok_of_map h with ⟨verdict, hscan, hfound⟩
    exact scan_holds hclosed (by rintro other ⟨⟩) hstart hscan found hfound

/-- So has what a single attempt finds. -/
theorem findAt_holds (hclosed : program.Closed ctx ok) (hstart : ok ctx.searchStart)
    {found : Found} (h : program.findAt limits ctx fuel = .ok (some found)) : found.Holds ok := by
  rcases Program.ok_of_map h with ⟨verdict, hattempt, hfound⟩
  exact attempt_holds hclosed (by rintro other ⟨⟩) hstart hattempt found hfound

end Attempts

/-- So have the spans that a region reports. -/
theorem Region.get_fill_holds (region : Region) {found : Found} (h : found.Holds ok)
    {i first last : Nat} (hget : (region.fill found).get? i = some (first, last)) :
    ok first ∧ ok last := by
  rw [get?] at hget
  split at hget
  · rw [slot_fill] at hget
    split at hget
    · cases i with
      | zero =>
          cases hget
          exact ⟨h.start, h.stop⟩
      | succ i => exact h.spans (i + 1) first last hget
    · cases hget
  · cases hget

end RegexEngine
