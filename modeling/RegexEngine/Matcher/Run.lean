import RegexEngine.Matcher.Machine

/-!
# Runs of the Matcher

An attempt takes steps until it has matched, has no choice left, or has met a limit. How many steps
it may take is an argument; running out of steps is told apart from every other outcome, so that it
can be said of an attempt that it ends.

## Main definitions

* `Interrupt`: why an attempt has no verdict.
* `Machine.run`: takes steps up to a number of them.
* `Machine.attempt`: an attempt at a position.

## Theorems

* `run_add`: an attempt that has ended ends in the same way with more steps.
-/

namespace RegexEngine

/-- Why an attempt has no verdict. -/
inductive Interrupt where
  | failure (cause : Cause)
  | outOfFuel
  deriving DecidableEq, Repr

/-- How an attempt ends. -/
inductive Verdict where
  | matched (m : Machine)
  | exhausted (m : Machine)

namespace Machine

/-- Takes at most `fuel` steps. -/
def run (program : Program) (limits : Limits) (ctx : Context) :
    (fuel : Nat) → Machine → Except Interrupt Verdict
  | 0, _ => .error .outOfFuel
  | fuel + 1, m =>
    match m.step program limits ctx with
    | .error cause => .error (.failure cause)
    | .ok (.running m) => run program limits ctx fuel m
    | .ok (.matched m) => .ok (.matched m)
    | .ok (.exhausted m) => .ok (.exhausted m)

/-- An attempt at a position. -/
def attempt (program : Program) (limits : Limits) (ctx : Context) (fuel : Nat) (m : Machine)
    (start : Nat) : Except Interrupt Verdict :=
  run program limits ctx fuel (m.restart start)

theorem run_add {program : Program} {limits : Limits} {ctx : Context} {fuel : Nat} {m : Machine}
    (more : Nat) (h : run program limits ctx fuel m ≠ .error .outOfFuel) :
    run program limits ctx (fuel + more) m = run program limits ctx fuel m := by
  induction fuel generalizing m with
  | zero => exact absurd rfl h
  | succ fuel ih =>
    rw [Nat.add_right_comm]
    simp only [run] at h ⊢
    split <;> simp_all

end Machine

end RegexEngine
