import RegexEngine.Error.Cause
import RegexEngine.Limits
import RegexEngine.Matcher.Stack

/-!
# The Matcher

A matcher obeys one instruction after the other. An instruction lets it go on, makes it fall back to
the newest choice, or ends an attempt with a match. Falling back is what the retry limits count, for
each attempt and for all attempts of a search; the stack limit is checked whenever something is put
on the stack.

When the longest match is asked for, every match is noted and then treated as a failure, so that all
ways to match are tried.

## Main definitions

* `Machine`: the state of a matcher.
* `Found`: a match.
* `Machine.obey`: the effect of one instruction.
* `Machine.step`: one step, falling back if the instruction asks for it.
-/

namespace RegexEngine

/-- A match: where it starts and ends, and what the groups have captured. -/
structure Found where
  start : Nat
  stop : Nat
  captures : Array Capture
  deriving DecidableEq, Repr

namespace Found

/-- The length of a match in bytes. -/
def length (found : Found) : Nat :=
  found.stop - found.start

end Found

/-- The state of a matcher. -/
structure Machine where
  /-- The instruction to obey. -/
  pc : Int := 0
  pos : Nat
  /-- Where the attempt started. -/
  start : Nat
  registers : Registers
  stack : List Entry := []
  /-- How often the attempt has fallen back. -/
  retries : Nat := 0
  /-- How often all attempts of the search have fallen back. -/
  searchRetries : Nat := 0
  /-- The longest match noted. -/
  best : Option Found := none
  deriving Repr

/-- What an instruction does to a matcher. -/
inductive Effect where
  | goOn (m : Machine)
  | fallBack (m : Machine)
  /-- A match ends at the position. -/
  | accept (m : Machine)

/-- What becomes of an attempt in one step. -/
inductive Status where
  | running (m : Machine)
  /-- A match ends at the position. -/
  | matched (m : Machine)
  /-- No choice is left. -/
  | exhausted (m : Machine)

namespace Machine

/-- A matcher before its first attempt. -/
def initial (program : Program) (start : Nat) : Machine where
  pos := start
  start := start
  registers := Registers.fresh program

/-- The matcher at the start of an attempt. Nothing of the last attempt is left but the counters of
the loops, the number of retries of the search, and the longest match. -/
def restart (m : Machine) (start : Nat) : Machine where
  pos := start
  start := start
  registers := m.registers.clear
  searchRetries := m.searchRetries
  best := m.best

/-- What has been captured, as a match that ends here. -/
def found (m : Machine) : Found :=
  ⟨m.start, m.pos, m.registers.captures⟩

/-- The matcher at the next instruction. -/
def next (m : Machine) : Machine :=
  { m with pc := m.pc + 1 }

/-- The matcher at an instruction counted from the current one. -/
def jump (m : Machine) (offset : Int) : Machine :=
  { m with pc := m.pc + offset }

/-- Puts an entry on the stack unless the stack is full. -/
def push (m : Machine) (limits : Limits) (entry : Entry) : Except Cause Machine :=
  if limits.stackEntries ≠ 0 ∧ limits.stackEntries ≤ m.stack.length then .error .stackLimit
  else .ok { m with stack := entry :: m.stack }

/-- Leaves the choice of going on at an offset. -/
def pushChoice (m : Machine) (limits : Limits) (offset : Int) : Except Cause Machine :=
  m.push limits (.choice (m.pc + offset) m.pos)

/-- Changes the capture of a group, saving its value. -/
def changeCapture (m : Machine) (limits : Limits) (number : Nat) (change : Capture → Capture) :
    Except Cause Machine := do
  let old := m.registers.captureOf number
  let m ← m.push limits (.capture number old)
  return { m with registers := m.registers.setCapture number (change old) }

/-- Changes the counter of a loop, saving its value. -/
def changeCounter (m : Machine) (limits : Limits) (id : Nat) (value : Counter) :
    Except Cause Machine := do
  let m ← m.push limits (.counter id (m.registers.counterOf id))
  return { m with registers := m.registers.setCounter id value }

/-- Notes that a checked iteration begins here, saving the old value. -/
def changeCheck (m : Machine) (limits : Limits) (id : Nat) : Except Cause Machine := do
  let m ← m.push limits (.check id (m.registers.checkOf id))
  return { m with registers := m.registers.setCheck id (some m.pos) }

/-- Notes a match if it is longer than the longest so far. -/
def noteBest (m : Machine) : Machine :=
  match m.best with
  | none => { m with best := some m.found }
  | some best => if best.length < m.found.length then { m with best := some m.found } else m

/-- A match ends here. An empty match where the search started may be rejected, and when the longest
match is wanted every match is only noted. -/
def obeyFinish (m : Machine) (ctx : Context) : Effect :=
  if ctx.options.findNotEmpty ∧ m.pos = m.start ∧ m.start = ctx.searchStart then .fallBack m
  else if ctx.options.findLongest then .fallBack m.noteBest
  else .accept m

/-- Goes on with the body of a loop and leaves the other way as a choice, or the other way round. -/
def branch (m : Machine) (limits : Limits) (bodyFirst : Bool) (body exit : Int) :
    Except Cause Machine := do
  if bodyFirst then return (← m.pushChoice limits exit).jump body
  else return (← m.pushChoice limits body).jump exit

/-- Starts counting a loop. The body may be left out if no iteration is asked for. -/
def obeyEnter (m : Machine) (program : Program) (limits : Limits) (id : Nat) (exit : Int)
    (greedy : Bool) : Except Cause Machine :=
  match program.loops[id]? with
  | none => .error .undefinedInstruction
  | some bounds => do
    let m ← m.changeCounter limits id ⟨0, m.pos⟩
    if bounds.lower = 0 then m.branch limits greedy 1 exit else return m.next

/-- Counts an iteration of a loop. The loop ends when it has run often enough, or when it has run as
often as asked for and the iteration consumed nothing. -/
def obeyAgain (m : Machine) (program : Program) (limits : Limits) (id : Nat) (body : Int)
    (greedy : Bool) : Except Cause Machine :=
  match program.loops[id]? with
  | none => .error .undefinedInstruction
  | some bounds => do
    let old := m.registers.counterOf id
    let count := old.count + 1
    let enough := bounds.lower ≤ count
    if (m.pos = old.start ∧ enough) ∨ bounds.upper.any (· ≤ count) then
      -- The loop is left, so that no iteration starts here.
      return (← m.changeCounter limits id ⟨count, old.start⟩).next
    else
      let m ← m.changeCounter limits id ⟨count, m.pos⟩
      if enough then m.branch limits greedy body 1 else return m.jump body

/-- Drops the choices above a mark. -/
def obeyCut (m : Machine) (id : Nat) (returns : Bool) : Except Cause Machine :=
  match cutTo id [] m.stack with
  | none => .error .stackBug
  | some (pos, stack) =>
    .ok { m.next with pos := if returns then pos else m.pos, stack := stack }

/-- Undoes everything above a mark. -/
def obeyRewind (m : Machine) (id : Nat) : Except Cause Machine :=
  match rewindTo id m.stack m.registers with
  | none => .error .stackBug
  | some (stack, registers) => .ok { m.next with stack := stack, registers := registers }

/-- Goes on at a position, or falls back if there is none. -/
def moveTo (m : Machine) : Option Nat → Effect
  | some pos => .goOn { m.next with pos := pos }
  | none => .fallBack m

/-- The effect of one instruction. -/
def obey (m : Machine) (program : Program) (limits : Limits) (ctx : Context) :
    Instr → Except Cause Effect
  | .leaf test => .ok (m.moveTo (test.accept ctx m.registers.captures m.pos))
  | .finish => .ok (m.obeyFinish ctx)
  | .fail => .ok (.fallBack m)
  | .stepBack n => .ok (m.moveTo (ctx.encoding.stepBack ctx.subject 0 n m.pos))
  | .jump offset => .ok (.goOn (m.jump offset))
  | .fork offset => do return .goOn (← m.pushChoice limits offset).next
  | .openGroup number => do
    return .goOn (← m.changeCapture limits number fun c => { c with opened := some m.pos }).next
  | .closeGroup number => do
    return .goOn
      (← m.changeCapture limits number fun c =>
        { c with start := c.opened, stop := some m.pos }).next
  | .mark id _ => do return .goOn (← m.push limits (.mark id m.pos)).next
  | .cut id returns => do return .goOn (← m.obeyCut id returns)
  | .rewind id => do return .goOn (← m.obeyRewind id)
  | .enter id exit greedy => do return .goOn (← m.obeyEnter program limits id exit greedy)
  | .again id body greedy => do return .goOn (← m.obeyAgain program limits id body greedy)
  | .emptyStart id => do return .goOn (← m.changeCheck limits id).next
  -- After an iteration that consumed nothing, the jump back to the loop is left out.
  | .emptyEnd id =>
    .ok (.goOn (if m.registers.checkOf id = some m.pos then m.jump 2 else m.next))
  | .bare _ => .error .malformedInstruction

/-- Falls back to the newest choice. -/
def fallBack (m : Machine) (limits : Limits) : Except Cause Status :=
  match popChoice m.stack m.registers with
  | .bottom regs => .ok (.exhausted { m with registers := regs, stack := [] })
  | .resume pc pos regs stack =>
    -- Only a choice that is taken counts. The last retry that is allowed is still made.
    if limits.retriesPerMatch ≠ 0 ∧ limits.retriesPerMatch < m.retries + 1 then
      .error .retryLimitInMatch
    else if limits.retriesPerSearch ≠ 0 ∧ limits.retriesPerSearch < m.searchRetries + 1 then
      .error .retryLimitInSearch
    else
      .ok (.running
        { m with
          pc := pc, pos := pos, registers := regs, stack := stack,
          retries := m.retries + 1, searchRetries := m.searchRetries + 1 })

/-- The instruction to obey. -/
def fetch (m : Machine) (program : Program) : Option Instr :=
  if m.pc < 0 then none else program.code[m.pc.toNat]?

/-- One step. -/
def step (m : Machine) (program : Program) (limits : Limits) (ctx : Context) :
    Except Cause Status :=
  match m.fetch program with
  | none => .error .undefinedInstruction
  | some instr =>
    match m.obey program limits ctx instr with
    | .error cause => .error cause
    | .ok (.goOn m) => .ok (.running m)
    | .ok (.accept m) => .ok (.matched m)
    | .ok (.fallBack m) => m.fallBack limits

end Machine

end RegexEngine
