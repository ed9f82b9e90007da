import RegexEngine.Error.Basic
import RegexEngine.Search.Region
import RegexEngine.Search.Scan

/-!
# Searching

A search looks for a match that starts in a range of the subject, and a match is looked for at one
position. Either fills a region with the spans of what was found. The arguments are checked first;
if they are refused the region stays as it is. If nothing is found, or a limit is met, the region is
cleared.

The number of steps of an attempt is bounded by an argument. The bound that callers get is so great
that no attempt uses it up; to be out of steps counts as being out of time.

A region holds positions as numbers of 31 bits. A subject with greater positions is refused before
the other arguments are looked at, and the region stays as it is then, too.

## Main definitions

* `Program.searchWithin`, `Program.matchWithin`: with a bound on the steps.
* `Program.search`, `Program.matchAt`: without one.
* `onSubject`: a call that is refused if the subject is too long.

## Theorems

* `onSubject_of_le`, `call_of_onSubject`: a subject that is not too long makes no difference.
-/

namespace RegexEngine

/-- The error of a search that was interrupted. -/
def Interrupt.toError : Interrupt → Error
  | failure cause => Error.ofCause cause
  | outOfFuel => .timeLimit

/-- The greatest length of a subject. -/
def maxSubjectLength : Nat := 2147483647

/-- Refuses a subject that is too long for a region. -/
def checkSubject (size : Nat) : Except Error Unit :=
  if size ≤ maxSubjectLength then .ok ()
  else
    .error (.invalidArgument ("subject of " ++ toString size ++ " bytes exceeds the " ++
      toString maxSubjectLength ++ " byte maximum"))

/-- A call on a subject, unless the subject is too long. -/
def onSubject {α : Type} (subject : Array UInt8) (call : Region → Except Error α × Region)
    (region : Region) : Except Error α × Region :=
  match checkSubject subject.size with
  | .error e => (.error e, region)
  | .ok () => call region

theorem onSubject_of_le {α : Type} {subject : Array UInt8} (h : subject.size ≤ maxSubjectLength)
    (call : Region → Except Error α × Region) (region : Region) :
    onSubject subject call region = call region := by
  rw [onSubject, checkSubject, if_pos h]

/-- A call that answers has been made. -/
theorem call_of_onSubject {α : Type} {subject : Array UInt8}
    {call : Region → Except Error α × Region} {region after : Region} {answer : α}
    (h : onSubject subject call region = (.ok answer, after)) :
    call region = (.ok answer, after) := by
  rw [onSubject] at h
  split at h
  · cases h
  · exact h

namespace Program

/-- Refuses options that only a pattern can have, unless the program has them. -/
def checkOptions (program : Program) (given : Options) : Except Error Unit :=
  let refused := given.compileOnly.diff program.options
  if refused = Options.empty then .ok ()
  else .error (.invalidArgument ("option " ++ refused.label ++ " applies at compile time only"))

/-- Refuses a region without room for all groups. -/
def checkRegion (program : Program) (region : Region) : Except Error Unit :=
  if program.slotCount ≤ region.capacity then .ok ()
  else
    .error (.invalidArgument ("region holds " ++ toString region.capacity ++
      " groups, program needs " ++ toString program.slotCount))

/-- Refuses a range that is not one of the subject. -/
def checkRange (start range size : Nat) : Except Error Unit :=
  if start ≤ range ∧ range ≤ size then .ok ()
  else
    .error (.invalidArgument ("search range " ++ toString start ++ ".." ++ toString range ++
      " outside subject of length " ++ toString size))

/-- Refuses a position that is not one of the subject. -/
def checkPosition (pos size : Nat) : Except Error Unit :=
  if pos ≤ size then .ok ()
  else
    .error (.invalidArgument ("match position " ++ toString pos ++ " outside subject of length " ++
      toString size))

/-- What a call answers, and the region it leaves, when its arguments are accepted. -/
def report {α : Type} (region : Region) (answer : Found → α) :
    Except Interrupt (Option Found) → Except Error (Option α) × Region
  | .error interrupt => (.error interrupt.toError, region.clear)
  | .ok none => (.ok none, region.clear)
  | .ok (some found) => (.ok (some (answer found)), region.fill found)

/-- Searches for a match that starts between `start` and `range` and ends at or before `range`. The
answer is where it starts. -/
def searchWithin (fuel : Nat) (program : Program) (subject : Array UInt8) (start range : Nat)
    (region : Region) (given : Options) (limits : Limits) :
    Except Error (Option Nat) × Region :=
  let checked := do
    checkRange start range subject.size
    program.checkOptions given
    program.checkRegion region
  match checked with
  | .error e => (.error e, region)
  | .ok () =>
    report region Found.start
      (program.findFrom limits (Context.make program subject start range given) fuel)

/-- Looks for a match that starts at a position. The answer is its length. -/
def matchWithin (fuel : Nat) (program : Program) (subject : Array UInt8) (pos : Nat)
    (region : Region) (given : Options) (limits : Limits) :
    Except Error (Option Nat) × Region :=
  let checked := do
    checkPosition pos subject.size
    program.checkOptions given
    program.checkRegion region
  match checked with
  | .error e => (.error e, region)
  | .ok () =>
    report region Found.length
      (program.findAt limits (Context.make program subject pos subject.size given) fuel)

/-- A number of steps that no attempt uses up. -/
def stepBound : Nat := 1 <<< 62

/-- Searches for a match that starts between `start` and `range` and ends at or before `range`. -/
def search (program : Program) (subject : Array UInt8) (start range : Nat) (region : Region)
    (given : Options) (limits : Limits) : Except Error (Option Nat) × Region :=
  program.searchWithin stepBound subject start range region given limits

/-- Looks for a match that starts at a position. -/
def matchAt (program : Program) (subject : Array UInt8) (pos : Nat) (region : Region)
    (given : Options) (limits : Limits) : Except Error (Option Nat) × Region :=
  program.matchWithin stepBound subject pos region given limits

end Program

end RegexEngine
