import RegexEngine.Matcher.Run

/-!
# Scanning Start Positions

A search attempts a match at one position after the other, character by character. The hints of the
program let it leave out positions where no match can start: it jumps ahead to the next occurrence
of the literal that every match starts with, and stops early if a match can start at one position
only.

A failed attempt leaves the number of retries and the longest match for the next one.

## Main definitions

* `Context.nextOccurrence`: where some bytes occur next.
* `Program.lastStart`: the last position where a match may start.
* `Program.scan`: attempts at one position after the other.
* `Program.findFrom`, `Program.findAt`: the match of a search and of a single attempt.
-/

namespace RegexEngine

/-- The first of `count` positions from here on where some bytes occur within the range. -/
def Context.occurrenceAmong (ctx : Context) (bytes : List UInt8) :
    (count pos : Nat) → Option Nat
  | 0, _ => none
  | count + 1, pos =>
    if (ctx.acceptBytes pos bytes).isSome then some pos
    else ctx.occurrenceAmong bytes count (pos + 1)

/-- The first position at or after this one where some bytes occur within the range. -/
def Context.nextOccurrence (ctx : Context) (bytes : List UInt8) (pos : Nat) : Option Nat :=
  ctx.occurrenceAmong bytes (ctx.range + 1 - pos) pos

namespace Program

/-- The last position where a match may start, if there is any such position. -/
def lastStart (program : Program) (ctx : Context) : Option Nat :=
  if program.hints.searchStart then some ctx.searchStart
  else if program.hints.textStart && !ctx.multiline then
    if ctx.searchStart = 0 then some 0 else none
  else some ctx.range

/-- Attempts a match at a position and at those after it, up to the last one. Every attempt is at a
later position than the one before, so a `count` that exceeds the number of positions in the range
is never used up. The answer has the matcher as the last attempt left it. -/
def scan (program : Program) (limits : Limits) (ctx : Context) (fuel last : Nat) :
    (count : Nat) → Machine → (pos : Nat) → Except Interrupt Verdict
  | 0, m, _ => .ok (.exhausted m)
  | count + 1, m, pos =>
    match ctx.nextOccurrence program.hints.literal pos with
    | none => .ok (.exhausted m)
    | some pos =>
      match m.attempt program limits ctx fuel pos with
      | .error interrupt => .error interrupt
      | .ok (.matched m) => .ok (.matched m)
      | .ok (.exhausted m) =>
        -- The next attempt is one character further, unless the character reaches over the range.
        let next := pos + ctx.encoding.charLength ctx.subject pos
        if last ≤ pos ∨ ctx.range < next then .ok (.exhausted m)
        else scan program limits ctx fuel last count m next

/-- The match that attempts have led to: the one that ended them, or the longest that was noted. -/
def matchOf : Verdict → Option Found
  | .matched m => some m.found
  | .exhausted m => m.best

/-- The match of a search from the start of the search on, with a bound on the steps of each
attempt. -/
def findFrom (program : Program) (limits : Limits) (ctx : Context) (fuel : Nat) :
    Except Interrupt (Option Found) :=
  match program.lastStart ctx with
  | none => .ok none
  | some last =>
    let m := Machine.initial program ctx.searchStart
    (program.scan limits ctx fuel last (ctx.range + 1 - ctx.searchStart) m ctx.searchStart).map
      matchOf

/-- The match of a single attempt where the search starts, with a bound on its steps. -/
def findAt (program : Program) (limits : Limits) (ctx : Context) (fuel : Nat) :
    Except Interrupt (Option Found) :=
  let m := Machine.initial program ctx.searchStart
  (m.attempt program limits ctx fuel ctx.searchStart).map matchOf

end Program

end RegexEngine
