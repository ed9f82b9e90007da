import RegexEngine.Pattern.Scan
import RegexEngine.Text.Scalars

/-!
# Names and References

The names of groups, and the references to groups. A name is made of word characters and does not
start with a digit. A reference gives a name or a number; a number with a sign is counted from the
group that was opened last.

## Main definitions

* `Reference`: what a reference gives.
* `readName`: reads a name up to a closing byte.
* `readReference`: reads a name or a number up to a closing byte.
-/

namespace RegexEngine

namespace Pattern

/-- What a reference gives for its group. -/
inductive Reference where
  | name (name : List UInt8)
  | number (n : Nat)
  deriving DecidableEq, Repr

/-- The greatest number that a reference may give. -/
def maxReference : Nat := 1000

/-- Reads characters up to the closing byte or the end of the pattern. The answer tells whether all
were word characters, and the text from there on. -/
def scanName (env : Setting) (close : Char) :
    (fuel : Nat) → (wordsOnly : Bool) → List UInt8 → Bool × List UInt8
  | 0, wordsOnly, rest => (wordsOnly, rest)
  | fuel + 1, wordsOnly, rest =>
    if startsWith rest close then (wordsOnly, rest)
    else
      match env.encoding.splitFirst rest with
      | none => (wordsOnly, [])
      | some (c, tail) =>
        scanName env close fuel (wordsOnly && env.encoding.isWord (env.encoding.decode c)) tail

/-- Reads a name that starts here and ends before a closing byte, and steps over that byte. -/
def readName (env : Setting) (close : Char) (start : List UInt8) :
    Except Failure (List UInt8 × List UInt8) :=
  match start with
  | [] => env.fail .emptyName start
  | first :: _ =>
    if char first == close then env.fail .emptyName start
    else do
      let (wordsOnly, rest) := scanName env close start.length true start
      let name ← env.slice start rest
      match rest with
      | [] => env.failName .invalidName start name
      | _ :: after =>
        if isDigit first then env.failName .invalidName start name
        else if !wordsOnly then env.failName .invalidCharInName start name
        else if !Text.isWellFormed name then env.failName .invalidCharInName start name
        else .ok (name, after)

/-- The group that a number means, where `groups` have been opened. -/
def resolveNumber? (groups : Nat) (sign : Option Char) (n : Nat) : Option Nat :=
  match sign with
  | some '-' => if n ≤ groups then some (groups + 1 - n) else none
  | some _ => if groups + n = 0 then none else some (groups + n)
  | none => if n = 0 then none else some n

/-- Reads a number that starts at `digits`, after a sign or without one, and steps over the closing
byte. -/
def readNumber (env : Setting) (groups : Nat) (close : Char) (sign : Option Char)
    (start digits : List UInt8) : Except Failure (Nat × List UInt8) :=
  let (value?, rest) := scanNumber digits
  match value?, startsWith rest close with
  | some n, true =>
    if maxReference < n then env.fail .bigBackref start
    else
      match resolveNumber? groups sign n with
      | none => env.fail .invalidBackref start
      | some number => .ok (number, rest.tail)
  | _, _ => do
    let read ← env.slice start rest
    env.failName .invalidName start (read ++ rest.takeWhile fun b => char b != close)

/-- Reads a name or a number that starts here and ends before a closing byte, and steps over that
byte. -/
def readReference (env : Setting) (groups : Nat) (close : Char) (start : List UInt8) :
    Except Failure (Reference × List UInt8) :=
  let number (sign : Option Char) (digits : List UInt8) :
      Except Failure (Reference × List UInt8) := do
    let (n, rest) ← readNumber env groups close sign start digits
    .ok (.number n, rest)
  let name : Except Failure (Reference × List UInt8) := do
    let (name, rest) ← readName env close start
    .ok (.name name, rest)
  match start with
  | [] => name
  | first :: after =>
    if char first == close then name
    else if isDigit first then number none start
    else
      match char first with
      | '-' => number (some '-') after
      | '+' => number (some '+') after
      | _ => name

end Pattern

end RegexEngine
