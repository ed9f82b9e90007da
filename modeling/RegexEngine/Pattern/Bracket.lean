import RegexEngine.Pattern.Escape

/-!
# Bracket Classes

The text between `[` and `]`. It lists characters, ranges, kinds by escape, and kinds by bracket
name. A closing bracket that comes first is a member, and so is a minus sign that has no character
before it or nothing after it.

## Main definitions

* `ClassItem`: what an item of a class lists.
* `classItem`: reads a character or an escape.
* `bracketName?`: reads `[:name:]`.
* `bracketClass`: reads a class.
-/

namespace RegexEngine

namespace Pattern

/-- What a single item of a class lists. -/
inductive ClassItem where
  | code (c : Nat)
  | kind (kind : CharKind) (negated : Bool)
  deriving DecidableEq, Repr

/-- Reads a character or an escape. Inside a class `\b` is the backspace. -/
def classItem (env : Setting) (rest : List UInt8) : Except Failure (ClassItem × List UInt8) :=
  if startsWith rest '\\' then
    match rest.tail with
    | [] => env.fail .unclosedClass rest
    | b :: tail =>
      match kindEscape? env.dialect b with
      | some (kind, negated) => .ok (.kind kind negated, tail)
      | none =>
        if char b == 'b' then .ok (.code 0x08, tail)
        else do
          let (code, rest) ← escapedCode env rest (b :: tail)
          .ok (.code code, rest)
  else
    match env.encoding.splitFirst rest with
    | none => env.fail .parserBug rest
    | some (c, tail) => .ok (.code (env.encoding.decode c), tail)

/-- The text before the first `:]` and the text after it. -/
def splitAtClose : List UInt8 → Option (List UInt8 × List UInt8)
  | [] => none
  | b :: rest =>
    if char b == ':' && startsWith rest ']' then some ([], rest.tail)
    else (splitAtClose rest).map fun (name, after) => (b :: name, after)

/-- Whether a byte is a letter of US-ASCII. -/
def isLetter (b : UInt8) : Bool :=
  (0x41 ≤ b && b ≤ 0x5a) || (0x61 ≤ b && b ≤ 0x7a)

/-- Reads `[:name:]` or `[:^name:]`, if that is what stands here. The text after `[:` is `body`. -/
def bracketName? (env : Setting) (start body : List UInt8) :
    Except Failure (Option (CharKind × Bool × List UInt8)) :=
  match splitAtClose body with
  | none => .ok none
  | some (text, after) =>
    let negated := startsWith text '^'
    let name := if negated then text.tail else text
    if name.isEmpty || !name.all isLetter then .ok none
    else
      match CharKind.ofBracketName? name with
      | none => env.fail .unknownBracketName start
      | some kind => .ok (some (kind, negated, after))

/-- Whether a minus sign can be followed by the end of a range. -/
def rangeCanEnd (rest : List UInt8) : Bool :=
  !rest.isEmpty && !startsWith rest ']'

/-- Reads items up to the closing bracket. A range can start at the character `low`, if the item
before was one. Every item has at least a byte, so `fuel` need only exceed the length of the text.
-/
def classItems (env : Setting) :
    (fuel : Nat) → CharSet → (low : Option Nat) → List UInt8 →
      Except Failure (CharSet × List UInt8)
  | 0, _, _, rest => env.fail .parserBug rest
  | fuel + 1, set, low, rest =>
    match rest with
    | [] => env.fail .unclosedClass rest
    | b :: after =>
      match char b with
      | ']' => .ok (set, after)
      | '[' => do
        let named ←
          if env.dialect.bracketNames && startsWith after ':' then
            bracketName? env rest after.tail
          else .ok none
        match named with
        | some (kind, negated, after) =>
          classItems env fuel (set.insertKind env.encoding kind negated) none after
        -- An opening bracket without a name is listed itself.
        | none => classItems env fuel (set.insert 0x5b) (some 0x5b) after
      | '-' =>
        match low, rangeCanEnd after with
        | some from_, true => do
          let (item, after) ← classItem env after
          match item with
          | .kind _ _ => env.fail .unmatchedRange rest
          | .code to_ =>
            if to_ < from_ then env.fail .emptyRange rest
            -- The end of a range is not the start of another one.
            else classItems env fuel (set.insertRange from_ to_) none after
        -- A minus sign that stands in no range is listed itself.
        | _, _ => classItems env fuel (set.insert 0x2d) (some 0x2d) after
      | _ => do
        let (item, after) ← classItem env rest
        match item with
        | .code c => classItems env fuel (set.insert c) (some c) after
        | .kind kind negated =>
          classItems env fuel (set.insertKind env.encoding kind negated) none after

/-- Reads a class. The opening bracket stands at `start`. -/
def bracketClass (env : Setting) (ignoreCase : Bool) (start : List UInt8) :
    Except Failure (CharSet × List UInt8) := do
  let rest := start.tail
  let negated := startsWith rest '^'
  let rest := if negated then rest.tail else rest
  let set : CharSet := { negated := negated }
  let (set, rest) ←
    -- A closing bracket that stands first is listed, if another one can close the class.
    if startsWith rest ']' then
      if rest.tail.any fun b => char b == ']' then .ok (set.insert 0x5d, rest.tail)
      else env.fail .emptyClass start
    else .ok (set, rest)
  let (set, rest) ← classItems env (rest.length + 1) set none rest
  .ok (if ignoreCase then set.foldCase env.encoding else set, rest)

end Pattern

end RegexEngine
