import RegexEngine.Pattern.Bracket
import RegexEngine.Pattern.State

/-!
# Items Without Parentheses

The items of a branch that hold no other items: literal characters, the dot, classes, anchors,
escapes and references.

A number after a backslash refers to a group if it has one digit or if so many groups are open, and
the dialect knows such references. Otherwise it is the octal number of a character.

## Main definitions

* `escape`: reads an escape.
* `simpleItem`: reads an item without parentheses.
-/

namespace RegexEngine

namespace Pattern

/-- The node of an escape for a kind of characters. -/
def kindNode (env : Setting) (kind : CharKind) (negated : Bool) : Draft :=
  match kind with
  | .word => .word negated
  | _ => .set { CharSet.empty.insertKind env.encoding kind false with negated := negated }

/-- Whether a number after a backslash refers to a group, where `groups` have been opened. -/
def isReference (dialect : Dialect) (groups n : Nat) : Bool :=
  (n ≤ 9 || n ≤ groups) && dialect.numberedRefs

/-- Reads the digits after a backslash at `esc`. -/
def numberEscape (env : Setting) (esc : List UInt8) : Reader Draft := fun st =>
  let (value?, after) := scanNumber st.rest
  let n := value?.getD 0
  if isReference env.dialect st.groups n then
    if maxReference < n then env.fail .bigBackref esc
    else .ok (st.backref env (.number n) esc, { st with rest := after })
  else
    match st.rest with
    | [] => env.fail .parserBug esc
    | first :: tail =>
      -- What refers to no group is read as a number in base eight.
      match scanDigits 8 3 0 0 st.rest with
      | (_, 0, _) => .ok (st.literal [first], { st with rest := tail })
      | (code, _, rest) => do
        let bytes ← encodeCode env code esc
        .ok (st.literal bytes, { st with rest := rest })

/-- Reads an escape for a single character. The backslash stands at `esc`, the text after it starts
with `b`. -/
def characterEscape (env : Setting) (esc : List UInt8) (b : UInt8) : Reader Draft := fun st => do
  let (code, rest) ← escapedCode env esc st.rest
  let bytes ← if namesCode b then encodeCode env code esc else env.slice st.rest rest
  .ok (st.literal bytes, { st with rest := rest })

/-- The byte that closes the name after `\k`, if a name starts there. -/
def nameCloser? (dialect : Dialect) (rest : List UInt8) : Option Char :=
  if !dialect.namedRefs then none
  else if startsWith rest '<' then some '>'
  else if startsWith rest '\x27' then some '\x27'
  else none

/-- Reads an escape. The backslash is the next byte. -/
def escape (env : Setting) : Reader Draft := fun st =>
  let esc := st.rest
  match st.rest.tail with
  | [] => env.fail .endAtEscape esc
  | b :: tail =>
    match kindEscape? env.dialect b with
    | some (kind, negated) => .ok (kindNode env kind negated, { st with rest := tail })
    | none =>
      match anchorEscape? env.dialect b with
      | some anchor => .ok (st.anchor anchor, { st with rest := tail })
      | none =>
        let closer? := if char b == 'k' then nameCloser? env.dialect tail else none
        match closer? with
        | some close => do
          let (target, rest) ← readReference env st.groups close tail.tail
          .ok (st.backref env target esc, { st with rest := rest })
        | none =>
          let next := { st with rest := b :: tail }
          -- A zero never refers to a group.
          if isDigit b && char b != '0' then numberEscape env esc next
          else characterEscape env esc b next

/-- Reads an item that is no parenthesis. The text is not at its end. -/
def simpleItem (env : Setting) : Reader Draft := fun st =>
  match st.rest with
  | [] => env.fail .parserBug st.rest
  | b :: tail =>
    let next := { st with rest := tail }
    match char b with
    | '[' => do
      let (set, rest) ← bracketClass env st.options.ignoreCase st.rest
      .ok (.set set, { st with rest := rest })
    | '.' => .ok (.anyChar st.options.dotAll, next)
    | '^' => .ok (st.anchor .lineStart, next)
    | '$' => .ok (st.anchor .lineEnd, next)
    | '\\' => escape env st
    | _ =>
      match env.encoding.splitFirst st.rest with
      | none => env.fail .parserBug st.rest
      | some (bytes, rest) => .ok (st.literal bytes, { st with rest := rest })

end Pattern

end RegexEngine
