import RegexEngine.Pattern.State

/-!
# Parentheses

The constructs that a parenthesis opens: groups, named groups, look-around, groups that give nothing
back, settings of options, and comments. Settings and comments leave no node. Options set inside a
group hold to its end.

The text inside a group is read by a reader that is passed in.

## Main definitions

* `groupBody`: reads the inside of a group and its closing parenthesis.
* `optionLetters`: reads a setting of options.
* `parenthesis`: reads whatever a parenthesis opens.
-/

namespace RegexEngine

namespace Pattern

/-- Reads the inside of a group and steps over the closing parenthesis. The options that were in
force outside are in force again. -/
def groupBody (inside : Reader Draft) : Reader Draft := fun st => do
  let (body, after) ← inside st
  .ok (body, { after with rest := after.rest.tail, options := st.options })

/-- Reads a name up to `close` and the group of that name. The parenthesis stands at `start`. -/
def namedGroup (env : Setting) (inside : Reader Draft) (start : List UInt8) (close : Char) :
    Reader Draft := fun st => do
  let (name, rest) ← readName env close st.rest
  let (number, opened) ← { st with rest := rest }.openGroup env start
  let named ← opened.nameGroup env st.rest name number
  let (body, after) ← groupBody inside named
  .ok (.group number body, after)

/-- Reads a look-around whose inside starts here. -/
def lookAround (inside : Reader Draft) (direction : Direction) (negated : Bool) : Reader Draft :=
  fun st => do
    let (body, after) ← groupBody inside st
    .ok (.look direction negated body, after)

/-- Switches the option that a letter stands for. -/
def setOption? (options : Options) (letter : Char) (value : Bool) : Option Options :=
  match letter with
  | 'i' => some { options with ignoreCase := value }
  | 'm' => some { options with multiline := value }
  | 's' => some { options with dotAll := value }
  | 'x' => some { options with extended := value }
  | _ => none

/-- Reads the letters of a setting. Letters after a minus sign switch off. The answer tells whether
a group follows, to which alone the options then apply. -/
def optionLetters (env : Setting) :
    Options → (value : Bool) → List UInt8 → Except Failure (Options × Bool × List UInt8)
  | _, _, [] => env.fail .endInGroup []
  | options, value, b :: rest =>
    match char b with
    | '-' => optionLetters env options false rest
    | ')' => .ok (options, false, rest)
    | ':' => .ok (options, true, rest)
    | letter =>
      match setOption? options letter value with
      | some options => optionLetters env options value rest
      | none => env.fail .undefinedGroupOption (b :: rest)

/-- Reads a setting of options, and the group it applies to if there is one. -/
def optionGroup (env : Setting) (inside : Reader Draft) : Reader (Option Draft) := fun st => do
  let (options, hasGroup, rest) ← optionLetters env st.options true st.rest
  if hasGroup then do
    let (body, after) ← groupBody inside { st with rest := rest, options := options }
    -- The options hold in the group alone.
    .ok (some body, { after with options := st.options })
  else .ok (none, { st with rest := rest, options := options })

/-- The text after a comment, if it is closed. A backslash hides the byte after it. -/
def skipComment : List UInt8 → Option (List UInt8)
  | [] => none
  | b :: rest =>
    match char b with
    | ')' => some rest
    | '\\' =>
      match rest with
      | [] => none
      | _ :: rest => skipComment rest
    | _ => skipComment rest

/-- Reads what follows `(?<`. -/
def angleGroup (env : Setting) (inside : Reader Draft) (start : List UInt8) : Reader Draft :=
  fun st =>
    let isLook := env.dialect.lookAround && (startsWith st.rest '=' || startsWith st.rest '!')
    -- What starts like a look-behind is one, and never a name.
    if isLook then
      lookAround inside .behind (startsWith st.rest '!') { st with rest := st.rest.tail }
    else if st.rest.isEmpty then env.fail .endInGroup st.rest
    else if env.dialect.namedGroups then namedGroup env inside start '>' st
    else env.fail .undefinedGroupOption st.rest

/-- Reads what follows `(?P`. -/
def capitalGroup (env : Setting) (inside : Reader Draft) (start : List UInt8) : Reader Draft :=
  fun st =>
    match st.rest with
    | [] => env.fail .endInGroup st.rest
    | b :: rest =>
      match char b with
      | '<' => namedGroup env inside start '>' { st with rest := rest }
      | '=' => do
        let (name, rest) ← readName env ')' rest
        .ok (st.backref env (.name name) start, { st with rest := rest })
      | _ => env.fail .undefinedGroupOption st.rest

/-- What the byte after `(?` announces. -/
inductive GroupSign where
  | comment
  | plain
  | ahead (negated : Bool)
  | atomic
  | angle
  | quote
  | capital
  | setting
  deriving DecidableEq, Repr

/-- The construct that a byte after `(?` announces in a dialect. -/
def groupSign? (dialect : Dialect) (b : UInt8) : Option GroupSign :=
  match char b with
  | '#' => some .comment
  | ':' => some .plain
  | '=' => if dialect.lookAround then some (.ahead false) else none
  | '!' => if dialect.lookAround then some (.ahead true) else none
  | '>' => if dialect.atomic then some .atomic else none
  | '<' => some .angle
  | '\x27' => if dialect.namedGroups then some .quote else none
  | 'P' => if dialect.capitalNames then some .capital else none
  | 'i' | 'm' | 's' | 'x' | '-' => some .setting
  | _ => none

/-- The reader of a construct that always leaves a node. -/
def leavesNode (reader : Reader Draft) : Reader (Option Draft) := fun st => do
  let (draft, after) ← reader st
  .ok (some draft, after)

/-- Reads a group whose inside gives nothing back. -/
def atomicGroup (inside : Reader Draft) : Reader Draft := fun st => do
  let (body, after) ← groupBody inside st
  .ok (.atomic body, after)

/-- Reads a comment. -/
def commentGroup (env : Setting) : Reader (Option Draft) := fun st =>
  match skipComment st.rest with
  | none => env.fail .endInGroup []
  | some rest => .ok (none, { st with rest := rest })

/-- Reads what follows `(?`. A node is left by everything but comments and bare settings. -/
def specialGroup (env : Setting) (inside : Reader Draft) (start : List UInt8) :
    Reader (Option Draft) := fun st =>
  match st.rest with
  | [] => env.fail .endInGroup st.rest
  | b :: rest =>
    let next := { st with rest := rest }
    match groupSign? env.dialect b with
    | some .comment => commentGroup env next
    | some .plain => leavesNode (groupBody inside) next
    | some (.ahead negated) => leavesNode (lookAround inside .ahead negated) next
    | some .atomic => leavesNode (atomicGroup inside) next
    | some .angle => leavesNode (angleGroup env inside start) next
    | some .quote => leavesNode (namedGroup env inside start '\x27') next
    | some .capital => leavesNode (capitalGroup env inside start) next
    | some .setting => optionGroup env inside st
    | none => env.fail .undefinedGroupOption st.rest

/-- Reads whatever the parenthesis that stands here opens. -/
def parenthesis (env : Setting) (inside : Reader Draft) : Reader (Option Draft) := fun st => do
  let start := st.rest
  let inner := { st with rest := st.rest.tail }
  if startsWith inner.rest '?' then
    specialGroup env inside start { inner with rest := inner.rest.tail }
  else
    let (number, opened) ← inner.openGroup env start
    let (body, after) ← groupBody inside opened
    .ok (some (.group number body), after)

end Pattern

end RegexEngine
