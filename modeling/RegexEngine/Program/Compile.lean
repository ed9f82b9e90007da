import RegexEngine.Error.Basic
import RegexEngine.Pattern.Parse
import RegexEngine.Program.Basic
import RegexEngine.Program.Emit

/-!
# Compiling a Pattern

A pattern is read into a tree, and the tree is turned into code. The hints are read off the first
item of the tree.

Options that only a search can use are dropped, and those of the dialect are added.

## Main definitions

* `Hints.ofTree`: the hints of a tree.
* `Program.ofParsed`: the program of a pattern that was read.
* `Program.compile`: the program of a pattern.
-/

namespace RegexEngine

namespace Hints

/-- The hint that the first item of a tree gives. -/
def ofFirst : Tree → Hints
  | .anchor .textStart _ => { textStart := true }
  | .anchor .lineStart multiline => { textStart := !multiline }
  | .anchor .searchStart _ => { searchStart := true }
  | .literal bytes ignoreCase => { literal := if ignoreCase then [] else bytes }
  | _ => {}

/-- The hints of a tree. -/
def ofTree : Tree → Hints
  | .sequence [] => {}
  | .sequence (first :: _) => ofFirst first
  | tree => ofFirst tree

end Hints

namespace Program

/-- The error of a pattern that cannot be read. -/
def readError (failure : Pattern.Failure) : Error :=
  if failure.cause.isPatternFault then .pattern failure.cause failure.name (some failure.offset)
  else Error.ofCause failure.cause

/-- The tree whose code is made: in a dialect that lets the alternatives of a look-behind differ in
length, one in which the look-behinds are divided. -/
def prepare (enc : Encoding) (dialect : Dialect) (tree : Tree) : Tree :=
  if dialect.unevenLookBehind then tree.divideAll enc else tree

/-- The options of a program: those asked for that are not for searches only, and the dialect's. -/
def optionsFor (given : Options) (dialect : Dialect) : Options :=
  (given.diff Options.searchOnly).union dialect.options

/-- The program of a pattern that was read under the given options. -/
def ofParsed (pattern : List UInt8) (options : Options) (enc : Encoding) (dialect : Dialect)
    (parsed : Pattern.Parsed) : Except Error Program :=
  match (prepare enc dialect parsed.tree).emit enc {} with
  | .error cause => .error (Error.ofCause cause)
  | .ok (code, ids) =>
    .ok
      { code := (code ++ [Instr.finish]).toArray, groups := parsed.groups, loops := ids.loops,
        emptyChecks := ids.emptyChecks, marks := ids.marks, pattern := pattern, encoding := enc,
        options := options, dialect := dialect, names := parsed.names,
        hints := Hints.ofTree parsed.tree }

/-- The program of a pattern. -/
def compile (pattern : List UInt8) (given : Options) (enc : Encoding) (dialect : Dialect)
    (limits : Limits) : Except Error Program :=
  let options := optionsFor given dialect
  match Pattern.parse pattern options enc dialect limits with
  | .error failure => .error (readError failure)
  | .ok parsed => ofParsed pattern options enc dialect parsed

end Program

end RegexEngine
