import RegexEngine.Cache
import RegexEngine.Text.Quoted
import RegexEngine.Text.Scalars

/-!
# Regular Expressions

A regular expression is a compiled pattern, wrapped for use on whole texts. It is made from a
pattern alone, which means the standard dialect, UTF-8 and no options, or by a builder that sets
these one by one.

## Main definitions

* `Regex`: the regular expressions.
* `Regex.ofPattern`, `Regex.cached`: made from a pattern alone.
* `Builder`: pattern and settings.
* `Builder.build`: compiles the pattern.
* `Regex.label`, `Program.label`: the texts that stand for them in listings.
-/

namespace RegexEngine

/-- A compiled pattern for use on whole texts. -/
structure Regex where
  program : Program
  deriving Repr

namespace Regex

/-- Compiles a pattern of the standard dialect in UTF-8 without options. -/
def ofPattern (pattern : List UInt8) (limits : Limits) : Except Error Regex :=
  (Program.compile pattern Options.empty .utf8 Dialect.standard limits).map Regex.mk

/-- Like `ofPattern`, but takes the program from a cache if it is kept there. -/
def cached (cache : Cache) (pattern : List UInt8) (limits : Limits) :
    Except Error Regex × Cache :=
  let (made, cache) := cache.get pattern Options.empty .utf8 Dialect.standard limits
  (made.map fun m => ⟨m.program⟩, cache)

end Regex

/-- A pattern with the settings under which it is to be compiled. -/
structure Builder where
  pattern : List UInt8
  options : Options := Options.empty
  dialect : Dialect := Dialect.standard
  encoding : Encoding := .utf8
  deriving Repr

namespace Builder

/-- A builder without settings. -/
def ofPattern (pattern : List UInt8) : Builder :=
  { pattern := pattern }

/-- Whether case is ignored. -/
def caseInsensitive (b : Builder) (on : Bool) : Builder :=
  { b with options := { b.options with ignoreCase := on } }

/-- Whether line anchors hold at inner line boundaries. -/
def multiLine (b : Builder) (on : Bool) : Builder :=
  { b with options := { b.options with multiline := on } }

/-- Whether the dot matches a newline. -/
def dotAll (b : Builder) (on : Bool) : Builder :=
  { b with options := { b.options with dotAll := on } }

/-- Whether white space and comments in the pattern are skipped. -/
def extended (b : Builder) (on : Bool) : Builder :=
  { b with options := { b.options with extended := on } }

/-- Whether the longest match is reported. -/
def findLongest (b : Builder) (on : Bool) : Builder :=
  { b with options := { b.options with findLongest := on } }

/-- Adds options. -/
def addOptions (b : Builder) (options : Options) : Builder :=
  { b with options := b.options.union options }

/-- Chooses the dialect. -/
def withDialect (b : Builder) (dialect : Dialect) : Builder :=
  { b with dialect := dialect }

/-- Chooses the encoding. -/
def withEncoding (b : Builder) (encoding : Encoding) : Builder :=
  { b with encoding := encoding }

/-- Compiles the pattern. -/
def build (b : Builder) (limits : Limits) : Except Error Regex :=
  (Program.compile b.pattern b.options b.encoding b.dialect limits).map Regex.mk

end Builder

/-- The pattern of a program as quoted text. -/
def Program.quotedPattern (program : Program) : String :=
  Text.quote (Text.lossyText program.pattern)

/-- The text that stands for a program in a listing. -/
def Program.label (program : Program) : String :=
  "RegexType \x7b pattern: " ++ program.quotedPattern ++ ", num_mem: " ++ toString program.groups ++
  ", ops: " ++ toString program.code.size ++ ", enc: " ++ Text.quote program.encoding.name ++
  ", options: " ++ program.options.label ++ ", syntax: " ++ Text.quote program.dialect.name ++
  " \x7d"

/-- The text that stands for a regular expression in a listing. -/
def Regex.label (regex : Regex) : String :=
  "Regex \x7b pattern: " ++ regex.program.quotedPattern ++ ", .. \x7d"

end RegexEngine
