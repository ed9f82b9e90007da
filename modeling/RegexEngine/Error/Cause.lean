import RegexEngine.Text.Hex

/-!
# Causes of Failure

Everything that can go wrong has a cause, and every cause has a number and a wording. Four of the
wordings quote the name of a group. A name is quoted byte by byte: what is no visible US-ASCII
character or space is shown by its number.

The numbers from -999 to -100 belong to faults of a pattern.

## Main definitions

* `Cause`: the causes, with `code` and `ofCode`.
* `Cause.message`: the wording, with a quoted name where it has one.
* `Cause.isPatternFault`: the causes that blame the pattern.
-/

namespace RegexEngine

/-- What went wrong. A number without a cause of its own is kept as it is. -/
inductive Cause where
  | mismatch
  | memory
  | unknownNode
  | parserBug
  | stackBug
  | undefinedInstruction
  | malformedInstruction
  | stackLimit
  | nestingLimit
  | retryLimitInMatch
  | retryLimitInSearch
  | timeLimit
  | invalidArgument
  | endAtBrace
  | endAtBracket
  | emptyClass
  | unclosedClass
  | endAtEscape
  | kindAtEndOfRange
  | kindAtStartOfRange
  | unmatchedRange
  | repeatWithoutTarget
  | repeatOfAnchor
  | unmatchedClose
  | unmatchedOpen
  | endInGroup
  | undefinedGroupOption
  | unknownBracketName
  | invalidLookBehind
  | invalidInterval
  | bigNumber
  | bigInterval
  | reversedInterval
  | emptyRange
  | bigBackref
  | invalidBackref
  | tooManyCaptures
  | emptyName
  | invalidName
  | invalidCharInName
  | undefinedName
  | sharedName
  | invalidCodePoint
  | bigCodePoint
  | other (code : Int)
  deriving DecidableEq, Repr

namespace Cause

/-- The number of a cause. -/
def code : Cause → Int
  | mismatch => -1
  | memory => -5
  | unknownNode => -6
  | parserBug => -11
  | stackBug => -12
  | undefinedInstruction => -13
  | malformedInstruction => -14
  | stackLimit => -15
  | nestingLimit => -16
  | retryLimitInMatch => -17
  | retryLimitInSearch => -18
  | timeLimit => -20
  | invalidArgument => -30
  | endAtBrace => -100
  | endAtBracket => -101
  | emptyClass => -102
  | unclosedClass => -103
  | endAtEscape => -104
  | kindAtEndOfRange => -110
  | kindAtStartOfRange => -111
  | unmatchedRange => -112
  | repeatWithoutTarget => -113
  | repeatOfAnchor => -114
  | unmatchedClose => -116
  | unmatchedOpen => -117
  | endInGroup => -118
  | undefinedGroupOption => -119
  | unknownBracketName => -121
  | invalidLookBehind => -122
  | invalidInterval => -123
  | bigNumber => -200
  | bigInterval => -201
  | reversedInterval => -202
  | emptyRange => -203
  | bigBackref => -207
  | invalidBackref => -208
  | tooManyCaptures => -210
  | emptyName => -214
  | invalidName => -215
  | invalidCharInName => -216
  | undefinedName => -217
  | sharedName => -219
  | invalidCodePoint => -400
  | bigCodePoint => -401
  | other n => n

/-- The causes that have a number of their own. -/
def known : List Cause :=
  [mismatch, memory, unknownNode, parserBug, stackBug, undefinedInstruction, malformedInstruction,
    stackLimit, nestingLimit, retryLimitInMatch, retryLimitInSearch, timeLimit, invalidArgument,
    endAtBrace, endAtBracket, emptyClass, unclosedClass, endAtEscape, kindAtEndOfRange,
    kindAtStartOfRange, unmatchedRange, repeatWithoutTarget, repeatOfAnchor, unmatchedClose,
    unmatchedOpen, endInGroup, undefinedGroupOption, unknownBracketName, invalidLookBehind,
    invalidInterval, bigNumber, bigInterval, reversedInterval, emptyRange, bigBackref,
    invalidBackref, tooManyCaptures, emptyName, invalidName, invalidCharInName, undefinedName,
    sharedName, invalidCodePoint, bigCodePoint]

/-- The cause that a number stands for. -/
def ofCode (n : Int) : Cause :=
  (known.find? fun cause => cause.code == n).getD (other n)

/-- The wording of a cause around an already quoted name. -/
def wording (name : String) : Cause → String
  | mismatch => "mismatch"
  | memory => "fail to memory allocation"
  | unknownNode => "undefined type (bug)"
  | parserBug => "internal parser error (bug)"
  | stackBug => "stack error (bug)"
  | undefinedInstruction => "undefined bytecode (bug)"
  | malformedInstruction => "unexpected bytecode (bug)"
  | stackLimit => "match-stack limit over"
  | nestingLimit => "parse depth limit over"
  | retryLimitInMatch => "retry-limit-in-match over"
  | retryLimitInSearch => "retry-limit-in-search over"
  | timeLimit => "time limit over"
  | invalidArgument => "invalid argument"
  | endAtBrace => "end pattern at left brace"
  | endAtBracket => "end pattern at left bracket"
  | emptyClass => "empty char-class"
  | unclosedClass => "premature end of char-class"
  | endAtEscape => "end pattern at escape"
  | kindAtEndOfRange => "char-class value at end of range"
  | kindAtStartOfRange => "char-class value at start of range"
  | unmatchedRange => "unmatched range specifier in char-class"
  | repeatWithoutTarget => "target of repeat operator is not specified"
  | repeatOfAnchor => "target of repeat operator is invalid"
  | unmatchedClose => "unmatched close parenthesis"
  | unmatchedOpen => "end pattern with unmatched parenthesis"
  | endInGroup => "end pattern in group"
  | undefinedGroupOption => "undefined group option"
  | unknownBracketName => "invalid POSIX bracket type"
  | invalidLookBehind => "invalid pattern in look-behind"
  | invalidInterval => "invalid repeat range \x7blower,upper\x7d"
  | bigNumber => "too big number"
  | bigInterval => "too big number for repeat range"
  | reversedInterval => "upper is smaller than lower in repeat range"
  | emptyRange => "empty range in char class"
  | bigBackref => "too big backref number"
  | invalidBackref => "invalid backref number/name"
  | tooManyCaptures => "too many captures"
  | emptyName => "group name is empty"
  | invalidName => "invalid group name <" ++ name ++ ">"
  | invalidCharInName => "invalid char in group name <" ++ name ++ ">"
  | undefinedName => "undefined name <" ++ name ++ "> reference"
  | sharedName => "multiplex defined name <" ++ name ++ ">"
  | invalidCodePoint => "invalid code point value"
  | bigCodePoint => "too big wide-char value"
  | other _ => "undefined error code"

/-- The wording with a placeholder for the name. -/
def format (cause : Cause) : String :=
  cause.wording "%n"

/-- Whether the wording quotes a name. -/
def quotesName : Cause → Bool
  | invalidName | invalidCharInName | undefinedName | sharedName => true
  | _ => false

/-- A name for a message, byte by byte. -/
def quoteName (name : List UInt8) : String :=
  String.join (name.map fun b =>
    if 0x20 ≤ b && b ≤ 0x7e then String.singleton (Char.ofNat b.toNat)
    else "\\x" ++ Text.paddedHex 2 b.toNat)

/-- The wording of a cause that concerns a group name, or none. -/
def message (cause : Cause) (name : Option (List UInt8)) : String :=
  cause.wording (quoteName (name.getD []))

/-- Whether the cause is a fault of the pattern. -/
def isPatternFault (cause : Cause) : Bool :=
  cause.code ≤ -100 && -1000 < cause.code

end Cause

end RegexEngine
