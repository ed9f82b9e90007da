import RegexEngine.Error.Cause

/-!
# Errors

The answer of an operation that fails. A fault of the pattern carries the offset where it was
noticed, if that is known, and the name that its wording quotes. A mismatch is no error.

## Main definitions

* `Error`: the errors, with `code` and `message`.
* `Error.ofCause`: the error that a bare cause becomes.
* `Error.isLimit`: the errors that a limit of the search raises.
-/

namespace RegexEngine

/-- Why an operation failed. -/
inductive Error where
  | memory
  | stackLimit
  | retryLimitInMatch
  | retryLimitInSearch
  | timeLimit
  | nestingLimit
  /-- A fault of the pattern. -/
  | pattern (cause : Cause) (name : Option (List UInt8)) (offset : Option Nat)
  /-- No group of a program has the name. -/
  | undefinedName (name : String)
  /-- An operation was asked for something impossible. -/
  | invalidArgument (text : String)
  /-- The matcher or the reader of patterns met what they never make themselves. -/
  | internal (cause : Cause)
  /-- A number without a meaning. -/
  | other (code : Int)
  deriving DecidableEq, Repr

namespace Error

/-- The error that a cause becomes when nothing else is known. -/
def ofCause (cause : Cause) : Error :=
  match cause with
  | .memory => memory
  | .stackLimit => stackLimit
  | .retryLimitInMatch => retryLimitInMatch
  | .retryLimitInSearch => retryLimitInSearch
  | .timeLimit => timeLimit
  | .nestingLimit => nestingLimit
  | .invalidArgument => invalidArgument "invalid argument"
  | .unknownNode | .parserBug | .stackBug | .undefinedInstruction | .malformedInstruction =>
    internal cause
  | _ => if cause.isPatternFault then pattern cause none none else other cause.code

/-- The number of an error. -/
def code : Error → Int
  | memory => Cause.memory.code
  | stackLimit => Cause.stackLimit.code
  | retryLimitInMatch => Cause.retryLimitInMatch.code
  | retryLimitInSearch => Cause.retryLimitInSearch.code
  | timeLimit => Cause.timeLimit.code
  | nestingLimit => Cause.nestingLimit.code
  | pattern cause _ _ => cause.code
  | undefinedName _ => Cause.undefinedName.code
  | invalidArgument _ => Cause.invalidArgument.code
  | internal cause => cause.code
  | other n => n

/-- The wording of an error. -/
def message : Error → String
  | memory => "memory allocation failed"
  | stackLimit => "match-stack limit over"
  | retryLimitInMatch => "retry-limit-in-match over"
  | retryLimitInSearch => "retry-limit-in-search over"
  | timeLimit => "time limit over"
  | nestingLimit => "parse depth limit over"
  | pattern cause name (some offset) =>
    "syntax error at offset " ++ toString offset ++ ": " ++ cause.message name
  | pattern cause name none => "syntax error: " ++ cause.message name
  | undefinedName name => "undefined name <" ++ name ++ ">"
  | invalidArgument text => "invalid argument: " ++ text
  | internal cause => "internal error: " ++ cause.format
  | other n => "error code " ++ toString n

/-- Whether a limit of the search was reached. -/
def isLimit : Error → Bool
  | stackLimit | retryLimitInMatch | retryLimitInSearch | timeLimit => true
  | _ => false

end Error

end RegexEngine
