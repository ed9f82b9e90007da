import RegexEngine.Dialect
import RegexEngine.Encoding.Characters
import RegexEngine.Error.Cause
import RegexEngine.Limits

/-!
# Positions in a Pattern

A pattern is read from the front, and a position in it is the text that is still to be read, which
is an end of the pattern. An offset is computed only when something is reported there. A text that
is no end of the pattern is not a position in it; its offset lies behind all that are, so an offset
inside the pattern or at its end says that reading had come there.

## Main definitions

* `Setting`: what stays the same while a pattern is read.
* `Failure`: why a pattern is refused, and where.
* `Setting.offset`: the offset of a position.
* `Encoding.unencodable`: what is wrong with a code point that has no bytes.
* `Setting.slice`: the text from one position to a later one.

## Theorems

* `offset_le_iff`: the offsets inside the pattern or at its end are those of positions.
* `offset_add_length`: how much is still to be read at a position.
* `splitFirst_suffix`, `splitFirst_length_lt`: reading a character advances.
-/

namespace RegexEngine

/-- What is wrong with a code point that an encoding has no bytes for. -/
def Encoding.unencodable : Encoding → Cause
  | utf8 => .bigCodePoint
  | ascii => .invalidCodePoint

namespace Pattern

/-- What stays the same while a pattern is read. -/
structure Setting where
  /-- The whole pattern. -/
  pattern : List UInt8
  encoding : Encoding
  dialect : Dialect
  /-- How many groups may be numbered. -/
  captureLimit : Nat
  /-- How many levels of groups and repeats may be open. -/
  nestingLimit : Nat
  deriving Repr

/-- Why a pattern is refused, and the offset where that was noticed. Some causes quote a name. -/
structure Failure where
  cause : Cause
  offset : Nat
  name : Option (List UInt8) := none
  deriving DecidableEq, Repr

/-- The length of the pattern. -/
def Setting.size (env : Setting) : Nat :=
  env.pattern.length

/-- The offset of the position at which `rest` is still to be read. Where that is no end of the
pattern, the offset lies behind the pattern. -/
def Setting.offset (env : Setting) (rest : List UInt8) : Nat :=
  if rest <:+ env.pattern then env.size - rest.length else env.size + 1

/-- Refuses the pattern at a position. -/
def Setting.fail {α : Type} (env : Setting) (cause : Cause) (rest : List UInt8) :
    Except Failure α :=
  .error { cause := cause, offset := env.offset rest }

/-- Refuses the pattern at a position because of a name. -/
def Setting.failName {α : Type} (env : Setting) (cause : Cause) (rest name : List UInt8) :
    Except Failure α :=
  .error { cause := cause, offset := env.offset rest, name := some name }

/-- The text from one position to a later one. A position before the first one has no such text. -/
def Setting.slice (env : Setting) (start stop : List UInt8) : Except Failure (List UInt8) :=
  if stop.length ≤ start.length then .ok (start.take (start.length - stop.length))
  else env.fail .parserBug start

/-- A byte as a character of US-ASCII or Latin-1. -/
def char (b : UInt8) : Char := Char.ofUInt8 b

/-- Whether a byte is a decimal digit. -/
def isDigit (b : UInt8) : Bool :=
  0x30 ≤ b && b ≤ 0x39

/-- Whether the text ahead starts with a byte. -/
def startsWith (rest : List UInt8) (c : Char) : Bool :=
  match rest with
  | [] => false
  | b :: _ => char b == c

variable {env : Setting} {rest : List UInt8}

/-- The offset and what is still to be read make up the pattern. -/
theorem offset_add_length (h : rest <:+ env.pattern) :
    env.offset rest + rest.length = env.size := by
  rw [Setting.offset, if_pos h]
  exact Nat.sub_add_cancel h.length_le

/-- An offset lies inside the pattern or at its end if it is that of a position in it. -/
theorem offset_le_iff : env.offset rest ≤ env.size ↔ rest <:+ env.pattern := by
  constructor
  · intro hle
    rw [Setting.offset] at hle
    split at hle
    · assumption
    · exact absurd hle (Nat.not_succ_le_self _)
  · intro h
    have hlength := offset_add_length h
    omega

theorem splitFirst_suffix {enc : Encoding} {bytes char rest : List UInt8}
    (h : enc.splitFirst bytes = some (char, rest)) : rest <:+ bytes := by
  cases bytes with
  | nil => cases h
  | cons lead tail =>
    cases h
    exact (List.drop_suffix _ tail).trans (List.suffix_cons lead tail)

theorem splitFirst_length_lt {enc : Encoding} {bytes char rest : List UInt8}
    (h : enc.splitFirst bytes = some (char, rest)) : rest.length < bytes.length := by
  cases bytes with
  | nil => simp [Encoding.splitFirst] at h
  | cons lead tail =>
    simp only [Encoding.splitFirst, Option.some.injEq, Prod.mk.injEq] at h
    obtain ⟨-, rfl⟩ := h
    simp only [List.length_drop, List.length_cons]
    omega

end Pattern

end RegexEngine
