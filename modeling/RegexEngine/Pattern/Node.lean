import RegexEngine.CharSet.Basic

/-!
# Pattern Trees

The tree of a pattern. A tree is built with references that may still be names, and turned into one
whose references are group numbers when all groups are known; the type of a reference is therefore a
parameter.

A sequence or an alternation may stand inside another one, since a group that captures nothing
leaves no trace of its own.

## Main definitions

* `Node`: the trees.
* `Tree`: the trees whose references are group numbers.
* `Node.empty`: the tree that matches the empty text.
* `Node.size`: the number of nodes.
-/

namespace RegexEngine

/-- Tests of a position that consume nothing. -/
inductive Anchor where
  | textStart
  | textEnd
  /-- The end of the text, or before a newline that ends it. -/
  | lastLineEnd
  | lineStart
  | lineEnd
  /-- Where the search started. -/
  | searchStart
  | wordBoundary
  | noWordBoundary
  deriving DecidableEq, Repr

/-- Where a look-around looks. -/
inductive Direction where
  | ahead
  | behind
  deriving DecidableEq, Repr

/-- A tree with references of type `ρ`. -/
inductive Node (ρ : Type) where
  | literal (bytes : List UInt8) (ignoreCase : Bool)
  | set (chars : CharSet)
  /-- Any character, a newline only if `newlines`. -/
  | anyChar (newlines : Bool)
  /-- A word character, or if negated any other. -/
  | word (negated : Bool)
  /-- The text of a group. The offset tells where in the pattern the reference stands. -/
  | backref (target : ρ) (ignoreCase : Bool) (offset : Nat)
  /-- Between `lower` and `upper` times the body, as often as possible if greedy. -/
  | repeated (lower : Nat) (upper : Option Nat) (greedy : Bool) (body : Node ρ)
  /-- A numbered group. -/
  | group (number : Nat) (body : Node ρ)
  /-- The body gives nothing back once it has matched. -/
  | atomic (body : Node ρ)
  | anchor (kind : Anchor) (multiline : Bool)
  | look (direction : Direction) (negated : Bool) (body : Node ρ)
  | sequence (items : List (Node ρ))
  | alternation (items : List (Node ρ))

/-- A tree whose references are the numbers of the groups they may mean. -/
abbrev Tree := Node (List Nat)

namespace Node

variable {ρ : Type}

/-- The tree that matches the empty text. -/
def empty : Node ρ := literal [] false

instance : Inhabited (Node ρ) := ⟨empty⟩

mutual

/-- The number of nodes of a tree. -/
def size : Node ρ → Nat
  | literal .. | set .. | anyChar .. | word .. | backref .. | anchor .. => 1
  | repeated _ _ _ body | group _ body | atomic body | look _ _ body => size body + 1
  | sequence items | alternation items => sizes items + 1

/-- The number of nodes of several trees. -/
def sizes : List (Node ρ) → Nat
  | [] => 0
  | node :: rest => size node + sizes rest

end

end Node

end RegexEngine
