import RegexEngine.Matcher.Context
import RegexEngine.Pattern.Length
import RegexEngine.Program.Emit

/-!
# Outcomes of a Pattern

What a pattern tree means, said without code, stack or registers. At a place in the subject a tree
has a list of outcomes: the places where a match of the tree may end, the one that backtracking
comes to first standing first. The list is found by structural recursion on the tree, so a sequence
chains the lists of its items, an alternation joins the lists of its alternatives, and a part that
gives nothing back keeps the head of its list.

A loop is the one construct that needs more than the lists of its parts. `Ways.iterate` runs
iterations one after the other, and what bounds them is not the tree but the subject: an iteration
that is not asked for by the lower bound has to consume something, and there are only so many bytes.
The number of rounds left is an argument, and `Ways.loop` starts with one round for each required
iteration and one for each byte that is left.

Short repeats are not run as loops. Where a repeat is written out as copies, or as one copy and a
star, the outcomes are those of the written-out tree; the two differ for bodies that may match the
empty text. Which repeats are written out depends on the length of their code, which
`Node.codeLength` tells.

## Main definitions

* `Place`: A position, and the spans of the groups closed so far.
* `Ways`: Where a tree leads from each place, first choice first.
* `Ways.loop`: An iterated part, greedy or not, between two bounds.
* `Node.codeLength`: The number of instructions of a tree.
* `Node.outcomes`: The outcomes of a tree.
-/

namespace RegexEngine

/-- How far a match has come: a position, and the span of every group that has been closed. -/
structure Place where
  pos : Nat
  spans : Nat → Option (Nat × Nat)

namespace Place

/-- A place where no group has been closed. -/
def fresh (pos : Nat) : Place :=
  ⟨pos, fun _ => none⟩

/-- The place at another position. -/
def moveTo (place : Place) (pos : Nat) : Place :=
  { place with pos := pos }

/-- The place after closing a group that was opened at `start`. -/
def close (place : Place) (number start : Nat) : Place :=
  { place with
    spans := fun n => if n = number then some (start, place.pos) else place.spans n }

/-- The start and the end of every span are related. -/
def JoinedBy (joins : Nat → Nat → Prop) (place : Place) : Prop :=
  ∀ n start stop, place.spans n = some (start, stop) → joins start stop

end Place

/-- The position behind the text that a test accepts, when the groups have the given spans. Only
back-references look at them. -/
def Leaf.acceptWith (ctx : Context) (spans : Nat → Option (Nat × Nat)) (pos : Nat) :
    Leaf → Option Nat
  | backref groups ignoreCase =>
    groups.reverse.findSome? fun n => (spans n).bind (ctx.acceptCopy pos ignoreCase)
  | test => test.accept ctx #[] pos

/-- The places that a part of a pattern leads to, in the order in which backtracking tries them. -/
abbrev Ways := Place → List Place

namespace Ways

/-- A part that does nothing. -/
def stay : Ways := fun place => [place]

/-- A part that always fails. -/
def never : Ways := fun _ => []

/-- One part after the other. -/
def andThen (first second : Ways) : Ways := fun place =>
  (first place).flatMap second

/-- One part, or if that fails the other. -/
def orElse (first second : Ways) : Ways := fun place =>
  first place ++ second place

/-- A test of the subject. -/
def test (ctx : Context) (leaf : Leaf) : Ways := fun place =>
  ((leaf.acceptWith ctx place.spans place.pos).map place.moveTo).toList

/-- A step back over some characters. -/
def stepBack (ctx : Context) (count : Nat) : Ways := fun place =>
  ((ctx.encoding.stepBack ctx.subject 0 count place.pos).map place.moveTo).toList

/-- A numbered group around a part. -/
def group (number : Nat) (body : Ways) : Ways := fun place =>
  (body place).map fun last => last.close number place.pos

/-- A part that gives nothing back: only its first outcome is left. -/
def atomic (body : Ways) : Ways := fun place =>
  (body place).take 1

/-- A part as a test that consumes nothing. It keeps what the first outcome closed, or, if negated,
holds when there is no outcome. -/
def look (negated : Bool) (body : Ways) : Ways := fun place =>
  if negated then (if (body place).isEmpty then [place] else [])
  else ((body place).take 1).map fun last => last.moveTo place.pos

/-- A part a fixed number of times. -/
def times : Nat → Ways → Ways
  | 0, _ => stay
  | n + 1, body => andThen body (times n body)

/-- Whether a loop ends after an iteration that brought it to `count`. It does when it has run often
enough, or when it has run as often as asked for and the iteration consumed nothing. -/
def endsLoop (lower : Nat) (upper : Option Nat) (count : Nat) (first last : Place) : Prop :=
  (last.pos = first.pos ∧ lower ≤ count) ∨ upper.any (· ≤ count)

instance (lower : Nat) (upper : Option Nat) (count : Nat) (first last : Place) :
    Decidable (endsLoop lower upper count first last) :=
  inferInstanceAs (Decidable (_ ∨ _))

/-- The loop after `count` iterations, for at most `rounds` more. An iteration that is not required
is tried before leaving the loop if the loop is greedy, and after leaving it if not. -/
def iterate (lower : Nat) (upper : Option Nat) (greedy : Bool) (body : Ways) :
    (rounds count : Nat) → Ways
  | 0, _, _ => []
  | rounds + 1, count, place =>
    let more := (body place).flatMap fun last =>
      if endsLoop lower upper (count + 1) place last then [last]
      else iterate lower upper greedy body rounds (count + 1) last
    if count < lower then more
    else if greedy then more ++ [place]
    else place :: more

/-- A part between `lower` and `upper` times. -/
def loop (ctx : Context) (lower : Nat) (upper : Option Nat) (greedy : Bool) (body : Ways) : Ways :=
  fun place =>
    if upper = some 0 then [place]
    else iterate lower upper greedy body (lower + (ctx.range - place.pos) + 1) 0 place

/-- A repeat run in a given way. What is not written out is run as a loop. -/
def repeated (ctx : Context) (scheme : Scheme) (lower : Nat) (upper : Option Nat) (greedy : Bool)
    (body : Ways) : Ways :=
  match scheme with
  | .plus => andThen body (loop ctx 0 none greedy body)
  | .copies n => times n body
  | _ => loop ctx lower upper greedy body

end Ways

/-- The number of instructions of a repeat that runs in a given way, around a body of `length`
instructions. -/
def Scheme.codeLength (scheme : Scheme) (greedy mayBeEmpty : Bool) (length : Nat) : Nat :=
  let star := (if mayBeEmpty then length + 2 else length) + (if greedy then 2 else 3)
  match scheme with
  | .never => 0
  | .once => length
  | .optional => length + (if greedy then 1 else 2)
  | .star => star
  | .plus => length + star
  | .copies n => n * length
  | .counted => length + 2

namespace Node

mutual

/-- The number of instructions of a tree. -/
def codeLength (enc : Encoding) : Tree → Nat
  | literal bytes _ => if bytes.isEmpty then 0 else 1
  | set _ | anyChar _ | word _ | backref .. | anchor .. => 1
  | repeated lower upper greedy body =>
    let length := codeLength enc body
    (Scheme.choose lower upper length).codeLength greedy (body.minLength == 0) length
  | group _ body | atomic body => codeLength enc body + 2
  | look .ahead negated body => codeLength enc body + (if negated then 4 else 2)
  | look .behind negated body => codeLength enc body + 1 + (if negated then 4 else 2)
  | sequence items => codeLengthInOrder enc items
  | alternation items => codeLengthOfAny enc items

/-- The number of instructions of several trees one after the other. -/
def codeLengthInOrder (enc : Encoding) : List Tree → Nat
  | [] => 0
  | node :: rest => codeLength enc node + codeLengthInOrder enc rest

/-- The number of instructions of one of several trees. -/
def codeLengthOfAny (enc : Encoding) : List Tree → Nat
  | [] => 1
  | [node] => codeLength enc node
  | node :: rest => codeLength enc node + codeLengthOfAny enc rest + 2

end

mutual

/-- The outcomes of a tree at a place. A look-behind steps back over the characters of its body, and
one whose body has no fixed length has no outcome. -/
def outcomes (ctx : Context) : Tree → Ways
  | literal bytes ignoreCase => Ways.test ctx (literalLeaf ctx.encoding bytes ignoreCase)
  | set chars => Ways.test ctx (.set chars)
  | anyChar newlines => Ways.test ctx (.anyChar newlines)
  | word negated => Ways.test ctx (.word negated)
  | backref groups ignoreCase _ => Ways.test ctx (.backref groups ignoreCase)
  | anchor kind multiline => Ways.test ctx (.anchor kind multiline)
  | repeated lower upper greedy body =>
    Ways.repeated ctx (Scheme.choose lower upper (body.codeLength ctx.encoding)) lower upper greedy
      (outcomes ctx body)
  | group number body => Ways.group number (outcomes ctx body)
  | atomic body => Ways.atomic (outcomes ctx body)
  | look .ahead negated body => Ways.look negated (outcomes ctx body)
  | look .behind negated body =>
    match body.charLength ctx.encoding with
    | none => Ways.never
    | some n => Ways.look negated (Ways.andThen (Ways.stepBack ctx n) (outcomes ctx body))
  | sequence items => outcomesInOrder ctx items
  | alternation items => outcomesOfAny ctx items

/-- The outcomes of several trees one after the other. -/
def outcomesInOrder (ctx : Context) : List Tree → Ways
  | [] => Ways.stay
  | node :: rest => Ways.andThen (outcomes ctx node) (outcomesInOrder ctx rest)

/-- The outcomes of one of several trees, the first ones first. -/
def outcomesOfAny (ctx : Context) : List Tree → Ways
  | [] => Ways.never
  | node :: rest => Ways.orElse (outcomes ctx node) (outcomesOfAny ctx rest)

end

end Node

end RegexEngine
