import RegexEngine.Pattern.Group
import RegexEngine.Pattern.Item
import RegexEngine.Pattern.Repeat

/-!
# Reading a Pattern

A pattern is an alternation of branches, a branch a sequence of items, and an item may be repeated
by the operators after it. Groups contain alternations again. The state counts the levels that are
open, and how many may be is limited. A parenthesis is a level while it is read. Repeat operators on
an item are levels too, since each wraps the tree once more; they are left when the last operator
has been read. The reader for one level of groups is made from the reader for one level less, and
the limit is met before these run out.

Adjacent literals that treat case alike are joined when a branch is complete.

A pattern that is not a text of the encoding is refused at once. References are resolved at the end,
when all groups and names are known.

## Main definitions

* `branch`, `alternatives`, `groupsWithin`: the levels of the grammar.
* `joinLiterals`: joins adjacent literals.
* `resolve`: turns references into group numbers.
* `parse`: reads a pattern.
* `Parsed`: what is known of a pattern that was read.
-/

namespace RegexEngine

namespace Pattern

/-- Whether a repeat operator may not follow a node: nothing that consumes no text is repeated. -/
def refusesRepeat {ρ : Type} : Node ρ → Bool
  | .anchor .. | .look .. => true
  | _ => false

/-- Applies the repeat operators after an item, which `wraps` of them wrap already. Each that wraps
it opens a level, and all these levels are left at the end. Every operator has at least a byte, so
`fuel` need only exceed the length of the text. -/
def repeats (env : Setting) : (fuel wraps : Nat) → Draft → Reader Draft
  | 0, _, _, st => env.fail .parserBug st.rest
  | fuel + 1, wraps, node, st => do
    let st := { st with rest := skipBlank st.options st.rest }
    match ← quantifier? env st.rest with
    | none => .ok (node, { st with depth := st.depth - wraps })
    | some (q, after) =>
      if refusesRepeat node then env.fail .repeatOfAnchor st.rest
      -- An operator that changes nothing wraps nothing, and opens no level.
      else if q.isTrivial then repeats env fuel wraps node { st with rest := after }
      else if env.nestingLimit < st.depth + 1 then env.fail .nestingLimit st.rest
      else
        repeats env fuel (wraps + 1) (q.apply node)
          { st with rest := after, depth := st.depth + 1 }

/-- Adds a node to a branch, given last node first. A literal joins the literal before it if they
treat case alike or it is empty. -/
def joinLiteral {ρ : Type} (branch : List (Node ρ)) (node : Node ρ) : List (Node ρ) :=
  match branch, node with
  | .literal bytes ignoreCase :: before, .literal more moreIgnoreCase =>
    if ignoreCase == moreIgnoreCase || more.isEmpty then
      .literal (bytes ++ more) ignoreCase :: before
    else node :: branch
  | _, _ => node :: branch

/-- Joins adjacent literals of a branch. -/
def joinLiterals {ρ : Type} (items : List (Node ρ)) : List (Node ρ) :=
  (items.foldl joinLiteral []).reverse

/-- The node of a branch. -/
def branchNode {ρ : Type} (items : List (Node ρ)) : Node ρ :=
  match joinLiterals items with
  | [] => Node.empty
  | [node] => node
  | items => .sequence items

/-- Whether a branch ends here. -/
def atBranchEnd (rest : List UInt8) : Bool :=
  rest.isEmpty || startsWith rest '|' || startsWith rest ')'

/-- Reads one item without the operators after it. -/
def item (env : Setting) (group : Reader (Option Draft)) : Reader (Option Draft) := fun st =>
  if startsWith st.rest '(' then deeper env group st else leavesNode (simpleItem env) st

/-- Reads the items of a branch, given those read so far, last first. Every item has at least a
byte, so `fuel` need only exceed the length of the text. -/
def branchItems (env : Setting) (group : Reader (Option Draft)) :
    (fuel : Nat) → List Draft → Reader (List Draft)
  | 0, _, st => env.fail .parserBug st.rest
  | fuel + 1, items, st => do
    let st := { st with rest := skipBlank st.options st.rest }
    if atBranchEnd st.rest then .ok (items.reverse, st)
    else
      match ← quantifier? env st.rest with
      | some _ => env.fail .repeatWithoutTarget st.rest
      | none =>
        let (node?, after) ← item env group st
        match node? with
        -- Comments and settings leave nothing that an operator could repeat.
        | none => branchItems env group fuel items after
        | some node =>
          let (node, after) ← repeats env (after.rest.length + 1) 0 node after
          branchItems env group fuel (node :: items) after

/-- Reads a branch. -/
def branch (env : Setting) (group : Reader (Option Draft)) : Reader Draft := fun st => do
  let (items, after) ← branchItems env group (st.rest.length + 1) [] st
  .ok (branchNode items, after)

/-- Reads the branches that remain, given those read so far, last first. -/
def branches (env : Setting) (group : Reader (Option Draft)) (inGroup : Bool) :
    (fuel : Nat) → List Draft → Reader (List Draft)
  | 0, _, st => env.fail .parserBug st.rest
  | fuel + 1, nodes, st => do
    let (node, after) ← branch env group st
    match after.rest with
    | [] =>
      if inGroup then env.fail .unmatchedOpen after.rest else .ok ((node :: nodes).reverse, after)
    | b :: rest =>
      match char b with
      | '|' => branches env group inGroup fuel (node :: nodes) { after with rest := rest }
      | ')' =>
        if inGroup then .ok ((node :: nodes).reverse, after)
        else env.fail .unmatchedClose after.rest
      | _ => env.fail .parserBug after.rest

/-- The node of an alternation. -/
def alternationNode {ρ : Type} : List (Node ρ) → Node ρ
  | [node] => node
  | nodes => .alternation nodes

/-- Reads an alternation up to the closing parenthesis, or outside of groups to the end. -/
def alternatives (env : Setting) (group : Reader (Option Draft)) (inGroup : Bool) :
    Reader Draft := fun st => do
  let (nodes, after) ← branches env group inGroup (st.rest.length + 1) [] st
  .ok (alternationNode nodes, after)

/-- Reads a parenthesis. It and those inside of it make at most `room` levels. The limit on nesting
is met before there is no room. -/
def groupsWithin (env : Setting) : (room : Nat) → Reader (Option Draft)
  | 0 => fun st => env.fail .parserBug st.rest
  | room + 1 => parenthesis env (alternatives env (groupsWithin env room) true)

/-- The groups that a reference may mean. -/
def resolveReference (names : GroupNames) (offset : Nat) : Reference → Except Failure (List Nat)
  | .number n => .ok [n]
  | .name name =>
    match names.find? name with
    | some groups => .ok groups
    | none => .error { cause := .undefinedName, offset := offset, name := some name }

mutual

/-- Turns references into group numbers. A number must be that of a group. -/
def resolve (groups : Nat) (names : GroupNames) : Draft → Except Failure Tree
  | .literal bytes ignoreCase => .ok (.literal bytes ignoreCase)
  | .set chars => .ok (.set chars)
  | .anyChar newlines => .ok (.anyChar newlines)
  | .word negated => .ok (.word negated)
  | .anchor kind multiline => .ok (.anchor kind multiline)
  | .backref target ignoreCase offset => do
    let numbers ← resolveReference names offset target
    if numbers.any fun n => n == 0 || groups < n then
      .error { cause := .invalidBackref, offset := offset }
    else .ok (.backref numbers ignoreCase offset)
  | .repeated lower upper greedy body => do
    .ok (.repeated lower upper greedy (← resolve groups names body))
  | .group number body => do .ok (.group number (← resolve groups names body))
  | .atomic body => do .ok (.atomic (← resolve groups names body))
  | .look direction negated body => do
    .ok (.look direction negated (← resolve groups names body))
  | .sequence items => do .ok (.sequence (← resolveAll groups names items))
  | .alternation items => do .ok (.alternation (← resolveAll groups names items))

/-- Turns the references of several trees into group numbers. -/
def resolveAll (groups : Nat) (names : GroupNames) : List Draft → Except Failure (List Tree)
  | [] => .ok []
  | node :: rest => do
    let node ← resolve groups names node
    let rest ← resolveAll groups names rest
    .ok (node :: rest)

end

/-- What is known of a pattern that was read. -/
structure Parsed where
  tree : Tree
  /-- How many groups the pattern has. -/
  groups : Nat
  names : GroupNames
  /-- The options in force at the end. -/
  options : Options
  /-- The offset at which reading ended. -/
  offset : Nat

/-- Reads a pattern. -/
def parse (pattern : List UInt8) (options : Options) (encoding : Encoding) (dialect : Dialect)
    (limits : Limits) : Except Failure Parsed := do
  let env : Setting :=
    { pattern := pattern, encoding := encoding, dialect := dialect,
      captureLimit := limits.captures, nestingLimit := limits.nesting }
  if !encoding.isValid pattern then
    .error { cause := .invalidCodePoint, offset := encoding.validPrefixLength pattern }
  else
    let (draft, after) ←
      alternatives env (groupsWithin env limits.nesting) false
        { rest := pattern, options := options }
    -- A reference may come before its group, so that all groups must be known.
    let tree ← resolve after.groups after.names draft
    .ok
      { tree := tree, groups := after.groups, names := after.names, options := after.options,
        offset := env.offset after.rest }

end Pattern

end RegexEngine
