import RegexEngine.Proofs.Program.Compile

/-!
# Where Matches Start

The hints of a program tell of the test that its code starts with. A match starts by passing this
test, so a position that the test refuses is one where no match starts; and an attempt there is over
after its first step. Nothing has been put on the stack, so there is nothing to fall back to, and no
retry is counted.

The hints are read off the first item of the tree that was read, and the code is made of the
prepared tree. To prepare a tree is to divide its look-behinds, which leaves an anchor and a literal
what they are.

## Main definitions

* `Node.front`, `Node.opening`: The first item of a tree, and its test.
* `Program.StartsWith`: The code of a program starts with a test.
* `Program.Tells`: Hints are true of a program.

## Theorems

* `tells_hints`: The hints of a program are true of it.
* `attempt_refused`: An attempt is over where the first test refuses.
-/

namespace RegexEngine

namespace Node

/-- The first item of a tree. -/
def front : Tree → Tree
  | sequence (first :: _) => first
  | tree => tree

/-- The test of an item that gives a hint. -/
def opening : Tree → Option Leaf
  | anchor kind multiline => some (.anchor kind multiline)
  | literal (b :: bytes) false => some (.literal (b :: bytes))
  | _ => none

variable {tree : Tree} {test : Leaf}

theorem hints_front (tree : Tree) : Hints.ofTree tree = Hints.ofFirst tree.front := by
  cases tree with
  | sequence items =>
      cases items with
      | nil => rfl
      | cons first rest => rfl
  | _ => rfl

theorem literalsValid_front {enc : Encoding} (h : tree.LiteralsValid enc) :
    tree.front.LiteralsValid enc := by
  cases tree with
  | sequence items =>
      cases items with
      | nil => exact h
      | cons first rest => exact h.1
  | _ => exact h

/-- The code of an item with a test is that test, however the look-behinds are divided. -/
theorem emit_opening {enc : Encoding} {ids : Ids} (h : tree.opening = some test) :
    tree.emit enc ids = .ok ([.leaf test], ids) ∧ tree.divideAll enc = tree := by
  rw [opening.eq_def] at h
  split at h
  · cases h
    exact ⟨rfl, by rw [divideAll]⟩
  · cases h
    exact ⟨rfl, by rw [divideAll]⟩
  · cases h

/-- The code of a tree starts with the test of its first item. -/
theorem emit_front {enc : Encoding} {ids later : Ids} {code : Code}
    (hemit : tree.emit enc ids = .ok (code, later)) (h : tree.front.opening = some test) :
    code.head? = some (.leaf test) := by
  -- A single item with an opening has no code but the test.
  have hitem : ∀ {item : Tree} {found : Code} {mid : Ids}, item.opening = some test →
      item.emit enc ids = .ok (found, mid) → found = [.leaf test] := by
    intro item found mid hopening hfound
    have hpair := hfound.symm.trans (emit_opening hopening).1
    cases hpair
    rfl
  cases tree with
  | sequence items =>
      cases items with
      | nil => cases h
      | cons first rest =>
          rcases emit_sequence hemit with ⟨parts, hparts, rfl⟩
          cases hparts with
          | cons hfirst hothers =>
              rw [hitem h hfirst]
              rfl
  | _ =>
      rw [hitem h hemit]
      rfl

/-- The first item is the same in the tree that is prepared. -/
theorem front_prepare {enc : Encoding} {dialect : Dialect} (h : tree.front.opening = some test) :
    (Program.prepare enc dialect tree).front.opening = some test := by
  have hdivided := (@emit_opening _ _ enc {} h).2
  rw [Program.prepare]
  split
  · -- A sequence stays one, and only trees that give a hint are left besides.
    cases tree with
    | sequence items =>
        cases items with
        | nil => cases h
        | cons first rest =>
            rw [divideAll, divideAllOf]
            exact (congrArg opening hdivided).trans h
    | anchor | literal =>
        rw [divideAll]
        exact h
    | _ => cases h
  · exact h

end Node

namespace Program

/-- The code of a program starts with a test. -/
def StartsWith (program : Program) (test : Leaf) : Prop :=
  program.code[0]? = some (.leaf test)

/-- The code of a program starts with the test that hints tell of. -/
inductive Tells (program : Program) : Hints → Prop
  | nothing : Tells program {}
  | textStart {multiline : Bool} (starts : program.StartsWith (.anchor .textStart multiline)) :
      Tells program { textStart := true }
  | lineStart (starts : program.StartsWith (.anchor .lineStart false)) :
      Tells program { textStart := true }
  | searchStart {multiline : Bool} (starts : program.StartsWith (.anchor .searchStart multiline)) :
      Tells program { searchStart := true }
  | literal {bytes : List UInt8} (begins : program.encoding.Begins bytes)
      (starts : program.StartsWith (.literal bytes)) : Tells program { literal := bytes }

/-- The hint that an item gives is true of a program whose code starts with the test of the item. -/
theorem tells_ofFirst {program : Program} {item : Tree}
    (hliterals : item.LiteralsValid program.encoding)
    (hstarts : ∀ test, item.opening = some test → program.StartsWith test) :
    program.Tells (Hints.ofFirst item) := by
  cases item with
  | anchor kind multiline =>
      have hanchor := hstarts (.anchor kind multiline) rfl
      cases kind with
      | textStart => exact .textStart hanchor
      | searchStart => exact .searchStart hanchor
      | lineStart =>
          -- Where lines count, a line can start anywhere in the text.
          cases multiline with
          | false => exact .lineStart hanchor
          | true => exact .nothing
      | _ => exact .nothing
  | literal bytes ignoreCase =>
      cases ignoreCase with
      | true => exact .nothing
      | false =>
          cases bytes with
          | nil => exact .nothing
          | cons b rest =>
              have hbegins : program.encoding.Begins (b :: rest) :=
                Encoding.begins_of_isValid hliterals
              exact .literal hbegins (hstarts (.literal (b :: rest)) rfl)
  | _ => exact .nothing

variable {pattern : List UInt8} {options : Options} {enc : Encoding} {dialect : Dialect}
  {limits : Limits} {parsed : Pattern.Parsed} {program : Program}

/-- The code of a program starts with the test of the first item of its tree. -/
theorem Means.startsWith {tree : Tree} {test : Leaf} (h : program.Means tree)
    (hopening : tree.front.opening = some test) : program.StartsWith test := by
  rcases h.emits with ⟨code, ids, hemit, hcode, -, -⟩
  have hhead := Node.emit_front hemit hopening
  cases code with
  | nil => cases hhead
  | cons first rest =>
      obtain rfl : first = .leaf test := Option.some.inj hhead
      rw [StartsWith, hcode]
      rfl

/-- The hints of a program are true of it. -/
theorem tells_hints (hparse : Pattern.parse pattern options enc dialect limits = .ok parsed)
    (hprogram : ofParsed pattern options enc dialect parsed = .ok program) :
    program.Tells program.hints := by
  rcases ofParsed_ok hparse hprogram with ⟨hmeans, hencoding, hhints⟩
  have hliterals := (Pattern.parse_ok hparse).2.2
  rw [hhints, Node.hints_front]
  refine tells_ofFirst (hencoding ▸ Node.literalsValid_front hliterals) fun test hopening => ?_
  exact hmeans.startsWith (Node.front_prepare hopening)

end Program

namespace Machine

variable {program : Program} {limits : Limits} {ctx : Context} {test : Leaf} {start : Nat}

/-- What an attempt begins with does not depend on where the one before began. -/
@[simp] theorem restart_restart (m : Machine) (first second : Nat) :
    (m.restart first).restart second = m.restart second := by
  simp only [restart, Registers.clear, Array.size_replicate]

/-- An attempt is over where the first test refuses. Nothing has been put on the stack, so no retry
is counted. -/
theorem attempt_refused (m : Machine) (fuel : Nat) (hstarts : program.StartsWith test)
    (hrefuses : test.accept ctx m.registers.clear.captures start = none) :
    m.attempt program limits ctx (fuel + 1) start = .ok (.exhausted (m.restart start)) := by
  have hinstr : program.instrAt (m.restart start).pc = some (.leaf test) := hstarts
  have hobey : (m.restart start).obey program limits ctx (.leaf test) =
      .ok (.fallBack (m.restart start)) := by
    rw [obey]
    exact congrArg (fun next => Except.ok ((m.restart start).moveTo next)) hrefuses
  -- The stack is empty, so falling back ends the attempt.
  rw [attempt, run_succ, step_effect hinstr hobey]
  rfl

end Machine

end RegexEngine
