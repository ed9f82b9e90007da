import RegexEngine.Program.Compile
import RegexEngine.Proofs.Tree.Induction

/-!
# Trees and Code Under Line Options

Two options change how line anchors and dots are read. They leave no trace in a tree but the flags
of its anchors and dots, so a tree that was read without them becomes the tree that was read under
them by raising these flags. To raise flags changes no length and moves no node. So it can as well
be done after the look-behinds have been divided, and after code has been made.

## Main definitions

* `Options.lines`: The two options.
* `Node.withLines`, `Instr.withLines`: Raises the flags of a tree and of code.

## Theorems

* `prepare_withLines`: Flags are raised before or after look-behinds are divided.
* `emit_withLines`: Flags are raised before or after code is made.
-/

namespace RegexEngine

/-- The options that change how line anchors and dots are read. -/
def Options.lines (multiline dotAll : Bool) : Options where
  multiline := multiline
  dotAll := dotAll

variable {m d : Bool}

namespace Node

variable {ρ : Type}

mutual

/-- The tree that is read where options are added to those in force. -/
def withLines (m d : Bool) : Node ρ → Node ρ
  | anyChar newlines => anyChar (newlines || d)
  | anchor kind multiline => anchor kind (multiline || m)
  | repeated lower upper greedy body => repeated lower upper greedy (withLines m d body)
  | group number body => group number (withLines m d body)
  | atomic body => atomic (withLines m d body)
  | look direction negated body => look direction negated (withLines m d body)
  | sequence items => sequence (withLinesOf m d items)
  | alternation items => alternation (withLinesOf m d items)
  | literal bytes ignoreCase => literal bytes ignoreCase
  | set chars => set chars
  | word negated => word negated
  | backref target ignoreCase offset => backref target ignoreCase offset

/-- Several trees that are read where options are added. -/
def withLinesOf (m d : Bool) : List (Node ρ) → List (Node ρ)
  | [] => []
  | node :: rest => withLines m d node :: withLinesOf m d rest

end

theorem withLinesOf_eq_map (items : List (Node ρ)) :
    withLinesOf m d items = items.map (withLines m d) := by
  induction items with
  | nil => rfl
  | cons node rest ih => rw [withLinesOf, ih, List.map_cons]

/-- Without options to add, a tree stays as it is. -/
theorem withLines_false (node : Node ρ) : node.withLines false false = node := by
  induction node with
  | anyChar newlines => rw [withLines, Bool.or_false]
  | anchor kind multiline => rw [withLines, Bool.or_false]
  | repeated lower upper greedy body ih | group number body ih | atomic body ih
  | look direction negated body ih => rw [withLines, ih]
  | sequence items ih | alternation items ih =>
      rw [withLines, withLinesOf_eq_map, List.map_congr_left ih, List.map_id']
  | _ => rfl

section Lengths

variable {f : Node ρ → Node ρ} {items : List (Node ρ)}

theorem minLengthSum_map (h : ∀ node ∈ items, (f node).minLength = node.minLength) :
    minLengthSum (items.map f) = minLengthSum items := by
  induction items with
  | nil => rfl
  | cons node rest ih =>
      rw [List.forall_mem_cons] at h
      rw [List.map_cons, minLengthSum, minLengthSum, h.1, ih h.2]

theorem minLengthMin_cons (node other : Node ρ) (rest : List (Node ρ)) :
    minLengthMin (node :: other :: rest) = min node.minLength (minLengthMin (other :: rest)) :=
  rfl

theorem minLengthMin_map (h : ∀ node ∈ items, (f node).minLength = node.minLength) :
    minLengthMin (items.map f) = minLengthMin items := by
  induction items with
  | nil => rfl
  | cons node rest ih =>
      rw [List.forall_mem_cons] at h
      cases rest with
      | nil => exact h.1
      | cons other rest =>
          have hrest := ih h.2
          rw [List.map_cons, List.map_cons, minLengthMin_cons, ← List.map_cons, h.1, hrest,
            minLengthMin_cons]

theorem charLengthSum_map {enc : Encoding}
    (h : ∀ node ∈ items, (f node).charLength enc = node.charLength enc) :
    charLengthSum enc (items.map f) = charLengthSum enc items := by
  induction items with
  | nil => rfl
  | cons node rest ih =>
      rw [List.forall_mem_cons] at h
      rw [List.map_cons, charLengthSum, charLengthSum, h.1, ih h.2]

theorem charLengthCommon_cons (enc : Encoding) (node other : Node ρ) (rest : List (Node ρ)) :
    charLengthCommon enc (node :: other :: rest) =
      match charLength enc node, charLengthCommon enc (other :: rest) with
      | some n, some m => if n = m then some n else none
      | _, _ => none :=
  rfl

theorem charLengthCommon_map {enc : Encoding}
    (h : ∀ node ∈ items, (f node).charLength enc = node.charLength enc) :
    charLengthCommon enc (items.map f) = charLengthCommon enc items := by
  induction items with
  | nil => rfl
  | cons node rest ih =>
      rw [List.forall_mem_cons] at h
      cases rest with
      | nil => exact h.1
      | cons other rest =>
          have hrest := ih h.2
          rw [List.map_cons, List.map_cons, charLengthCommon_cons, ← List.map_cons, h.1, hrest,
            charLengthCommon_cons]

end Lengths

/-- Flags have no length. -/
@[simp] theorem minLength_withLines (node : Node ρ) :
    (node.withLines m d).minLength = node.minLength := by
  induction node with
  | repeated lower upper greedy body ih => rw [withLines, minLength, minLength, ih]
  | group number body ih | atomic body ih => exact ih
  | sequence items ih =>
      rw [withLines, withLinesOf_eq_map, minLength, minLength, minLengthSum_map ih]
  | alternation items ih =>
      rw [withLines, withLinesOf_eq_map, minLength, minLength, minLengthMin_map ih]
  | _ => rfl

@[simp] theorem charLength_withLines {enc : Encoding} (node : Node ρ) :
    (node.withLines m d).charLength enc = node.charLength enc := by
  induction node with
  | repeated lower upper greedy body ih => rw [withLines, charLength, charLength, ih]
  | group number body ih | atomic body ih => exact ih
  | sequence items ih =>
      rw [withLines, withLinesOf_eq_map, charLength, charLength, charLengthSum_map ih]
  | alternation items ih =>
      rw [withLines, withLinesOf_eq_map, charLength, charLength, charLengthCommon_map ih]
  | _ => rfl

theorem divide_withLines {enc : Encoding} {negated : Bool} (node : Node ρ) :
    divide enc negated (node.withLines m d) = (divide enc negated node).withLines m d := by
  induction node with
  | alternation items ih =>
      have hlength := @charLength_withLines m d _ enc (alternation items)
      have heach : divideEach enc negated (withLinesOf m d items) =
          withLinesOf m d (divideEach enc negated items) := by
        simp only [divideEach_eq_map, withLinesOf_eq_map, List.map_map]
        exact List.map_congr_left ih
      rw [withLines] at hlength
      rw [withLines, divide, divide, hlength]
      split
      · rfl
      · split
        · exact congrArg sequence heach
        · exact congrArg alternation heach
  | _ => rfl

theorem divideAll_withLines {enc : Encoding} (node : Node ρ) :
    divideAll enc (node.withLines m d) = (divideAll enc node).withLines m d := by
  induction node with
  | look direction negated body ih =>
      cases direction with
      | ahead =>
          rw [withLines, divideAll, divideAll, ih]
          rfl
      | behind => rw [withLines, divideAll, divideAll, ih, divide_withLines]
  | repeated lower upper greedy body ih | group number body ih | atomic body ih =>
      rw [withLines, divideAll, divideAll, ih]
      rfl
  | sequence items ih | alternation items ih =>
      simp only [withLines, divideAll, divideAllOf_eq_map, withLinesOf_eq_map, List.map_map]
      congr 1
      exact List.map_congr_left ih
  | _ => rfl

end Node

/-- The test that is made where options are added. -/
def Leaf.withLines (m d : Bool) : Leaf → Leaf
  | anyChar newlines => anyChar (newlines || d)
  | anchor kind multiline => anchor kind (multiline || m)
  | test => test

/-- The instruction that is made where options are added. -/
def Instr.withLines (m d : Bool) : Instr → Instr
  | leaf test => leaf (test.withLines m d)
  | instr => instr

namespace Code

/-- The code that is made where options are added. -/
def withLines (m d : Bool) (code : Code) : Code :=
  code.map (Instr.withLines m d)

variable (code : Code)

@[simp] theorem withLines_nil : withLines m d [] = [] :=
  rfl

@[simp] theorem withLines_cons (instr : Instr) :
    withLines m d (instr :: code) = instr.withLines m d :: withLines m d code :=
  rfl

@[simp] theorem withLines_append (more : Code) :
    withLines m d (code ++ more) = withLines m d code ++ withLines m d more :=
  List.map_append

@[simp] theorem length_withLines : (withLines m d code).length = code.length :=
  List.length_map _

@[simp] theorem withLines_optional (greedy : Bool) :
    withLines m d (optional greedy code) = optional greedy (withLines m d code) := by
  cases greedy <;> simp [optional, Instr.withLines]

@[simp] theorem withLines_star (greedy : Bool) (check : Option Nat) :
    withLines m d (star greedy check code) = star greedy check (withLines m d code) := by
  cases greedy <;> cases check <;> simp [star, checked, Instr.withLines]

@[simp] theorem withLines_counted (id : Nat) (greedy : Bool) :
    withLines m d (counted id greedy code) = counted id greedy (withLines m d code) := by
  simp [counted, Instr.withLines]

@[simp] theorem withLines_group (number : Nat) :
    withLines m d (group number code) = group number (withLines m d code) := by
  simp [group, Instr.withLines]

@[simp] theorem withLines_atomic (id : Nat) :
    withLines m d (atomic id code) = atomic id (withLines m d code) := by
  simp [atomic, Instr.withLines]

@[simp] theorem withLines_look (id : Nat) (negated : Bool) :
    withLines m d (look id negated code) = look id negated (withLines m d code) := by
  cases negated <;> simp [look, Instr.withLines]

@[simp] theorem withLines_copies (n : Nat) :
    withLines m d (copies n code) = copies n (withLines m d code) := by
  induction n with
  | zero => rfl
  | succ n ih => rw [copies, withLines_append, ih, copies]

@[simp] theorem withLines_flatten (parts : List Code) :
    withLines m d parts.flatten = (parts.map (withLines m d)).flatten :=
  List.map_flatten

@[simp] theorem withLines_choices (parts : List Code) :
    withLines m d (choices parts) = choices (parts.map (withLines m d)) := by
  induction parts with
  | nil => rfl
  | cons part rest ih =>
      cases rest with
      | nil => rfl
      | cons other rest =>
          rw [List.map_cons] at ih
          simp only [List.map_cons, choices, withLines_cons, withLines_append, ih, length_withLines]
          rw [← ih, length_withLines]
          rfl

end Code

section Emission

variable {enc : Encoding}

/-- The test of a literal has no flags. -/
theorem withLines_literalLeaf (bytes : List UInt8) (ignoreCase : Bool) :
    (literalLeaf enc bytes ignoreCase).withLines m d = literalLeaf enc bytes ignoreCase := by
  cases ignoreCase <;> rfl

/-- A repeat is made in the same way around a body with other flags. -/
theorem emitRepeat_withLines (bounds : Bounds) (greedy mayBeEmpty : Bool) (body : Code) :
    emitRepeat bounds greedy mayBeEmpty (body.withLines m d) =
      Code.withLines m d <$> emitRepeat bounds greedy mayBeEmpty body := by
  rw [emitRepeat, emitRepeat, Code.length_withLines]
  cases Scheme.choose bounds.lower bounds.upper body.length <;>
    simp [emitStar, emitCounted]

namespace Node

theorem emitEach_withLines {items : List Tree}
    (h : ∀ node ∈ items, (node.withLines m d).emit enc = Code.withLines m d <$> node.emit enc) :
    emitEach enc (items.map (withLines m d)) =
      List.map (Code.withLines m d) <$> emitEach enc items := by
  induction items with
  | nil => rfl
  | cons node rest ih =>
      rw [List.forall_mem_cons] at h
      simp only [List.map_cons, emitEach, h.1, ih h.2, bind_map_left, map_bind, map_pure]

/-- Flags are raised before or after code is made. -/
theorem emit_withLines (tree : Tree) :
    (tree.withLines m d).emit enc = Code.withLines m d <$> tree.emit enc := by
  -- Each construct makes code from the code of its parts and from lengths, which no flag changes.
  -- So raising flags commutes with it.
  induction tree using Node.induct with
  | literal bytes ignoreCase =>
      rw [withLines, emit]
      by_cases hempty : bytes.isEmpty
      · simp [hempty]
      · simp [hempty, Instr.withLines, withLines_literalLeaf]
  | set | anyChar | word | backref | anchor => rfl
  | repeated lower upper greedy body ih =>
      rw [withLines, emit, emit]
      split
      · rw [map_pure]
        rfl
      · simp only [ih, bind_map_left, map_bind, minLength_withLines, emitRepeat_withLines]
  | group number body ih | atomic body ih =>
      simp only [withLines, emit, ih, bind_map_left, map_bind, map_pure, Code.withLines_group,
        Code.withLines_atomic]
  | look direction negated body ih =>
      cases direction with
      | ahead =>
          simp only [withLines, emit, ih, bind_map_left, map_bind, map_pure, Code.withLines_look]
      | behind =>
          rw [withLines, emit, emit, charLength_withLines]
          split
          · rfl
          · simp only [ih, bind_map_left, map_bind, map_pure, Code.withLines_look,
              Code.withLines_cons]
            rfl
  | sequence items ih =>
      simp only [withLines, withLinesOf_eq_map, emit, emitEach_withLines ih, bind_map_left,
        map_bind, map_pure, Code.withLines_flatten]
  | alternation items ih =>
      rw [withLines, withLinesOf_eq_map, emit, emit, List.isEmpty_map]
      split
      · rfl
      · simp only [emitEach_withLines ih, bind_map_left, map_bind, map_pure,
          Code.withLines_choices]

end Node

end Emission

namespace Program

/-- Flags are raised before or after look-behinds are divided. -/
theorem prepare_withLines (enc : Encoding) (dialect : Dialect) (tree : Tree) :
    prepare enc dialect (tree.withLines m d) = (prepare enc dialect tree).withLines m d := by
  rw [prepare, prepare]
  split
  · exact Node.divideAll_withLines tree
  · rfl

end Program

end RegexEngine
