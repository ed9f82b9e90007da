import RegexEngine.Proofs.LookBehind.Parts
import RegexEngine.Proofs.Program.Compile
import RegexEngine.Proofs.Program.Total

/-!
# The Size of a Program

The body of a repeat may be copied, and copies may stand inside copies. Still a program is never
longer than so many instructions for each node of its tree. A repeat is written out only if the body
or the result is short, so it adds a limited number of instructions to those of its body, and
nothing multiplies.

What a look-behind adds does not follow from the length of its body. If it is divided, there is a
look-behind for each of its parts, and the instructions of each are added. So the bound that goes
through the induction leaves room for the parts of a tree besides the instructions. A look-behind
uses the room up, and it needs little itself: it consumes nothing, so that it is a single part
wherever it stands.

## Main definitions

* `Node.FitsIn`: A tree has few enough instructions for so many nodes, and room for its parts.

## Theorems

* `codeLength_choose_le`: A repeat adds a limited number of instructions.
* `codeLength_divide_le`: What a look-behind adds that is divided.
* `fitsIn_divideAll`: Trees with divided look-behinds fit in the nodes that they had before.
* `length_emit_le`: The number of instructions of a tree.
* `size_code_le`: The number of instructions of a program.
-/

namespace RegexEngine

/-- However a repeat runs, it has no more than so many instructions besides those of its body. -/
theorem Scheme.codeLength_choose_le (lower : Nat) (upper : Option Nat) (greedy mayBeEmpty : Bool)
    (length : Nat) :
    (choose lower upper length).codeLength greedy mayBeEmpty length ≤ length + copyLimit + 5 := by
  -- A star is the body with at most two instructions for the check and three for the loop.
  have hstar : star.codeLength greedy mayBeEmpty length ≤ length + 5 := by
    change (if mayBeEmpty then length + 2 else length) + (if greedy then 2 else 3) ≤ length + 5
    split <;> split <;> omega
  -- The schemes in the order in which they are chosen: never, once, optional, star, plus, copies,
  -- counted. Only the copies of a short body repeat it.
  rw [choose]
  split
  · exact Nat.zero_le _
  split
  · change length ≤ _
    omega
  split
  · change length + (if greedy then 1 else 2) ≤ _
    split <;> omega
  split
  · omega
  split
  · rename_i hplus
    have hshort : length ≤ copyLimit := hplus.2.2
    change length + star.codeLength greedy mayBeEmpty length ≤ _
    omega
  split
  · rename_i hcopies
    have hshort : lower * length ≤ copyLimit := hcopies.2
    change lower * length ≤ _
    omega
  · change length + 2 ≤ _
    omega

namespace Node

variable {enc : Encoding} {tree body : Tree} {items : List Tree} {nodes size : Nat}

theorem sizes_cons (node : Tree) (rest : List Tree) :
    sizes (node :: rest) = node.size + sizes rest :=
  rfl

section Divided

theorem codeLengthOfAny_cons {node : Tree} (h : items ≠ []) :
    codeLengthOfAny enc (node :: items) = node.codeLength enc + codeLengthOfAny enc items + 2 := by
  cases items with
  | nil => exact absurd rfl h
  | cons =>
      rw [codeLengthOfAny]
      exact List.cons_ne_nil _ _

/-- One after the other, the parts that a negated look-behind is divided into save the forks and the
jumps that choose between alternatives. -/
theorem codeLengthInOrder_divide (ih : ∀ node ∈ items, (divide enc true node).codeLength enc ≤
      node.codeLength enc + 3 * (node.parts enc).length + 2) :
    codeLengthInOrder enc (items.map (divide enc true)) ≤
      codeLengthOfAny enc items + 3 * (partsEach enc items).length + 2 := by
  induction items with
  | nil => exact Nat.zero_le _
  | cons node rest ihrest =>
      rw [List.forall_mem_cons] at ih
      have hnode := ih.1
      have hrest := ihrest ih.2
      rw [List.map_cons, codeLengthInOrder, partsEach, List.length_append]
      by_cases hnil : rest = []
      · subst hnil
        simp only [List.map_nil, codeLengthInOrder, codeLengthOfAny]
        omega
      · rw [codeLengthOfAny_cons hnil]
        omega

/-- The parts of a look-behind that is not negated are alternatives again. -/
theorem codeLengthOfAny_divide (ih : ∀ node ∈ items, (divide enc false node).codeLength enc ≤
      node.codeLength enc + 3 * (node.parts enc).length) :
    codeLengthOfAny enc (items.map (divide enc false)) ≤
      codeLengthOfAny enc items + 3 * (partsEach enc items).length := by
  induction items with
  | nil => exact Nat.le_add_right _ _
  | cons node rest ihrest =>
      rw [List.forall_mem_cons] at ih
      have hnode := ih.1
      have hrest := ihrest ih.2
      rw [List.map_cons, partsEach, List.length_append]
      by_cases hnil : rest = []
      · subst hnil
        simp only [List.map_nil, codeLengthOfAny]
        omega
      · rw [codeLengthOfAny_cons hnil, codeLengthOfAny_cons (mt List.map_eq_nil_iff.mp hnil)]
        omega

/-- Each part of a look-behind has three instructions besides those of its body, and two more for
the whole if it is negated. -/
theorem codeLength_divide_le (enc : Encoding) (negated : Bool) (body : Tree) :
    (divide enc negated body).codeLength enc ≤
      body.codeLength enc + 3 * (body.parts enc).length + if negated then 2 else 0 := by
  have hwhole : ∀ body : Tree, (look .behind negated body).codeLength enc ≤
      body.codeLength enc + 3 * [body].length + if negated then 2 else 0 := by
    intro body
    rw [codeLength, List.length_singleton]
    split <;> omega
  induction body using Node.induct with
  | alternation items ih =>
      rcases hlength : (alternation items : Tree).charLength enc with _ | n
      · rw [divide, parts, hlength, divideEach_eq_map]
        cases negated with
        | true => exact codeLengthInOrder_divide ih
        | false => exact codeLengthOfAny_divide ih
      · rw [divide_of_known hlength, parts_of_known hlength]
        exact hwhole _
  | _ => exact hwhole _

/-- What a look-behind is divided into consumes nothing, if there are alternatives wherever one is
to be chosen. -/
theorem charLength_divide_of_sound (enc : Encoding) (negated : Bool) (body : Tree)
    (h : body.Sound size) :
    (divide enc negated body).charLength enc = some 0 := by
  induction body using Node.induct with
  | alternation items ih =>
      rcases hlength : (alternation items : Tree).charLength enc with _ | n
      · have hitems := (soundAll_iff _).mp h.2
        rw [divide, hlength, divideEach_eq_map]
        cases negated with
        | true =>
            refine charLengthSum_of_zero (List.forall_mem_map.mpr fun node hnode => ?_)
            exact ih node hnode (hitems node hnode)
        | false =>
            refine charLengthCommon_eq_some.mpr ⟨mt List.map_eq_nil_iff.mp h.1, ?_⟩
            refine List.forall_mem_map.mpr fun node hnode => ?_
            exact ih node hnode (hitems node hnode)
      · rw [divide_of_known hlength]
        rfl
  | _ => rfl

end Divided

/-- A tree has at most 72 instructions for each of some nodes, and there is room left for those that
would be added to each of its parts if it stood in a look-behind. -/
structure FitsIn (enc : Encoding) (nodes : Nat) (tree : Tree) : Prop where
  /-- A part is checked by three instructions, and a negated look-behind needs two more. -/
  room : tree.codeLength enc + 3 * (tree.parts enc).length + 2 ≤ 72 * nodes

section Constructs

theorem fitsIn_leaf (hparts : tree.parts enc = [tree]) (hlength : tree.codeLength enc ≤ 1) :
    FitsIn enc 1 tree := by
  refine ⟨?_⟩
  rw [hparts, List.length_singleton]
  omega

/-- A node more has room for a repeat, or for any construct that adds less. -/
theorem FitsIn.wrap (h : FitsIn enc nodes body) (hparts : tree.parts enc = [tree])
    (hlength : tree.codeLength enc ≤ body.codeLength enc + Scheme.copyLimit + 5) :
    FitsIn enc (nodes + 1) tree := by
  have hlimit : Scheme.copyLimit = 64 := rfl
  have hroom := h.room
  refine ⟨?_⟩
  rw [hparts, List.length_singleton]
  omega

theorem FitsIn.repeated (h : FitsIn enc nodes body) (lower : Nat) (upper : Option Nat)
    (greedy : Bool) : FitsIn enc (nodes + 1) (.repeated lower upper greedy body) :=
  h.wrap rfl (Scheme.codeLength_choose_le _ _ _ _ _)

theorem FitsIn.look (h : FitsIn enc nodes body) (direction : Direction) (negated : Bool) :
    FitsIn enc (nodes + 1) (.look direction negated body) := by
  refine h.wrap rfl ?_
  cases direction with
  | ahead | behind =>
      rw [codeLength]
      split <;> omega

/-- A look-behind uses up the room for the parts of its body, and is a single part. -/
theorem FitsIn.divide (h : FitsIn enc nodes body) (hsound : body.Sound size) (negated : Bool) :
    FitsIn enc (nodes + 1) (divide enc negated body) := by
  have hlength := codeLength_divide_le enc negated body
  have hpart := parts_of_known (charLength_divide_of_sound enc negated body hsound)
  have hroom := h.room
  refine ⟨?_⟩
  rw [hpart, List.length_singleton]
  split at hlength <;> omega

variable {f : Tree → Tree} (h : ∀ node ∈ items, FitsIn enc node.size (f node))
include h

theorem codeLengthInOrder_le :
    codeLengthInOrder enc (items.map f) ≤ 72 * sizes items := by
  induction items with
  | nil => exact Nat.zero_le _
  | cons node rest ih =>
      rw [List.forall_mem_cons] at h
      have hnode := h.1.room
      have hrest := ih h.2
      rw [List.map_cons, codeLengthInOrder, sizes_cons]
      omega

/-- Each alternative has room for the fork and the jump that choose it. -/
theorem codeLengthOfAny_le :
    codeLengthOfAny enc (items.map f) + 3 * (partsEach enc (items.map f)).length ≤
      72 * sizes items + 1 := by
  induction items with
  | nil => exact Nat.le_add_left _ _
  | cons node rest ih =>
      rw [List.forall_mem_cons] at h
      have hnode := h.1.room
      have hrest := ih h.2
      rw [List.map_cons, partsEach, sizes_cons, List.length_append]
      by_cases hnil : rest = []
      · subst hnil
        simp only [List.map_nil, codeLengthOfAny, partsEach, List.length_nil]
        omega
      · rw [codeLengthOfAny_cons (mt List.map_eq_nil_iff.mp hnil)]
        omega

theorem fitsIn_sequence : FitsIn enc (sizes items + 1) (.sequence (items.map f)) := by
  have hitems := codeLengthInOrder_le h
  refine ⟨?_⟩
  rw [codeLength, parts, List.length_singleton]
  · omega
  · rintro _ ⟨⟩

theorem fitsIn_alternation : FitsIn enc (sizes items + 1) (.alternation (items.map f)) := by
  have hitems := codeLengthOfAny_le h
  have hparts : ((Node.alternation (items.map f)).parts enc).length ≤
      (partsEach enc (items.map f)).length + 1 := by
    rw [parts]
    split
    · exact Nat.le_add_left _ _
    · exact Nat.le_succ _
  refine ⟨?_⟩
  rw [codeLength]
  omega

end Constructs

/-- Every tree fits in its nodes. -/
theorem fitsIn (tree : Tree) : FitsIn enc tree.size tree := by
  induction tree using Node.induct with
  | literal bytes ignoreCase =>
      refine fitsIn_leaf rfl ?_
      rw [codeLength]
      split <;> decide
  | set | anyChar | word | backref | anchor => exact fitsIn_leaf rfl (Nat.le_refl 1)
  | repeated lower upper greedy body ih => exact ih.repeated lower upper greedy
  | group number body ih | atomic body ih =>
      exact ih.wrap rfl (Nat.add_le_add_left (Nat.le_add_left 2 67) _)
  | look direction negated body ih => exact ih.look direction negated
  | sequence items ih =>
      have hitems := fitsIn_sequence (f := id) ih
      rwa [List.map_id] at hitems
  | alternation items ih =>
      have hitems := fitsIn_alternation (f := id) ih
      rwa [List.map_id] at hitems

/-- Trees with divided look-behinds fit in the nodes that they had before. -/
theorem fitsIn_divideAll (tree : Tree) (h : tree.Sound size) :
    FitsIn enc tree.size (divideAll enc tree) := by
  induction tree using Node.induct with
  | literal bytes ignoreCase => exact fitsIn _
  | set | anyChar | word | backref | anchor => exact fitsIn _
  | repeated lower upper greedy body ih => exact (ih h).repeated lower upper greedy
  | group number body ih | atomic body ih =>
      exact (ih h).wrap rfl (Nat.add_le_add_left (Nat.le_add_left 2 67) _)
  | look direction negated body ih =>
      cases direction with
      | ahead => exact (ih h).look .ahead negated
      | behind => exact (ih h).divide (sound_divideAll enc body h) negated
  | sequence items ih =>
      rw [divideAll, divideAllOf_eq_map]
      exact fitsIn_sequence fun node hnode => ih node hnode ((soundAll_iff _).mp h node hnode)
  | alternation items ih =>
      rw [divideAll, divideAllOf_eq_map]
      exact fitsIn_alternation fun node hnode => ih node hnode ((soundAll_iff _).mp h.2 node hnode)

/-- However repeats and look-behinds are nested, there are at most 72 instructions for each node of
a tree. -/
theorem length_emit_le {dialect : Dialect} {ids later : Ids} {code : Code} (h : tree.Sound size)
    (hemit : (Program.prepare enc dialect tree).emit enc ids = .ok (code, later)) :
    code.length + 1 ≤ 72 * tree.size := by
  have hfits : FitsIn enc tree.size (Program.prepare enc dialect tree) := by
    rw [Program.prepare]
    split
    · exact fitsIn_divideAll tree h
    · exact fitsIn tree
  have hroom := hfits.room
  rw [← length_emit _ hemit] at hroom
  omega

end Node

/-- The program of a pattern has at most 140 instructions for each node of the tree that the pattern
is read into. -/
theorem Program.size_code_le {pattern : List UInt8} {options : Options} {enc : Encoding}
    {dialect : Dialect} {limits : Limits} {parsed : Pattern.Parsed} {program : Program}
    (hread : Pattern.parse pattern options enc dialect limits = .ok parsed)
    (hcode : ofParsed pattern options enc dialect parsed = .ok program) :
    program.code.size ≤ 140 * parsed.tree.size := by
  have hsound : parsed.tree.Sound pattern.length := by
    have hends := Pattern.ends_parse pattern options enc dialect limits
    rw [hread] at hends
    exact hends
  rw [ofParsed] at hcode
  split at hcode
  · cases hcode
  · rename_i code later hemit
    cases hcode
    have hlength := Node.length_emit_le hsound hemit
    rw [List.size_toArray, List.length_append, List.length_singleton]
    omega

/-- The look-behind of `(?<=a|bc)(?:(?:x{60})+)+` is divided. The inner repeats are written out, and
the outer one is not. -/
theorem Program.size_code_le_nested : ∃ parsed program,
    Pattern.parse [40, 63, 60, 61, 97, 124, 98, 99, 41, 40, 63, 58, 40, 63, 58, 120, 123, 54, 48,
      125, 41, 43, 41, 43] {} .utf8 Dialect.standard {} = .ok parsed ∧
    ofParsed [40, 63, 60, 61, 97, 124, 98, 99, 41, 40, 63, 58, 40, 63, 58, 120, 123, 54, 48,
      125, 41, 43, 41, 43] {} .utf8 Dialect.standard parsed = .ok program ∧
    program.code.size = 135 ∧ program.code.size ≤ 140 * parsed.tree.size := by
  have hcomputed : ((Pattern.parse [40, 63, 60, 61, 97, 124, 98, 99, 41, 40, 63, 58, 40, 63, 58,
      120, 123, 54, 48, 125, 41, 43, 41, 43] {} .utf8 Dialect.standard {}).toOption.any
      fun parsed => (ofParsed [40, 63, 60, 61, 97, 124, 98, 99, 41, 40, 63, 58, 40, 63, 58, 120,
        123, 54, 48, 125, 41, 43, 41, 43] {} .utf8 Dialect.standard parsed).toOption.any
        fun program => program.code.size == 135) = true := by decide +kernel
  rcases exists_program hcomputed with ⟨parsed, program, hread, hcode, hsize⟩
  exact ⟨parsed, program, hread, hcode, eq_of_beq hsize, size_code_le hread hcode⟩

end RegexEngine
