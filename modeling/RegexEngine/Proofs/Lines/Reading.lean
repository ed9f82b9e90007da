import RegexEngine.Pattern.Parse
import RegexEngine.Proofs.Lines.Code

/-!
# Reading Under Line Options

A reader takes no decision by the two options that change how line anchors and dots are read. It
carries them along and writes them down at every anchor and every dot. So it reads the same tree
under them, but for the flags, unless a setting in the pattern switches one of the options. A
pattern without such a setting is told by a reader that refuses one where it meets it.

The reader that refuses and the one that reads under more options go in step. `Mirrors` says that
the second answers as the first does, with what the options change done to the answer, unless the
first has refused. One rule for what follows on an answer takes it through the levels of the
grammar.

## Main definitions

* `switchesLines`, `opensSwitch`: A setting switches one of the two options.
* `groupsRefusing`: The reader of parentheses that refuses such a setting.
* `Unswitched`: Reading a pattern meets no such setting.
* `Mirrors`, `Follows`: A result and a reader that go in step with others.

## Theorems

* `Mirrors.bind`: What follows on an answer.
* `mirrors_parenthesis`, `follows_alternatives`, `follows_groups`: The levels of the grammar.
* `resolve_withLines`: References are resolved in the same way.
* `parse_lines`: A pattern is read under the options as it is read without them.
-/

namespace RegexEngine

namespace Options

variable {m d : Bool} (options : Options)

@[simp] theorem union_lines_extended :
    (options.union (lines m d)).extended = options.extended :=
  Bool.or_false _

@[simp] theorem union_lines_ignoreCase :
    (options.union (lines m d)).ignoreCase = options.ignoreCase :=
  Bool.or_false _

theorem union_lines_false : options.union (lines false false) = options := by
  simp [union, lines]

@[simp] theorem union_lines_multiline :
    (options.union (lines m d)).multiline = (options.multiline || m) :=
  rfl

@[simp] theorem union_lines_dotAll : (options.union (lines m d)).dotAll = (options.dotAll || d) :=
  rfl

end Options

namespace Pattern

/-- Whether the letters of a setting switch `m` or `s`. -/
def switchesLines : List UInt8 → Bool
  | [] => false
  | b :: rest =>
    match char b with
    | 'm' | 's' => true
    | 'i' | 'x' | '-' => switchesLines rest
    | _ => false

/-- Whether the parenthesis that stands here opens a setting that switches `m` or `s`. -/
def opensSwitch (rest : List UInt8) : Bool :=
  startsWith rest.tail '?' && switchesLines rest.tail.tail

/-- Like `groupsWithin`, but fails where a setting switches `m` or `s`. -/
def groupsRefusing (env : Setting) (refusal : Failure) : (room : Nat) → Reader (Option Draft)
  | 0 => fun st => env.fail .parserBug st.rest
  | room + 1 => fun st =>
    if opensSwitch st.rest then .error refusal
    else parenthesis env (alternatives env (groupsRefusing env refusal room) true) st

/-- Reads a pattern up to its end, given the reader of its parentheses. -/
def readWith (groups : Setting → (room : Nat) → Reader (Option Draft)) (pattern : List UInt8)
    (options : Options) (encoding : Encoding) (dialect : Dialect) (limits : Limits) :
    Except Failure (Draft × State) :=
  let env : Setting :=
    { pattern := pattern, encoding := encoding, dialect := dialect,
      captureLimit := limits.captures, nestingLimit := limits.nesting }
  alternatives env (groups env limits.nesting) false
    { rest := pattern, options := options }

/-- No setting in a pattern switches `m` or `s`. A reader that meets one fails as it was told to
fail, whatever that is, so the pattern has none if there is a way in which it does not fail. -/
def Unswitched (pattern : List UInt8) (options : Options) (encoding : Encoding)
    (dialect : Dialect) (limits : Limits) : Prop :=
  ∃ refusal, readWith (fun env => groupsRefusing env refusal) pattern options encoding dialect
    limits ≠ .error refusal

/-- A pattern that is read though such settings are refused has none. -/
theorem Unswitched.of_read {pattern : List UInt8} {options : Options} {encoding : Encoding}
    {dialect : Dialect} {limits : Limits} (refusal : Failure)
    (h : (readWith (fun env => groupsRefusing env refusal) pattern options encoding dialect
      limits).toOption.isSome = true) : Unswitched pattern options encoding dialect limits := by
  refine ⟨refusal, fun hrefused => ?_⟩
  rw [hrefused] at h
  cases h

-- In `[(?m)]` the letter is a member of a class, and in `(?-s)a` it is switched off.
example : Unswitched [91, 40, 63, 109, 41, 93] {} .utf8 Dialect.standard {} :=
  .of_read { cause := .parserBug, offset := 0 } (by decide +kernel)

example : ¬ Unswitched [40, 63, 45, 115, 41, 97] {} .utf8 Dialect.standard {} :=
  fun ⟨_, hrefused⟩ => hrefused rfl

variable {α β γ δ : Type} {refusal : Failure} {m d : Bool} {env : Setting}

/-- The second result is the answer of the first with `f` done to it, or the same failure, unless
the first one is a refusal. -/
def Mirrors (refusal : Failure) (f : α → β) (x : Except Failure α) (y : Except Failure β) : Prop :=
  x = .error refusal ∨ y = x.map f

section Rules

variable {f : α → β} {x : Except Failure α} {y : Except Failure β}

theorem mirrors_error {failure : Failure} :
    Mirrors refusal f (.error failure) (.error failure) :=
  Or.inr rfl

/-- What does not depend on the options is the same. -/
theorem mirrors_same : Mirrors refusal id x x := by
  cases x <;> exact Or.inr rfl

/-- What follows on answers that go in step goes in step. -/
theorem Mirrors.bind {k : α → Except Failure γ} {k' : β → Except Failure δ} {g : γ → δ}
    (h : Mirrors refusal f x y) (hk : ∀ a, Mirrors refusal g (k a) (k' (f a))) :
    Mirrors refusal g (x >>= k) (y >>= k') := by
  rcases h with rfl | rfl
  · exact Or.inl rfl
  · cases x with
    | error failure => exact Or.inr rfl
    | ok a => exact hk a

end Rules

/-- The state in which options are added to those in force. -/
def State.withLines (m d : Bool) (st : State) : State :=
  { st with options := st.options.union (Options.lines m d) }

/-- What the options that are added make of the answer of a reader, given what they make of what is
read. -/
def lined (m d : Bool) (f : α → β) (answer : α × State) : β × State :=
  (f answer.1, answer.2.withLines m d)

/-- The second reader answers under more options as the first does, with `f` done to what is read,
unless the first one refuses. -/
def Follows (refusal : Failure) (m d : Bool) (f : α → β) (left : Reader α) (right : Reader β) :
    Prop :=
  ∀ st, Mirrors refusal (lined m d f) (left st) (right (st.withLines m d))

/-- Nothing becomes of an answer where no options are added. -/
theorem lined_false : lined false false (Node.withLines false false) = @id (Draft × State) := by
  funext ⟨draft, st⟩
  rw [lined, State.withLines, Options.union_lines_false, Node.withLines_false]
  rfl

section Items

variable {st : State} {start rest : List UInt8}

theorem mirrors_openGroup :
    Mirrors refusal (lined m d id) (st.openGroup env start)
      ((st.withLines m d).openGroup env start) := by
  have hgroups : (st.withLines m d).groups = st.groups := rfl
  rw [State.openGroup, State.openGroup, hgroups]
  split
  · exact mirrors_error
  · exact Or.inr rfl

theorem mirrors_nameGroup {name : List UInt8} {number : Nat} :
    Mirrors refusal (State.withLines m d) (st.nameGroup env start name number)
      ((st.withLines m d).nameGroup env start name number) := by
  have hnames : (st.withLines m d).names = st.names := rfl
  rw [State.nameGroup, State.nameGroup, hnames]
  split
  · exact Or.inr rfl
  · exact mirrors_error

theorem anchor_withLines {kind : Anchor} :
    (st.withLines m d).anchor kind = (st.anchor kind).withLines m d :=
  rfl

theorem literal_withLines {bytes : List UInt8} :
    (st.withLines m d).literal bytes = (st.literal bytes).withLines m d := by
  simp [State.literal, State.withLines, Node.withLines]

theorem backref_withLines {target : Reference} :
    (st.withLines m d).backref env target start = (st.backref env target start).withLines m d := by
  simp [State.backref, State.withLines, Node.withLines]

/-- A set has no flags, and neither has an escape for word characters. -/
theorem kindNode_withLines {kind : CharKind} {negated : Bool} :
    (kindNode env kind negated).withLines m d = kindNode env kind negated := by
  cases kind <;> rfl

/-- What is answered without a look at the options. -/
theorem mirrors_answer {node : Draft} :
    Mirrors refusal (lined m d (Node.withLines m d)) (.ok (node, { st with rest := rest }))
      (.ok (node.withLines m d, { st.withLines m d with rest := rest })) :=
  Or.inr rfl

theorem follows_numberEscape (esc : List UInt8) :
    Follows refusal m d (Node.withLines m d) (numberEscape env esc) (numberEscape env esc) := by
  intro st
  have hrest : (st.withLines m d).rest = st.rest := rfl
  have hgroups : (st.withLines m d).groups = st.groups := rfl
  simp only [numberEscape, hrest, hgroups, backref_withLines, literal_withLines]
  split
  · split
    · exact mirrors_error
    · exact mirrors_answer
  · split
    · exact mirrors_error
    · split
      · exact mirrors_answer
      · exact mirrors_same.bind fun bytes => mirrors_answer

theorem follows_characterEscape (esc : List UInt8) (b : UInt8) :
    Follows refusal m d (Node.withLines m d) (characterEscape env esc b)
      (characterEscape env esc b) := by
  intro st
  have hrest : (st.withLines m d).rest = st.rest := rfl
  simp only [characterEscape, hrest, literal_withLines]
  refine mirrors_same.bind fun ⟨code, rest⟩ => ?_
  simp only [id]
  split
  · exact mirrors_same.bind fun bytes => mirrors_answer
  · exact mirrors_same.bind fun bytes => mirrors_answer

theorem follows_escape :
    Follows refusal m d (Node.withLines m d) (escape env) (escape env) := by
  intro st
  -- What the added options do not change: the text that is left and how many groups there are.
  have hrest : (st.withLines m d).rest = st.rest := rfl
  have hgroups : (st.withLines m d).groups = st.groups := rfl
  simp only [escape, hrest, hgroups, backref_withLines, anchor_withLines]
  split
  · exact mirrors_error
  · rename_i b tail hbyte
    -- The kinds of escapes are tried in the order of the reader.
    split
    · rename_i kind negated hkind
      have hnode := @kindNode_withLines m d env kind negated
      exact Or.inr (by rw [Except.map, lined, hnode]; rfl)
    · split
      · exact mirrors_answer
      · split
        · exact mirrors_same.bind fun ⟨target, rest⟩ => mirrors_answer
        · split
          · exact follows_numberEscape st.rest { st with rest := b :: tail }
          · exact follows_characterEscape st.rest b { st with rest := b :: tail }

theorem follows_simpleItem :
    Follows refusal m d (Node.withLines m d) (simpleItem env) (simpleItem env) := by
  intro st
  -- Only dots and anchors look at the added options, and the trees of the two readers differ in
  -- just that.
  have hrest : (st.withLines m d).rest = st.rest := rfl
  have hcase : (st.withLines m d).options.ignoreCase = st.options.ignoreCase :=
    Options.union_lines_ignoreCase _
  have hdot : (st.withLines m d).options.dotAll = (st.options.dotAll || d) := rfl
  simp only [simpleItem, hrest, hcase, hdot, literal_withLines, anchor_withLines]
  split
  · exact mirrors_error
  · split
    · exact mirrors_same.bind fun ⟨chars, rest⟩ => mirrors_answer
    · exact mirrors_answer
    · exact mirrors_answer
    · exact mirrors_answer
    · exact follows_escape st
    · split
      · exact mirrors_error
      · exact mirrors_answer

end Items

section Groups

variable {inside inside' : Reader Draft} {start : List UInt8}

theorem follows_groupBody (h : Follows refusal m d (Node.withLines m d) inside inside') :
    Follows refusal m d (Node.withLines m d) (groupBody inside) (groupBody inside') := by
  intro st
  exact (h st).bind fun ⟨body, after⟩ => Or.inr rfl

theorem follows_namedGroup {close : Char}
    (h : Follows refusal m d (Node.withLines m d) inside inside') :
    Follows refusal m d (Node.withLines m d) (namedGroup env inside start close)
      (namedGroup env inside' start close) := by
  intro st
  refine mirrors_same.bind fun ⟨name, rest⟩ => ?_
  refine mirrors_openGroup.bind fun ⟨number, opened⟩ => ?_
  refine mirrors_nameGroup.bind fun named => ?_
  exact (follows_groupBody h named).bind fun ⟨body, after⟩ => Or.inr rfl

theorem follows_lookAround {direction : Direction} {negated : Bool}
    (h : Follows refusal m d (Node.withLines m d) inside inside') :
    Follows refusal m d (Node.withLines m d) (lookAround inside direction negated)
      (lookAround inside' direction negated) := by
  intro st
  exact (follows_groupBody h st).bind fun ⟨body, after⟩ => Or.inr rfl

theorem follows_atomicGroup (h : Follows refusal m d (Node.withLines m d) inside inside') :
    Follows refusal m d (Node.withLines m d) (atomicGroup inside) (atomicGroup inside') := by
  intro st
  exact (follows_groupBody h st).bind fun ⟨body, after⟩ => Or.inr rfl

theorem follows_leavesNode (h : Follows refusal m d (Node.withLines m d) inside inside') :
    Follows refusal m d (Option.map (Node.withLines m d)) (leavesNode inside)
      (leavesNode inside') := by
  intro st
  exact (h st).bind fun ⟨draft, after⟩ => Or.inr rfl

/-- A letter of such a setting switches no option that is added, and the letters behind it do not
either. -/
theorem setOption?_withLines {options : Options} {value : Bool} {b : UInt8} {rest : List UInt8}
    (h : switchesLines (b :: rest) = false) :
    setOption? (options.union (Options.lines m d)) (char b) value =
        (setOption? options (char b) value).map (Options.union · (Options.lines m d)) ∧
      ((setOption? options (char b) value).isSome → switchesLines rest = false) := by
  rw [switchesLines] at h
  unfold setOption?
  split at h
  · cases h
  · cases h
  · rename_i hletter
    simp [hletter, Options.union, Options.lines, h]
  · rename_i hletter
    simp [hletter, Options.union, Options.lines, h]
  · rename_i hletter
    simp [hletter]
  · simp

/-- The letters of a setting that switches neither `m` nor `s` leave the options that are added. -/
theorem mirrors_optionLetters {options : Options} {value : Bool} {rest : List UInt8}
    (h : switchesLines rest = false) :
    Mirrors refusal (Prod.map (Options.union · (Options.lines m d)) id)
      (optionLetters env options value rest)
      (optionLetters env (options.union (Options.lines m d)) value rest) := by
  -- By induction on the letters. A sign changes whether the letters behind it are switched on or
  -- off.
  induction rest generalizing options value with
  | nil => exact mirrors_error
  | cons b rest ih =>
      rw [optionLetters, optionLetters]
      split
      · rename_i hletter
        rw [switchesLines, hletter] at h
        exact ih h
      · exact Or.inr rfl
      · exact Or.inr rfl
      -- A letter that is neither `m` nor `s` sets another option, and the added ones stay.
      · rcases @setOption?_withLines m d options value b rest h with ⟨hset, hrest⟩
        rw [hset]
        rcases hfound : setOption? options (char b) value with _ | found
        · exact mirrors_error
        · rw [hfound] at hrest
          exact ih (hrest rfl)

/-- A setting that switches neither `m` nor `s`, and the group it applies to. -/
theorem mirrors_optionGroup {st : State}
    (h : Follows refusal m d (Node.withLines m d) inside inside')
    (hletters : switchesLines st.rest = false) :
    Mirrors refusal (lined m d (Option.map (Node.withLines m d))) (optionGroup env inside st)
      (optionGroup env inside' (st.withLines m d)) := by
  refine (mirrors_optionLetters hletters).bind fun ⟨options, hasGroup, rest⟩ => ?_
  simp only [Prod.map, id]
  split
  · exact (follows_groupBody h _).bind fun ⟨body, after⟩ => Or.inr rfl
  · exact Or.inr rfl

theorem follows_angleGroup (h : Follows refusal m d (Node.withLines m d) inside inside') :
    Follows refusal m d (Node.withLines m d) (angleGroup env inside start)
      (angleGroup env inside' start) := by
  intro st
  have hrest : (st.withLines m d).rest = st.rest := rfl
  simp only [angleGroup, hrest]
  split
  · exact follows_lookAround h { st with rest := st.rest.tail }
  · split
    · exact mirrors_error
    · split
      · exact follows_namedGroup h st
      · exact mirrors_error

theorem follows_capitalGroup (h : Follows refusal m d (Node.withLines m d) inside inside') :
    Follows refusal m d (Node.withLines m d) (capitalGroup env inside start)
      (capitalGroup env inside' start) := by
  intro st
  have hrest : (st.withLines m d).rest = st.rest := rfl
  simp only [capitalGroup, hrest, backref_withLines]
  split
  · exact mirrors_error
  · rename_i b rest hbyte
    split
    · exact follows_namedGroup h { st with rest := rest }
    · exact mirrors_same.bind fun ⟨name, rest⟩ => mirrors_answer
    · exact mirrors_error

theorem follows_commentGroup :
    Follows refusal m d (Option.map (Node.withLines m d)) (commentGroup env)
      (commentGroup env) := by
  intro st
  have hrest : (st.withLines m d).rest = st.rest := rfl
  simp only [commentGroup, hrest]
  split
  · exact mirrors_error
  · exact Or.inr rfl

/-- What follows `(?`, unless it is a setting that switches `m` or `s`. -/
theorem mirrors_specialGroup {st : State}
    (h : Follows refusal m d (Node.withLines m d) inside inside')
    (hletters : switchesLines st.rest = false) :
    Mirrors refusal (lined m d (Option.map (Node.withLines m d)))
      (specialGroup env inside start st) (specialGroup env inside' start (st.withLines m d)) := by
  have hrest : (st.withLines m d).rest = st.rest := rfl
  simp only [specialGroup, hrest]
  split
  · exact mirrors_error
  · rename_i b rest hbyte
    -- Each sign has its own reader, which is known to follow. Settings are the only one that needs
    -- the hypothesis.
    split
    · exact follows_commentGroup { st with rest := rest }
    · exact follows_leavesNode (follows_groupBody h) { st with rest := rest }
    · exact follows_leavesNode (follows_lookAround h) { st with rest := rest }
    · exact follows_leavesNode (follows_atomicGroup h) { st with rest := rest }
    · exact follows_leavesNode (follows_angleGroup h) { st with rest := rest }
    · exact follows_leavesNode (follows_namedGroup h) { st with rest := rest }
    · exact follows_leavesNode (follows_capitalGroup h) { st with rest := rest }
    · exact mirrors_optionGroup h hletters
    · exact mirrors_error

/-- A parenthesis that opens no such setting. -/
theorem mirrors_parenthesis {st : State}
    (h : Follows refusal m d (Node.withLines m d) inside inside')
    (hplain : opensSwitch st.rest = false) :
    Mirrors refusal (lined m d (Option.map (Node.withLines m d))) (parenthesis env inside st)
      (parenthesis env inside' (st.withLines m d)) := by
  have hrest : (st.withLines m d).rest = st.rest := rfl
  simp only [parenthesis, hrest]
  split
  · rename_i hspecial
    rw [opensSwitch, hspecial, Bool.true_and] at hplain
    exact @mirrors_specialGroup refusal m d env inside inside' st.rest
      { st with rest := st.rest.tail.tail } h hplain
  · have hopen := @mirrors_openGroup refusal m d env { st with rest := st.rest.tail } st.rest
    refine hopen.bind fun ⟨number, opened⟩ => ?_
    exact (follows_groupBody h opened).bind fun ⟨body, after⟩ => Or.inr rfl

end Groups

section Branches

variable {ρ : Type} {group group' : Reader (Option Draft)}

theorem skipBlank_withLines (options : Options) (rest : List UInt8) :
    skipBlank (options.union (Options.lines m d)) rest = skipBlank options rest := by
  rw [skipBlank, skipBlank, Options.union_lines_extended]

theorem refusesRepeat_withLines (node : Node ρ) :
    refusesRepeat (node.withLines m d) = refusesRepeat node := by
  cases node <;> rfl

theorem apply_withLines (q : Quantifier) (body : Node ρ) :
    q.apply (body.withLines m d) = (q.apply body).withLines m d := by
  simp only [Quantifier.apply]
  split <;> rfl

theorem follows_repeats {fuel wraps : Nat} {node : Draft} :
    Follows refusal m d (Node.withLines m d) (repeats env fuel wraps node)
      (repeats env fuel wraps (node.withLines m d)) := by
  -- By induction on the fuel. The operators are found at the same places and wrap the same trees,
  -- up to what is added.
  induction fuel generalizing wraps node with
  | zero => exact fun st => mirrors_error
  | succ fuel ih =>
      intro st
      have hblank : skipBlank (st.withLines m d).options (st.withLines m d).rest =
          skipBlank st.options st.rest := skipBlank_withLines _ _
      have hdepth : (st.withLines m d).depth = st.depth := rfl
      simp only [repeats, hblank, hdepth, refusesRepeat_withLines]
      refine mirrors_same.bind fun found => ?_
      rcases found with _ | ⟨q, after⟩
      · exact Or.inr rfl
      · simp only [id]
        split
        · exact mirrors_error
        · split
          · exact ih { st with rest := after }
          · split
            · exact mirrors_error
            · rw [apply_withLines]
              exact ih { st with rest := after, depth := st.depth + 1 }

theorem joinLiteral_withLines (branch : List (Node ρ)) (node : Node ρ) :
    joinLiteral (branch.map (Node.withLines m d)) (node.withLines m d) =
      (joinLiteral branch node).map (Node.withLines m d) := by
  cases branch with
  | nil => cases node <;> rfl
  | cons first before =>
      cases first with
      | literal bytes ignoreCase =>
          cases node with
          | literal more moreIgnoreCase =>
              simp only [joinLiteral, List.map_cons, Node.withLines]
              split <;> rfl
          | _ => rfl
      | _ => rfl

theorem joinLiterals_withLines (items : List (Node ρ)) :
    joinLiterals (items.map (Node.withLines m d)) =
      (joinLiterals items).map (Node.withLines m d) := by
  have hfold : ∀ branch : List (Node ρ),
      (items.map (Node.withLines m d)).foldl joinLiteral (branch.map (Node.withLines m d)) =
        (items.foldl joinLiteral branch).map (Node.withLines m d) := by
    induction items with
    | nil => exact fun branch => rfl
    | cons node rest ih =>
        intro branch
        rw [List.map_cons, List.foldl_cons, List.foldl_cons, joinLiteral_withLines, ih]
  rw [joinLiterals, joinLiterals, List.map_reverse, ← hfold []]
  rfl

theorem branchNode_withLines (items : List (Node ρ)) :
    branchNode (items.map (Node.withLines m d)) = (branchNode items).withLines m d := by
  rw [branchNode, branchNode, joinLiterals_withLines]
  rcases joinLiterals items with _ | ⟨first, _ | ⟨second, rest⟩⟩
  · rfl
  · rfl
  · rw [← Node.withLinesOf_eq_map]
    rfl

theorem alternationNode_withLines (nodes : List (Node ρ)) :
    alternationNode (nodes.map (Node.withLines m d)) = (alternationNode nodes).withLines m d := by
  rcases nodes with _ | ⟨first, _ | ⟨second, rest⟩⟩
  · rfl
  · rfl
  · rw [← Node.withLinesOf_eq_map]
    rfl

/-- What was read last node first is turned round. -/
theorem mirrors_reverse {nodes : List Draft} {st : State} :
    Mirrors refusal (lined m d (List.map (Node.withLines m d))) (.ok (nodes.reverse, st))
      (.ok ((nodes.map (Node.withLines m d)).reverse, st.withLines m d)) := by
  rw [← List.map_reverse]
  exact Or.inr rfl

theorem follows_item (h : Follows refusal m d (Option.map (Node.withLines m d)) group group') :
    Follows refusal m d (Option.map (Node.withLines m d)) (item env group) (item env group') := by
  intro st
  have hrest : (st.withLines m d).rest = st.rest := rfl
  have hdepth : (st.withLines m d).depth = st.depth := rfl
  simp only [item, hrest]
  split
  · simp only [deeper, hdepth, hrest]
    split
    · exact mirrors_error
    · exact (h { st with depth := st.depth + 1 }).bind fun _ => Or.inr rfl
  · exact follows_leavesNode follows_simpleItem st

theorem follows_branchItems
    (h : Follows refusal m d (Option.map (Node.withLines m d)) group group') {fuel : Nat}
    {items : List Draft} :
    Follows refusal m d (List.map (Node.withLines m d)) (branchItems env group fuel items)
      (branchItems env group' fuel (items.map (Node.withLines m d))) := by
  -- By induction on the fuel. Blank space does not depend on the added options, so the items are
  -- the same ones.
  induction fuel generalizing items with
  | zero => exact fun st => mirrors_error
  | succ fuel ih =>
      intro st
      have hblank : skipBlank (st.withLines m d).options (st.withLines m d).rest =
          skipBlank st.options st.rest := skipBlank_withLines _ _
      simp only [branchItems, hblank]
      split
      · exact @mirrors_reverse refusal m d items { st with rest := _ }
      · refine mirrors_same.bind fun found => ?_
        rcases found with _ | q
        · refine (follows_item h { st with rest := _ }).bind fun ⟨node?, after⟩ => ?_
          rcases node? with _ | node
          · exact ih after
          · refine (follows_repeats after).bind fun ⟨node, last⟩ => ?_
            exact @ih (node :: items) last
        · exact mirrors_error

theorem follows_branch
    (h : Follows refusal m d (Option.map (Node.withLines m d)) group group') :
    Follows refusal m d (Node.withLines m d) (branch env group) (branch env group') := by
  intro st
  refine (@follows_branchItems refusal m d env group group' h _ [] st).bind
    fun ⟨items, after⟩ => ?_
  exact Or.inr (congrArg (fun node => Except.ok (node, after.withLines m d))
    (branchNode_withLines items))

theorem follows_branches
    (h : Follows refusal m d (Option.map (Node.withLines m d)) group group') {inGroup : Bool}
    {fuel : Nat} {nodes : List Draft} :
    Follows refusal m d (List.map (Node.withLines m d))
      (branches env group inGroup fuel nodes)
      (branches env group' inGroup fuel (nodes.map (Node.withLines m d))) := by
  -- By induction on the fuel. The branches end at the same places, and so do the alternations.
  induction fuel generalizing nodes with
  | zero => exact fun st => mirrors_error
  | succ fuel ih =>
      intro st
      refine (follows_branch h st).bind fun ⟨node, after⟩ => ?_
      have hrest : (after.withLines m d).rest = after.rest := rfl
      simp only [lined, hrest]
      split
      · split
        · exact mirrors_error
        · exact @mirrors_reverse refusal m d (node :: nodes) after
      · rename_i b rest hbyte
        split
        · exact @ih (node :: nodes) { after with rest := rest }
        · split
          · exact @mirrors_reverse refusal m d (node :: nodes) after
          · exact mirrors_error
        · exact mirrors_error

/-- An alternation is read as its parentheses are. -/
theorem follows_alternatives
    (h : Follows refusal m d (Option.map (Node.withLines m d)) group group') {inGroup : Bool} :
    Follows refusal m d (Node.withLines m d) (alternatives env group inGroup)
      (alternatives env group' inGroup) := by
  intro st
  refine (@follows_branches refusal m d env group group' h inGroup _ [] st).bind
    fun ⟨nodes, after⟩ => ?_
  exact Or.inr (congrArg (fun node => Except.ok (node, after.withLines m d))
    (alternationNode_withLines nodes))

/-- Parentheses are read by both, unless one opens a setting that is refused. -/
theorem follows_groups (room : Nat) :
    Follows refusal m d (Option.map (Node.withLines m d)) (groupsRefusing env refusal room)
      (groupsWithin env room) := by
  induction room with
  | zero => exact fun st => mirrors_error
  | succ room ih =>
      intro st
      simp only [groupsRefusing, groupsWithin]
      split
      · exact Or.inl rfl
      · rename_i hplain
        rw [Bool.not_eq_true] at hplain
        exact mirrors_parenthesis (follows_alternatives ih) hplain

end Branches

section Patterns

variable {groups : Nat} {names : GroupNames}

theorem resolveAll_withLines {items : List Draft}
    (h : ∀ node ∈ items, resolve groups names (node.withLines m d) =
      Node.withLines m d <$> resolve groups names node) :
    resolveAll groups names (Node.withLinesOf m d items) =
      Node.withLinesOf m d <$> resolveAll groups names items := by
  induction items with
  | nil => rfl
  | cons node rest ih =>
      rw [List.forall_mem_cons] at h
      simp only [Node.withLinesOf, resolveAll, h.1, ih h.2, bind_map_left, map_bind]
      rfl

/-- References are resolved in the same way. -/
theorem resolve_withLines (draft : Draft) :
    resolve groups names (draft.withLines m d) =
      Node.withLines m d <$> resolve groups names draft := by
  induction draft using Node.induct with
  | backref target ignoreCase offset =>
      simp only [Node.withLines, resolve, map_bind]
      congr 1
      funext numbers
      split <;> rfl
  | repeated lower upper greedy body ih | group number body ih | atomic body ih
  | look direction negated body ih =>
      simp only [Node.withLines, resolve, ih, bind_map_left, map_bind]
      rfl
  | sequence items ih | alternation items ih =>
      simp only [Node.withLines, resolve, resolveAll_withLines ih, bind_map_left, map_bind]
      rfl
  | _ => rfl

/-- What becomes of a pattern that was read where options are added. -/
def Parsed.withLines (m d : Bool) (parsed : Parsed) : Parsed :=
  { parsed with
    tree := parsed.tree.withLines m d, options := parsed.options.union (Options.lines m d) }

variable {pattern : List UInt8} {options : Options} {encoding : Encoding} {dialect : Dialect}
  {limits : Limits}

/-- The whole of a pattern is read in step. -/
theorem mirrors_readWith :
    Mirrors refusal (lined m d (Node.withLines m d))
      (readWith (fun env => groupsRefusing env refusal) pattern options encoding dialect limits)
      (readWith groupsWithin pattern (options.union (Options.lines m d)) encoding dialect limits) :=
  follows_alternatives (follows_groups limits.nesting) { rest := pattern, options := options }

/-- A pattern without settings of `m` and `s` is read to its end in the same way. -/
theorem readWith_lines (h : Unswitched pattern options encoding dialect limits) :
    readWith groupsWithin pattern (options.union (Options.lines m d)) encoding dialect limits =
      (readWith groupsWithin pattern options encoding dialect limits).map
        (lined m d (Node.withLines m d)) := by
  rcases h with ⟨refusal, hrefusal⟩
  -- Nothing is refused, so both readers are at one where no options are added.
  have hplain := (@mirrors_readWith refusal false false pattern options encoding dialect
    limits).resolve_left hrefusal
  rw [Options.union_lines_false, lined_false, Except.map_id] at hplain
  rw [hplain]
  exact mirrors_readWith.resolve_left hrefusal

/-- A pattern without settings of `m` and `s` is read under more options as without them. -/
theorem parse_lines (h : Unswitched pattern options encoding dialect limits) :
    parse pattern (options.union (Options.lines m d)) encoding dialect limits =
      (parse pattern options encoding dialect limits).map (Parsed.withLines m d) := by
  -- Reading is checking the text, reading the draft and resolving it, in this order.
  have hparse : ∀ options, parse pattern options encoding dialect limits =
      if !encoding.isValid pattern then
        .error { cause := .invalidCodePoint, offset := encoding.validPrefixLength pattern }
      else readWith groupsWithin pattern options encoding dialect limits >>= fun answer =>
        resolve answer.2.groups answer.2.names answer.1 >>= fun tree =>
          .ok
            { tree := tree, groups := answer.2.groups, names := answer.2.names,
              options := answer.2.options,
              offset := Setting.offset ⟨pattern, encoding, dialect, limits.captures, limits.nesting⟩
                answer.2.rest } := fun _ => rfl
  rw [hparse, hparse, readWith_lines h]
  split
  · rfl
  · rcases readWith groupsWithin pattern options encoding dialect limits with
      failure | ⟨draft, after⟩
    · rfl
    · change (resolve after.groups after.names (draft.withLines m d) >>= _) = _
      rw [resolve_withLines]
      change _ = Except.map _ (resolve after.groups after.names draft >>= _)
      rcases resolve after.groups after.names draft with failure | tree <;> rfl

end Patterns

end Pattern

end RegexEngine
