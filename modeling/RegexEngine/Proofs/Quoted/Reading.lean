import RegexEngine.Pattern.Parse
import RegexEngine.Proofs.Coding.Ahead
import RegexEngine.Proofs.Reading.Text

/-!
# Reading Quoted Text

A text is quoted by a backslash before every character of US-ASCII that is neither a letter nor a
digit. All signs of patterns are such characters, and none of them is left alone where a text is
quoted. So a reader that has come to a character of the quoted text finds no operator, no
parenthesis and no end of a branch. It reads the character, as it is or as an escape, and has then
come to the next one; in the extended notation, it leaves out whatever blank space and comments
stand between.

When the branch is complete its literals are joined, and the text is back in one piece.

## Main definitions

* `isSign`: A byte is quoted.
* `Filler`: Blank space and comments.
* `spaced`, `quote`: A quoted text, with something between its characters or without.
* `Quotes`: A pattern is a quoted text.

## Theorems

* `simpleItem_quoteChar`: A quoted character is read as the character.
* `branchItems_spaced`: A quoted text is read character by character.
* `branchNode_literals`: Literals are joined.
* `parse_quoted`: A quoted text is read as a literal.
-/

namespace RegexEngine

namespace Pattern

/-- Whether a byte is one of US-ASCII and stands neither for a letter nor for a digit. -/
def isSign (b : UInt8) : Bool :=
  b < 0x80 && !((0x30 ≤ b && b ≤ 0x39) || (0x41 ≤ b && b ≤ 0x5a) || (0x61 ≤ b && b ≤ 0x7a))

/-- A character with a backslash before it, if it is quoted. -/
def quoteChar : List UInt8 → List UInt8
  | [b] => if isSign b then [0x5c, b] else [b]
  | char => char

/-- Quoted characters, with gaps before, between and after them. -/
def spaced (gap : Nat → List UInt8) : List (List UInt8) → List UInt8
  | [] => gap 0
  | char :: rest => gap 0 ++ (quoteChar char ++ spaced (fun i => gap (i + 1)) rest)

/-- A quoted text. -/
def quote (enc : Encoding) (text : List UInt8) : List UInt8 :=
  (enc.characters text).flatMap quoteChar

/-- Blank space, and comments from a number sign to the end of the line. -/
inductive Filler (enc : Encoding) : List UInt8 → Prop
  | nil : Filler enc []
  | blank {b : UInt8} {rest : List UInt8} (blank : b ∈ [0x09, 0x0a, 0x0b, 0x0c, 0x0d, 0x20])
      (later : Filler enc rest) : Filler enc (b :: rest)
  | comment {text rest : List UInt8} (valid : enc.isValid text = true) (line : 0x0a ∉ text)
      (later : Filler enc rest) : Filler enc (0x23 :: (text ++ 0x0a :: rest))

/-- A pattern is a quoted text. In the extended notation there may be fillers before, between and
after its characters. -/
def Quotes (enc : Encoding) (extended : Bool) (text pattern : List UInt8) : Prop :=
  pattern = quote enc text ∨
    extended = true ∧ ∃ gap, (∀ i, Filler enc (gap i)) ∧ pattern = spaced gap (enc.characters text)

variable {enc : Encoding} {env : Setting} {options : Options} {b : UInt8}
  {rest text : List UInt8}

section Signs

theorem char_injective {b c : UInt8} (h : char b = char c) : b = c :=
  UInt8.toNat_inj.mp (congrArg Char.toNat h)

/-- A byte that is not quoted is no sign of a pattern. -/
theorem char_ne_sign (sign : UInt8) (hb : isSign b = false) (hsign : isSign sign = true) :
    char b ≠ char sign := by
  intro h
  rw [char_injective h, hsign] at hb
  cases hb

theorem isSign_of_isBlank (h : isBlank b = true) : isSign b = true := by
  simp only [isBlank, isSign, Bool.or_eq_true, Bool.and_eq_true, decide_eq_true_eq, beq_iff_eq,
    Bool.not_eq_true', Bool.or_eq_false_iff, Bool.and_eq_false_iff, decide_eq_false_iff_not,
    UInt8.lt_iff_toNat_lt, UInt8.le_iff_toNat_le, ← UInt8.toNat_inj, UInt8.reduceToNat] at h ⊢
  omega

theorem isSign_ascii (h : isSign b = true) : b < 0x80 := by
  rw [isSign, Bool.and_eq_true, decide_eq_true_eq] at h
  exact h.1

theorem leadLength_sign (h : isSign b = true) : enc.leadLength b = 1 := by
  cases enc with
  | utf8 => exact Utf8.leadLength_ascii (isSign_ascii h)
  | ascii => rfl

/-- A byte that is quoted is neither a letter nor a digit. -/
theorem char_ne_alphanum {c : Char} (hb : isSign b = true) (hc : c.isAlphanum = true) :
    char b ≠ c := by
  have hall : ∀ i : Fin 256, isSign (.ofFin i) = true → (char (.ofFin i)).isAlphanum = false := by
    decide +kernel
  rintro rfl
  exact Bool.false_ne_true ((hall b.toFin hb).symm.trans hc)

/-- The text ahead is at its end, or starts with a backslash or with a byte that is not quoted. -/
def StartsPlain (rest : List UInt8) : Prop :=
  ∀ b ∈ rest.head?, b = 0x5c ∨ isSign b = false

theorem startsWith_plain (sign : UInt8) (h : StartsPlain rest) (hsign : isSign sign = true)
    (hne : sign ≠ 0x5c) : startsWith rest (char sign) = false := by
  cases rest with
  | nil => rfl
  | cons b rest =>
      rw [startsWith, beq_eq_false_iff_ne]
      rcases h b rfl with rfl | hb
      · exact fun heq => hne (char_injective heq).symm
      · exact char_ne_sign sign hb hsign

/-- There is nothing to skip. -/
theorem skipBlank_plain (h : StartsPlain rest) : skipBlank options rest = rest := by
  rw [skipBlank]
  split
  · cases rest with
    | nil => rfl
    | cons b rest =>
        have hcomment := startsWith_plain 0x23 h rfl (by decide)
        have hblank : isBlank b = false := by
          rcases h b rfl with rfl | hb
          · rfl
          · by_contra hblank
            rw [Bool.not_eq_false] at hblank
            rw [isSign_of_isBlank hblank] at hb
            cases hb
        rw [skipBlankFrom, hblank, if_neg Bool.false_ne_true, if_neg]
        exact (Bool.eq_false_iff.mp hcomment)
  · rfl

/-- No branch ends here. -/
theorem atBranchEnd_plain (h : StartsPlain rest) (hne : rest ≠ []) : atBranchEnd rest = false := by
  rw [atBranchEnd, Bool.or_eq_false_iff, Bool.or_eq_false_iff, List.isEmpty_eq_false_iff]
  exact ⟨⟨hne, startsWith_plain 0x7c h rfl (by decide)⟩,
    startsWith_plain 0x29 h rfl (by decide)⟩

/-- No repeat operator stands here. -/
theorem quantifier_plain (h : StartsPlain rest) : quantifier? env rest = .ok none := by
  cases rest with
  | nil => rfl
  | cons b rest =>
      rcases h b rfl with rfl | hb
      · rfl
      · rw [quantifier?.eq_def]
        simp only
        split
        · exact absurd ‹_› (char_ne_sign 0x2a hb rfl)
        · exact absurd ‹_› (char_ne_sign 0x2b hb rfl)
        · exact absurd ‹_› (char_ne_sign 0x3f hb rfl)
        · exact absurd ‹_› (char_ne_sign 0x7b hb rfl)
        · rfl

end Signs

section Characters

variable {lead : UInt8} {tails : List UInt8} {gap : Nat → List UInt8} {chars : List (List UInt8)}
  {st : State}

/-- A character is quoted if it is a sign, and then it is a single byte. -/
theorem quoteChar_cases (h : enc.leadLength lead = tails.length + 1) :
    (isSign lead = true ∧ tails = [] ∧ quoteChar (lead :: tails) = [0x5c, lead]) ∨
      isSign lead = false ∧ quoteChar (lead :: tails) = lead :: tails := by
  cases hsign : isSign lead with
  | true =>
      have hone : enc.leadLength lead = 1 := leadLength_sign hsign
      obtain rfl := List.eq_nil_of_length_eq_zero (show tails.length = 0 by omega)
      exact .inl ⟨rfl, rfl, by rw [quoteChar, hsign, if_pos rfl]⟩
  | false =>
      refine .inr ⟨rfl, ?_⟩
      cases tails with
      | nil => rw [quoteChar, hsign, if_neg Bool.false_ne_true]
      | cons => rfl

theorem startsPlain_quoteChar (h : enc.leadLength lead = tails.length + 1) (more : List UInt8) :
    StartsPlain (quoteChar (lead :: tails) ++ more) := by
  rcases quoteChar_cases h with ⟨-, rfl, hquoted⟩ | ⟨hsign, hquoted⟩
  · rw [hquoted]
    rintro b ⟨⟩
    exact .inl rfl
  · rw [hquoted]
    rintro b ⟨⟩
    exact .inr hsign

theorem kindEscape_sign {dialect : Dialect} (hsign : isSign b = true) :
    kindEscape? dialect b = none := by
  rw [kindEscape?.eq_def]
  split
  all_goals
    first
    | rfl
    | rename_i heq
      exact absurd heq (char_ne_alphanum hsign rfl)

theorem anchorEscape_sign {dialect : Dialect} (hsign : isSign b = true) :
    anchorEscape? dialect b = none := by
  rw [anchorEscape?.eq_def]
  split
  all_goals
    first
    | rfl
    | rename_i heq
      exact absurd heq (char_ne_alphanum hsign rfl)

theorem controlEscape_sign (hsign : isSign b = true) : controlEscape? b = none := by
  rw [controlEscape?.eq_def]
  split
  all_goals
    first
    | rfl
    | rename_i heq
      exact absurd heq (char_ne_alphanum hsign rfl)

/-- A sign behind a backslash names no code. -/
theorem namesCode_sign (hsign : isSign b = true) : namesCode b = false := by
  have hne : ∀ c : Char, c.isAlphanum = true → (char b == c) = false := fun c hc =>
    beq_eq_false_iff_ne.mpr (char_ne_alphanum hsign hc)
  rw [namesCode, controlEscape_sign hsign, hne 'x' rfl, hne 'u' rfl, hne '0' rfl]
  rfl

/-- It is the code of the sign that is meant. -/
theorem escapedCode_sign {esc : List UInt8} (hsign : isSign b = true) :
    escapedCode env esc (b :: rest) = .ok (env.encoding.decode [b], rest) := by
  rw [escapedCode, controlEscape_sign hsign]
  simp only
  split
  · exact absurd ‹_› (char_ne_alphanum hsign rfl)
  · exact absurd ‹_› (char_ne_alphanum hsign rfl)
  · exact absurd ‹_› (char_ne_alphanum hsign rfl)
  · rw [show b :: rest = [b] ++ rest from rfl, Encoding.splitFirst_append (leadLength_sign hsign)]

theorem isDigit_sign (hsign : isSign b = true) : isDigit b = false := by
  rw [isSign, Bool.and_eq_true, Bool.not_eq_true', Bool.or_eq_false_iff, Bool.or_eq_false_iff]
    at hsign
  exact hsign.2.1.1

theorem slice_cons : env.slice (b :: rest) rest = .ok [b] := by
  rw [Setting.slice, List.length_cons, if_pos (Nat.le_succ _), Nat.add_sub_cancel_left]
  rfl

/-- A sign behind a backslash is read as itself. -/
theorem escape_sign (hsign : isSign b = true) (hrest : st.rest = 0x5c :: b :: rest) :
    escape env st = .ok (st.literal [b], { st with rest := rest }) := by
  have hname : (char b == 'k') = false :=
    beq_eq_false_iff_ne.mpr (char_ne_alphanum hsign rfl)
  rw [escape, hrest, List.tail_cons]
  simp only [kindEscape_sign hsign, anchorEscape_sign hsign, hname, isDigit_sign hsign,
    Bool.false_eq_true, if_false, Bool.false_and]
  simp only [characterEscape, escapedCode_sign hsign, namesCode_sign hsign, bind, Except.bind,
    Bool.false_eq_true, if_false, slice_cons]
  rfl

/-- A quoted character is read as the character. -/
theorem simpleItem_quoteChar (h : env.encoding.leadLength lead = tails.length + 1)
    (hrest : st.rest = quoteChar (lead :: tails) ++ rest) :
    simpleItem env st = .ok (st.literal (lead :: tails), { st with rest := rest }) := by
  -- A sign is quoted with a backslash, which makes it stand for itself.
  rcases quoteChar_cases h with ⟨hsign, rfl, hquoted⟩ | ⟨hsign, hquoted⟩
  · rw [hquoted] at hrest
    rw [simpleItem, hrest]
    exact escape_sign hsign hrest
  · rw [hquoted] at hrest
    have hsplit : env.encoding.splitFirst (lead :: tails ++ rest) = _ :=
      Encoding.splitFirst_append h
    rw [List.cons_append] at hrest hsplit
    rw [simpleItem, hrest]
    simp only
    -- No other character has a meaning of its own.
    split
    · exact absurd ‹_› (char_ne_sign 0x5b hsign rfl)
    · exact absurd ‹_› (char_ne_sign 0x2e hsign rfl)
    · exact absurd ‹_› (char_ne_sign 0x5e hsign rfl)
    · exact absurd ‹_› (char_ne_sign 0x24 hsign rfl)
    · exact absurd ‹_› (char_ne_sign 0x5c hsign rfl)
    · rw [hsplit]

theorem quoteChar_ne_nil (h : enc.leadLength lead = tails.length + 1) :
    quoteChar (lead :: tails) ≠ [] := by
  rcases quoteChar_cases h with ⟨-, -, hquoted⟩ | ⟨-, hquoted⟩
  · rw [hquoted]
    exact List.cons_ne_nil _ _
  · rw [hquoted]
    exact List.cons_ne_nil _ _

/-- It is an item of a branch. -/
theorem item_quoteChar {group : Reader (Option Draft)}
    (h : env.encoding.leadLength lead = tails.length + 1)
    (hrest : st.rest = quoteChar (lead :: tails) ++ rest) :
    item env group st = .ok (some (st.literal (lead :: tails)), { st with rest := rest }) := by
  have hopen : startsWith st.rest '(' = false := by
    rw [hrest]
    exact startsWith_plain 0x28 (startsPlain_quoteChar h rest) rfl (by decide)
  simp only [item, hopen, Bool.false_eq_true, if_false, leavesNode, simpleItem_quoteChar h hrest,
    bind, Except.bind]

/-- No operator follows on it, and what is left out before the next item is left out here. -/
theorem repeats_plain {fuel : Nat} {node : Draft}
    (h : StartsPlain (skipBlank st.options st.rest)) :
    repeats env (fuel + 1) 0 node st =
      .ok (node, { st with rest := skipBlank st.options st.rest }) := by
  simp only [repeats, quantifier_plain h, bind, Except.bind, Nat.sub_zero]

end Characters

/-- A gap that reading leaves out. -/
def Skipped (options : Options) (gap : List UInt8) : Prop :=
  ∀ rest, skipBlank options (gap ++ rest) = skipBlank options rest

theorem skipped_nil : Skipped options [] :=
  fun _ => rfl

/-- A comment ends at the end of the line. -/
theorem skipBlankFrom_comment (h : 0x0a ∉ text) :
    skipBlankFrom true (text ++ 0x0a :: rest) = skipBlankFrom false rest := by
  induction text with
  | nil => rfl
  | cons b text ih =>
      rw [List.mem_cons, not_or] at h
      rw [List.cons_append, skipBlankFrom, bne_iff_ne.mpr (Ne.symm h.1)]
      exact ih h.2

/-- In the extended notation, fillers are left out. -/
theorem Filler.skipped {gap : List UInt8} (h : Filler enc gap)
    (hextended : options.extended = true) : Skipped options gap := by
  intro rest
  rw [skipBlank, skipBlank, if_pos hextended, if_pos hextended]
  induction h with
  | nil => rfl
  | @blank b gap hblank later ih =>
      have hskips : isBlank b = true := by
        simp only [List.mem_cons, List.not_mem_nil, or_false] at hblank
        rcases hblank with rfl | rfl | rfl | rfl | rfl | rfl <;> rfl
      rw [List.cons_append, skipBlankFrom, if_pos hskips, ih]
  | @comment text gap valid line later ih =>
      rw [List.cons_append, List.append_assoc, List.cons_append]
      exact (skipBlankFrom_comment line).trans ih

section Texts

variable {gap : Nat → List UInt8} {lead : UInt8} {tails more : List UInt8}

theorem skipBlank_gap {last : List UInt8} (h : Skipped options last) :
    skipBlank options last = [] := by
  have hrest := h []
  rw [List.append_nil] at hrest
  exact hrest.trans (skipBlank_plain nofun)

/-- What is left ahead of a character is the character. -/
theorem skipBlank_quoteChar {first : List UInt8} (hfirst : Skipped options first)
    (h : enc.leadLength lead = tails.length + 1) :
    skipBlank options (first ++ (quoteChar (lead :: tails) ++ more)) =
      quoteChar (lead :: tails) ++ more :=
  (hfirst _).trans (skipBlank_plain (startsPlain_quoteChar h more))

/-- Whatever is left of a quoted text, no operator stands there. -/
theorem startsPlain_spaced (htext : enc.Complete text) (hgap : Skipped options (gap 0)) :
    StartsPlain (skipBlank options (spaced gap (enc.characters text))) := by
  cases htext with
  | nil =>
      have hend : skipBlank options (spaced gap (enc.characters [])) = [] := skipBlank_gap hgap
      rw [hend]
      rintro b ⟨⟩
  | char announces later =>
      rw [Encoding.characters_append announces, spaced, skipBlank_quoteChar hgap announces]
      exact startsPlain_quoteChar announces _

/-- A quoted text is read character by character. -/
theorem branchItems_spaced (htext : env.encoding.Complete text) {fuel : Nat}
    {group : Reader (Option Draft)} {items : List Draft} {st : State}
    (hgap : ∀ i, Skipped st.options (gap i))
    (hrest : skipBlank st.options st.rest =
      skipBlank st.options (spaced gap (env.encoding.characters text)))
    (hfuel : (env.encoding.characters text).length < fuel) :
    branchItems env group fuel items st =
      .ok (items.reverse ++ (env.encoding.characters text).map st.literal,
        { st with rest := [] }) := by
  induction htext generalizing gap fuel items st with
  | nil =>
      obtain ⟨fuel, rfl⟩ : ∃ k, fuel = k + 1 := ⟨fuel - 1, by omega⟩
      have hend : skipBlank st.options st.rest = [] := hrest.trans (skipBlank_gap (hgap 0))
      simp only [branchItems, hend]
      exact congrArg (fun read => Except.ok (read, { st with rest := [] })) (List.append_nil _).symm
  | @char lead tails later announces hlater ih =>
      obtain ⟨fuel, rfl⟩ : ∃ k, fuel = k + 1 := ⟨fuel - 1, by omega⟩
      rw [Encoding.characters_append announces] at hrest hfuel ⊢
      rw [List.length_cons] at hfuel
      rw [spaced, skipBlank_quoteChar (hgap 0) announces] at hrest
      -- The gap behind the character is left out when operators are looked for.
      have hplain : StartsPlain (skipBlank st.options (spaced (fun i => gap (i + 1))
          (env.encoding.characters later))) := startsPlain_spaced hlater (hgap 1)
      have hothers := fun rest hrest => @ih (fun i => gap (i + 1)) fuel
        (st.literal (lead :: tails) :: items) { st with rest := rest } (fun i => hgap (i + 1)) hrest
        (Nat.lt_of_succ_lt_succ hfuel)
      generalize spaced (fun i => gap (i + 1)) (env.encoding.characters later) = more
        at hrest hplain hothers
      have hhere := startsPlain_quoteChar announces more
      have hend := atBranchEnd_plain hhere
        (List.append_ne_nil_of_left_ne_nil (quoteChar_ne_nil announces) more)
      have hitem : item env group { st with rest := quoteChar (lead :: tails) ++ more } = _ :=
        item_quoteChar announces rfl
      have hrepeats : ∀ {fuel : Nat} {node : Draft},
          repeats env (fuel + 1) 0 node { st with rest := more } =
            .ok (node, { st with rest := skipBlank st.options more }) := repeats_plain hplain
      simp only [branchItems, hrest, hend, Bool.false_eq_true, if_false, quantifier_plain hhere,
        hitem, hrepeats, bind, Except.bind]
      refine (hothers _ (skipBlank_plain hplain)).trans ?_
      rw [List.reverse_cons, List.append_assoc]
      rfl

/-- A quoted text has a byte at least for every character. -/
theorem length_characters_le (htext : enc.Complete text) (gap : Nat → List UInt8) :
    (enc.characters text).length ≤ (spaced gap (enc.characters text)).length := by
  induction htext generalizing gap with
  | nil => exact Nat.zero_le _
  | char announces later ih =>
      have hlater := ih fun i => gap (i + 1)
      have hhere := List.length_pos_of_ne_nil (quoteChar_ne_nil announces)
      rw [Encoding.characters_append announces, spaced, List.length_append, List.length_append,
        List.length_cons]
      omega

end Texts

section Literals

variable {ρ : Type} {ignoreCase : Bool}

theorem foldl_joinLiteral (chars : List (List UInt8)) (bytes : List UInt8)
    (before : List (Node ρ)) :
    (chars.map (Node.literal · ignoreCase)).foldl joinLiteral
        (.literal bytes ignoreCase :: before) =
      .literal (bytes ++ chars.flatten) ignoreCase :: before := by
  induction chars generalizing bytes with
  | nil => rw [List.flatten_nil, List.append_nil, List.map_nil, List.foldl_nil]
  | cons char rest ih =>
      rw [List.map_cons, List.foldl_cons, joinLiteral, beq_self_eq_true, Bool.true_or, if_pos rfl,
        ih, List.flatten_cons, List.append_assoc]

/-- Literals that treat case alike are joined to one. -/
theorem branchNode_literals_cons (char : List UInt8) (rest : List (List UInt8)) :
    branchNode ((char :: rest).map fun char => (Node.literal char ignoreCase : Node ρ)) =
      .literal (char :: rest).flatten ignoreCase := by
  have hjoined : joinLiterals ((char :: rest).map fun char =>
      (Node.literal char ignoreCase : Node ρ)) = [.literal (char ++ rest.flatten) ignoreCase] := by
    rw [joinLiterals, List.map_cons, List.foldl_cons]
    exact congrArg List.reverse (foldl_joinLiteral rest char [])
  rw [branchNode, hjoined, List.flatten_cons]

/-- Literals that regard case are joined to one, even if there are none. -/
theorem branchNode_literals (chars : List (List UInt8)) :
    branchNode (chars.map fun char => (Node.literal char false : Node ρ)) =
      .literal chars.flatten false := by
  cases chars with
  | nil => rfl
  | cons char rest => exact branchNode_literals_cons char rest

end Literals

/-- An alternation that is a quoted text is a literal. -/
theorem alternatives_spaced (htext : env.encoding.Complete text)
    {group : Reader (Option Draft)} {gap : Nat → List UInt8} (hcase : options.ignoreCase = false)
    (hgap : ∀ i, Skipped options (gap i)) :
    alternatives env group false
        { rest := spaced gap (env.encoding.characters text), options := options } =
      .ok (.literal text false, { rest := [], options := options }) := by
  have hitems := @branchItems_spaced env text gap htext _ group []
    { rest := spaced gap (env.encoding.characters text), options := options } hgap rfl
    (Nat.lt_succ_of_le (length_characters_le htext gap))
  have hnode : branchNode ((env.encoding.characters text).map fun char =>
      (Node.literal char options.ignoreCase : Draft)) = .literal text false := by
    rw [hcase, branchNode_literals, Encoding.flatten_characters]
  simp only [alternatives, branches, branch, hitems, bind, Except.bind, Bool.false_eq_true,
    if_false]
  exact congrArg (fun node => Except.ok (node, ({ rest := [], options := options } : State))) hnode

section Validity

variable {gap : Nat → List UInt8}

/-- Fillers are texts of the encoding. -/
theorem Filler.isValid {gap : List UInt8} (h : Filler enc gap) : enc.isValid gap = true := by
  induction h with
  | nil => exact Encoding.isValid_nil
  | @blank b rest hblank later ih =>
      have hascii : b < 0x80 := by
        simp only [List.mem_cons, List.not_mem_nil, or_false] at hblank
        rcases hblank with rfl | rfl | rfl | rfl | rfl | rfl <;> decide
      exact (Encoding.isValid_append (Encoding.isValid_singleton hascii) rest).trans ih
  | @comment text rest valid line later ih =>
      have hsign : enc.isValid [0x23] = true := Encoding.isValid_singleton (by decide)
      have hnewline : enc.isValid [0x0a] = true := Encoding.isValid_singleton (by decide)
      rw [← List.singleton_append, Encoding.isValid_append hsign, Encoding.isValid_append valid,
        ← List.singleton_append, Encoding.isValid_append hnewline, ih]

/-- A quoted character is a text of the encoding. -/
theorem isValid_quoteChar {lead : UInt8} {tails : List UInt8}
    (h : enc.leadLength lead = tails.length + 1) (hvalid : enc.isValid (lead :: tails) = true) :
    enc.isValid (quoteChar (lead :: tails)) = true := by
  rcases quoteChar_cases h with ⟨-, rfl, hquoted⟩ | ⟨-, hquoted⟩
  · rw [hquoted, ← List.singleton_append]
    exact (Encoding.isValid_append (Encoding.isValid_singleton (by decide)) _).trans hvalid
  · rw [hquoted]
    exact hvalid

/-- So is a quoted text. -/
theorem isValid_spaced (htext : enc.Complete text) (hvalid : enc.isValid text = true)
    (hgap : ∀ i, enc.isValid (gap i) = true) :
    enc.isValid (spaced gap (enc.characters text)) = true := by
  induction htext generalizing gap with
  | nil => exact hgap 0
  | @char lead tails later announces hlater ih =>
      have hsplit : enc.splitFirst (lead :: tails ++ later) = _ :=
        Encoding.splitFirst_append announces
      have hchar := isValid_quoteChar announces (Encoding.isValid_first hvalid hsplit)
      rw [Encoding.characters_append announces, spaced, Encoding.isValid_append (hgap 0),
        Encoding.isValid_append hchar]
      exact ih (Encoding.isValid_splitFirst hvalid hsplit) fun i => hgap (i + 1)

theorem quote_eq_spaced (chars : List (List UInt8)) :
    chars.flatMap quoteChar = spaced (fun _ => []) chars := by
  induction chars with
  | nil => rfl
  | cons char rest ih => rw [List.flatMap_cons, ih, spaced, List.nil_append]

/-- A quoted text has gaps that are left out. -/
theorem Quotes.gaps {extended : Bool} {pattern : List UInt8}
    (h : Quotes enc extended text pattern) :
    ∃ gap, (∀ i, enc.isValid (gap i) = true ∧
        ∀ options : Options, options.extended = extended → Skipped options (gap i)) ∧
      pattern = spaced gap (enc.characters text) := by
  rcases h with rfl | ⟨rfl, gap, hgap, rfl⟩
  · exact ⟨_, fun _ => ⟨Encoding.isValid_nil, fun _ _ => skipped_nil⟩, quote_eq_spaced _⟩
  · exact ⟨gap, fun i => ⟨(hgap i).isValid, fun _ => (hgap i).skipped⟩, rfl⟩

end Validity

/-- A quoted text is read as a literal. -/
theorem parse_quoted (dialect : Dialect) (limits : Limits) {pattern : List UInt8}
    (hvalid : enc.isValid text = true) (hcase : options.ignoreCase = false)
    (hquotes : Quotes enc options.extended text pattern) :
    parse pattern options enc dialect limits =
      .ok { tree := .literal text false, groups := 0, names := {}, options := options,
            offset := pattern.length } := by
  rcases hquotes.gaps with ⟨gap, hgap, rfl⟩
  have htext := Encoding.complete_of_isValid hvalid
  have hpattern := isValid_spaced htext hvalid fun i => (hgap i).1
  have hoffset : ∀ env : Setting, env.offset [] = env.size :=
    fun env => offset_add_length List.nil_suffix
  rw [parse]
  simp only [hpattern, Bool.not_true, Bool.false_eq_true, if_false]
  rw [alternatives_spaced htext hcase fun i => (hgap i).2 options rfl]
  simp only [bind, Except.bind, resolve, hoffset]
  rfl

end Pattern

end RegexEngine
