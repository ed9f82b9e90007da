import RegexEngine.Proofs.Reading.Draft
import RegexEngine.Proofs.Reading.Passing

/-!
# Reading a Whole Pattern

Each reader of the grammar leaves trees as `Reads` says, from the items without parentheses up to
the whole pattern. A reader that is made from another one is dealt with as it is made: what a
parenthesis reads is right if what is read inside of it is, and the levels of groups follow by
induction on how many there may be.

What is read inside a group ends before its closing parenthesis, and the text is one of the encoding
behind it again; `ReadsGroups` keeps the two together.

## Main definitions

* `ReadsGroups`: A reader reads the inside of groups.

## Theorems

* `reads_simpleItem`, `reads_parenthesis`, `reads_branch`, `reads_alternatives`: The levels of the
  grammar.
* `reads_groupsWithin`: Groups inside of groups.
* `groupNumbers_resolve`, `resolve_keeps`: Resolving references keeps what reading has left.
* `parse_ok`: The tree of a pattern.
-/

namespace RegexEngine

namespace Pattern

open Node

variable {env : Setting} {st after : State} {draft : Draft}

theorem anchorEscape_ascii {dialect : Dialect} {b : UInt8} {kind : Anchor}
    (h : anchorEscape? dialect b = some kind) : b < 0x80 := by
  refine ascii_of_char rfl ?_
  rw [anchorEscape?.eq_def] at h
  split at h
  case h_7 => cases h
  all_goals
    rename_i hletter
    rw [hletter]
    decide

theorem isDigit_ascii {b : UInt8} (h : isDigit b = true) : b < 0x80 := by
  simp only [isDigit, Bool.and_eq_true, decide_eq_true_eq] at h
  exact UInt8.lt_of_le_of_lt h.2 (by decide)

/-- The text from before a character to behind it. -/
theorem isValid_slice {start stop char bytes : List UInt8} (h : env.encoding.isValid start = true)
    (hsplit : env.encoding.splitFirst start = some (char, stop))
    (hslice : env.slice start stop = .ok bytes) : env.encoding.isValid bytes = true := by
  have hstart : start = char ++ stop := by
    cases start with
    | nil => cases hsplit
    | cons lead tail =>
        cases hsplit
        rw [List.cons_append, List.take_append_drop]
  rw [Setting.slice] at hslice
  split at hslice
  · cases hslice
    rw [hstart, List.length_append, Nat.add_sub_cancel, List.take_left]
    exact Encoding.isValid_first h hsplit
  · cases hslice

theorem isValid_encodeCode {esc bytes : List UInt8} {code : Nat}
    (h : encodeCode env code esc = .ok bytes) : env.encoding.isValid bytes = true := by
  rw [encodeCode] at h
  split at h
  · rename_i hencode
    cases h
    exact Encoding.isValid_encode hencode
  · cases h

theorem reads_numberEscape {esc : List UInt8} {b : UInt8} {tail : List UInt8}
    (h : env.encoding.isValid (b :: tail) = true) (hdigit : isDigit b = true)
    (hread : numberEscape env esc { st with rest := b :: tail } = .ok (draft, after)) :
    Reads env st.groups [draft] after := by
  rw [numberEscape] at hread
  simp only at hread
  split at hread
  -- A reference takes the digits that have been read, an octal number reads others, and where there
  -- are none the digit stands for itself.
  · split at hread
    · cases hread
    · cases hread
      exact .leaf (isValid_scanNumber h) rfl rfl trivial trivial
  · have hdigits := isValid_scanDigits 8 3 0 0 h
    split at hread
    · cases hread
      exact .leaf (Encoding.isValid_tail h (isDigit_ascii hdigit)) rfl rfl trivial
        (Encoding.isValid_singleton (isDigit_ascii hdigit))
    · rename_i hscan
      rw [hscan] at hdigits
      rcases bind_ok hread with ⟨bytes, hencode, hpair⟩
      cases hpair
      exact .leaf hdigits rfl rfl trivial (isValid_encodeCode hencode)

/-- An escape that does not name its character by a letter or a number is followed by it. -/
theorem escapedCode_follows {esc rest tail : List UInt8} {b : UInt8} {code : Nat}
    (hnames : namesCode b = false)
    (h : escapedCode env esc (b :: tail) = .ok (code, rest)) :
    ∃ char, env.encoding.splitFirst (b :: tail) = some (char, rest) := by
  simp only [namesCode, Bool.or_eq_false_iff, Option.isSome_eq_false_iff, Option.isNone_iff_eq_none,
    beq_eq_false_iff_ne] at hnames
  rcases hnames with ⟨⟨⟨hcontrol, hx⟩, hu⟩, hzero⟩
  rw [escapedCode.eq_def] at h
  simp only [hcontrol] at h
  split at h
  · cases h
  · rename_i char rest hsplit
    cases h
    exact ⟨char, hsplit⟩

theorem reads_characterEscape {esc tail : List UInt8} {b : UInt8}
    (h : env.encoding.isValid (b :: tail) = true)
    (hread : characterEscape env esc b { st with rest := b :: tail } = .ok (draft, after)) :
    Reads env st.groups [draft] after := by
  rcases bind_ok hread with ⟨⟨code, rest⟩, hcode, hread⟩
  have hrest := isValid_escapedCode h hcode
  simp only at hread
  split at hread
  · rcases bind_ok hread with ⟨bytes, hencode, hpair⟩
    cases hpair
    exact .leaf hrest rfl rfl trivial (isValid_encodeCode hencode)
  · rename_i hnames
    rcases bind_ok hread with ⟨bytes, hslice, hpair⟩
    cases hpair
    rcases escapedCode_follows (Bool.not_eq_true _ ▸ hnames) hcode with ⟨char, hsplit⟩
    exact .leaf hrest rfl rfl trivial (isValid_slice h hsplit hslice)

theorem nameCloser_ok {dialect : Dialect} {enc : Encoding} {rest : List UInt8} {close : Char}
    (h : nameCloser? dialect rest = some close) (hvalid : enc.isValid rest = true) :
    close.toNat < 0x80 ∧ enc.isValid rest.tail = true := by
  rw [nameCloser?] at h
  split at h
  · cases h
  · split at h
    · rename_i hopen
      cases h
      exact ⟨by decide, isValid_tail_of_startsWith hvalid hopen (by decide)⟩
    · split at h
      · rename_i hopen
        cases h
        exact ⟨by decide, isValid_tail_of_startsWith hvalid hopen (by decide)⟩
      · cases h

theorem reads_escape (h : env.encoding.isValid st.rest.tail = true)
    (hread : escape env st = .ok (draft, after)) : Reads env st.groups [draft] after := by
  rw [escape] at hread
  simp only at hread
  split at hread
  · cases hread
  · rename_i b tail htext
    rw [htext] at h
    -- The kinds of escapes are tried in the order of the reader. Each leaves a text of the
    -- encoding, and what it reads has no groups.
    split at hread
    · rename_i kind negated hkind
      cases hread
      have hvalid := Encoding.isValid_tail h (kindEscape_ascii hkind)
      rw [kindNode.eq_def]
      split
      · exact .leaf hvalid rfl rfl trivial trivial
      · exact .leaf hvalid rfl rfl trivial trivial
    · split at hread
      · rename_i kind hanchor
        cases hread
        exact .leaf (Encoding.isValid_tail h (anchorEscape_ascii hanchor)) rfl rfl trivial trivial
      · split at hread
        -- A name is read behind its bracket, which is of US-ASCII.
        · rename_i close hclose
          split at hclose
          · rename_i hletter
            have htail := isValid_tail_of_char h (eq_of_beq hletter) (by decide)
            rcases nameCloser_ok hclose htail with ⟨hascii, hname⟩
            rcases bind_ok hread with ⟨⟨target, rest⟩, htarget, hpair⟩
            cases hpair
            exact .leaf (isValid_readReference hascii hname htarget) rfl rfl trivial trivial
          · cases hclose
        · split at hread
          · rename_i hdigit
            rw [Bool.and_eq_true] at hdigit
            exact reads_numberEscape h hdigit.1 hread
          · exact reads_characterEscape h hread

/-- An item without parentheses. -/
theorem reads_simpleItem (h : env.encoding.isValid st.rest = true)
    (hread : simpleItem env st = .ok (draft, after)) : Reads env st.groups [draft] after := by
  rw [simpleItem] at hread
  split at hread
  · cases hread
  · rename_i b tail htext
    have hascii : ∀ {c : Char}, char b = c → c.toNat < 0x80 →
        env.encoding.isValid tail = true := by
      intro c hchar hc
      rw [htext] at h
      exact isValid_tail_of_char h hchar hc
    simp only at hread
    -- Each sign is of US-ASCII, so behind it the text is one of the encoding again. What is not a
    -- sign is a whole character.
    split at hread
    · rename_i hchar
      rcases bind_ok hread with ⟨⟨set, rest⟩, hclass, hpair⟩
      cases hpair
      refine .leaf (isValid_bracketClass ?_ hclass) rfl rfl trivial trivial
      rw [htext]
      exact hascii hchar (by decide)
    · rename_i hchar
      cases hread
      exact .leaf (hascii hchar (by decide)) rfl rfl trivial trivial
    · rename_i hchar
      cases hread
      exact .leaf (hascii hchar (by decide)) rfl rfl trivial trivial
    · rename_i hchar
      cases hread
      exact .leaf (hascii hchar (by decide)) rfl rfl trivial trivial
    · rename_i hchar
      refine reads_escape ?_ hread
      rw [htext]
      exact hascii hchar (by decide)
    · split at hread
      · cases hread
      · rename_i hsplit
        cases hread
        exact .leaf (Encoding.isValid_splitFirst h hsplit) rfl rfl trivial
          (Encoding.isValid_first h hsplit)

section Groups

variable {inside : Reader Draft} {draft? : Option Draft}

/-- A reader reads the inside of groups, up to the closing parenthesis. -/
def ReadsGroups (env : Setting) (inside : Reader Draft) : Prop :=
  ∀ {st after : State} {draft : Draft}, env.encoding.isValid st.rest = true →
    inside st = .ok (draft, after) →
    Reads env st.groups [draft] after ∧ startsWith after.rest ')' = true

theorem groupSign_ascii {dialect : Dialect} {b : UInt8} {sign : GroupSign}
    (h : groupSign? dialect b = some sign) : b < 0x80 := by
  refine ascii_of_char rfl ?_
  rw [groupSign?.eq_def] at h
  split at h
  case h_14 => cases h
  all_goals
    rename_i hletter
    rw [hletter]
    decide

theorem reads_commentGroup (h : env.encoding.isValid st.rest = true)
    (hread : commentGroup env st = .ok (draft?, after)) :
    Reads env st.groups draft?.toList after := by
  rw [commentGroup] at hread
  split at hread
  · cases hread
  · rename_i hskip
    cases hread
    exact .nil (isValid_skipComment (.of_isValid h) hskip) rfl

theorem reads_leavesNode {reader : Reader Draft}
    (hreads : ∀ draft, reader st = .ok (draft, after) → Reads env st.groups [draft] after)
    (hread : leavesNode reader st = .ok (draft?, after)) :
    Reads env st.groups draft?.toList after := by
  rcases bind_ok hread with ⟨⟨draft, last⟩, hdraft, hpair⟩
  cases hpair
  exact hreads draft hdraft

variable (hinside : ReadsGroups env inside)
include hinside

/-- The inside of a group and the closing parenthesis. -/
theorem reads_groupBody (h : env.encoding.isValid st.rest = true)
    (hread : groupBody inside st = .ok (draft, after)) : Reads env st.groups [draft] after := by
  rcases bind_ok hread with ⟨⟨body, last⟩, hbody, hpair⟩
  rcases hinside h hbody with ⟨hreads, hclose⟩
  cases hpair
  exact hreads.move (isValid_tail_of_startsWith hreads.valid hclose (by decide)) rfl

theorem reads_namedGroup {start : List UInt8} {close : Char} (hclose : close.toNat < 0x80)
    (h : env.encoding.isValid st.rest = true)
    (hread : namedGroup env inside start close st = .ok (draft, after)) :
    Reads env st.groups [draft] after := by
  rcases bind_ok hread with ⟨⟨name, rest⟩, hname, hread⟩
  rcases bind_ok hread with ⟨⟨number, opened⟩, hopen, hread⟩
  rcases bind_ok hread with ⟨named, hnamed, hread⟩
  rcases bind_ok hread with ⟨⟨body, last⟩, hbody, hpair⟩
  have hrest := isValid_readName hclose h hname
  rcases openGroup_ok hopen with ⟨hnumber, hopened⟩
  simp only at hnumber hnamed
  -- Noting the name changes neither the text that is left nor the count of groups.
  have hsame : named.rest = rest ∧ named.groups = st.groups + 1 := by
    rw [State.nameGroup, hopened] at hnamed
    split at hnamed
    · cases hnamed
      exact ⟨rfl, rfl⟩
    · cases hnamed
  have hreads := reads_groupBody hinside (hsame.1 ▸ hrest) hbody
  rw [hsame.2] at hreads
  cases hpair
  rw [hnumber]
  exact hreads.group

theorem reads_lookAround {direction : Direction} {negated : Bool}
    (h : env.encoding.isValid st.rest = true)
    (hread : lookAround inside direction negated st = .ok (draft, after)) :
    Reads env st.groups [draft] after := by
  rcases bind_ok hread with ⟨⟨body, last⟩, hbody, hpair⟩
  cases hpair
  exact (reads_groupBody hinside h hbody).look direction negated

theorem reads_atomicGroup (h : env.encoding.isValid st.rest = true)
    (hread : atomicGroup inside st = .ok (draft, after)) : Reads env st.groups [draft] after := by
  rcases bind_ok hread with ⟨⟨body, last⟩, hbody, hpair⟩
  cases hpair
  exact (reads_groupBody hinside h hbody).atomic

theorem reads_optionGroup (h : env.encoding.isValid st.rest = true)
    (hread : optionGroup env inside st = .ok (draft?, after)) :
    Reads env st.groups draft?.toList after := by
  rcases bind_ok hread with ⟨⟨options, hasGroup, rest⟩, hletters, hread⟩
  have hrest := isValid_optionLetters h hletters
  simp only at hread
  split at hread
  · rcases bind_ok hread with ⟨⟨body, last⟩, hbody, hpair⟩
    cases hpair
    have hreads := @reads_groupBody env { st with rest := rest, options := options } _ _ _ hinside
      hrest hbody
    -- The options end with the group.
    exact hreads.move hreads.valid rfl
  · cases hread
    exact .nil hrest rfl

theorem reads_angleGroup {start : List UInt8} (h : env.encoding.isValid st.rest = true)
    (hread : angleGroup env inside start st = .ok (draft, after)) :
    Reads env st.groups [draft] after := by
  rw [angleGroup] at hread
  -- A look-behind, or a group with a name.
  split at hread
  · rename_i hlook
    have htail : env.encoding.isValid st.rest.tail = true := by
      rw [Bool.and_eq_true, Bool.or_eq_true] at hlook
      rcases hlook.2 with hsign | hsign
      · exact isValid_tail_of_startsWith h hsign (by decide)
      · exact isValid_tail_of_startsWith h hsign (by decide)
    have hreads := @reads_lookAround env { st with rest := st.rest.tail } _ _ _ hinside _ _ htail
      hread
    exact hreads
  · split at hread
    · cases hread
    · split at hread
      · exact reads_namedGroup hinside (by decide) h hread
      · cases hread

theorem reads_capitalGroup {start : List UInt8} (h : env.encoding.isValid st.rest = true)
    (hread : capitalGroup env inside start st = .ok (draft, after)) :
    Reads env st.groups [draft] after := by
  rw [capitalGroup] at hread
  split at hread
  · cases hread
  · rename_i b rest htext
    rw [htext] at h
    split at hread
    -- A named group, or a reference by name.
    · rename_i hchar
      have htail := isValid_tail_of_char h hchar (by decide)
      have hreads := @reads_namedGroup env { st with rest := rest } _ _ _ hinside _ _ (by decide)
        htail hread
      exact hreads
    · rename_i hchar
      rcases bind_ok hread with ⟨⟨name, last⟩, hname, hpair⟩
      cases hpair
      have htail := isValid_tail_of_char h hchar (by decide)
      exact .leaf (isValid_readName (by decide) htail hname) rfl rfl trivial trivial
    · cases hread

theorem reads_specialGroup {start : List UInt8} (h : env.encoding.isValid st.rest = true)
    (hread : specialGroup env inside start st = .ok (draft?, after)) :
    Reads env st.groups draft?.toList after := by
  rw [specialGroup] at hread
  split at hread
  · cases hread
  · rename_i b rest htext
    rw [htext] at h
    simp only at hread
    -- The state behind the sign is named, since every kind of group reads on from it.
    obtain ⟨next, hnext⟩ : ∃ next : State, next = { st with rest := rest } := ⟨_, rfl⟩
    rw [← hnext] at hread
    have hgroups : st.groups = next.groups := by rw [hnext]
    have hvalid : ∀ sign, groupSign? env.dialect b = some sign →
        env.encoding.isValid next.rest = true := by
      intro sign hsign
      rw [hnext]
      exact Encoding.isValid_tail h (groupSign_ascii hsign)
    split at hread
    case h_8 =>
      rw [← htext] at h
      exact reads_optionGroup hinside h hread
    case h_9 => cases hread
    all_goals
      rename_i hsign
      rw [hgroups]
      replace hvalid := hvalid _ hsign
    · exact reads_commentGroup hvalid hread
    · exact reads_leavesNode (fun _ => reads_groupBody hinside hvalid) hread
    · exact reads_leavesNode (fun _ => reads_lookAround hinside hvalid) hread
    · exact reads_leavesNode (fun _ => reads_atomicGroup hinside hvalid) hread
    · exact reads_leavesNode (fun _ => reads_angleGroup hinside hvalid) hread
    · exact reads_leavesNode (fun _ => reads_namedGroup hinside (by decide) hvalid) hread
    · exact reads_leavesNode (fun _ => reads_capitalGroup hinside hvalid) hread

/-- A parenthesis and all that it opens. -/
theorem reads_parenthesis (h : env.encoding.isValid st.rest = true)
    (hopen : startsWith st.rest '(' = true)
    (hread : parenthesis env inside st = .ok (draft?, after)) :
    Reads env st.groups draft?.toList after := by
  have htail := isValid_tail_of_startsWith h hopen (by decide)
  rw [parenthesis] at hread
  simp only at hread
  split at hread
  -- A sign tells what is opened, or a group is numbered before its body is read.
  · rename_i hsign
    exact @reads_specialGroup env { st with rest := st.rest.tail.tail } _ _ _ hinside _
      (isValid_tail_of_startsWith htail hsign (by decide)) hread
  · rcases bind_ok hread with ⟨⟨number, opened⟩, hnumber, hread⟩
    rcases bind_ok hread with ⟨⟨body, last⟩, hbody, hpair⟩
    rcases openGroup_ok hnumber with ⟨hnumber, hopened⟩
    simp only at hnumber hopened
    have hvalid : env.encoding.isValid opened.rest = true := by
      rw [hopened]
      exact htail
    have hreads := reads_groupBody hinside hvalid hbody
    rw [hopened] at hreads
    cases hpair
    rw [hnumber]
    exact hreads.group

end Groups

/-- The repeat operators after an item. -/
theorem reads_repeats {fuel wraps groups : Nat} {node : Draft} (hreads : Reads env groups [node] st)
    (hread : repeats env fuel wraps node st = .ok (draft, after)) :
    Reads env groups [draft] after := by
  induction fuel generalizing wraps node st with
  | zero => cases hread
  | succ fuel ih =>
      rw [repeats] at hread
      have hblank := isValid_skipBlank st.options hreads.valid
      rcases bind_ok hread with ⟨found, hquantifier, hread⟩
      split at hread
      · cases hread
        exact hreads.move hblank rfl
      · rename_i q after
        rcases quantifier_ok hblank hquantifier with ⟨hafter, hbounds⟩
        -- An operator that repeats once is read and dropped; any other wraps what was read.
        split at hread
        · cases hread
        · split at hread
          · have hmoved : Reads env groups [node] { st with rest := after } :=
              hreads.move hafter rfl
            exact ih hmoved hread
          · split at hread
            · cases hread
            · have hwrapped : Reads env groups [q.apply node]
                  { st with rest := after, depth := st.depth + 1 } :=
                (hreads.apply hbounds).move hafter rfl
              exact ih hwrapped hread

section Branches

variable {group : Reader (Option Draft)} {draft? : Option Draft}

/-- A reader reads whatever a parenthesis opens. -/
def ReadsParentheses (env : Setting) (group : Reader (Option Draft)) : Prop :=
  ∀ {st after : State} {draft? : Option Draft}, env.encoding.isValid st.rest = true →
    startsWith st.rest '(' = true → group st = .ok (draft?, after) →
    Reads env st.groups draft?.toList after

variable (hgroup : ReadsParentheses env group)
include hgroup

theorem reads_item (h : env.encoding.isValid st.rest = true)
    (hread : item env group st = .ok (draft?, after)) :
    Reads env st.groups draft?.toList after := by
  rw [item] at hread
  split at hread
  · rename_i hopen
    rcases deeper_ok hread with ⟨-, last, hinner, rfl⟩
    have hreads := @hgroup { st with depth := st.depth + 1 } _ _ h hopen hinner
    exact hreads.move hreads.valid rfl
  · exact reads_leavesNode (fun _ => reads_simpleItem h) hread

/-- The items of a branch are added to those that were read before. -/
theorem reads_branchItems {fuel : Nat} {items found : List Draft}
    (h : env.encoding.isValid st.rest = true)
    (hread : branchItems env group fuel items st = .ok (found, after)) :
    ∃ more, found = items.reverse ++ more ∧ Reads env st.groups more after := by
  induction fuel generalizing items st with
  | zero => cases hread
  | succ fuel ih =>
      rw [branchItems] at hread
      have hblank := isValid_skipBlank st.options h
      -- The state behind blank space is named, since the item is read from there.
      obtain ⟨ahead, hahead⟩ : ∃ ahead : State,
          ahead = { st with rest := skipBlank st.options st.rest } := ⟨_, rfl⟩
      simp only [← hahead] at hread
      have hgroups : st.groups = ahead.groups := by rw [hahead]
      replace hblank : env.encoding.isValid ahead.rest = true := by rw [hahead]; exact hblank
      rw [hgroups]
      split at hread
      · cases hread
        exact ⟨[], (List.append_nil _).symm, .nil hblank rfl⟩
      · rcases bind_ok hread with ⟨quantifier, -, hread⟩
        split at hread
        · cases hread
        · rcases bind_ok hread with ⟨⟨node?, mid⟩, hitem, hread⟩
          have hreads := reads_item hgroup hblank hitem
          simp only at hread
          split at hread
          · rcases ih hreads.valid hread with ⟨more, hfound, hmore⟩
            exact ⟨more, hfound, hreads.append hmore⟩
          · rename_i node
            rcases bind_ok hread with ⟨⟨wrapped, last⟩, hrepeats, hread⟩
            have hwrapped : Reads env ahead.groups [wrapped] last :=
              reads_repeats hreads hrepeats
            rcases ih hwrapped.valid hread with ⟨more, hfound, hmore⟩
            refine ⟨wrapped :: more, ?_, hwrapped.append hmore⟩
            rw [hfound, List.reverse_cons, List.append_assoc]
            rfl

theorem reads_branch (h : env.encoding.isValid st.rest = true)
    (hread : branch env group st = .ok (draft, after)) :
    Reads env st.groups [draft] after := by
  rcases bind_ok hread with ⟨⟨items, last⟩, hitems, hpair⟩
  rcases reads_branchItems hgroup h hitems with ⟨more, rfl, hreads⟩
  cases hpair
  exact hreads.branchNode

/-- The branches of an alternation are added to those that were read before. Inside a group they end
before the closing parenthesis. -/
theorem reads_branches {inGroup : Bool} {fuel : Nat} {nodes found : List Draft}
    (h : env.encoding.isValid st.rest = true)
    (hread : branches env group inGroup fuel nodes st = .ok (found, after)) :
    ∃ more, found = nodes.reverse ++ more ∧ Reads env st.groups more after ∧
      (inGroup = true → startsWith after.rest ')' = true) := by
  -- The fuel is used up by one for each branch. What has been read is kept in `nodes`, the last
  -- branch first.
  induction fuel generalizing nodes st with
  | zero => cases hread
  | succ fuel ih =>
      rw [branches] at hread
      rcases bind_ok hread with ⟨⟨node, mid⟩, hbranch, hread⟩
      have hreads := reads_branch hgroup h hbranch
      have hadd : (node :: nodes).reverse = nodes.reverse ++ [node] := List.reverse_cons
      simp only at hread
      -- The text is over, or the next byte is a bar or the closing parenthesis.
      split at hread
      · split at hread
        · cases hread
        · rename_i hinGroup
          cases hread
          exact ⟨[node], hadd, hreads, fun hin => absurd hin hinGroup⟩
      · rename_i b rest htext
        split at hread
        · rename_i hchar
          -- Behind the bar the other branches are read.
          have hrest : env.encoding.isValid rest = true := by
            have hmid := hreads.valid
            rw [htext] at hmid
            exact isValid_tail_of_char hmid hchar (by decide)
          have hmoved : Reads env st.groups [node] { mid with rest := rest } :=
            hreads.move hrest rfl
          rcases ih hrest hread with ⟨more, hfound, hmore, hclose⟩
          refine ⟨node :: more, ?_, hmoved.append hmore, hclose⟩
          rw [hfound, hadd, List.append_assoc]
          rfl
        · rename_i hchar
          split at hread
          · cases hread
            refine ⟨[node], hadd, hreads, fun _ => ?_⟩
            rw [htext, startsWith]
            exact beq_iff_eq.mpr hchar
          · cases hread
        · cases hread

/-- An alternation. -/
theorem reads_alternatives {inGroup : Bool} (h : env.encoding.isValid st.rest = true)
    (hread : alternatives env group inGroup st = .ok (draft, after)) :
    Reads env st.groups [draft] after ∧ (inGroup = true → startsWith after.rest ')' = true) := by
  rcases bind_ok hread with ⟨⟨nodes, last⟩, hnodes, hpair⟩
  rcases reads_branches hgroup h hnodes with ⟨more, rfl, hreads, hclose⟩
  cases hpair
  exact ⟨hreads.alternationNode, hclose⟩

end Branches

/-- Groups inside of groups, as deep as they may be. -/
theorem reads_groupsWithin (room : Nat) : ReadsParentheses env (groupsWithin env room) := by
  -- With no room left nothing is read, so only the step has something to show.
  induction room with
  | zero =>
      intro st after draft? _ _ hread
      cases hread
  | succ room ih =>
      intro st after draft? h hopen hread
      refine reads_parenthesis (fun hvalid hinside => ?_) h hopen hread
      rcases reads_alternatives ih hvalid hinside with ⟨hreads, hclose⟩
      exact ⟨hreads, hclose rfl⟩

section Resolving

variable {groups : Nat} {names : GroupNames} {enc : Encoding}

theorem groupNumbers_resolveAll {items : List Draft} {trees : List Tree}
    (ih : ∀ draft ∈ items, ∀ {tree : Tree}, resolve groups names draft = .ok tree →
      tree.groupNumbers = draft.groupNumbers)
    (h : resolveAll groups names items = .ok trees) :
    groupNumbersOf trees = groupNumbersOf items := by
  induction items generalizing trees with
  | nil =>
      cases h
      rfl
  | cons draft rest ihrest =>
      rcases bind_ok h with ⟨tree, htree, h⟩
      rcases bind_ok h with ⟨more, hmore, h⟩
      cases h
      have hrest := ihrest (fun t ht => ih t (List.mem_cons_of_mem _ ht)) hmore
      rw [groupNumbersOf, groupNumbersOf, ih draft List.mem_cons_self htree, hrest]

/-- Resolving references does not touch the groups. -/
theorem groupNumbers_resolve (draft : Draft) : ∀ {tree : Tree},
    resolve groups names draft = .ok tree → tree.groupNumbers = draft.groupNumbers := by
  -- Only references are changed, and these have no groups inside.
  induction draft using Node.induct with
  | backref target ignoreCase offset =>
      intro tree h
      rcases bind_ok h with ⟨numbers, -, h⟩
      split at h
      · cases h
      · cases h
        rfl
  | repeated lower upper greedy body ih | group number body ih | atomic body ih
  | look direction negated body ih =>
      intro tree h
      rcases bind_ok h with ⟨inner, hinner, h⟩
      cases h
      simp only [groupNumbers]
      rw [ih hinner]
  | sequence items ih | alternation items ih =>
      intro tree h
      rcases bind_ok h with ⟨inner, hinner, h⟩
      cases h
      exact groupNumbers_resolveAll ih hinner
  | _ =>
      intro tree h
      cases h
      rfl

theorem resolveAll_keeps {items : List Draft} {trees : List Tree}
    (ih : ∀ draft ∈ items, ∀ {tree : Tree}, resolve groups names draft = .ok tree →
      (draft.Bounded → tree.Bounded) ∧ (draft.LiteralsValid enc → tree.LiteralsValid enc))
    (h : resolveAll groups names items = .ok trees) :
    (BoundedAll items → BoundedAll trees) ∧
      (LiteralsValidAll enc items → LiteralsValidAll enc trees) := by
  induction items generalizing trees with
  | nil =>
      cases h
      exact ⟨id, id⟩
  | cons draft rest ihrest =>
      rcases bind_ok h with ⟨tree, htree, h⟩
      rcases bind_ok h with ⟨more, hmore, h⟩
      cases h
      have hfirst := ih draft List.mem_cons_self htree
      have hrest := ihrest (fun t ht => ih t (List.mem_cons_of_mem _ ht)) hmore
      exact ⟨And.imp hfirst.1 hrest.1, And.imp hfirst.2 hrest.2⟩

/-- Resolving references changes neither bounds nor literals. -/
theorem resolve_keeps (draft : Draft) : ∀ {tree : Tree}, resolve groups names draft = .ok tree →
    (draft.Bounded → tree.Bounded) ∧ (draft.LiteralsValid enc → tree.LiteralsValid enc) := by
  -- What is resolved is built from the resolved parts in the same way.
  induction draft using Node.induct with
  | backref target ignoreCase offset =>
      intro tree h
      rcases bind_ok h with ⟨numbers, -, h⟩
      split at h
      · cases h
      · cases h
        exact ⟨id, id⟩
  | repeated lower upper greedy body ih =>
      intro tree h
      rcases bind_ok h with ⟨inner, hinner, h⟩
      cases h
      exact ⟨And.imp_right (ih hinner).1, (ih hinner).2⟩
  | group number body ih | atomic body ih | look direction negated body ih =>
      intro tree h
      rcases bind_ok h with ⟨inner, hinner, h⟩
      cases h
      have hkeeps := ih hinner
      exact hkeeps
  | sequence items ih | alternation items ih =>
      intro tree h
      rcases bind_ok h with ⟨inner, hinner, h⟩
      cases h
      have hkeeps := @resolveAll_keeps _ _ enc _ _ ih hinner
      exact hkeeps
  | _ =>
      intro tree h
      cases h
      exact ⟨id, id⟩

end Resolving

/-- The tree of a pattern that was read. Its groups are numbered without a gap, the bounds of its
repeats are in order, and its literals are texts of the encoding. -/
theorem parse_ok {pattern : List UInt8} {options : Options} {enc : Encoding} {dialect : Dialect}
    {limits : Limits} {parsed : Parsed}
    (h : parse pattern options enc dialect limits = .ok parsed) :
    parsed.tree.groupNumbers = List.range' 1 parsed.groups ∧ parsed.tree.Bounded ∧
      parsed.tree.LiteralsValid enc := by
  rw [parse] at h
  simp only at h
  split at h
  · cases h
  · rename_i hvalid
    rw [Bool.not_eq_true', Bool.not_eq_false] at hvalid
    rcases bind_ok h with ⟨⟨draft, after⟩, hdraft, h⟩
    rcases bind_ok h with ⟨tree, htree, h⟩
    cases h
    have hreads := (reads_alternatives (reads_groupsWithin limits.nesting) hvalid hdraft).1
    -- The draft has all three properties, and resolving its references keeps them.
    have hkeeps := @resolve_keeps after.groups after.names enc draft tree htree
    rcases hreads.numbers with ⟨count, hcount, hnumbers⟩
    refine ⟨?_, hkeeps.1 hreads.bounded_single, hkeeps.2 hreads.literals_single⟩
    simp only [Nat.zero_add, groupNumbersOf, List.append_nil] at hcount hnumbers
    rw [groupNumbers_resolve draft htree, hcount, hnumbers]

end Pattern

end RegexEngine
