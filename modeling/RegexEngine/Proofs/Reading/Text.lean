import RegexEngine.Pattern.Bracket
import RegexEngine.Pattern.Group
import RegexEngine.Pattern.Item
import RegexEngine.Pattern.Repeat

/-!
# Reading from Character to Character

A pattern is read byte by byte in some places and character by character in others. A reader that
stops inside a character would hand on a text that is not one of the encoding, and the literals made
of it could begin with a byte that no character begins with. None does.

Two observations carry this. What is left of a text of the encoding is one again as soon as it
starts with a byte that starts a character; and every reader stops before or behind a byte of
US-ASCII, which is a character of its own. `Remains` is what is left of a text wherever the reading
of it stops, even inside a character, so that loops which skip bytes need no account of where the
characters begin.

## Main definitions

* `Encoding.isHead`: A byte can start a character.
* `Encoding.Remains`: A text is what is left of a text of the encoding.

## Theorems

* `Remains.isValid_tail`: What is left behind a byte of US-ASCII is a text of the encoding.
* `isValid_splitFirst`: What is left behind a character is a text of the encoding.
* `isValid_readName`, `isValid_escapedCode`, `isValid_bracketClass`, …: Readers keep between
  characters.
-/

namespace RegexEngine

namespace Utf8

variable {b : UInt8} {n : Nat} {rest : List UInt8}

theorem leadLength_ascii (h : b < 0x80) : leadLength b = 1 := by
  have hlt : b < 0xc2 := UInt8.lt_trans h (by decide)
  rw [leadLength, if_pos hlt]

theorem isTail_ascii (h : b < 0x80) : isTail b = false := by
  simp only [isTail, Bool.and_eq_false_iff, decide_eq_false_iff_not]
  exact Or.inl (UInt8.not_le.mpr h)

/-- A byte that continues a character starts none. -/
theorem isTail_of_isBadLead (h : isBadLead b = false) : isTail b = false := by
  simp only [isBadLead, isTail, Bool.or_eq_false_iff, Bool.and_eq_false_iff,
    decide_eq_false_iff_not, UInt8.lt_iff_toNat_lt, UInt8.le_iff_toNat_le,
    UInt8.reduceToNat] at h ⊢
  omega

/-- A text that follows on owed bytes is judged by itself. -/
theorem validFrom_append (h : validFrom n rest = true) (more : List UInt8) :
    validFrom n (rest ++ more) = validFrom 0 more := by
  induction rest generalizing n with
  | nil =>
      cases n with
      | zero => rfl
      | succ n => cases h
  | cons b rest ih =>
      cases n with
      | zero | succ n =>
          simp only [validFrom, Bool.and_eq_true] at h
          rw [List.cons_append, validFrom, ih h.2]
          simp only [h.1, Bool.true_and]

/-- The bytes that are owed are enough. -/
theorem validFrom_take (h : validFrom n rest = true) : validFrom n (rest.take n) = true := by
  induction n generalizing rest with
  | zero => rfl
  | succ n ih =>
      cases rest with
      | nil => cases h
      | cons b rest =>
          simp only [validFrom, Bool.and_eq_true, List.take_succ_cons] at h ⊢
          exact ⟨h.1, ih h.2⟩

/-- Behind the bytes that are owed, a new character starts. -/
theorem validFrom_drop (h : validFrom n rest = true) : validFrom 0 (rest.drop n) = true := by
  induction n generalizing rest with
  | zero => exact h
  | succ n ih =>
      cases rest with
      | nil => cases h
      | cons b rest =>
          simp only [validFrom, Bool.and_eq_true] at h
          exact ih h.2

end Utf8

namespace Encoding

/-- Whether a byte can start a character. -/
def isHead : Encoding → UInt8 → Bool
  | utf8, b => !Utf8.isTail b
  | ascii, _ => true

/-- The text is what is left of a text of the encoding, though it may start inside a character. -/
def Remains : Encoding → List UInt8 → Prop
  | utf8, rest => ∃ pending, Utf8.validFrom pending rest = true
  | ascii, _ => True

variable {enc : Encoding} {b : UInt8} {char rest : List UInt8}

theorem isHead_ascii (h : b < 0x80) : enc.isHead b = true := by
  cases enc with
  | utf8 => rw [isHead, Utf8.isTail_ascii h, Bool.not_false]
  | ascii => rfl

theorem isHead_of_isValid (h : enc.isValid (b :: rest) = true) : enc.isHead b = true := by
  cases enc with
  | utf8 =>
      simp only [isValid, Utf8.isValid, Utf8.validFrom, Bool.and_eq_true, Bool.not_eq_true'] at h
      rw [isHead, Utf8.isTail_of_isBadLead h.1, Bool.not_false]
  | ascii => rfl

theorem isValid_nil : enc.isValid [] = true := by
  cases enc with
  | utf8 => rfl
  | ascii => rfl

theorem Remains.of_isValid (h : enc.isValid rest = true) : enc.Remains rest := by
  cases enc with
  | utf8 => exact ⟨0, h⟩
  | ascii => exact trivial

theorem Remains.tail (h : enc.Remains (b :: rest)) : enc.Remains rest := by
  cases enc with
  | ascii => exact trivial
  | utf8 =>
      rcases h with ⟨pending, h⟩
      cases pending with
      | zero =>
          simp only [Utf8.validFrom, Bool.and_eq_true] at h
          exact ⟨_, h.2⟩
      | succ pending =>
          simp only [Utf8.validFrom, Bool.and_eq_true] at h
          exact ⟨_, h.2⟩

/-- What is left is a text of the encoding if it starts with the first byte of a character. -/
theorem Remains.isValid (h : enc.Remains (b :: rest)) (hhead : enc.isHead b = true) :
    enc.isValid (b :: rest) = true := by
  cases enc with
  | ascii => rfl
  | utf8 =>
      rcases h with ⟨pending, h⟩
      cases pending with
      | zero => exact h
      | succ pending =>
          simp only [Utf8.validFrom, Bool.and_eq_true] at h
          rw [isHead, h.1] at hhead
          cases hhead

/-- What follows on a text of the encoding is judged by itself. -/
theorem isValid_append {bytes : List UInt8} (h : enc.isValid bytes = true) (more : List UInt8) :
    enc.isValid (bytes ++ more) = enc.isValid more := by
  cases enc with
  | utf8 => exact Utf8.validFrom_append h more
  | ascii => rfl

/-- A byte of US-ASCII is a text of the encoding. -/
theorem isValid_singleton (h : b < 0x80) : enc.isValid [b] = true := by
  cases enc with
  | ascii => rfl
  | utf8 =>
      have hlead : Utf8.isBadLead b = false := by
        simp only [Utf8.isBadLead, Bool.or_eq_false_iff, Bool.and_eq_false_iff,
          decide_eq_false_iff_not, UInt8.lt_iff_toNat_lt, UInt8.reduceToNat] at h ⊢
        omega
      simp only [isValid, Utf8.isValid, Utf8.validFrom, hlead, Utf8.leadLength_ascii h,
        Nat.sub_self, Bool.not_false, Bool.and_self]

/-- The first character of a text of the encoding is one itself. -/
theorem isValid_first {text : List UInt8} (h : enc.isValid text = true)
    (hsplit : enc.splitFirst text = some (char, rest)) : enc.isValid char = true := by
  cases text with
  | nil => cases hsplit
  | cons lead tail =>
      cases enc with
      | ascii => rfl
      | utf8 =>
          cases hsplit
          simp only [Encoding.isValid, Utf8.isValid, Utf8.validFrom, Bool.and_eq_true] at h ⊢
          exact ⟨h.1, Utf8.validFrom_take h.2⟩

/-- What is left behind a character is a text of the encoding. -/
theorem isValid_splitFirst {text : List UInt8} (h : enc.isValid text = true)
    (hsplit : enc.splitFirst text = some (char, rest)) : enc.isValid rest = true := by
  cases text with
  | nil => cases hsplit
  | cons lead tail =>
      cases enc with
      | ascii => rfl
      | utf8 =>
          cases hsplit
          simp only [Encoding.isValid, Utf8.isValid, Utf8.validFrom, Bool.and_eq_true] at h
          exact Utf8.validFrom_drop h.2

/-- What is left behind a byte of US-ASCII is a text of the encoding. -/
theorem Remains.isValid_tail (h : enc.Remains (b :: rest)) (hb : b < 0x80) :
    enc.isValid rest = true := by
  have hsplit : enc.splitFirst (b :: rest) = some ([b], rest) := by
    have hlength : enc.leadLength b = 1 := by
      cases enc with
      | utf8 => exact Utf8.leadLength_ascii hb
      | ascii => rfl
    rw [splitFirst, hlength]
    rfl
  exact isValid_splitFirst (h.isValid (isHead_ascii hb)) hsplit

theorem isValid_tail (h : enc.isValid (b :: rest) = true) (hb : b < 0x80) :
    enc.isValid rest = true :=
  (Remains.of_isValid h).isValid_tail hb

end Encoding

namespace Pattern

open Encoding

variable {α β : Type} {enc : Encoding} {env : Setting} {b : UInt8} {c : Char}
  {rest after start : List UInt8}

/-- What was read in two steps. -/
theorem bind_ok {x : Except Failure α} {f : α → Except Failure β} {result : β}
    (h : (x >>= f) = .ok result) : ∃ a, x = .ok a ∧ f a = .ok result := by
  cases x with
  | error failure => cases h
  | ok a => exact ⟨a, rfl, h⟩

theorem ascii_of_char (h : char b = c) (hc : c.toNat < 0x80) : b < 0x80 := by
  have hnat : c.toNat = b.toNat := by
    rw [← h]
    rfl
  rw [UInt8.lt_iff_toNat_lt]
  exact hnat ▸ hc

/-- Behind a character of US-ASCII a text of the encoding is one again. -/
theorem isValid_tail_of_char (h : enc.isValid (b :: rest) = true) (hchar : char b = c)
    (hc : c.toNat < 0x80) : enc.isValid rest = true :=
  isValid_tail h (ascii_of_char hchar hc)

/-- A text that starts with a byte of US-ASCII is a text of the encoding again behind it. -/
theorem isValid_tail_of_startsWith (h : enc.isValid rest = true)
    (hstarts : startsWith rest c = true) (hc : c.toNat < 0x80) :
    enc.isValid rest.tail = true := by
  cases rest with
  | nil => cases hstarts
  | cons b rest => exact isValid_tail_of_char h (eq_of_beq hstarts) hc

theorem digitValue_ascii {base d : Nat} (h : digitValue? base b = some d) : b < 0x80 := by
  simp only [digitValue?, Option.filter_eq_some_iff, Encoding.hexValue?, Bool.and_eq_true,
    decide_eq_true_eq] at h
  simp only [UInt8.lt_iff_toNat_lt, UInt8.reduceToNat]
  split at h
  · omega
  · split at h
    · omega
    · split at h
      · omega
      · cases h.1

theorem isValid_scanDigits (base room value count : Nat) (h : enc.isValid rest = true) :
    enc.isValid (scanDigits base room value count rest).2.2 = true := by
  induction room generalizing value count rest with
  | zero => exact h
  | succ room ih =>
      cases rest with
      | nil => exact h
      | cons b rest =>
          rw [scanDigits]
          split
          · rename_i hdigit
            exact ih _ _ (isValid_tail h (digitValue_ascii hdigit))
          · exact h

theorem isValid_scanNumber (h : enc.isValid rest = true) :
    enc.isValid (scanNumber rest).2 = true :=
  isValid_scanDigits _ _ _ _ h

theorem isBlank_ascii (h : isBlank b = true) : b < 0x80 := by
  simp only [isBlank, Bool.or_eq_true, Bool.and_eq_true, decide_eq_true_eq, beq_iff_eq,
    UInt8.le_iff_toNat_le, ← UInt8.toNat_inj, UInt8.reduceToNat] at h
  simp only [UInt8.lt_iff_toNat_lt, UInt8.reduceToNat]
  omega

/-- Blank space ends where a character starts, in a comment or outside of one. -/
theorem isValid_skipBlankFrom {inComment : Bool} (h : enc.Remains rest)
    (hvalid : inComment = false → enc.isValid rest = true) :
    enc.isValid (skipBlankFrom inComment rest) = true := by
  -- A comment is skipped byte by byte, so inside of one only `Remains` is known.
  induction rest generalizing inComment with
  | nil =>
      rw [skipBlankFrom]
      exact isValid_nil
  | cons b rest ih =>
      cases inComment with
      | true =>
          rw [skipBlankFrom]
          refine ih h.tail fun hline => h.isValid_tail ?_
          obtain rfl : b = 0x0a := by simpa using hline
          decide
      | false =>
          rw [skipBlankFrom]
          split
          · rename_i hblank
            exact ih h.tail fun _ => h.isValid_tail (isBlank_ascii hblank)
          · split
            · exact ih h.tail (by rintro ⟨⟩)
            · exact hvalid rfl

theorem isValid_skipBlank (options : Options) (h : enc.isValid rest = true) :
    enc.isValid (skipBlank options rest) = true := by
  rw [skipBlank]
  split
  · exact isValid_skipBlankFrom (.of_isValid h) fun _ => h
  · exact h

theorem isValid_skipComment (h : enc.Remains rest) (hskip : skipComment rest = some after) :
    enc.isValid after = true := by
  -- A backslash hides a byte, which may be the first one of a longer character.
  fun_induction skipComment rest with
  | case1 => cases hskip
  | case2 b rest hclose =>
      cases hskip
      exact h.isValid_tail (ascii_of_char hclose (by decide))
  | case3 => cases hskip
  | case4 b hescape hidden rest ih => exact ih h.tail.tail hskip
  | case5 b rest _ _ ih => exact ih h.tail hskip

theorem isValid_optionLetters {options found : Options} {value hasGroup : Bool}
    (h : env.encoding.isValid rest = true)
    (hread : optionLetters env options value rest = .ok (found, hasGroup, after)) :
    env.encoding.isValid after = true := by
  fun_induction optionLetters env options value rest with
  | case1 => cases hread
  | case2 options value b rest hminus ih =>
      exact ih (isValid_tail_of_char h hminus (by decide)) hread
  | case3 options value b rest hclose =>
      cases hread
      exact isValid_tail_of_char h hclose (by decide)
  | case4 options value b rest hcolon =>
      cases hread
      exact isValid_tail_of_char h hcolon (by decide)
  | case5 options value b rest options' _ _ _ hset ih =>
      refine ih (isValid_tail h (ascii_of_char rfl ?_)) hread
      -- The letters that stand for options are few.
      rw [setOption?.eq_def] at hset
      split at hset
      case h_5 => cases hset
      all_goals
        rename_i hletter
        rw [hletter]
        decide
  | case6 => cases hread

theorem isValid_splitAtClose {text : List UInt8} (h : enc.Remains rest)
    (hsplit : splitAtClose rest = some (text, after)) : enc.isValid after = true := by
  induction rest generalizing text with
  | nil => cases hsplit
  | cons b rest ih =>
      rw [splitAtClose] at hsplit
      split at hsplit
      · rename_i hclose
        rw [Bool.and_eq_true] at hclose
        cases hsplit
        refine isValid_tail_of_startsWith ?_ hclose.2 (by decide)
        exact h.isValid_tail (ascii_of_char (eq_of_beq hclose.1) (by decide))
      · rcases Option.map_eq_some_iff.mp hsplit with ⟨⟨name, rest'⟩, hrest, hpair⟩
        cases hpair
        exact ih h.tail hrest

/-- The reading of a name ends at the closing byte or at the end of the pattern. -/
theorem scanName_ends (close : Char) {fuel : Nat} (wordsOnly : Bool)
    (h : env.encoding.isValid rest = true) (hfuel : rest.length ≤ fuel) :
    let stop := (scanName env close fuel wordsOnly rest).2
    env.encoding.isValid stop = true ∧ (stop = [] ∨ startsWith stop close = true) := by
  fun_induction scanName env close fuel wordsOnly rest with
  | case1 wordsOnly rest =>
      exact ⟨h, Or.inl (List.length_eq_zero_iff.mp (Nat.le_zero.mp hfuel))⟩
  | case2 fuel wordsOnly rest hclose => exact ⟨h, Or.inr hclose⟩
  | case3 => exact ⟨isValid_nil, Or.inl rfl⟩
  | case4 fuel wordsOnly rest _ char tail hsplit ih =>
      -- Each character takes a byte at least, so the fuel does not run out before the text.
      have hlt := splitFirst_length_lt hsplit
      exact ih (isValid_splitFirst h hsplit) (by omega)

theorem isValid_readName {close : Char} (hclose : close.toNat < 0x80) {name : List UInt8}
    (h : env.encoding.isValid start = true) (hread : readName env close start = .ok (name, after)) :
    env.encoding.isValid after = true := by
  cases start with
  | nil => cases hread
  | cons first tail =>
      have hends := scanName_ends close true h (Nat.le_refl _)
      rw [readName] at hread
      split at hread
      · cases hread
      · -- Whatever the name is like, the reading goes on behind the byte that stopped the scan.
        generalize scanName env close (first :: tail).length true (first :: tail) = scanned
          at hread hends
        rcases scanned with ⟨wordsOnly, stop⟩
        rcases bind_ok hread with ⟨name, hname, hread⟩
        cases stop with
        | nil => cases hread
        | cons b stop =>
            -- However the name is refused or accepted, what is left is the text behind the byte.
            have hafter : after = stop := by
              simp only at hread
              split at hread
              · cases hread
              · split at hread
                · cases hread
                · split at hread
                  · cases hread
                  · cases hread
                    rfl
            rw [hafter]
            rcases hends with ⟨hvalid, hnil | hstarts⟩
            · cases hnil
            · exact isValid_tail_of_startsWith hvalid hstarts hclose

theorem isValid_readNumber {close : Char} (hclose : close.toNat < 0x80) {groups n : Nat}
    {sign : Option Char} {digits : List UInt8} (h : env.encoding.isValid digits = true)
    (hread : readNumber env groups close sign start digits = .ok (n, after)) :
    env.encoding.isValid after = true := by
  rw [readNumber] at hread
  have hrest := isValid_scanNumber h
  generalize scanNumber digits = scanned at hread hrest
  rcases scanned with ⟨value?, rest⟩
  simp only at hread
  split at hread
  · rename_i hstarts
    split at hread
    · cases hread
    · split at hread
      · cases hread
      · cases hread
        exact isValid_tail_of_startsWith hrest hstarts hclose
  · rcases bind_ok hread with ⟨read, hslice, hread⟩
    cases hread

theorem isValid_readReference {close : Char} (hclose : close.toNat < 0x80) {groups : Nat}
    {target : Reference} (h : env.encoding.isValid start = true)
    (hread : readReference env groups close start = .ok (target, after)) :
    env.encoding.isValid after = true := by
  -- A reference by number ends behind the closing bracket, with or without a sign before it.
  have hnumber : ∀ {sign : Option Char} {digits : List UInt8},
      env.encoding.isValid digits = true →
      (readNumber env groups close sign start digits >>= fun found =>
        .ok (Reference.number found.1, found.2)) = .ok (target, after) →
      env.encoding.isValid after = true := by
    intro sign digits hdigits hread
    rcases bind_ok hread with ⟨⟨n, rest⟩, hnumber, hpair⟩
    cases hpair
    exact isValid_readNumber hclose hdigits hnumber
  -- And so does one by name.
  have hname : (readName env close start >>= fun found =>
      .ok (Reference.name found.1, found.2)) = .ok (target, after) →
      env.encoding.isValid after = true := by
    intro hread
    rcases bind_ok hread with ⟨⟨name, rest⟩, hname, hpair⟩
    cases hpair
    exact isValid_readName hclose h hname
  rw [readReference.eq_def] at hread
  split at hread
  · exact hname hread
  · split at hread
    · exact hname hread
    · split at hread
      · exact hnumber h hread
      · split at hread
        · rename_i hsign
          exact hnumber (isValid_tail_of_char h hsign (by decide)) hread
        · rename_i hsign
          exact hnumber (isValid_tail_of_char h hsign (by decide)) hread
        · exact hname hread

theorem isValid_hexEscape {esc : List UInt8} {code : Nat} (h : env.encoding.isValid rest = true)
    (hread : hexEscape env esc rest = .ok (code, after)) : env.encoding.isValid after = true := by
  rw [hexEscape] at hread
  split at hread
  · rename_i hopen
    have hdigits := isValid_scanDigits 16 8 0 0
      (isValid_tail_of_startsWith h hopen (by decide))
    simp only at hread
    split at hread
    · cases hread
    · rename_i hclosed
      cases hread
      simp only [Bool.or_eq_true, Bool.not_eq_true', not_or, Bool.not_eq_false] at hclosed
      exact isValid_tail_of_startsWith hdigits hclosed.2 (by decide)
  · cases hread
    exact isValid_scanDigits _ _ _ _ h

theorem isValid_escapedCode {esc : List UInt8} {code : Nat} (h : env.encoding.isValid rest = true)
    (hread : escapedCode env esc rest = .ok (code, after)) : env.encoding.isValid after = true := by
  cases rest with
  | nil => cases hread
  | cons b tail =>
      rw [escapedCode] at hread
      -- The cases are those of the reader: a control letter, digits of either base, a character.
      split at hread
      · rename_i code' hcontrol
        cases hread
        refine isValid_tail h (ascii_of_char rfl ?_)
        rw [controlEscape?] at hcontrol
        split at hcontrol
        case h_8 => cases hcontrol
        all_goals
          rename_i hletter
          rw [hletter]
          decide
      · split at hread
        · rename_i hletter
          exact isValid_hexEscape (isValid_tail_of_char h hletter (by decide)) hread
        · rename_i hletter
          have hdigits := isValid_scanDigits 16 4 0 0 (isValid_tail_of_char h hletter (by decide))
          simp only at hread
          split at hread
          · cases hread
          · cases hread
            exact hdigits
        · rename_i hletter
          cases hread
          exact isValid_scanDigits _ _ _ _ (isValid_tail_of_char h hletter (by decide))
        · split at hread
          · cases hread
          · rename_i hsplit
            cases hread
            exact isValid_splitFirst h hsplit

theorem kindEscape_ascii {dialect : Dialect} {found : CharKind × Bool}
    (h : kindEscape? dialect b = some found) : b < 0x80 := by
  refine ascii_of_char rfl ?_
  rw [kindEscape?] at h
  split at h
  case h_9 => cases h
  all_goals
    rename_i hletter
    rw [hletter]
    decide

theorem isValid_classItem {found : ClassItem} (h : env.encoding.isValid rest = true)
    (hread : classItem env rest = .ok (found, after)) : env.encoding.isValid after = true := by
  rw [classItem] at hread
  -- What is behind the backslash is read by what it stands for; any other character is split off
  -- whole.
  split at hread
  · rename_i hescape
    have htail := isValid_tail_of_startsWith h hescape (by decide)
    split at hread
    · cases hread
    · rename_i b tail heq
      rw [heq] at htail
      split at hread
      · rename_i hkind
        cases hread
        exact isValid_tail htail (kindEscape_ascii hkind)
      · split at hread
        · rename_i hletter
          cases hread
          exact isValid_tail_of_char htail (eq_of_beq hletter) (by decide)
        · rcases bind_ok hread with ⟨⟨code, last⟩, hread, hpair⟩
          cases hpair
          exact isValid_escapedCode htail hread
  · split at hread
    · cases hread
    · rename_i hsplit
      cases hread
      exact isValid_splitFirst h hsplit

theorem isValid_bracketName {kind : CharKind} {negated : Bool} {body : List UInt8}
    (h : env.encoding.isValid body = true)
    (hread : bracketName? env start body = .ok (some (kind, negated, after))) :
    env.encoding.isValid after = true := by
  rw [bracketName?] at hread
  split at hread
  · cases hread
  · rename_i text last hsplit
    simp only at hread
    generalize (if startsWith text '^' then text.tail else text) = name at hread
    split at hread
    · cases hread
    · split at hread
      · cases hread
      · cases hread
        exact isValid_splitAtClose (.of_isValid h) hsplit

theorem isValid_classItems {fuel : Nat} {set found : CharSet} {low : Option Nat}
    (h : env.encoding.isValid rest = true)
    (hread : classItems env fuel set low rest = .ok (found, after)) :
    env.encoding.isValid after = true := by
  -- The cases are the bytes that mean something in a class: its end, a named class and a range.
  induction fuel generalizing set low rest with
  | zero => cases hread
  | succ fuel ih =>
      cases rest with
      | nil => cases hread
      | cons b tail =>
          rw [classItems.eq_def] at hread
          simp only at hread
          split at hread
          · rename_i hclose
            cases hread
            exact isValid_tail_of_char h hclose (by decide)
          · rename_i hopen
            have htail := isValid_tail_of_char h hopen (by decide)
            split at hread
            · rename_i hcolon
              rw [Bool.and_eq_true] at hcolon
              rcases bind_ok hread with ⟨named, hnamed, hread⟩
              split at hread
              · refine ih ?_ hread
                exact isValid_bracketName
                  (isValid_tail_of_startsWith htail hcolon.2 (by decide)) hnamed
              · exact ih htail hread
            · exact ih htail hread
          · rename_i hminus
            have htail := isValid_tail_of_char h hminus (by decide)
            split at hread
            · rcases bind_ok hread with ⟨⟨item, last⟩, hitem, hread⟩
              simp only at hread
              split at hread
              · cases hread
              · split at hread
                · cases hread
                · exact ih (isValid_classItem htail hitem) hread
            · exact ih htail hread
          · rcases bind_ok hread with ⟨⟨item, last⟩, hitem, hread⟩
            simp only at hread
            split at hread
            · exact ih (isValid_classItem h hitem) hread
            · exact ih (isValid_classItem h hitem) hread

theorem isValid_bracketClass {ignoreCase : Bool} {found : CharSet}
    (h : env.encoding.isValid start.tail = true)
    (hread : bracketClass env ignoreCase start = .ok (found, after)) :
    env.encoding.isValid after = true := by
  -- A class may begin with a caret and then with a bracket that stands for itself.
  have hrest : env.encoding.isValid
      (if startsWith start.tail '^' then start.tail.tail else start.tail) = true := by
    split
    · rename_i hcaret
      exact isValid_tail_of_startsWith h hcaret (by decide)
    · exact h
  rw [bracketClass] at hread
  generalize (if startsWith start.tail '^' then start.tail.tail else start.tail) = rest
    at hread hrest
  simp only at hread
  split at hread
  · rename_i hbracket
    split at hread
    · rcases bind_ok hread with ⟨opened, hopened, hclass⟩
      cases hopened
      rcases bind_ok hclass with ⟨⟨set, last⟩, hitems, hpair⟩
      cases hpair
      exact isValid_classItems (isValid_tail_of_startsWith hrest hbracket (by decide)) hitems
    · cases hread
  · rcases bind_ok hread with ⟨opened, hopened, hclass⟩
    cases hopened
    rcases bind_ok hclass with ⟨⟨set, last⟩, hitems, hpair⟩
    cases hpair
    exact isValid_classItems hrest hitems

theorem noInterval_ne_some {found : α} : noInterval env start rest ≠ .ok (some found) := by
  rw [noInterval]
  split
  · rintro ⟨⟩
  · split
    · rintro ⟨⟩
    · rintro ⟨⟩

/-- An interval ends behind its brace, and its bounds are in order. -/
theorem interval_ok {lower : Nat} {upper : Option Nat} {tail : List UInt8}
    (h : env.encoding.isValid tail = true)
    (hread : interval env (b :: tail) = .ok (some (lower, upper, after))) :
    env.encoding.isValid after = true ∧ ∀ n, upper = some n → lower ≤ n := by
  rw [interval] at hread
  have hnumber := isValid_scanNumber h
  rcases hscan : scanNumber tail with ⟨value?, rest⟩
  rw [hscan] at hnumber
  simp only [List.tail_cons, hscan] at hread hnumber
  split at hread
  · exact absurd hread noInterval_ne_some
  · rename_i low hlow
    split at hread
    · exact absurd hread noInterval_ne_some
    -- The upper bound is the lower one, or is read behind a comma.
    · rename_i up last hbounds
      have hlast : env.encoding.isValid last = true := by
        split at hbounds
        · cases hbounds
          exact hnumber
        · split at hbounds
          · rename_i hcomma
            rw [Option.some.injEq] at hbounds
            have hscan := isValid_scanNumber
              (isValid_tail_of_startsWith hnumber hcomma (by decide))
            rw [hbounds] at hscan
            exact hscan
          · cases hbounds
      split at hread
      · rename_i hbrace
        rcases bind_ok hread with ⟨checked, hcheck, hread⟩
        cases hread
        refine ⟨isValid_tail_of_startsWith hlast hbrace (by decide), fun n hn => ?_⟩
        subst hn
        -- Bounds in the wrong order have been refused.
        rw [checkBounds] at hcheck
        split at hcheck
        · cases hcheck
        · split at hcheck
          · cases hcheck
          · rename_i horder
            simpa using horder
      · exact absurd hread noInterval_ne_some

theorem isValid_manner (dialect : Dialect) (q : Quantifier) (h : enc.isValid rest = true) :
    enc.isValid (manner dialect q rest).2 = true := by
  rw [manner]
  split
  · rename_i hlazy
    exact isValid_tail_of_startsWith h hlazy (by decide)
  · split
    · rename_i hpossessive
      rw [Bool.and_eq_true] at hpossessive
      exact isValid_tail_of_startsWith h hpossessive.2 (by decide)
    · exact h

theorem bounds_manner (dialect : Dialect) (q : Quantifier) (rest : List UInt8) :
    (manner dialect q rest).1.lower = q.lower ∧ (manner dialect q rest).1.upper = q.upper := by
  rw [manner]
  split
  · exact ⟨rfl, rfl⟩
  · split
    · exact ⟨rfl, rfl⟩
    · exact ⟨rfl, rfl⟩

/-- The bounds of a repeat operator are in order. -/
theorem quantifier_ok {q : Quantifier} (h : env.encoding.isValid rest = true)
    (hread : quantifier? env rest = .ok (some (q, after))) :
    env.encoding.isValid after = true ∧ ∀ n, q.upper = some n → q.lower ≤ n := by
  -- What follows the operator changes how it is run and not how often.
  have hmanner : ∀ {bounds : Quantifier} {last : List UInt8},
      manner env.dialect bounds last = (q, after) → env.encoding.isValid last = true →
      (∀ n, bounds.upper = some n → bounds.lower ≤ n) →
      env.encoding.isValid after = true ∧ ∀ n, q.upper = some n → q.lower ≤ n := by
    intro bounds last heq hlast hbounds
    have hvalid := isValid_manner env.dialect bounds hlast
    have hsame := bounds_manner env.dialect bounds last
    rw [heq] at hvalid hsame
    refine ⟨hvalid, ?_⟩
    rw [hsame.1, hsame.2]
    exact hbounds
  cases rest with
  | nil => cases hread
  | cons b tail =>
      rw [quantifier?] at hread
      split at hread
      · rename_i hsign
        rw [Except.ok.injEq, Option.some.injEq] at hread
        exact hmanner hread (isValid_tail_of_char h hsign (by decide)) (by rintro n ⟨⟩)
      · rename_i hsign
        rw [Except.ok.injEq, Option.some.injEq] at hread
        exact hmanner hread (isValid_tail_of_char h hsign (by decide)) (by rintro n ⟨⟩)
      · rename_i hsign
        rw [Except.ok.injEq, Option.some.injEq] at hread
        exact hmanner hread (isValid_tail_of_char h hsign (by decide)) fun _ _ => Nat.zero_le _
      · rename_i hsign
        rcases bind_ok hread with ⟨found, hinterval, hread⟩
        split at hread
        · cases hread
        · rw [Except.ok.injEq, Option.some.injEq] at hread
          have hok := interval_ok (isValid_tail_of_char h hsign (by decide)) hinterval
          exact hmanner hread hok.1 hok.2
      · cases hread

end Pattern

end RegexEngine
