import RegexEngine.Proofs.Class.Folding
import RegexEngine.Proofs.Reading.Text

/-!
# The Items of a Class

What a bracket class lists, read off its text apart from any set: a list of ranges and kinds, in the
order of the text. `Lists` is the grammar of the text between the brackets, one rule for each way in
which an item may begin. The character before a minus sign is listed once by itself and once as the
end of the range.

The reader of classes adds each item to a set as it comes to it. It reads just the texts of the
grammar (`exists_lists`) and ends with the set of their items (`classItems_of_lists`). The members
of that set are what the items cover.

## Main definitions

* `Entry`: what one item lists.
* `Lists`, `ClassLists`: the items of a text.
* `insertAll`: adds items to a set.

## Theorems

* `lists_insertAll`: A set lists what its items cover.
* `exists_lists`, `classItems_of_lists`: The reader of items and the grammar.
* `exists_classLists`, `bracketClass_of_lists`: The same for a whole class.
-/

namespace RegexEngine

namespace Pattern

/-- The setting in which the classes of a pattern in UTF-8 and the standard dialect are read. -/
abbrev standardSetting (pattern : List UInt8) : Setting :=
  ⟨pattern, .utf8, Dialect.standard, 0, 0⟩

/-- What an item of a class lists. A single character is a range. -/
inductive Entry where
  | span (low high : Nat)
  | kind (found : CharKind) (negated : Bool)
  deriving DecidableEq, Repr

namespace Entry

/-- Whether an item lists a code point. -/
def covers (enc : Encoding) (c : Nat) : Entry → Bool
  | span low high => low ≤ c && c ≤ high
  | kind found negated => enc.hasKind found c != negated

/-- Adds an item to a set. -/
def addTo (enc : Encoding) (set : CharSet) : Entry → CharSet
  | span low high => set.insertRange low high
  | kind found negated => set.insertKind enc found negated

end Entry

/-- Adds items to a set. -/
def insertAll (enc : Encoding) (set : CharSet) (entries : List Entry) : CharSet :=
  entries.foldl (Entry.addTo enc) set

section Members

variable {enc : Encoding} {set : CharSet} {entry : Entry} {entries : List Entry} {c : Nat}
  {r : Nat × Nat}

@[simp] theorem insertAll_nil : insertAll enc set [] = set :=
  List.foldl_nil

theorem insertAll_cons :
    insertAll enc set (entry :: entries) = insertAll enc (entry.addTo enc set) entries :=
  List.foldl_cons ..

@[simp] theorem insertAll_span {low high : Nat} : insertAll enc set (.span low high :: entries) =
    insertAll enc (set.insertRange low high) entries :=
  List.foldl_cons ..

@[simp] theorem insertAll_kind {found : CharKind} {negated : Bool} :
    insertAll enc set (.kind found negated :: entries) =
      insertAll enc (set.insertKind enc found negated) entries :=
  List.foldl_cons ..

theorem insertAll_append {more : List Entry} : insertAll enc set (entries ++ more) =
    insertAll enc (insertAll enc set entries) more :=
  List.foldl_append

theorem negated_addTo : (entry.addTo enc set).negated = set.negated := by
  cases entry <;> simp only [Entry.addTo, CharSet.insertRange, CharSet.insertKind]

theorem ignoreCase_addTo : (entry.addTo enc set).ignoreCase = set.ignoreCase := by
  cases entry <;> simp only [Entry.addTo, CharSet.insertRange, CharSet.insertKind]

theorem negated_insertAll : (insertAll enc set entries).negated = set.negated := by
  induction entries generalizing set with
  | nil => rw [insertAll_nil]
  | cons entry rest ih => rw [insertAll_cons, ih, negated_addTo]

theorem ignoreCase_insertAll : (insertAll enc set entries).ignoreCase = set.ignoreCase := by
  induction entries generalizing set with
  | nil => rw [insertAll_nil]
  | cons entry rest ih => rw [insertAll_cons, ih, ignoreCase_addTo]

theorem lists_insertRange {low high : Nat} (h : set.ignoreCase = false) :
    (set.insertRange low high).lists enc c =
      (set.lists enc c || (decide (low ≤ c) && decide (c ≤ high))) := by
  simp only [CharSet.lists, CharSet.insertRange, h]
  -- Below 256 the byte set answers, and above the ranges and kinds do.
  by_cases hc : c < 256
  · simp only [hc, if_true]
    split
    · rw [ByteSet.contains_insertRange]
      simp [hc]
    · have habove : decide (low ≤ c) = false := by
        rw [decide_eq_false_iff_not]
        omega
      rw [habove, Bool.false_and, Bool.or_false]
  · -- From 256 on the cut range has what the range has.
    have hcut : CharKind.inRanges (if 256 ≤ high then set.ranges ++ [(max low 256, high)]
        else set.ranges) c =
          (CharKind.inRanges set.ranges c || (decide (low ≤ c) && decide (c ≤ high))) := by
      rw [Bool.eq_iff_iff, Bool.or_eq_true, Bool.and_eq_true, decide_eq_true_eq, decide_eq_true_eq,
        CharSet.inRanges_iff, CharSet.inRanges_iff]
      split
      · simp only [List.mem_append, List.mem_singleton, or_and_right, exists_or, exists_eq_left]
        refine or_congr_right ?_
        omega
      · refine (or_iff_left ?_).symm
        omega
    simp only [hc, if_false, hcut]
    cases CharKind.inRanges set.ranges c
    · simp [Bool.or_comm]
    · simp

theorem lists_insertKind {found : CharKind} {negated : Bool} (h : set.ignoreCase = false) :
    (set.insertKind enc found negated).lists enc c =
      (set.lists enc c || (enc.hasKind found c != negated)) := by
  simp only [CharSet.lists, CharSet.insertKind, h, ByteSet.contains_insertWhere, List.any_append]
  by_cases hc : c < 256
  · simp [hc]
  · simp only [hc, if_false]
    rw [List.any_cons, List.any_nil, Bool.or_false]
    cases CharKind.inRanges set.ranges c
    · cases set.kinds.any fun k => enc.hasKind k.1 c != k.2
      · simp only [Bool.false_eq_true, if_false, Bool.false_or, Bool.not_false, if_true]
        cases enc.hasKind found c != negated <;> rfl
      · rfl
    · rfl

theorem lists_addTo (h : set.ignoreCase = false) :
    (entry.addTo enc set).lists enc c = (set.lists enc c || entry.covers enc c) := by
  cases entry with
  | span low high => exact lists_insertRange h
  | kind found negated => exact lists_insertKind h

/-- A set lists what the items that were added cover, and what it listed before. -/
theorem lists_insertAll (h : set.ignoreCase = false) :
    (insertAll enc set entries).lists enc c =
      (set.lists enc c || entries.any (Entry.covers enc c)) := by
  induction entries generalizing set with
  | nil => rw [insertAll_nil, List.any_nil, Bool.or_false]
  | cons entry rest ih =>
      rw [insertAll_cons, ih (ignoreCase_addTo.trans h), lists_addTo h, List.any_cons,
        Bool.or_assoc]

theorem kinds_insertAll (h : ∀ entry ∈ entries, ∃ low high, entry = .span low high) :
    (insertAll enc set entries).kinds = set.kinds := by
  induction entries generalizing set with
  | nil => rw [insertAll_nil]
  | cons entry rest ih =>
      rw [List.forall_mem_cons] at h
      rcases h.1 with ⟨low, high, rfl⟩
      rw [insertAll_cons, ih h.2, Entry.addTo, CharSet.insertRange]

/-- The ranges of a set are cut from those that were added. -/
theorem mem_ranges_insertAll : r ∈ (insertAll enc set entries).ranges ↔
    r ∈ set.ranges ∨
      ∃ low high, .span low high ∈ entries ∧ 256 ≤ high ∧ r = (max low 256, high) := by
  induction entries generalizing set with
  | nil => simp
  | cons entry rest ih =>
      rw [insertAll_cons, ih]
      cases entry with
      | span low high =>
          simp only [Entry.addTo, CharSet.insertRange, List.mem_cons, Entry.span.injEq]
          split
          · simp only [List.mem_append, List.mem_singleton]
            grind
          · grind
      | kind found negated =>
          simp only [Entry.addTo, CharSet.insertKind, List.mem_cons, reduceCtorEq, false_or]

end Members

/-- The items of the text between the brackets, and what follows the closing bracket. A range can
start at the character `low`, if the item before was one. -/
inductive Lists (env : Setting) :
    (low : Option Nat) → (rest : List UInt8) → List Entry → (stop : List UInt8) → Prop where
  /-- The closing bracket. -/
  | close {low : Option Nat} {b : UInt8} {after : List UInt8} (closes : char b = ']') :
      Lists env low (b :: after) [] after
  /-- A kind by its name in brackets. -/
  | named {low : Option Nat} {b : UInt8} {after last stop : List UInt8} {found : CharKind}
      {negated : Bool} {entries : List Entry} (opens : char b = '[')
      (colon : (env.dialect.bracketNames && startsWith after ':') = true)
      (read : bracketName? env (b :: after) after.tail = .ok (some (found, negated, last)))
      (more : Lists env none last entries stop) :
      Lists env low (b :: after) (.kind found negated :: entries) stop
  /-- An opening bracket before anything but a name. -/
  | bracket {low : Option Nat} {b : UInt8} {after stop : List UInt8} {entries : List Entry}
      (opens : char b = '[')
      (unnamed : (env.dialect.bracketNames && startsWith after ':') = true →
        bracketName? env (b :: after) after.tail = .ok none)
      (more : Lists env (some 0x5b) after entries stop) :
      Lists env low (b :: after) (.span 0x5b 0x5b :: entries) stop
  /-- A minus sign between two characters. -/
  | range {low high : Nat} {b : UInt8} {after last stop : List UInt8} {entries : List Entry}
      (minus : char b = '-') (ends : rangeCanEnd after = true)
      (read : classItem env after = .ok (.code high, last)) (ordered : low ≤ high)
      (more : Lists env none last entries stop) :
      Lists env (some low) (b :: after) (.span low high :: entries) stop
  /-- A minus sign that stands for itself. -/
  | minus {low : Option Nat} {b : UInt8} {after stop : List UInt8} {entries : List Entry}
      (minus : char b = '-') (alone : low = none ∨ rangeCanEnd after = false)
      (more : Lists env (some 0x2d) after entries stop) :
      Lists env low (b :: after) (.span 0x2d 0x2d :: entries) stop
  /-- A character, or an escape for one. -/
  | code {low : Option Nat} {c : Nat} {b : UInt8} {after last stop : List UInt8}
      {entries : List Entry} (other : char b ≠ ']' ∧ char b ≠ '[' ∧ char b ≠ '-')
      (read : classItem env (b :: after) = .ok (.code c, last))
      (more : Lists env (some c) last entries stop) :
      Lists env low (b :: after) (.span c c :: entries) stop
  /-- An escape for a kind. -/
  | kind {low : Option Nat} {b : UInt8} {after last stop : List UInt8} {found : CharKind}
      {negated : Bool} {entries : List Entry}
      (other : char b ≠ ']' ∧ char b ≠ '[' ∧ char b ≠ '-')
      (read : classItem env (b :: after) = .ok (.kind found negated, last))
      (more : Lists env none last entries stop) :
      Lists env low (b :: after) (.kind found negated :: entries) stop

/-- The items that a class starts with, and the text of the others. A caret is passed over, and a
closing bracket that comes first is an item. -/
def classStart (start : List UInt8) : List Entry × List UInt8 :=
  let rest := if startsWith start.tail '^' then start.tail.tail else start.tail
  if startsWith rest ']' then ([.span 0x5d 0x5d], rest.tail) else ([], rest)

/-- The items of a class whose opening bracket stands at `start`, and what follows the class. -/
def ClassLists (env : Setting) (start : List UInt8) (entries : List Entry) (stop : List UInt8) :
    Prop :=
  ∃ more, entries = (classStart start).1 ++ more ∧ Lists env none (classStart start).2 more stop

section Reading

variable {env : Setting} {fuel : Nat} {set found : CharSet} {low : Option Nat}
  {rest stop after start : List UInt8} {entries : List Entry}

/-- What the reader of items reads has items. -/
theorem exists_lists (hread : classItems env fuel set low rest = .ok (found, stop)) :
    ∃ entries, Lists env low rest entries stop := by
  -- The cases are those of the reader, and each is a rule of the grammar.
  induction fuel generalizing set low rest with
  | zero => cases hread
  | succ fuel ih =>
      cases rest with
      | nil => cases hread
      | cons b tail =>
          rw [classItems.eq_def] at hread
          simp only at hread
          split at hread
          · rename_i hclose
            cases hread
            exact ⟨[], .close hclose⟩
          · rename_i hopen
            split at hread
            · rename_i hcolon
              rcases bind_ok hread with ⟨named, hnamed, hread⟩
              split at hread
              · rcases ih hread with ⟨entries, hmore⟩
                exact ⟨_, .named hopen hcolon hnamed hmore⟩
              · rcases ih hread with ⟨entries, hmore⟩
                exact ⟨_, .bracket hopen (fun _ => hnamed) hmore⟩
            · rename_i hcolon
              rcases ih hread with ⟨entries, hmore⟩
              exact ⟨_, .bracket hopen (fun h => absurd h hcolon) hmore⟩
          · rename_i hminus
            split at hread
            · rename_i hends
              rcases bind_ok hread with ⟨⟨item, last⟩, hitem, hread⟩
              simp only at hread
              split at hread
              · cases hread
              · split at hread
                · cases hread
                · rename_i hordered
                  rcases ih hread with ⟨entries, hmore⟩
                  exact ⟨_, .range hminus hends hitem (Nat.le_of_not_lt hordered) hmore⟩
            · rename_i hnot
              rcases ih hread with ⟨entries, hmore⟩
              refine ⟨_, .minus hminus ?_ hmore⟩
              rw [Option.eq_none_iff_forall_ne_some, or_iff_not_imp_right, Bool.not_eq_false]
              exact fun hends first hfirst => hnot first hfirst hends
          · rename_i hclose hopen hminus
            rcases bind_ok hread with ⟨⟨item, last⟩, hitem, hread⟩
            simp only at hread
            split at hread
            · rcases ih hread with ⟨entries, hmore⟩
              exact ⟨_, .code ⟨hclose, hopen, hminus⟩ hitem hmore⟩
            · rcases ih hread with ⟨entries, hmore⟩
              exact ⟨_, .kind ⟨hclose, hopen, hminus⟩ hitem hmore⟩

/-- A reader without fuel answers nothing. -/
theorem exists_fuel (hread : classItems env fuel set low rest = .ok (found, after)) :
    ∃ less, fuel = less + 1 := by
  cases fuel with
  | zero => cases hread
  | succ fuel => exact ⟨fuel, rfl⟩

/-- The reader of items ends with the set of the items. -/
theorem classItems_of_lists (h : Lists env low rest entries stop)
    (hread : classItems env fuel set low rest = .ok (found, after)) :
    found = insertAll env.encoding set entries ∧ after = stop := by
  -- The fuel has one unit at least, since the reader has answered. Each rule of the grammar is
  -- about one way through the reader, and adds what that way adds to the set.
  induction h generalizing fuel set with
  | close closes =>
      rcases exists_fuel hread with ⟨fuel, rfl⟩
      simp only [classItems, closes, Except.ok.injEq, Prod.mk.injEq] at hread
      rw [insertAll_nil]
      exact ⟨hread.1.symm, hread.2.symm⟩
  | named opens colon read more ih =>
      rcases exists_fuel hread with ⟨fuel, rfl⟩
      simp only [classItems, opens, colon, if_true, read] at hread
      rw [insertAll_kind]
      exact ih hread
  | bracket opens unnamed more ih =>
      rcases exists_fuel hread with ⟨fuel, rfl⟩
      simp only [classItems, opens] at hread
      rw [insertAll_span]
      split at hread
      · rename_i hcolon
        rw [unnamed hcolon] at hread
        exact ih hread
      · exact ih hread
  | @range low high b tail last stop entries minus ends read ordered more ih =>
      rcases exists_fuel hread with ⟨fuel, rfl⟩
      simp only [classItems, minus, ends, read] at hread
      rw [insertAll_span]
      -- The end of the range is not below its start, so the reader has gone on with the range.
      have hnext :
          classItems env fuel (set.insertRange low high) none last = .ok (found, after) := by
        rw [← hread]
        exact (if_neg (Nat.not_lt.mpr ordered)).symm
      exact ih hnext
  | minus minus alone more ih =>
      rcases exists_fuel hread with ⟨fuel, rfl⟩
      simp only [classItems, minus] at hread
      rw [insertAll_span]
      -- A minus sign that could be the sign of a range would contradict the rule.
      split at hread
      · rename_i hends
        rcases alone with hnone | hno
        · cases hnone
        · rw [hno] at hends
          cases hends
      · exact ih hread
  | code other read more ih =>
      rcases exists_fuel hread with ⟨fuel, rfl⟩
      -- The byte is none of the three signs, so the reader has come to its last case.
      rw [classItems.eq_def] at hread
      simp only [read] at hread
      rw [insertAll_span]
      split at hread
      · exact absurd ‹_› other.1
      · exact absurd ‹_› other.2.1
      · exact absurd ‹_› other.2.2
      · exact ih hread
  | kind other read more ih =>
      rcases exists_fuel hread with ⟨fuel, rfl⟩
      rw [classItems.eq_def] at hread
      simp only [read] at hread
      rw [insertAll_kind]
      split at hread
      · exact absurd ‹_› other.1
      · exact absurd ‹_› other.2.1
      · exact absurd ‹_› other.2.2
      · exact ih hread

/-- The reader of a class reads the items behind its start. -/
theorem bracketClass_ok {ignoreCase : Bool}
    (hread : bracketClass env ignoreCase start = .ok (found, stop)) :
    ∃ fuel plain, classItems env fuel
        (insertAll env.encoding { negated := startsWith start.tail '^' } (classStart start).1) none
        (classStart start).2 = .ok (plain, stop) ∧
      found = if ignoreCase then plain.foldCase env.encoding else plain := by
  rw [bracketClass] at hread
  rw [classStart]
  generalize (if startsWith start.tail '^' then start.tail.tail else start.tail) = rest
    at hread ⊢
  -- A closing bracket that comes first has been added before the reader of items began.
  simp only at hread ⊢
  split at hread
  · rename_i hbracket
    rw [if_pos hbracket, insertAll_span, insertAll_nil]
    split at hread
    · rcases bind_ok hread with ⟨opened, hopened, hclass⟩
      cases hopened
      rcases bind_ok hclass with ⟨⟨plain, last⟩, hitems, hpair⟩
      cases hpair
      exact ⟨_, plain, hitems, rfl⟩
    · cases hread
  · rename_i hbracket
    rw [if_neg hbracket, insertAll_nil]
    rcases bind_ok hread with ⟨opened, hopened, hclass⟩
    cases hopened
    rcases bind_ok hclass with ⟨⟨plain, last⟩, hitems, hpair⟩
    cases hpair
    exact ⟨_, plain, hitems, rfl⟩

/-- A class that is read has items. -/
theorem exists_classLists {ignoreCase : Bool}
    (hread : bracketClass env ignoreCase start = .ok (found, stop)) :
    ∃ entries, ClassLists env start entries stop := by
  rcases bracketClass_ok hread with ⟨fuel, plain, hitems, -⟩
  rcases exists_lists hitems with ⟨more, hlists⟩
  exact ⟨_, more, rfl, hlists⟩

/-- A class that is read is the set of its items, made insensitive to case if asked for. -/
theorem bracketClass_of_lists {ignoreCase : Bool} (h : ClassLists env start entries stop)
    (hread : bracketClass env ignoreCase start = .ok (found, after)) :
    ∃ plain, plain = insertAll env.encoding { negated := startsWith start.tail '^' } entries ∧
      found = if ignoreCase then plain.foldCase env.encoding else plain := by
  rcases h with ⟨more, rfl, hlists⟩
  rcases bracketClass_ok hread with ⟨fuel, plain, hitems, hfound⟩
  refine ⟨plain, ?_, hfound⟩
  rw [insertAll_append]
  exact (classItems_of_lists hlists hitems).1

end Reading

end Pattern

end RegexEngine
