import RegexEngine.Proofs.Iteration.Answer
import RegexEngine.Proofs.Quoted.Search
import RegexEngine.Proofs.Reading.Interval

/-!
# Matches and Characters

A search walks over the text character by character, and no character reaches over the end of the
text. Behind an empty match the next search begins one character further as well, but there the
length of the character is what its first byte announces. In a text that breaks off within a
character, this leads behind the end of the text, and no more matches are looked for; the walk of a
search leads to the end itself.

So the two ways to look for all matches come to the same positions, but for the end of the text. All
that can be missing is a last match, which is empty. It is never missing if no character is cut
short, so in a well-formed text all positions are come to.

## Main definitions

* `Encoding.CutShort`: The text ends within a character.
* `Iteration.Oversteps`: One way to look for all matches goes over the end where another one stops
  there.
* `Regex.reference`: The matches are looked for at the positions that a search walks over.

## Theorems

* `Gives.overstep`: An iteration that oversteps finds all but the match at the end.
* `mem_iff_visits`: If every position has an empty match, the matches are the positions.
* `findIter_reference`: All matches are those at the positions that a search walks over, but for the
  end of a text that breaks off.
-/

namespace RegexEngine

/-- A character begins at a position of a text, and the text ends before the character does. -/
def Encoding.CutShort (enc : Encoding) (text : Array UInt8) (pos : Nat) : Prop :=
  ∃ h : pos < text.size, text.size < pos + enc.leadLength text[pos]

namespace Iteration

variable {it other : Iteration} {c after : Cursor} {searches pos : Nat} {m : Match}
  {found : List Match}

/-- Two ways to look for matches step alike, but the one goes over the end of the text where the
other one stops there. -/
structure Oversteps (it other : Iteration) : Prop where
  size : other.size = it.size
  look : other.look = it.look
  step : ∀ pos, pos ≤ it.size →
    it.step pos = other.step pos ∨ it.size < it.step pos ∧ other.step pos = it.size

/-- Nothing, or an empty match at the end of the text if one of two ways to look for matches goes
over the end. -/
def Missing (it other : Iteration) (last : List Match) : Prop :=
  last = [] ∨ (∃ pos, pos ≤ it.size ∧ it.step pos ≠ other.step pos) ∧
    ∃ m, last = [m] ∧ m.start = it.size ∧ m.stop = it.size

/-- Some matches are all that another iteration gives, but for what is missing. -/
def AllBut (it other : Iteration) (c : Cursor) (found : List Match) : Prop :=
  ∃ last, it.Missing other last ∧ other.Gives c (found ++ last)

/-- At the end of the text an empty match may be found, and no more. -/
theorem Gives.at_end (h : it.Sound) (hgives : it.Gives c found) (hend : c.pos = it.size) :
    found = [] ∨ ∃ m, found = [m] ∧ m.start = it.size ∧ m.stop = it.size := by
  have hlength := hgives.length_le h
  have hordered := hgives.ordered h
  rcases found with _ | ⟨m, _ | ⟨next, rest⟩⟩
  · exact .inl rfl
  · have hm := hordered m List.mem_cons_self
    exact .inr ⟨m, rfl, by omega, by omega⟩
  · rw [List.length_cons, List.length_cons] at hlength
    omega

/-- Behind the end of the text nothing is found. -/
theorem Gives.behind_end (h : it.Sound) (hgives : it.Gives c found) (hend : it.size < c.pos) :
    found = [] := by
  have hlength := hgives.length_le h
  exact List.eq_nil_of_length_eq_zero (by omega)

section Overstepping

variable (h : it.Oversteps other) (hsound : other.Sound)
include h

/-- A match that is skipped is skipped by both. -/
theorem Oversteps.skipped (inside : c.pos ≤ it.size) (search : it.look c.pos = some m)
    (skips : c.Skips m) (hlater : it.AllBut other ⟨other.behind m, c.previous⟩ found) :
    it.AllBut other c found := by
  rcases hlater with ⟨last, hmissing, hgives⟩
  exact ⟨last, hmissing, .skipped (h.size ▸ inside) (h.look ▸ search) skips hgives⟩

include hsound

/-- Behind a match, the one may have gone over the end and the other one stopped there. -/
theorem Oversteps.behind {previous : Option Nat} (search : it.look pos = some m)
    (hlater : it.AllBut other ⟨it.behind m, previous⟩ found) :
    it.AllBut other ⟨other.behind m, previous⟩ found := by
  -- An empty match is followed by a step over one character, which is the only place where the two
  -- may differ.
  by_cases hempty : m.isEmpty
  · simp only [Iteration.behind, if_pos hempty] at hlater ⊢
    have hstop := (hsound.ordered (h.look ▸ search)).2.2
    rw [h.size] at hstop
    rcases h.step m.stop hstop with hsame | ⟨hbehind, hend⟩
    -- The step is the same, or it goes over the end where the other one stops.
    · rwa [← hsame]
    · -- The one is done, and the other one has the end of the text left to search.
      rcases hlater with ⟨last, -, hgives⟩
      have hnone := hgives.behind_end hsound (h.size ▸ hbehind)
      rcases List.append_eq_nil_iff.mp hnone with ⟨rfl, -⟩
      rcases gives_exists hsound ⟨other.step m.stop, previous⟩ with ⟨rest, hrest⟩
      refine ⟨rest, ?_, hrest⟩
      have hcut : it.step m.stop ≠ other.step m.stop := by omega
      rcases hrest.at_end hsound (hend.trans h.size.symm) with rfl | hlast
      · exact .inl rfl
      · rw [h.size] at hlast
        exact .inr ⟨⟨m.stop, hstop, hcut⟩, hlast⟩
  · simp only [Iteration.behind, if_neg hempty] at hlater ⊢
    exact hlater

/-- If there is no next match, there is none but what is missing. -/
theorem Next.overstep_none (hnext : it.Next c searches none) : it.AllBut other c [] := by
  generalize hanswer : none = answer at hnext
  induction hnext with
  | outside outside => exact ⟨[], .inl rfl, .done (.outside (h.size ▸ outside))⟩
  | absent inside search =>
      exact ⟨[], .inl rfl, .done (.absent (h.size ▸ inside) (h.look ▸ search))⟩
  | found => cases hanswer
  | skipped inside search skips later ih =>
      exact h.skipped inside search skips (h.behind hsound search (ih hanswer))

/-- The next match is the same. -/
theorem Next.overstep_some (hnext : it.Next c searches (some (m, after)))
    (hlater : it.AllBut other after found) : it.AllBut other c (m :: found) := by
  generalize hanswer : some (m, after) = answer at hnext
  induction hnext with
  | outside | absent => cases hanswer
  | found inside search counts =>
      cases hanswer
      rcases h.behind hsound search hlater with ⟨last, hmissing, hgives⟩
      exact ⟨last, hmissing, .more (.found (h.size ▸ inside) (h.look ▸ search) counts) hgives⟩
  | skipped inside search skips later ih =>
      exact h.skipped inside search skips (h.behind hsound search (ih hanswer))

/-- An iteration that oversteps finds what the other one finds, but perhaps for an empty match at
the end. -/
theorem Gives.overstep (hgives : it.Gives c found) : it.AllBut other c found := by
  induction hgives with
  | done next => exact next.overstep_none h hsound
  | more next later ih => exact next.overstep_some h hsound ih

end Overstepping

/-- The positions that are come to step by step, up to the end of the text. -/
inductive Visits (it : Iteration) : Nat → Nat → Prop
  | here {pos : Nat} (inside : pos ≤ it.size) : Visits it pos pos
  | later {pos last : Nat} (rest : Visits it (it.step pos) last) : Visits it pos last

theorem Visits.le (h : it.Sound) {last : Nat} (hvisits : it.Visits pos last) :
    pos ≤ last ∧ last ≤ it.size := by
  induction hvisits with
  | here inside => exact ⟨Nat.le_refl _, inside⟩
  | @later pos last rest ih =>
      have hstep := h.advances pos
      omega

theorem visits_iff {last : Nat} (hinside : pos ≤ it.size) :
    it.Visits pos last ↔ last = pos ∨ it.Visits (it.step pos) last := by
  constructor
  · rintro (inside | rest)
    · exact .inl rfl
    · exact .inr rest
  · rintro (rfl | rest)
    · exact .here hinside
    · exact .later rest

section Empty

variable {empty : Nat → Match} (hempty : ∀ pos, (empty pos).start = pos ∧ (empty pos).stop = pos)
  (hlook : ∀ pos, pos ≤ it.size → it.look pos = some (empty pos))
include hempty hlook

/-- If every search finds an empty match where it begins, so does the next one. -/
theorem Next.of_empty (hprevious : ∀ last, c.previous = some last → last < c.pos)
    {answer : Option (Match × Cursor)} (hnext : it.Next c searches answer) :
    it.size < c.pos ∧ answer = none ∨
      c.pos ≤ it.size ∧ answer = some (empty c.pos, ⟨it.step c.pos, some c.pos⟩) := by
  cases hnext with
  | outside outside => exact .inl ⟨outside, rfl⟩
  | absent inside search => cases (hlook _ inside).symm.trans search
  | found inside search counts =>
      cases (hlook _ inside).symm.trans search
      have hbehind : it.behind (empty c.pos) = it.step c.pos := by
        rw [Iteration.behind, Match.isEmpty, (hempty c.pos).1, (hempty c.pos).2, beq_self_eq_true,
          if_pos rfl]
      rw [hbehind, (hempty c.pos).2]
      exact .inr ⟨inside, rfl⟩
  | skipped inside search skips later =>
      cases (hlook _ inside).symm.trans search
      have hlast := hprevious _ skips.2
      rw [(hempty c.pos).2] at hlast
      exact absurd hlast (Nat.lt_irrefl _)

/-- Then the matches are the positions that are come to. -/
theorem mem_iff_visits (h : it.Sound) (hgives : it.Gives c found)
    (hprevious : ∀ last, c.previous = some last → last < c.pos) :
    m ∈ found ↔ ∃ pos, m = empty pos ∧ it.Visits c.pos pos := by
  induction hgives with
  -- By induction on the list of matches. Each search finds an empty match where it begins, since
  -- the match before lies behind.
  | done next =>
      rcases next.of_empty hempty hlook hprevious with ⟨houtside, -⟩ | ⟨-, hanswer⟩
      · refine iff_of_false List.not_mem_nil ?_
        -- The search starts outside of the text, so nothing is come to any more.
        rintro ⟨pos, -, hvisits⟩
        have hle := hvisits.le h
        omega
      · cases hanswer
  | @more c after searches first rest next later ih =>
      rcases next.of_empty hempty hlook hprevious with ⟨-, hanswer⟩ | ⟨hinside, hanswer⟩
      · cases hanswer
      · cases hanswer
        -- The next search starts behind this match.
        have hlater : ∀ last, some c.pos = some last → last < it.step c.pos := by
          rintro last ⟨⟩
          exact h.advances c.pos
        rw [List.mem_cons, ih hlater]
        simp only [visits_iff hinside]
        constructor
        · rintro (rfl | ⟨pos, rfl, hvisits⟩)
          · exact ⟨_, rfl, .inl rfl⟩
          · exact ⟨pos, rfl, .inr hvisits⟩
        · rintro ⟨pos, rfl, rfl | hvisits⟩
          · exact .inl rfl
          · exact .inr ⟨pos, rfl, hvisits⟩

end Empty

end Iteration

namespace Regex

variable {regex : Regex} {text : Array UInt8} {pattern : List UInt8} {asked : Options}
  {enc : Encoding} {dialect : Dialect} {readLimits limits : Limits} {pos last : Nat}

/-- All matches in a text are looked for at the positions that a search walks over. -/
def reference (regex : Regex) (text : Array UInt8) (limits : Limits) : Iteration :=
  { regex.iteration text limits with
    step := fun pos => pos + regex.program.encoding.charLength text pos }

/-- A character that is not cut short ends where its first byte says, and one that is cut short ends
with the text. -/
theorem stepChar_cases (hencoding : regex.program.encoding = enc) (hlt : pos < text.size) :
    ¬ enc.CutShort text pos ∧ regex.stepChar text pos = pos + enc.charLength text pos ∨
      enc.CutShort text pos ∧ text.size < regex.stepChar text pos ∧
        pos + enc.charLength text pos = text.size := by
  have hstep : regex.stepChar text pos = pos + enc.leadLength text[pos] := by
    rw [stepChar, Array.getElem?_eq_getElem hlt, hencoding]
  have hlead := enc.leadLength_pos text[pos]
  have hlength : enc.charLength text pos =
      max 1 (min (enc.leadLength text[pos]) (text.size - pos)) := by
    rw [Encoding.charLength, Encoding.getD_of_lt hlt]
  by_cases hcut : text.size < pos + enc.leadLength text[pos]
  · exact .inr ⟨⟨hlt, hcut⟩, by omega, by omega⟩
  · exact .inl ⟨fun h => hcut h.2, by omega⟩

theorem sound_reference
    (hcompile : Program.compile pattern asked enc dialect readLimits = .ok regex.program) :
    (regex.reference text limits).Sound where
  ordered := (sound_iteration hcompile).ordered
  advances _ := Nat.lt_add_of_pos_right (Encoding.charLength_pos _ _ _)

/-- What all matches are looked for by oversteps the walk of a search. -/
theorem oversteps_reference (hencoding : regex.program.encoding = enc) :
    (regex.iteration text limits).Oversteps (regex.reference text limits) where
  size := rfl
  look := rfl
  step pos hle := by
    change regex.stepChar text pos = pos + regex.program.encoding.charLength text pos ∨
      text.size < regex.stepChar text pos ∧
        pos + regex.program.encoding.charLength text pos = text.size
    rcases Nat.lt_or_eq_of_le hle with hlt | rfl
    · rw [hencoding]
      exact (stepChar_cases hencoding hlt).imp And.right And.right
    · refine .inl ?_
      have hlength : regex.program.encoding.charLength text text.size = 1 := by
        rw [Encoding.charLength, Nat.sub_self, Nat.min_zero, Nat.max_eq_left (Nat.zero_le 1)]
      change regex.stepChar text text.size =
        text.size + regex.program.encoding.charLength text text.size
      rw [hlength, stepChar, Array.getElem?_eq_none (Nat.le_refl _)]

/-- Where the two differ the text breaks off. -/
theorem cutShort_of_step_ne (hencoding : regex.program.encoding = enc) (hle : pos ≤ text.size)
    (h : (regex.iteration text limits).step pos ≠ (regex.reference text limits).step pos) :
    enc.CutShort text pos := by
  rcases (oversteps_reference hencoding).step pos hle with hsame | ⟨-, hend⟩
  · exact absurd hsame h
  · have hlength := regex.program.encoding.charLength_pos text pos
    have hlast : pos + regex.program.encoding.charLength text pos = text.size := hend
    rcases stepChar_cases hencoding (show pos < text.size by omega) with ⟨-, hsame⟩ | ⟨hcut, -⟩
    · rw [← hencoding] at hsame
      exact absurd hsame h
    · exact hcut

/-- The positions that are come to are those of the walk, but for the end of a text that breaks off.
-/
theorem visits_iff_comesTo (hencoding : regex.program.encoding = enc) :
    (regex.iteration text limits).Visits pos last ↔ enc.ComesTo text pos last ∧
      (last = text.size → ∀ e, enc.ComesTo text pos e → ¬ enc.CutShort text e) := by
  constructor
  · -- A step that is taken leads to a position in the text, so it was not over the end.
    intro h
    induction h with
    | here inside =>
        refine ⟨.here inside, ?_⟩
        rintro rfl e he ⟨hlt, -⟩
        have hle := Encoding.comesTo_le he
        omega
    | @later pos last rest ih =>
        have hle := Encoding.comesTo_le ih.1
        have hlt : pos < text.size :=
          Nat.lt_of_lt_of_le (regex.stepChar_lt text pos) (Nat.le_trans hle.1 hle.2)
        have hstep : (regex.iteration text limits).step pos = regex.stepChar text pos := rfl
        rw [hstep] at ih hle
        rcases stepChar_cases hencoding hlt with ⟨hwhole, hsame⟩ | ⟨-, hbehind, -⟩
        · rw [hsame] at ih
          refine ⟨.later ih.1, fun hlast e he => ?_⟩
          cases he with
          | here => exact hwhole
          | later rest => exact ih.2 hlast e rest
        · omega
  · -- Where the walk goes on and the text breaks off, the walk has come to the end.
    rintro ⟨h, hcut⟩
    induction h with
    | here inside => exact .here inside
    | @later pos last rest ih =>
        have hle := Encoding.comesTo_le rest
        have hlength := enc.charLength_pos text pos
        have hlt : pos < text.size := by omega
        rcases stepChar_cases hencoding hlt with ⟨-, hsame⟩ | ⟨hbreaks, -, hend⟩
        · refine .later ?_
          have hstep : (regex.iteration text limits).step pos = pos + enc.charLength text pos :=
            hsame
          rw [hstep]
          exact ih fun hlast e he => hcut hlast e (.later he)
        · exact absurd hbreaks (hcut (by omega) pos (.here (Nat.le_of_lt hlt)))

end Regex

namespace Program

variable {program : Program} {pattern : List UInt8} {asked : Options} {enc : Encoding}
  {dialect : Dialect} {readLimits : Limits}

/-- The empty pattern is compiled to a program that looks for the empty text. -/
theorem looksFor_empty (hcompile : compile [] asked enc dialect readLimits = .ok program) :
    program.LooksFor [] := by
  rcases compile_ok hcompile with ⟨parsed, hparse, hprogram⟩
  have hread := @Pattern.parse_branch enc (optionsFor asked dialect) dialect readLimits []
    Encoding.isValid_nil (.ok []) fun group =>
      Pattern.branchItems_unread .nil rfl (Nat.zero_lt_one)
  rw [hparse] at hread
  have htree : parsed.tree = .literal [] false := Except.ok.inj hread
  have hnumbers := (Pattern.parse_ok hparse).1
  rw [htree] at hnumbers
  have hgroups : parsed.groups = 0 := List.range'_eq_nil_iff.mp hnumbers.symm
  have hprepare : prepare enc dialect (.literal [] false) = .literal [] false := ite_self _
  rw [ofParsed, htree, hprepare] at hprogram
  cases hprogram
  exact ⟨rfl, hgroups, rfl⟩

/-- A search with it finds the empty text where it begins. -/
theorem LooksFor.searchWithin_empty (h : program.LooksFor [])
    (hempty : program.options.findNotEmpty = false) {text : Array UInt8} {pos fuel : Nat}
    (hpos : pos ≤ text.size) (hfuel : 2 ≤ fuel) (limits : Limits) :
    ∃ after, program.searchWithin fuel text pos text.size (Region.ofCapacity program.slotCount)
      Options.empty limits = (.ok (some pos), after) ∧ after.toList = [some (pos, pos)] := by
  -- The hypotheses about the call: there is room, no option is refused, an empty match is taken,
  -- and the empty text occurs everywhere.
  have hroom : program.slotCount ≤ (Region.ofCapacity program.slotCount).capacity :=
    Nat.le_of_eq (Array.size_replicate).symm
  have hoptions : program.checkOptions Options.empty = .ok () := by
    rw [checkOptions]
    exact if_pos rfl
  have haccepts : (Options.empty.union program.options).findNotEmpty = false := hempty
  have hoccurs : ∀ i, i ≤ text.size → OccursAt text text.size [] i := by
    intro i hi
    refine ⟨hi, ?_⟩
    rw [List.length_nil, Nat.add_zero, Array.extract_empty_of_stop_le_start (Nat.le_refl i)]
  rcases h.searchWithin_text limits hpos (Nat.le_refl _) hroom hoptions haccepts hfuel with
    ⟨i, hleast, hanswer, hspans⟩ | ⟨hnone, -⟩
  -- The first occurrence is where the search starts.
  · obtain rfl : i = pos :=
      Nat.le_antisymm (hleast.2 ⟨Nat.le_refl pos, hoccurs pos hpos⟩) hleast.1.1
    exact ⟨_, Prod.ext hanswer rfl, hspans⟩
  · exact absurd (hoccurs pos hpos) (hnone pos (Nat.le_refl pos))

end Program

namespace Regex

variable {regex : Regex} {text : Array UInt8} {pattern : List UInt8} {asked : Options}
  {enc : Encoding} {dialect : Dialect} {readLimits limits : Limits} {pos : Nat}

/-- With the empty pattern, every search in a text that is not too long finds an empty match where
it begins. -/
theorem tryFindFrom_empty
    (hcompile : Program.compile [] asked enc dialect readLimits = .ok regex.program)
    (hempty : regex.program.options.findNotEmpty = false) (hsize : text.size ≤ maxSubjectLength)
    (hpos : pos ≤ text.size) : regex.tryFindFrom text pos limits = .ok (some ⟨text, pos, pos⟩) := by
  rcases (Program.looksFor_empty hcompile).searchWithin_empty hempty hpos
    (by decide : 2 ≤ Program.stepBound) limits with ⟨after, hsearch, hspans⟩
  have hfirst : after.get? 0 = some (pos, pos) := by
    have hhead : after.toList[0]? = some (some (pos, pos)) := by
      rw [hspans, List.getElem?_cons_zero]
    rw [Region.toList, List.getElem?_map, Option.map_eq_some_iff] at hhead
    rcases hhead with ⟨i, hi, hget⟩
    rcases List.getElem?_eq_some_iff.mp hi with ⟨hlt, hzero⟩
    rw [List.getElem_range] at hzero
    rwa [← hzero] at hget
  have hregion : regex.regionFrom text pos limits = .ok (some after) := by
    simp only [regionFrom, onSubject_of_le hsize, Program.search, newRegion, hsearch]
  rw [tryFindFrom, hregion]
  simp only [Except.map, Option.bind_some, hfirst, Option.map_some, Match.ofSpan]

/-- With the empty pattern, the matches are empty ones at the positions of the walk, but for the end
of a text that breaks off. -/
theorem mem_findIter_empty
    (hcompile : Program.compile [] asked enc dialect readLimits = .ok regex.program)
    (hempty : regex.program.options.findNotEmpty = false) (hsize : text.size ≤ maxSubjectLength)
    {m : Match} :
    m ∈ regex.findIter text limits ↔ ∃ pos, m = ⟨text, pos, pos⟩ ∧ enc.ComesTo text 0 pos ∧
      (pos = text.size → ∀ e, enc.ComesTo text 0 e → ¬ enc.CutShort text e) := by
  have hlook : ∀ pos, pos ≤ (regex.iteration text limits).size →
      (regex.iteration text limits).look pos = some ⟨text, pos, pos⟩ :=
    fun pos hpos => congrArg ignoreError (tryFindFrom_empty hcompile hempty hsize hpos)
  rw [Iteration.mem_iff_visits (fun _ => ⟨rfl, rfl⟩) hlook (sound_iteration hcompile)
    (findIter_gives hcompile) nofun]
  simp only [visits_iff_comesTo (Program.encoding_of_compile hcompile)]

/-- Behind an empty match that ends within the text, all matches are looked for where a search would
go next, a character further, unless the text breaks off within this character; then they are looked
for no more. So the matches are those that are found at the positions of such a walk, each of them
and in the same order, but perhaps for an empty match at the end of a text that breaks off.

With the empty pattern, there is an empty match at every position of the walk from the start of the
text on, the end included, unless the text breaks off within a character of the walk; then there is
one at every position but the end. -/
theorem findIter_reference
    (hcompile : Program.compile pattern asked enc dialect readLimits = .ok regex.program)
    (text : Array UInt8) (limits : Limits) :
    let found := regex.findIter text limits
    (∀ e, e < text.size →
      ¬ enc.CutShort text e ∧ regex.stepChar text e = e + enc.charLength text e ∨
        enc.CutShort text e ∧ text.size < regex.stepChar text e ∧
          e + enc.charLength text e = text.size) ∧
    (∃ last, (∀ other, (regex.reference text limits).Gives {} other ↔ other = found ++ last) ∧
      (last = [] ∨ (∃ e, enc.CutShort text e) ∧
        ∃ m, last = [m] ∧ m.start = text.size ∧ m.stop = text.size)) ∧
    (pattern = [] → regex.program.options.findNotEmpty = false → text.size ≤ maxSubjectLength →
      ∀ m, m ∈ found ↔ ∃ pos, m = ⟨text, pos, pos⟩ ∧ enc.ComesTo text 0 pos ∧
        (pos = text.size → ∀ e, enc.ComesTo text 0 e → ¬ enc.CutShort text e)) := by
  intro found
  have hencoding := Program.encoding_of_compile hcompile
  refine ⟨fun e he => stepChar_cases hencoding he, ?_, ?_⟩
  -- The matches found are those of the iteration, and the reference takes shorter steps at the end
  -- at most.
  · have hgives : (regex.iteration text limits).Gives {} found := findIter_gives hcompile
    rcases hgives.overstep (oversteps_reference hencoding) (sound_reference hcompile) with
      ⟨last, hmissing, hall⟩
    refine ⟨last, fun other => ⟨fun hother => hother.unique hall, ?_⟩, ?_⟩
    · rintro rfl
      exact hall
    · rcases hmissing with hnone | ⟨⟨e, hle, hdiffers⟩, hlast⟩
      · exact .inl hnone
      · exact .inr ⟨⟨e, cutShort_of_step_ne hencoding hle hdiffers⟩, hlast⟩
  -- With the empty pattern the matches are the positions that are come to.
  · rintro rfl hempty hsize m
    exact mem_findIter_empty hcompile hempty hsize

/-- With the empty pattern, the matches in `aé` with the first byte of `あ` behind it are empty ones
at three positions, and there is none at the end. -/
theorem findIter_reference_empty :
    let text : Array UInt8 := #[97, 195, 169, 227]
    ∃ regex : Regex, Program.compile [] {} .utf8 Dialect.standard {} = .ok regex.program ∧
      regex.program.options.findNotEmpty = false ∧ text.size ≤ maxSubjectLength ∧
      ⟨text, 3, 3⟩ ∈ regex.findIter text {} ∧ ⟨text, 4, 4⟩ ∉ regex.findIter text {} := by
  intro text
  have hcomputed : ((Program.compile [] {} .utf8 Dialect.standard {}).toOption.any
      fun program => !program.options.findNotEmpty) = true := by decide +kernel
  rcases Program.exists_compiled hcomputed with ⟨program, hcompile, hholds⟩
  have hempty : program.options.findNotEmpty = false := by
    rwa [Bool.not_eq_true'] at hholds
  have hsize : text.size ≤ maxSubjectLength := by decide
  -- With the empty pattern, a match is found just where the walk comes to.
  have hmem := (@findIter_reference ⟨program⟩ _ _ _ _ _ hcompile text {}).2.2 rfl hempty hsize
  -- The walk comes to 0, 1 and 3, and breaks off within the character at 3.
  have hlast : Encoding.utf8.ComesTo text 0 3 :=
    .later (show Encoding.utf8.ComesTo text 1 3 from
      .later (show Encoding.utf8.ComesTo text 3 3 from .here (by decide)))
  refine ⟨⟨program⟩, hcompile, hempty, hsize, ?_, ?_⟩
  · exact (hmem _).mpr ⟨3, rfl, hlast, fun hend => absurd hend (by decide)⟩
  · intro hfound
    rcases (hmem _).mp hfound with ⟨pos, hpos, -, hwhole⟩
    cases hpos
    exact hwhole rfl 3 hlast ⟨by decide, by decide⟩

/-- With the empty pattern, the end of a text that consists of the first byte of `あ` is come to by
the walk of a search, but the matches are looked for no more behind the first one. -/
theorem findIter_breaksOff :
    let text : Array UInt8 := #[227]
    ∃ regex : Regex, Program.compile [] {} .utf8 Dialect.standard {} = .ok regex.program ∧
      regex.stepChar text 0 = 3 ∧ 0 + Encoding.utf8.charLength text 0 = 1 ∧
      Encoding.utf8.ComesTo text 0 1 ∧ regex.findIter text {} = [⟨text, 0, 0⟩] ∧
      (regex.reference text {}).Gives {} [⟨text, 0, 0⟩, ⟨text, 1, 1⟩] := by
  intro text
  have hcomputed : ((Program.compile [] {} .utf8 Dialect.standard {}).toOption.any
      fun program =>
        let regex : Regex := ⟨program⟩
        let it := regex.reference text {}
        regex.stepChar text 0 == 3 && regex.findIter text {} == [⟨text, 0, 0⟩] &&
          it.look 0 == some ⟨text, 0, 0⟩ && it.look 1 == some ⟨text, 1, 1⟩ &&
          it.step 0 == 1 && it.step 1 == 2) = true := by decide +kernel
  rcases Program.exists_compiled hcomputed with ⟨program, hcompile, hholds⟩
  simp only [Bool.and_eq_true, beq_iff_eq] at hholds
  rcases hholds with ⟨⟨⟨⟨⟨hstep, hfound⟩, hfirst⟩, hsecond⟩, hone⟩, htwo⟩
  refine ⟨⟨program⟩, hcompile, hstep, rfl, .later (.here (by decide)), hfound, ?_⟩
  let it := (⟨program⟩ : Regex).reference text {}
  -- Behind the first match the reference is at the end of the text, behind the second one over it.
  have hbehind : it.behind ⟨text, 0, 0⟩ = 1 := hone
  have hend : it.behind ⟨text, 1, 1⟩ = 2 := htwo
  refine .more (.found (Nat.zero_le 1) hfirst nofun) ?_
  rw [hbehind]
  refine .more (.found (Nat.le_refl 1) hsecond (by decide)) (.done (.outside ?_))
  rw [hend]
  exact Nat.lt_succ_self 1

end Regex

end RegexEngine
