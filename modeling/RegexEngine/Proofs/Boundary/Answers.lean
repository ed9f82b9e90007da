import RegexEngine.Proofs.Boundary.Moves
import RegexEngine.Regex.Find

/-!
# Matches Split No Character

In a well-formed text, the matches that a program of UTF-8 reports begin and end at boundaries if
the search does, and so do all of their groups. A part of the text between two boundaries is well
formed, so its text can be asked for.

To look for all matches, one search is made after the other. Behind a match that is not empty the
next one begins at its end, and behind an empty one a character further. The length of that
character is read off its first byte alone. In a well-formed text it is a boundary again, unless
there is no character any more.

## Main definitions

* `Region.Whole`: The spans of a region split no character of a text.
* `Match.Whole`: A match splits no character of its text, and has a text itself.

## Theorems

* `searchWithin_whole`, `matchWithin_whole`: A search and a match report such spans.
* `findIterFrom_whole`: All matches in a text are such matches.
* `matches_whole`: So are those of all other operations.
-/

namespace RegexEngine

/-- The spans of a region are in order and split no character of a text. -/
def Region.Whole (region : Region) (text : Array UInt8) : Prop :=
  ∀ i first last, region.get? i = some (first, last) →
    first ≤ last ∧ Text.IsBoundary text first ∧ Text.IsBoundary text last

/-- A match is a part of a text that splits no character, and its text can be asked for. -/
structure Match.Whole (m : Match) (text : Array UInt8) : Prop where
  same : m.text = text
  start_le : m.start ≤ m.stop
  start : Text.IsBoundary text m.start
  stop : Text.IsBoundary text m.stop
  str : m.str?.isSome = true

variable {text : Array UInt8}

/-- The span of a region is a match whose text can be asked for. -/
theorem Region.Whole.ofSpan {region : Region} (h : region.Whole text)
    (htext : Text.isWellFormed text.toList = true) {i : Nat} {m : Match}
    (hget : (region.get? i).map (Match.ofSpan text) = some m) : m.Whole text := by
  rcases Option.map_eq_some_iff.mp hget with ⟨⟨first, last⟩, hspan, rfl⟩
  rcases h i first last hspan with ⟨hle, hfirst, hlast⟩
  refine ⟨rfl, hle, hfirst, hlast, ?_⟩
  have hpart := Text.isWellFormed_extract htext hfirst hlast hle
  rw [Match.str?, Text.strictText?, Match.bytes, Match.ofSpan, if_pos hpart, Option.isSome_some]

/-- A well-formed text begins at a boundary. -/
theorem Text.isBoundary_zero (h : Text.isWellFormed text.toList = true) :
    Text.IsBoundary text 0 := by
  have hvalid := Text.isValid_of_isWellFormed h
  exact (Encoding.between_iff_isBoundary hvalid).mp (Encoding.between_zero hvalid)

namespace Program

variable {pattern : List UInt8} {asked : Options} {dialect : Dialect} {readLimits limits : Limits}
  {program : Program} {start range fuel : Nat} {region after : Region} {given : Options}

/-- In a well-formed text, the positions between two characters are the boundaries. -/
theorem between_make (hencoding : program.encoding = .utf8)
    (htext : Text.isWellFormed text.toList = true) :
    (Context.make program text start range given).Between = Text.IsBoundary text := by
  funext pos
  have hvalid := Text.isValid_of_isWellFormed htext
  have hbetween : (Context.make program text start range given).Between pos =
      program.encoding.Between text pos := rfl
  rw [hbetween, hencoding, Encoding.between_iff_isBoundary hvalid]

/-- In a well-formed text, the moves of a matcher stay on boundaries. -/
theorem closed_isBoundary
    (hcompile : compile pattern asked .utf8 dialect readLimits = .ok program)
    (htext : Text.isWellFormed text.toList = true) (hrange : range ≤ text.size) (start : Nat)
    (given : Options) :
    program.Closed (Context.make program text start range given) (Text.IsBoundary text) := by
  rcases compile_ok hcompile with ⟨parsed, hparse, hprogram⟩
  have hencoding := (ofParsed_ok hparse hprogram).2.1
  have hvalid : program.encoding.isValid text.toList = true := by
    rw [hencoding]
    exact Text.isValid_of_isWellFormed htext
  rw [← between_make hencoding htext]
  exact closed_between hparse hprogram rfl ⟨hvalid, hrange⟩

/-- The region that is filled with a match holds spans that split no character. -/
theorem fill_whole {limit : Nat} {found : Found} (region : Region)
    (hroom : program.slotCount ≤ region.capacity) (hinside : found.Inside program limit)
    (hholds : found.Holds (Text.IsBoundary text)) : (region.fill found).Whole text := by
  intro i first last hget
  have hspan := (region.fill_reports hinside hroom).spans i first last hget
  exact ⟨hspan.1, region.get_fill_holds hholds hget⟩

/-- A search that starts at a boundary answers with one, and reports spans that split no character.
-/
theorem searchWithin_whole
    (hcompile : compile pattern asked .utf8 dialect readLimits = .ok program)
    (htext : Text.isWellFormed text.toList = true) (hstart : Text.IsBoundary text start) {pos : Nat}
    (h : program.searchWithin fuel text start range region given limits = (.ok (some pos), after)) :
    Text.IsBoundary text pos ∧ after.Whole text := by
  rcases means_of_compile hcompile with ⟨tree, hmeans⟩
  have hclosed := closed_isBoundary hcompile htext (searchWithin_range h).2 start given
  rcases searchWithin_ok h with ⟨hroom, found, hfind, rfl, rfl⟩
  have hholds := findFrom_holds hclosed hstart hfind
  exact ⟨hholds.start, fill_whole region hroom (hmeans.findFrom_inside rfl hfind) hholds⟩

/-- So does a match at a boundary. -/
theorem matchWithin_whole
    (hcompile : compile pattern asked .utf8 dialect readLimits = .ok program)
    (htext : Text.isWellFormed text.toList = true) (hstart : Text.IsBoundary text start)
    {length : Nat}
    (h : program.matchWithin fuel text start region given limits = (.ok (some length), after)) :
    after.Whole text := by
  rcases means_of_compile hcompile with ⟨tree, hmeans⟩
  have hclosed := closed_isBoundary hcompile htext (Nat.le_refl _) start given
  rcases matchWithin_ok h with ⟨hpos, hroom, found, hfind, rfl, rfl⟩
  have hholds := findAt_holds hclosed hstart hfind
  exact fill_whole region hroom (hmeans.findAt_inside rfl hpos hfind) hholds

end Program

namespace Regex

variable {pattern : List UInt8} {asked : Options} {dialect : Dialect} {readLimits limits : Limits}
  {regex : Regex} {offset : Nat}

/-- A search in a text that has a region has found a match, and leaves that region. -/
theorem search_of_regionFrom {region : Region}
    (h : regex.regionFrom text offset limits = .ok (some region)) :
    ∃ pos, regex.program.search text offset text.size regex.newRegion Options.empty limits =
      (.ok (some pos), region) := by
  rw [regionFrom] at h
  split at h
  · cases h
  · cases h
  · rename_i pos after hcall
    cases h
    exact ⟨pos, call_of_onSubject hcall⟩

/-- The region of a search in a text splits no character. -/
theorem regionFrom_whole
    (hcompile : Program.compile pattern asked .utf8 dialect readLimits = .ok regex.program)
    (htext : Text.isWellFormed text.toList = true) (hoffset : Text.IsBoundary text offset)
    {region : Region} (h : regex.regionFrom text offset limits = .ok (some region)) :
    region.Whole text := by
  rcases search_of_regionFrom h with ⟨pos, hsearch⟩
  exact (Program.searchWithin_whole hcompile htext hoffset hsearch).2

/-- A computation that gives something gave something before it was mapped. -/
theorem ok_some_of_map {α β : Type} {result : Except Error (Option α)} {f : α → Option β} {b : β}
    (h : (result.map fun found => found.bind f) = .ok (some b)) :
    ∃ a, result = .ok (some a) ∧ f a = some b := by
  rcases result with e | _ | a
  · cases h
  · cases h
  · exact ⟨a, rfl, Except.ok.inj h⟩

/-- The match of a search in a text splits no character. -/
theorem tryFindFrom_whole
    (hcompile : Program.compile pattern asked .utf8 dialect readLimits = .ok regex.program)
    (htext : Text.isWellFormed text.toList = true) (hoffset : Text.IsBoundary text offset)
    {m : Match} (h : regex.tryFindFrom text offset limits = .ok (some m)) : m.Whole text := by
  rcases ok_some_of_map h with ⟨region, hregion, hget⟩
  exact (regionFrom_whole hcompile htext hoffset hregion).ofSpan htext hget

/-- The groups of a search in a text split no character. -/
theorem searchAt_whole
    (hcompile : Program.compile pattern asked .utf8 dialect readLimits = .ok regex.program)
    (htext : Text.isWellFormed text.toList = true) (hoffset : Text.IsBoundary text offset)
    {c : Captures} (h : regex.searchAt text offset limits = .ok (some c)) {i : Nat} {m : Match}
    (hget : c.get? i = some m) : m.Whole text := by
  have hbind : (regex.regionFrom text offset limits).map
      (fun found => found.bind fun region => some ⟨text, region, regex.program⟩) =
        .ok (some c) := by
    rw [← h, searchAt]
    congr 1
    funext found
    cases found <;> rfl
  rcases ok_some_of_map hbind with ⟨region, hregion, hc⟩
  cases hc
  exact (regionFrom_whole hcompile htext hoffset hregion).ofSpan htext hget

/-- A match at a boundary splits no character. -/
theorem matchAt_whole
    (hcompile : Program.compile pattern asked .utf8 dialect readLimits = .ok regex.program)
    (htext : Text.isWellFormed text.toList = true) (hoffset : Text.IsBoundary text offset)
    {m : Match} (h : regex.matchAt text offset limits = .ok (some m)) : m.Whole text := by
  simp only [matchAt] at h
  rcases hcall : onSubject text (fun region => regex.program.matchAt text offset region
    Options.empty limits) regex.newRegion with ⟨_ | _ | length, after⟩
  · rw [hcall] at h
    cases h
  · rw [hcall] at h
    cases h
  · rw [hcall] at h
    cases h
    have hmatch := call_of_onSubject hcall
    -- The first span of the region is that of the match.
    have hreports := (Program.matchWithin_reports hcompile hmatch).2
    have hwhole := Program.matchWithin_whole hcompile htext hoffset hmatch
    exact hwhole.ofSpan htext (congrArg (Option.map (Match.ofSpan text)) hreports.whole)

/-- A character behind a boundary is a boundary, or there is no character. -/
theorem stepChar_isBoundary (hencoding : regex.program.encoding = .utf8)
    (htext : Text.isWellFormed text.toList = true) {pos : Nat} (h : Text.IsBoundary text pos) :
    Text.IsBoundary text (regex.stepChar text pos) ∨ text.size < regex.stepChar text pos := by
  have hvalid := Text.isValid_of_isWellFormed htext
  by_cases hlt : pos < text.size
  · have hstep : regex.stepChar text pos = pos + Encoding.utf8.leadLength text[pos] := by
      rw [stepChar, hencoding, Array.getElem?_eq_getElem hlt]
    rw [hstep]
    rcases Encoding.utf8.charLength_cases hlt with hlength | ⟨-, hbehind⟩
    · have hbetween := (Encoding.between_iff_isBoundary hvalid).mpr h
      rw [← hlength]
      exact Or.inl ((Encoding.between_iff_isBoundary hvalid).mp (hbetween.charLength hlt))
    · exact Or.inr hbehind
  · have hstep : regex.stepChar text pos = pos + 1 := by
      rw [stepChar, Array.getElem?_eq_none (Nat.le_of_not_lt hlt)]
    rw [hstep]
    exact Or.inr (by omega)

/-- All matches in a text split no character. Every search begins at a boundary, unless there is
nothing left to search. -/
theorem findIterFrom_whole
    (hcompile : Program.compile pattern asked .utf8 dialect readLimits = .ok regex.program)
    (htext : Text.isWellFormed text.toList = true) {count pos : Nat} {previous : Option Nat}
    (hpos : Text.IsBoundary text pos ∨ text.size < pos) :
    ∀ m ∈ regex.findIterFrom text limits count pos previous, m.Whole text := by
  have hencoding := Program.encoding_of_compile hcompile
  -- The induction is on the count, with the position where the next search begins.
  induction count generalizing pos previous with
  | zero =>
      rintro m ⟨⟩
  | succ count ih =>
      rw [findIterFrom]
      split
      · rintro m ⟨⟩
      · rename_i hinside
        have hboundary := hpos.resolve_right hinside
        -- The search has found a match or nothing; errors count as nothing.
        split
        · rintro m ⟨⟩
        · rename_i found hfound
          have hwhole : found.Whole text := by
            rcases htry : regex.tryFindFrom text pos limits with e | _ | other
            · rw [htry] at hfound
              cases hfound
            · rw [htry] at hfound
              cases hfound
            · rw [htry] at hfound
              cases hfound
              exact tryFindFrom_whole hcompile htext hboundary htry
          -- Behind the match the next search begins at its end or one character further on, and
          -- both are boundaries or lie behind the text.
          have hnext : Text.IsBoundary text
              (if found.isEmpty then regex.stepChar text found.stop else found.stop) ∨
              text.size < if found.isEmpty then regex.stepChar text found.stop else found.stop := by
            split
            · exact stepChar_isBoundary hencoding htext hwhole.stop
            · exact Or.inl hwhole.stop
          simp only
          -- An empty match right behind the last one is left out.
          split
          · exact ih hnext
          · rintro m hmem
            rcases List.mem_cons.mp hmem with rfl | hrest
            · exact hwhole
            · exact ih hnext m hrest

/-- So do those that `findIter` gives. -/
theorem findIter_whole
    (hcompile : Program.compile pattern asked .utf8 dialect readLimits = .ok regex.program)
    (htext : Text.isWellFormed text.toList = true) :
    ∀ m ∈ regex.findIter text limits, m.Whole text :=
  findIterFrom_whole hcompile htext (Or.inl (Text.isBoundary_zero htext))

theorem ok_of_ignoreError {α : Type} {result : Except Error (Option α)} {value : α}
    (h : ignoreError result = some value) : result = .ok (some value) := by
  rcases result with e | found
  · cases h
  · exact congrArg Except.ok h

end Regex

namespace Program

variable {pattern : List UInt8} {asked : Options} {dialect : Dialect} {readLimits : Limits}
  {program : Program}

/-- A program of UTF-8 splits no character of a well-formed text. Whatever the range, the region,
the options and the limits are: a search that starts at a boundary answers with one, and all spans
that it reports lie between two boundaries, as do those of a match at a boundary. So every match,
and every group of one, has a text, no matter by which operation it is asked for. -/
theorem matches_whole (hcompile : compile pattern asked .utf8 dialect readLimits = .ok program)
    (htext : Text.isWellFormed text.toList = true) {start : Nat}
    (hstart : Text.IsBoundary text start) :
    (∀ range region given limits fuel pos after,
      program.searchWithin fuel text start range region given limits = (.ok (some pos), after) →
        Text.IsBoundary text pos ∧ after.Whole text) ∧
    (∀ region given limits fuel length after,
      program.matchWithin fuel text start region given limits = (.ok (some length), after) →
        Text.IsBoundary text (start + length) ∧ after.Whole text) ∧
    ∀ limits, let regex : Regex := ⟨program⟩
      (∀ m, regex.tryFind text limits = .ok (some m) ∨ regex.find text limits = some m ∨
        regex.matchAt text start limits = .ok (some m) ∨ m ∈ regex.findIter text limits →
          m.Whole text) ∧
      ∀ c, regex.searchAt text start limits = .ok (some c) ∨
        regex.tryCaptures text limits = .ok (some c) ∨ regex.captures text limits = some c →
          ∀ m, (∃ i, c.get? i = some m) ∨ (∃ name, c.named? name = some m) → m.Whole text := by
  have hzero := Text.isBoundary_zero htext
  refine ⟨?_, ?_, fun limits => ⟨?_, ?_⟩⟩
  · intro range region given limits fuel pos after h
    exact searchWithin_whole hcompile htext hstart h
  · intro region given limits fuel length after h
    have hwhole := matchWithin_whole hcompile htext hstart h
    have hreports := (matchWithin_reports hcompile h).2
    exact ⟨(hwhole 0 _ _ hreports.whole).2.2, hwhole⟩
  · rintro m (hfind | hfind | hmatch | hmem)
    · exact Regex.tryFindFrom_whole hcompile htext hzero hfind
    · exact Regex.tryFindFrom_whole hcompile htext hzero (Regex.ok_of_ignoreError hfind)
    · exact Regex.matchAt_whole hcompile htext hstart hmatch
    · exact Regex.findIter_whole hcompile htext m hmem
  · intro c hc m hm
    -- All three are searches at an offset, and a name stands for a number.
    have hsearch : ∃ offset, Text.IsBoundary text offset ∧
        (⟨program⟩ : Regex).searchAt text offset limits = .ok (some c) := by
      rcases hc with hsearch | hsearch | hsearch
      · exact ⟨start, hstart, hsearch⟩
      · exact ⟨0, hzero, hsearch⟩
      · exact ⟨0, hzero, Regex.ok_of_ignoreError hsearch⟩
    rcases hsearch with ⟨offset, hoffset, hsearch⟩
    have hget : ∃ i, c.get? i = some m := by
      rcases hm with hget | ⟨name, hname⟩
      · exact hget
      · rw [Captures.named?] at hname
        split at hname
        · exact ⟨_, hname⟩
        · cases hname
    rcases hget with ⟨i, hget⟩
    exact Regex.searchAt_whole hcompile htext hoffset hsearch hget

/-- With `(?<=(é)).`, the search of `aé€b` from the boundary before `é` on reports two characters of
several bytes. -/
theorem matches_whole_lookBehind :
    ∃ program after,
      compile [40, 63, 60, 61, 40, 195, 169, 41, 41, 46] {} .utf8 Dialect.standard {} =
        .ok program ∧
      Text.isWellFormed #[97, 195, 169, 226, 130, 172, 98].toList = true ∧
      Text.IsBoundary #[97, 195, 169, 226, 130, 172, 98] 1 ∧
      program.searchWithin 50 #[97, 195, 169, 226, 130, 172, 98] 1 7 (Region.ofCapacity 4) {} {} =
        (.ok (some 3), after) ∧
      after.toList = [some (3, 6), some (1, 3)] ∧
      Text.IsBoundary #[97, 195, 169, 226, 130, 172, 98] 3 ∧
      after.Whole #[97, 195, 169, 226, 130, 172, 98] := by
  -- The answer and the spans of the search are computed.
  have hcomputed : ((compile [40, 63, 60, 61, 40, 195, 169, 41, 41, 46] {} .utf8 Dialect.standard
      {}).toOption.any fun program =>
        let answer := program.searchWithin 50 #[97, 195, 169, 226, 130, 172, 98] 1 7
          (Region.ofCapacity 4) {} {}
        answer.1.toOption == some (some 3) &&
          answer.2.toList == [some (3, 6), some (1, 3)]) = true := by decide +kernel
  rcases exists_compiled hcomputed with ⟨program, hcompile, hholds⟩
  simp only [Bool.and_eq_true, beq_iff_eq] at hholds
  rcases hsearch : program.searchWithin 50 #[97, 195, 169, 226, 130, 172, 98] 1 7
    (Region.ofCapacity 4) {} {} with ⟨result, after⟩
  rw [hsearch] at hholds
  rcases hholds with ⟨hfound, hspans⟩
  obtain rfl : result = .ok (some 3) := eq_ok_of_toOption hfound
  -- The hypotheses about the subject, computed as well.
  have htext : Text.isWellFormed #[97, 195, 169, 226, 130, 172, 98].toList = true := by
    decide +kernel
  have hstart : Text.IsBoundary #[97, 195, 169, 226, 130, 172, 98] 1 := by decide +kernel
  refine ⟨program, after, hcompile, htext, hstart, hsearch, hspans, ?_⟩
  exact (matches_whole hcompile htext hstart).1 7 (Region.ofCapacity 4) {} {} 50 3 after hsearch

end Program

end RegexEngine
