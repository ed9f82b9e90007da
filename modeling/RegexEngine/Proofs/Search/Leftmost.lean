import RegexEngine.Proofs.Search.Carried
import RegexEngine.Proofs.Search.Hints
import RegexEngine.Proofs.Search.Spans

/-!
# Searches and Matches

A search answers as if a match had been asked for at each position on its own, character by
character from the start of the search to the end of the text. The first position with a match is
the answer, with the region that the match there leaves. If the longest match is wanted, it is the
position with the longest one, and the first one of those in a tie.

The search takes ways of its own: it hands a matcher from one attempt to the next, it notes the
longest match so far, and its hints leave positions out. None of it is seen in the answer. Hints are
dealt with elsewhere, so the search is one that leaves no position out. From the last position
backwards, the matches of the positions that are still to come are added to those that were noted.

## Main definitions

* `Encoding.ComesTo`: The positions where characters start, counted from a position.
* `Options.Prefers`: Which one of two matches is the better answer.
* `Options.Answers`: A search answers as the matches at some positions do.
* `Context.Chosen`: The best one of several matches.

## Theorems

* `scan_first`, `scan_longest`: What a scan answers that leaves no position out.
* `findFrom_chosen`, `findAt_single`: What a search and a match find.
* `fill_congr`: Matches that report the same leave the same region.
* `search_leftmost`: A search answers as the matches at its positions do.
-/

namespace RegexEngine

/-- The positions that one comes to from a position, character by character, up to the end of the
text. -/
inductive Encoding.ComesTo (enc : Encoding) (data : Array UInt8) : Nat → Nat → Prop
  | here {pos : Nat} (inside : pos ≤ data.size) : ComesTo enc data pos pos
  | later {pos last : Nat} (rest : ComesTo enc data (pos + enc.charLength data pos) last) :
      ComesTo enc data pos last

theorem Encoding.comesTo_le {enc : Encoding} {data : Array UInt8} {pos last : Nat}
    (h : enc.ComesTo data pos last) : pos ≤ last ∧ last ≤ data.size := by
  induction h with
  | here inside => exact ⟨Nat.le_refl _, inside⟩
  | later rest ih => exact ⟨by omega, ih.2⟩

/-- A match of some length at a position is a better answer than another one, or as good: it starts
no later, or if the longest match is wanted it is longer, or of the same length and starts no later.
-/
def Options.Prefers (options : Options) (pos length other otherLength : Nat) : Prop :=
  if options.findLongest then otherLength < length ∨ otherLength = length ∧ pos ≤ other
  else pos ≤ other

/-- A search answers as the matches at some positions do. Either no position has a match, and the
search finds none; or it answers with the position whose match is the best answer, and leaves the
region that the match leaves. -/
def Options.Answers (options : Options) (visited : Nat → Prop)
    (matched : Nat → Except Error (Option Nat) × Region)
    (searched : Except Error (Option Nat) × Region) : Prop :=
  (searched.1 = .ok none ∧ ∀ p, visited p → (matched p).1 = .ok none) ∨
  ∃ p length, visited p ∧ (matched p).1 = .ok (some length) ∧
    searched = (.ok (some p), (matched p).2) ∧
    ∀ q, visited q → (matched q).1 = .ok none ∨
      ∃ other, (matched q).1 = .ok (some other) ∧ options.Prefers p length q other

namespace Context

variable {ctx : Context} {tree : Tree} {pos : Nat} {placed : Placed}

/-- A match that a position from here on has on its own. -/
def Candidate (ctx : Context) (tree : Tree) (pos : Nat) (placed : Placed) : Prop :=
  ∃ q, ctx.encoding.ComesTo ctx.subject pos q ∧ ctx.single tree q = some placed

/-- The best one of several matches, if there is any. -/
def Chosen (ctx : Context) (candidate : Placed → Prop) : Option Placed → Prop
  | none => ∀ other, ¬ candidate other
  | some placed => candidate placed ∧ ∀ other, candidate other →
      ctx.options.Prefers placed.1 placed.length other.1 other.length

/-- The matches from here on are those here and those from the next character on. -/
theorem candidate_cases (h : ctx.Candidate tree pos placed) :
    ctx.single tree pos = some placed ∨
      ctx.Candidate tree (pos + ctx.encoding.charLength ctx.subject pos) placed := by
  rcases h with ⟨q, hcomes, hsingle⟩
  cases hcomes with
  | here => exact Or.inl hsingle
  | later rest => exact Or.inr ⟨q, rest, hsingle⟩

theorem candidate_here (hpos : pos ≤ ctx.subject.size) (h : ctx.single tree pos = some placed) :
    ctx.Candidate tree pos placed :=
  ⟨pos, .here hpos, h⟩

theorem candidate_later
    (h : ctx.Candidate tree (pos + ctx.encoding.charLength ctx.subject pos) placed) :
    ctx.Candidate tree pos placed := by
  rcases h with ⟨q, hcomes, hsingle⟩
  exact ⟨q, .later hcomes, hsingle⟩

/-- A match starts no earlier than at the position from which one has come to it. -/
theorem Candidate.le_start (h : ctx.Candidate tree pos placed) : pos ≤ placed.1 := by
  rcases h with ⟨q, hcomes, hsingle⟩
  rw [start_of_single hsingle]
  exact (Encoding.comesTo_le hcomes).1

/-- Behind the end of the text there is nothing to choose from. -/
theorem chosen_end (h : ctx.subject.size < pos) : ctx.Chosen (ctx.Candidate tree pos) none := by
  rintro placed ⟨q, hcomes, -⟩
  have hle := Encoding.comesTo_le hcomes
  omega

/-- A match here is chosen if the first one is wanted. -/
theorem chosen_first (hshortest : ctx.options.findLongest = false) (hpos : pos ≤ ctx.subject.size)
    (h : ctx.single tree pos = some placed) :
    ctx.Chosen (ctx.Candidate tree pos) (some placed) := by
  refine ⟨candidate_here hpos h, fun other hother => ?_⟩
  rw [Options.Prefers, hshortest, if_neg Bool.false_ne_true, start_of_single h]
  exact hother.le_start

/-- Without a match here, the choice is that of the next character. -/
theorem chosen_later {later : Option Placed} (h : ctx.single tree pos = none)
    (hlater : ctx.Chosen
      (ctx.Candidate tree (pos + ctx.encoding.charLength ctx.subject pos)) later) :
    ctx.Chosen (ctx.Candidate tree pos) later := by
  -- A match from here on is one of a later position, since there is none here.
  have hmoves : ∀ {placed}, ctx.Candidate tree pos placed →
      ctx.Candidate tree (pos + ctx.encoding.charLength ctx.subject pos) placed := by
    intro placed hplaced
    rcases candidate_cases hplaced with hhere | hnext
    · rw [h] at hhere
      cases hhere
    · exact hnext
  cases later with
  | none => exact fun other hother => hlater other (hmoves hother)
  | some placed =>
      exact ⟨candidate_later hlater.1, fun other hother => hlater.2 other (hmoves hother)⟩

/-- If the longest match is wanted, the one here is put together with the choice of the next
character. -/
theorem chosen_merge {later : Option Placed} (hlongest : ctx.options.findLongest = true)
    (hpos : pos ≤ ctx.subject.size)
    (hlater : ctx.Chosen
      (ctx.Candidate tree (pos + ctx.encoding.charLength ctx.subject pos)) later) :
    ctx.Chosen (ctx.Candidate tree pos) (Placed.merge (ctx.single tree pos) later) := by
  have hprefers : ∀ placed other : Placed,
      ctx.options.Prefers placed.1 placed.length other.1 other.length ↔
        other.length < placed.length ∨ other.length = placed.length ∧ placed.1 ≤ other.1 := by
    intro placed other
    rw [Options.Prefers, if_pos hlongest]
  rcases hhere : ctx.single tree pos with _ | here
  · rw [Placed.merge_none_left]
    exact chosen_later hhere hlater
  have hstart : here.1 = pos := start_of_single hhere
  -- Whatever is chosen, it is compared with the match here and with those that come later.
  cases later with
  | none =>
      refine ⟨candidate_here hpos hhere, fun other hother => ?_⟩
      rcases candidate_cases hother with hsame | hnext
      · obtain rfl : here = other := Option.some.inj (hhere.symm.trans hsame)
        rw [hprefers]
        omega
      · exact absurd hnext (hlater other)
  | some placed =>
      have hlength := Encoding.charLength_pos ctx.encoding ctx.subject pos
      by_cases hlonger : here.length < placed.length
      · rw [Placed.merge, Placed.longer, if_pos hlonger]
        refine ⟨candidate_later hlater.1, fun other hother => ?_⟩
        rcases candidate_cases hother with hsame | hnext
        · obtain rfl : here = other := Option.some.inj (hhere.symm.trans hsame)
          rw [hprefers]
          exact Or.inl hlonger
        · exact hlater.2 other hnext
      · rw [Placed.merge, Placed.longer, if_neg hlonger]
        refine ⟨candidate_here hpos hhere, fun other hother => ?_⟩
        rw [hprefers]
        rcases candidate_cases hother with hsame | hnext
        · obtain rfl : here = other := Option.some.inj (hhere.symm.trans hsame)
          omega
        · have hbest := (hprefers placed other).mp (hlater.2 other hnext)
          have hle := hnext.le_start
          omega

end Context

namespace Program

namespace Means

variable {program : Program} {tree : Tree} {ctx : Context} {limits : Limits} {m : Machine}
  {fuel pos count : Nat} {verdict : Verdict}

/-- A scan for the first match, that leaves no position out, answers with the match of the first
position that has one. -/
theorem scan_first (h : program.Means tree) (hencoding : ctx.encoding = program.encoding)
    (hlimits : limits.Off) (hempty : ctx.options.findNotEmpty = false)
    (hshortest : ctx.options.findLongest = false) (hliteral : program.hints.literal = [])
    (hrange : ctx.range = ctx.subject.size) (hm : m.Rests program ctx.range)
    (hbest : m.best = none) (hpos : pos ≤ ctx.range) (hcount : ctx.range + 1 - pos ≤ count)
    (hscan : program.scan limits ctx fuel ctx.range count m pos = .ok verdict) :
    ctx.Chosen (ctx.Candidate tree pos) ((matchOf verdict).map Found.placed) := by
  induction count generalizing m pos with
  | zero => omega
  | succ count ih =>
      have hhere : ctx.nextOccurrence program.hints.literal pos = some pos :=
        Context.nextOccurrence_here hpos (by rw [hliteral]; rfl)
      have hlength := Encoding.charLength_pos ctx.encoding ctx.subject pos
      rw [scan] at hscan
      simp only [hhere] at hscan
      rcases hattempt : m.attempt program limits ctx fuel pos with interrupt | ended
      · rw [hattempt] at hscan
        cases hscan
      -- Nothing was noted before, so the attempt answers as one on its own.
      rcases h.attempt_first hencoding hlimits hempty hshortest hm.registers.fits hbest hattempt
        with ⟨hsingle, hnone⟩
      rw [hattempt] at hscan
      cases ended with
      | matched after =>
          cases hscan
          exact Context.chosen_first hshortest (hrange ▸ hpos) hsingle.symm
      | exhausted after =>
          have hafter : after.best = none := hnone after rfl
          have hnothing : ctx.single tree pos = none := by
            rw [← hsingle, matchOf, hafter]
            rfl
          refine Context.chosen_later hnothing ?_
          simp only at hscan
          split at hscan
          · cases hscan
            rw [matchOf, hafter]
            exact Context.chosen_end (by omega)
          · have hrests := h.attempt_rests hencoding hm hpos hattempt
            exact ih hrests hafter (by omega) (by omega) hscan

/-- A scan for the longest match, that leaves no position out, adds the longest one from here on to
what was noted before. -/
theorem scan_longest (h : program.Means tree) (hencoding : ctx.encoding = program.encoding)
    (hlimits : limits.Off) (hempty : ctx.options.findNotEmpty = false)
    (hlongest : ctx.options.findLongest = true) (hliteral : program.hints.literal = [])
    (hrange : ctx.range = ctx.subject.size) (hm : m.Rests program ctx.range)
    (hpos : pos ≤ ctx.range) (hcount : ctx.range + 1 - pos ≤ count)
    (hscan : program.scan limits ctx fuel ctx.range count m pos = .ok verdict) :
    ∃ later, ctx.Chosen (ctx.Candidate tree pos) later ∧
      (matchOf verdict).map Found.placed = Placed.merge (m.best.map Found.placed) later := by
  induction count generalizing m pos with
  | zero => omega
  | succ count ih =>
      have hhere : ctx.nextOccurrence program.hints.literal pos = some pos :=
        Context.nextOccurrence_here hpos (by rw [hliteral]; rfl)
      have hlength := Encoding.charLength_pos ctx.encoding ctx.subject pos
      have hsize : pos ≤ ctx.subject.size := hrange ▸ hpos
      rw [scan] at hscan
      simp only [hhere] at hscan
      rcases hattempt : m.attempt program limits ctx fuel pos with interrupt | ended
      · rw [hattempt] at hscan
        cases hscan
      -- The attempt never ends the scan. It adds its match to what was noted.
      rcases h.attempt_longest hencoding hlimits hempty hlongest hm.registers.fits hattempt with
        ⟨after, rfl, hbest⟩
      rw [hattempt] at hscan
      simp only at hscan
      split at hscan
      · -- This is the last position, so there is nothing to come.
        cases hscan
        have hnone : ctx.Chosen
            (ctx.Candidate tree (pos + ctx.encoding.charLength ctx.subject pos)) none :=
          Context.chosen_end (by omega)
        exact ⟨_, Context.chosen_merge hlongest hsize hnone, hbest⟩
      · have hrests := h.attempt_rests hencoding hm hpos hattempt
        rcases ih hrests (by omega) (by omega) hscan with ⟨later, hlater, hfound⟩
        refine ⟨_, Context.chosen_merge hlongest hsize hlater, ?_⟩
        rw [hfound, hbest, Placed.merge_assoc]

/-- What is found by a search that leaves no position out. -/
theorem findFrom_chosen (h : program.Means tree) (hencoding : ctx.encoding = program.encoding)
    (hlimits : limits.Off) (hempty : ctx.options.findNotEmpty = false)
    (hrange : ctx.range = ctx.subject.size) (hstart : ctx.searchStart ≤ ctx.range)
    {found : Option Found}
    (hfind : program.withoutHints.findFrom limits ctx fuel = .ok found) :
    ctx.Chosen (ctx.Candidate tree ctx.searchStart) (found.map Found.placed) := by
  have hplain : program.withoutHints.Means tree := ⟨h.wellFormed, h.emits⟩
  have hrests := Machine.rests_initial program.withoutHints ctx.range ctx.searchStart
  rw [findFrom_plain] at hfind
  rcases ok_of_map hfind with ⟨verdict, hscan, rfl⟩
  rcases hlongest : ctx.options.findLongest with _ | _
  · exact hplain.scan_first hencoding hlimits hempty hlongest rfl hrange hrests rfl hstart
      (Nat.le_refl _) hscan
  · rcases hplain.scan_longest hencoding hlimits hempty hlongest rfl hrange hrests hstart
      (Nat.le_refl _) hscan with ⟨later, hlater, hfound⟩
    have hinitial : (Machine.initial program.withoutHints ctx.searchStart).best = none := rfl
    rw [hfound, hinitial, Option.map_none, Placed.merge_none_left]
    exact hlater

/-- What is found by a match at a position, in the call of a search that started elsewhere. -/
theorem findAt_single (h : program.Means tree) (hencoding : ctx.encoding = program.encoding)
    (hlimits : limits.Off) (hempty : ctx.options.findNotEmpty = false)
    (hblind : program.SearchBlind) {q : Nat} {found : Option Found}
    (hfind : program.findAt limits (ctx.startedAt q) fuel = .ok found) :
    found.map Found.placed = ctx.single tree q := by
  have hrests := Machine.rests_initial program ctx.range q
  rcases ok_of_map hfind with ⟨verdict, hattempt, rfl⟩
  have hsame : (Machine.initial program q).attempt program limits ctx fuel q = .ok verdict :=
    (Machine.attempt_startedAt hblind hempty _).symm.trans hattempt
  rcases hlongest : ctx.options.findLongest with _ | _
  · exact (h.attempt_first hencoding hlimits hempty hlongest hrests.registers.fits rfl hsame).1
  · rcases h.attempt_longest hencoding hlimits hempty hlongest hrests.registers.fits hsame with
      ⟨after, rfl, hbest⟩
    have hinitial : (Machine.initial program q).best = none := rfl
    rw [hinitial, Option.map_none, Placed.merge_none_left] at hbest
    exact hbest

/-- What settles with steps enough, and fails by a limit only, has an answer without limits. -/
theorem answers_of_settles {ask : Nat → Except Interrupt (Option Found)} (hlimits : limits.Off)
    (hsettles : ∃ bound result, result ≠ .error .outOfFuel ∧ ∀ fuel, bound ≤ fuel →
      ask fuel = result)
    (hraises : ∀ fuel cause, ask fuel = .error (.failure cause) → limits.Raises cause) :
    ∃ bound, ∀ fuel, bound ≤ fuel → ∃ found, ask fuel = .ok found := by
  rcases hsettles with ⟨bound, result, hresult, hbound⟩
  refine ⟨bound, fun fuel hfuel => ?_⟩
  rcases hask : ask fuel with (cause | _) | found
  · exact absurd (hraises fuel cause hask) (hlimits.not_raises cause)
  · exact absurd ((hbound fuel hfuel).symm.trans hask) hresult
  · exact ⟨found, rfl⟩

/-- Without limits and with steps enough, a search has an answer. -/
theorem findFrom_answers (h : program.Means tree) (hencoding : ctx.encoding = program.encoding)
    (hlimits : limits.Off) :
    ∃ bound, ∀ fuel, bound ≤ fuel → ∃ found, program.findFrom limits ctx fuel = .ok found :=
  answers_of_settles hlimits (h.findFrom_settles hencoding limits) fun _ _ =>
    h.findFrom_raises hencoding

/-- So has a match at a position. -/
theorem findAt_answers (h : program.Means tree) (hencoding : ctx.encoding = program.encoding)
    (hlimits : limits.Off) :
    ∃ bound, ∀ fuel, bound ≤ fuel → ∃ found, program.findAt limits ctx fuel = .ok found :=
  answers_of_settles hlimits (h.findAt_settles hencoding limits) fun _ _ =>
    h.findAt_raises hencoding

end Means

/-- Bounds for each of finitely many numbers have a common one. -/
theorem exists_bound {holds : Nat → Nat → Prop}
    (h : ∀ q, ∃ bound, ∀ fuel, bound ≤ fuel → holds q fuel) (n : Nat) :
    ∃ bound, ∀ fuel, bound ≤ fuel → ∀ q, q ≤ n → holds q fuel := by
  induction n with
  | zero =>
      rcases h 0 with ⟨bound, hbound⟩
      refine ⟨bound, fun fuel hfuel q hq => ?_⟩
      obtain rfl : q = 0 := by omega
      exact hbound fuel hfuel
  | succ n ih =>
      rcases ih with ⟨bound, hbound⟩
      rcases h (n + 1) with ⟨bound', hbound'⟩
      refine ⟨bound + bound', fun fuel hfuel q hq => ?_⟩
      by_cases hlast : q = n + 1
      · subst hlast
        exact hbound' fuel (by omega)
      · exact hbound fuel (by omega) q (by omega)

end Program

/-- Matches that report the same leave the same region. -/
theorem Region.fill_congr (region : Region) {found other : Found}
    (hplaced : found.placed = other.placed) (hsize : found.captures.size = other.captures.size) :
    region.fill found = region.fill other := by
  have hstart : found.start = other.start := congrArg Prod.fst hplaced
  have hplace : found.place = other.place := congrArg Prod.snd hplaced
  have hstop : found.stop = other.stop := congrArg Place.pos hplace
  have hspans : ∀ i, spanOf found i = spanOf other i := by
    intro i
    cases i with
    | zero => rw [spanOf, spanOf, hstart, hstop]
    | succ i => exact congrFun (congrArg Place.spans hplace) (i + 1)
  simp only [fill, hsize, hspans]

namespace Program

/-- The checks that do not look at the positions, which a search and a match have in common. -/
def checkCall (program : Program) (region : Region) (given : Options) : Except Error Unit :=
  program.checkOptions given >>= fun _ => program.checkRegion region

section Calls

variable {program : Program} {limits : Limits} {fuel : Nat} {region : Region}
  {subject : Array UInt8} {given : Options}

theorem searchWithin_checked {start range : Nat} (hrange : start ≤ range ∧ range ≤ subject.size) :
    program.searchWithin fuel subject start range region given limits =
      match program.checkCall region given with
      | .error e => (.error e, region)
      | .ok () => report region Found.start
          (program.findFrom limits (Context.make program subject start range given) fuel) := by
  rw [searchWithin, checkRange, if_pos hrange]
  rfl

theorem matchWithin_checked {pos : Nat} (hpos : pos ≤ subject.size) :
    program.matchWithin fuel subject pos region given limits =
      match program.checkCall region given with
      | .error e => (.error e, region)
      | .ok () => report region Found.length
          (program.findAt limits (Context.make program subject pos subject.size given) fuel) := by
  rw [matchWithin, checkPosition, if_pos hpos]
  rfl

end Calls

section Compiled

variable {pattern : List UInt8} {asked : Options} {enc : Encoding} {dialect : Dialect}
  {readLimits : Limits} {program : Program}

/-- If a search has found the best one of the matches that its positions have, it reports what the
match at that position reports. -/
theorem report_chosen {ctx : Context} {tree : Tree} {start size : Nat} {region : Region}
    {found : Option Found} {matched : Nat → Except Error (Option Nat) × Region}
    (hchosen : ctx.Chosen (ctx.Candidate tree start) (found.map Found.placed))
    (hsize : ∀ last, found = some last → last.captures.size = size)
    (hmatched : ∀ q, ctx.encoding.ComesTo ctx.subject start q → ∃ other,
      matched q = report region Found.length (.ok other) ∧
        other.map Found.placed = ctx.single tree q ∧
        ∀ last, other = some last → last.captures.size = size) :
    ctx.options.Answers (ctx.encoding.ComesTo ctx.subject start) matched
      (report region Found.start (.ok found)) := by
  cases found with
  | none =>
      refine Or.inl ⟨rfl, fun p hcomes => ?_⟩
      rcases hmatched p hcomes with ⟨other, hreport, hsingle, -⟩
      cases other with
      | none => rw [hreport]; rfl
      | some last => exact absurd ⟨p, hcomes, hsingle.symm⟩ (hchosen last.placed)
  | some found =>
      rcases hchosen with ⟨⟨p, hcomes, hsingle⟩, hbest⟩
      obtain rfl : found.start = p := Context.start_of_single hsingle
      -- The match that is asked for there reports the same, and so it leaves the same region.
      rcases hmatched found.start hcomes with ⟨last, hreport, hlast, hlastSize⟩
      rw [hsingle] at hlast
      rcases Option.map_eq_some_iff.mp hlast with ⟨last, rfl, hsame⟩
      have hregion : region.fill found = region.fill last :=
        region.fill_congr hsame.symm ((hsize found rfl).trans (hlastSize last rfl).symm)
      have hlength : last.length = found.length := congrArg Placed.length hsame
      refine Or.inr ⟨found.start, found.length, hcomes, ?_, ?_, fun q hq => ?_⟩
      · rw [hreport, report, hlength]
      · rw [hreport, report, report, hregion]
      · rcases hmatched q hq with ⟨other, hother, hplaced, -⟩
        rw [hother]
        cases other with
        | none => exact Or.inl rfl
        | some other =>
            have hstart : other.start = q := Context.start_of_single hplaced.symm
            refine Or.inr ⟨other.length, rfl, ?_⟩
            rw [← hstart]
            exact hbest other.placed ⟨q, hq, hplaced.symm⟩

/-- A search of a text of the encoding, by a program that does not see where a search started and
without limits, answers as the matches do that are asked for at the positions of its characters,
unless all of them are refused for the same reason. -/
theorem search_leftmost (hcompile : compile pattern asked enc dialect readLimits = .ok program)
    (hblind : program.SearchBlind) {subject : Array UInt8}
    (hvalid : enc.isValid subject.toList = true) {start : Nat} (hstart : start ≤ subject.size)
    (region : Region) {given : Options}
    (hempty : (given.union program.options).findNotEmpty = false) {limits : Limits}
    (hlimits : limits.Off) :
    ∃ bound, ∀ fuel, bound ≤ fuel →
      let searched := program.searchWithin fuel subject start subject.size region given limits
      let matched := fun p => program.matchWithin fuel subject p region given limits
      (∃ e, program.checkCall region given = .error e ∧ searched = (.error e, region) ∧
        ∀ p, p ≤ subject.size → matched p = (.error e, region)) ∨
      (given.union program.options).Answers (enc.ComesTo subject start) matched searched := by
  rcases compile_ok hcompile with ⟨parsed, hparse, hprogram⟩
  rcases ofParsed_ok hparse hprogram with ⟨hmeans, rfl, -⟩
  have htells := tells_hints hparse hprogram
  let ctx := Context.make program subject start subject.size given
  have hencoding : ctx.encoding = program.encoding := rfl
  rcases hmeans.findFrom_answers hencoding hlimits with ⟨bound, hbound⟩
  have hstarted : ∀ q, (ctx.startedAt q).encoding = program.encoding := fun _ => rfl
  rcases exists_bound (fun q => hmeans.findAt_answers (hstarted q) hlimits) subject.size with
    ⟨bound', hbound'⟩
  -- A step more than that, for a hint is as good as an attempt that is over at its first step.
  refine ⟨bound + bound' + 1, fun fuel hfuel => ?_⟩
  intro searched matched
  have hsearched : searched = _ := searchWithin_checked ⟨hstart, Nat.le_refl _⟩
  have hmatched : ∀ q, q ≤ subject.size → matched q = _ := fun q hq => matchWithin_checked hq
  -- What is checked beside the positions is the same for the search and for all of the matches.
  rcases hcheck : program.checkCall region given with e | accepted
  · simp only [hcheck] at hsearched hmatched
    exact Or.inl ⟨e, rfl, hsearched, hmatched⟩
  simp only [hcheck] at hsearched hmatched
  obtain ⟨fuel, rfl⟩ : ∃ n, fuel = n + 1 := ⟨fuel - 1, by omega⟩
  rcases hbound (fuel + 1) (by omega) with ⟨found, hfind⟩
  -- The positions that hints leave out have no match, so the search may as well go without them.
  have hplain : program.withoutHints.findFrom limits ctx (fuel + 1) = .ok found :=
    (findFrom_withoutHints htells hencoding hvalid hstart).symm.trans hfind
  have hchosen := hmeans.findFrom_chosen hencoding hlimits hempty rfl hstart hplain
  have hsearch : searched = report region Found.start (.ok found) := by rw [hsearched, hfind]
  rw [hsearch]
  have hsize : ∀ last, found = some last → last.captures.size = program.slotCount := by
    rintro last rfl
    exact (hmeans.findFrom_inside hencoding hfind).size
  refine Or.inr (report_chosen hchosen hsize fun q hq => ?_)
  have hle := (Encoding.comesTo_le hq).2
  rcases hbound' (fuel + 1) (by omega) q hle with ⟨other, hother⟩
  refine ⟨other, ?_, hmeans.findAt_single hencoding hlimits hempty hblind hother, ?_⟩
  · rw [hmatched q hle]
    exact congrArg _ hother
  · rintro last rfl
    exact (hmeans.findAt_inside (hstarted q) hle hother).size

/-- The longest match of `a{1,99}b?` in `aéaab`, with the counter of a loop that every attempt uses
again. -/
theorem search_leftmost_longest :
    ∃ program, compile [97, 123, 49, 44, 57, 57, 125, 98, 63] {} .utf8 Dialect.standard {} =
        .ok program ∧ program.loops.size = 1 ∧
      program.SearchBlind ∧ Encoding.utf8.isValid #[97, 0xc3, 0xa9, 97, 97, 98].toList = true ∧
      0 ≤ #[97, 0xc3, 0xa9, 97, 97, 98].size ∧
      (Options.union { findLongest := true } program.options).findNotEmpty = false ∧
      Limits.off.Off ∧ program.checkCall (Region.ofCapacity 1) { findLongest := true } = .ok () ∧
      ∃ bound, ∀ fuel, bound ≤ fuel →
        (Options.union { findLongest := true } program.options).Answers
          (Encoding.utf8.ComesTo #[97, 0xc3, 0xa9, 97, 97, 98] 0)
          (fun p => program.matchWithin fuel #[97, 0xc3, 0xa9, 97, 97, 98] p (Region.ofCapacity 1)
            { findLongest := true } Limits.off)
          (program.searchWithin fuel #[97, 0xc3, 0xa9, 97, 97, 98] 0 6 (Region.ofCapacity 1)
            { findLongest := true } Limits.off) := by
  -- What the theorem asks of the program and of the call is computed.
  have hcomputed : ((compile [97, 123, 49, 44, 57, 57, 125, 98, 63] {} .utf8 Dialect.standard
      {}).toOption.any fun program => program.loops.size == 1 && decide program.SearchBlind &&
        !(Options.union { findLongest := true } program.options).findNotEmpty &&
        (program.checkCall (Region.ofCapacity 1) { findLongest := true }).toOption.isSome) =
      true := by decide +kernel
  have hvalid : Encoding.utf8.isValid #[97, 0xc3, 0xa9, 97, 97, 98].toList = true := by decide
  have hoff : Limits.off.Off := ⟨rfl, rfl, rfl⟩
  rcases exists_compiled hcomputed with ⟨program, hcompile, hholds⟩
  simp only [Bool.and_eq_true, beq_iff_eq, decide_eq_true_eq, Bool.not_eq_true'] at hholds
  rcases hholds with ⟨⟨⟨hloops, hblind⟩, hempty⟩, haccepts⟩
  have hchecks : program.checkCall (Region.ofCapacity 1) { findLongest := true } = .ok () := by
    rcases Option.isSome_iff_exists.mp haccepts with ⟨⟨⟩, hsome⟩
    exact eq_ok_of_toOption hsome
  refine ⟨program, hcompile, hloops, hblind, hvalid, by decide, hempty, hoff, hchecks, ?_⟩
  -- The theorem compares the search with the matches at single positions, unless the call is
  -- refused.
  rcases search_leftmost hcompile hblind hvalid (by decide : 0 ≤ _) (Region.ofCapacity 1) hempty
    hoff with ⟨bound, hbound⟩
  refine ⟨bound, fun fuel hfuel => ?_⟩
  rcases hbound fuel hfuel with ⟨e, hrefused, -⟩ | hanswers
  · rw [hchecks] at hrefused
    cases hrefused
  · exact hanswers

end Compiled

end Program

end RegexEngine
