import RegexEngine.Proofs.Search.Twins
import RegexEngine.Proofs.Unrolled.Settled

/-!
# Written Out or Counted

A repeat that has to run once and has no upper bound is written out if its body is short, as the
body and a loop without bounds, and keeps a counter otherwise. Nobody can tell the one from the
other if the body settles: whichever of these repeats are written out and whichever are counted,
anywhere in the pattern, all calls answer the same and report the same spans.

The condition is needed. A loop that is counted ends after an empty iteration, while the written-out
body is followed by another try. If the empty iteration has closed a group, the other try may
succeed where the first one could not, or report the group where the counted loop does not.

What is compared are the outcomes, up to those that come again. The first match, the first one that
is not refused and the longest one are all found first, so they are the same.

## Main definitions

* `Scheme.AtWill`: Repeats that have to run once may be written out or counted.
* `Program.withLayout`: A program with other code.
* `Program.SamePlaced`: Two matches report the same.
* `Program.countedOnce`: A single repeat that has to run once, counted.
* `Program.ToldApart`: What is reported depends on whether a repeat is written out or counted.

## Theorems

* `alike_atWill`: Such repeats have the same outcomes, up to those that come again.
* `explored_layout`: A program with a layout of its tree explores such outcomes.
* `comparable_alike`: Attempts with such outcomes come to the same match.
* `search_unrolled`: No call depends on whether a repeat is written out or counted.
* `unrolled_toldApart`: Some do, if the body does not settle.
-/

namespace RegexEngine

/-- The scheme is the one that the size of the body decides on, or the repeat has to run once, has
no upper bound and a body of a certain kind, and is written out or counted. -/
def Scheme.AtWill (kind : Tree → Prop) (enc : Encoding) (lower : Nat) (upper : Option Nat)
    (body : Tree) (scheme : Scheme) : Prop :=
  scheme.Chosen enc lower upper body ∨
    lower = 1 ∧ upper = none ∧ kind body ∧ (scheme = plus ∨ scheme = counted)

namespace Ways

variable {ctx : Context} {body : Ways}

theorem congruence_alike : Congruence Alike where
  refl := Alike.refl
  mem h hlast := (h _).mem_iff.mp hlast
  andThen := alike_andThen
  orElse := alike_orElse
  group := alike_group
  atomic := alike_atomic
  look := alike_look

/-- Written out or counted, a repeat whose body settles is a loop that has to run once. -/
theorem alike_once {scheme : Scheme} {greedy : Bool} (hscheme : scheme = .plus ∨ scheme = .counted)
    (hadvances : Advances ctx body) (hsettles : Settles body) :
    Alike (repeated ctx scheme 1 none greedy body) (loop ctx 1 none greedy body) := by
  rcases hscheme with rfl | rfl
  · exact alike_plus hadvances hsettles
  · exact .refl _

end Ways

/-- The scheme of a repeat that has to run once. -/
theorem Scheme.choose_once (length : Nat) :
    choose 1 none length = plus ∨ choose 1 none length = counted := by
  by_cases hshort : length ≤ copyLimit
  · exact Or.inl (by simp [choose, hshort])
  · exact Or.inr (by simp [choose, hshort])

/-- A repeat with a settled body has the same outcomes, up to those that come again, by whichever of
the schemes it is run. -/
theorem Node.alike_atWill {ctx : Context} {lower : Nat} {upper : Option Nat} {greedy : Bool}
    {body : Tree} {scheme : Scheme} {ways : Ways}
    (hscheme : scheme.AtWill Node.Settled ctx.encoding lower upper body)
    (hbound : body.Bounded) (hways : ways.Alike (body.outcomes ctx)) :
    scheme.Suits lower upper ∧ Ways.Alike (Ways.repeated ctx scheme lower upper greedy ways)
      ((Node.repeated lower upper greedy body).outcomes ctx) := by
  rw [outcomes]
  rcases hscheme with rfl | ⟨rfl, rfl, hsettled, hscheme⟩
  · exact ⟨Scheme.choose_suits _ _ _, Ways.alike_repeated hways⟩
  · have hadvances := outcomes_advances ctx body
    have hsettles := @settles_of_settled ctx body hbound hsettled
    have hchosen := Scheme.choose_once (body.codeLength ctx.encoding)
    refine ⟨?_, ?_⟩
    · rcases hscheme with rfl | rfl
      · exact ⟨rfl, rfl⟩
      · exact (Option.some_ne_none 0).symm
    · exact (Ways.alike_repeated hways).trans ((Ways.alike_once hscheme hadvances hsettles).trans
        (Ways.alike_once hchosen hadvances hsettles).symm)

/-- The program with other code, and the numbers that this code uses. -/
def Program.withLayout (program : Program) (code : Code) (ids : Ids) : Program :=
  { program with
    code := (code ++ [Instr.finish]).toArray, loops := ids.loops, emptyChecks := ids.emptyChecks,
    marks := ids.marks }

/-- A program with a layout of its tree explores the outcomes of the tree, up to those that come
again, however the repeats with settled bodies are run. -/
theorem Program.explored_layout {program : Program} {tree : Tree} {ctx : Context} {code : Code}
    {ids : Ids} (hwell : tree.WellFormed program.slotCount)
    (hlayout : tree.Layout ctx.encoding (Scheme.AtWill Node.Settled ctx.encoding) {} code ids) :
    ∃ ways, Ways.Alike ways (tree.outcomes ctx) ∧
      (program.withLayout code ids).Explored ctx ways := by
  have hnumbered := (Node.Layout.numbered tree hlayout).2
  have hslots : tree.WellFormed (program.withLayout code ids).slotCount := hwell
  rcases Node.realizes_layout Ways.congruence_alike (Node.leading_le ctx)
    (fun h hbound hways => Node.alike_atWill h hbound hways) tree hslots (fun _ _ => trivial)
    hlayout ⟨List.prefix_rfl, Nat.le_refl _⟩ with ⟨ways, halike, hrealizes⟩
  refine ⟨ways, halike, fun pc instr hinstr => ?_, fun regs pos hfits => ?_⟩
  · exact Program.instr_inside_of_numbered rfl rfl rfl hslots.numbers hnumbered hinstr
  · exact ⟨_, Program.explores_code rfl (fun hends => hnumbered _ hends) (hrealizes _)
      (Registers.records_clear _ hfits pos)⟩

namespace Place

/-- The furthest place is the first one that lies as far on as it does. -/
theorem find?_furthest {places : List Place} {best : Place} (h : furthest places = some best) :
    places.find? (fun place => best.pos ≤ place.pos) = some best := by
  rcases furthest_eq_some h with ⟨before, after, rfl, hbefore, -⟩
  have hnone : before.find? (fun place => best.pos ≤ place.pos) = none := by
    refine List.find?_eq_none.mpr fun place hplace => ?_
    have hlt := hbefore place hplace
    simpa using hlt
  rw [List.find?_append, hnone, Option.none_or, List.find?_cons_of_pos (by simp)]

/-- The furthest place is not changed by places that come again. -/
theorem furthest_firsts {places others : List Place} (h : SameFirsts places others) :
    furthest places = furthest others := by
  have hpos := @furthest_pos_congr places others
    (fun place hplace => ⟨place, h.mem_iff.mp hplace, rfl⟩)
    fun place hplace => ⟨place, h.mem_iff.mpr hplace, rfl⟩
  rcases hbest : furthest places with _ | best
  · rcases hother : furthest others with _ | other
    · rfl
    · rw [hbest, hother] at hpos
      cases hpos
  · rcases hother : furthest others with _ | other
    · rw [hbest, hother] at hpos
      cases hpos
    · rw [hbest, hother] at hpos
      have hsame : best.pos = other.pos := Option.some.inj hpos
      have hfirst := h fun place => best.pos ≤ place.pos
      rw [find?_furthest hbest, hsame, find?_furthest hother] at hfirst
      exact hfirst

end Place

/-- If the first match is wanted, an attempt has the first one that is not refused, and without one
it leaves what was noted before. -/
theorem Verdict.comes_shortest {ctx : Context} {start : Nat} {best : Option Found}
    {places : List Place} {verdict : Verdict} (h : Comes ctx start best places verdict)
    (hshortest : ctx.options.findLongest = false) :
    match places.find? fun place => ¬ ctx.Refuses start place.pos with
    | none => ∃ after, verdict = .exhausted after ∧ after.best = best
    | some place => ∃ after, verdict = .matched after ∧ after.found.placed = (start, place) := by
  induction h with
  | exhausted m => exact ⟨m, rfl, rfl⟩
  | refused refuses _ ih =>
      rw [List.find?_cons_of_neg (by simpa using refuses)]
      exact ih
  | noted _ longest =>
      rw [longest] at hshortest
      cases hshortest
  | @matched best m rest admits _ starts =>
      have hadmits : ¬ ctx.Refuses start m.found.place.pos := admits
      rw [List.find?_cons_of_pos (by simpa using hadmits)]
      exact ⟨m, rfl, by rw [Found.placed, ← starts]; rfl⟩

namespace Program

/-- Two matches report the same, or there is none of either. -/
def SamePlaced (found found' : Option Found) : Prop :=
  found.map Found.placed = found'.map Found.placed

/-- Attempts with the same outcomes, up to those that come again, come to the same match. -/
theorem comparable_alike {ctx : Context} {ways ways' : Ways} (hadvances : Ways.Advances ctx ways')
    (h : ways.Alike ways') : Comparable ctx ways ways' SamePlaced := by
  intro start best best' verdict verdict' hbest hcomes hcomes'
  have hfirsts := h (.fresh start)
  -- The first outcome is the same, or, if the longest is asked for, the merged ones are.
  cases hlongest : ctx.options.findLongest with
  | false =>
      have hshortest := Verdict.comes_shortest hcomes hlongest
      have hshortest' := Verdict.comes_shortest hcomes' hlongest
      rw [hfirsts] at hshortest
      split at hshortest
      · rename_i hnone
        rw [hnone] at hshortest'
        rcases hshortest with ⟨after, rfl, hafter⟩
        rcases hshortest' with ⟨after', rfl, hafter'⟩
        exact .exhausted (by rw [hafter, hafter']; exact hbest)
      · rename_i place hplace
        rw [hplace] at hshortest'
        rcases hshortest with ⟨after, rfl, hafter⟩
        rcases hshortest' with ⟨after', rfl, hafter'⟩
        exact .matched (congrArg some (hafter.trans hafter'.symm))
  | true =>
      -- No outcome lies before the start, so merging keeps the furthest one.
      have hahead : ∀ place ∈ ways' (.fresh start), start ≤ place.pos :=
        fun place hplace => (hadvances (.fresh start) place hplace).le
      rcases Verdict.comes_merged hcomes hlongest fun place hplace =>
        hahead place (hfirsts.mem_iff.mp hplace) with ⟨after, rfl, hafter⟩
      rcases Verdict.comes_merged hcomes' hlongest hahead with ⟨after', rfl, hafter'⟩
      refine .exhausted ?_
      rw [SamePlaced, hafter, hafter', hbest, Place.furthest_firsts (hfirsts.filter _)]

/-- Reports of matches that report the same are the same. -/
theorem AnswerAlike.eq {program : Program} {region : Region} {answer : Found → Nat}
    {first second : Except Error (Option Nat) × Region}
    (hanswer : ∀ found found' : Found, found.placed = found'.placed → answer found = answer found')
    (h : program.AnswerAlike SamePlaced region answer first second) : first = second := by
  rcases h with ⟨e, rfl, rfl⟩ | ⟨found, found', hsame, hsized, hsized', -, rfl, rfl⟩
  · rfl
  cases found with
  | none =>
      cases found' with
      | none => rfl
      | some => cases hsame
  | some last =>
      cases found' with
      | none => cases hsame
      | some last' =>
          have hplaced : last.placed = last'.placed := Option.some.inj hsame
          have hsize : last.captures.size = last'.captures.size :=
            (hsized last rfl).trans (hsized' last' rfl).symm
          rw [report, report, hanswer last last' hplaced, region.fill_congr hplaced hsize]

variable {pattern : List UInt8} {options : Options} {enc : Encoding} {dialect : Dialect}
  {readLimits : Limits} {parsed : Pattern.Parsed} {program : Program} {code : Code} {ids : Ids}

/-- No call depends on whether a repeat is written out or counted. Of a pattern that was read, the
program is compared with one whose code is any other layout of the same tree, in which repeats that
have to run once, have no upper bound and have a settled body are written out or counted at will.
Without limits, both answer every search and every attempt at a position alike, and report the same
spans. -/
theorem search_unrolled
    (hparse : Pattern.parse pattern options enc dialect readLimits = .ok parsed)
    (hprogram : ofParsed pattern options enc dialect parsed = .ok program)
    (hlayout : (prepare enc dialect parsed.tree).Layout enc (Scheme.AtWill Node.Settled enc) {} code
      ids)
    {limits : Limits} (hlimits : limits.Off) :
    (∀ (subject : Array UInt8) (start range : Nat) (region : Region) (given : Options),
      ∃ bound, ∀ fuel, bound ≤ fuel →
        program.searchWithin fuel subject start range region given limits =
          (program.withLayout code ids).searchWithin fuel subject start range region given limits) ∧
    ∀ (subject : Array UInt8) (pos : Nat) (region : Region) (given : Options),
      ∃ bound, ∀ fuel, bound ≤ fuel →
        program.matchWithin fuel subject pos region given limits =
          (program.withLayout code ids).matchWithin fuel subject pos region given limits := by
  rcases ofParsed_ok hparse hprogram with ⟨hmeans, rfl, -⟩
  have htwins : Twins program (program.withLayout code ids) := ⟨rfl, rfl, rfl, rfl⟩
  -- For every context, the two programs have outcomes that differ in repetitions alone.
  have hcompared : ∀ ctx : Context, ctx.encoding = program.encoding →
      ∃ ways, program.Explored ctx ((prepare ctx.encoding dialect parsed.tree).outcomes ctx) ∧
        (program.withLayout code ids).Explored ctx ways ∧
        Comparable ctx ((prepare ctx.encoding dialect parsed.tree).outcomes ctx) ways
          SamePlaced := by
    rintro ctx hencoding
    rw [← hencoding] at hmeans hlayout
    rcases explored_layout hmeans.wellFormed hlayout with ⟨ways, halike, hexplored⟩
    have hadvances := halike.symm.advances (Node.outcomes_advances ctx _)
    exact ⟨ways, hmeans.explored hencoding, hexplored, comparable_alike hadvances halike.symm⟩
  -- Comparable attempts make both kinds of calls agree, and then the answers are equal.
  constructor
  · intro subject start range region given
    rcases hcompared (Context.make program subject start range given) rfl with
      ⟨ways, hfirst, hsecond, hcomparable⟩
    rcases searchWithin_twins htwins hfirst hsecond hlimits hcomparable rfl with ⟨bound, hbound⟩
    exact ⟨bound, fun fuel hfuel => (hbound fuel hfuel).eq
      fun found found' hplaced => congrArg Prod.fst hplaced⟩
  · intro subject pos region given
    rcases hcompared (Context.make program subject pos subject.size given) rfl with
      ⟨ways, hfirst, hsecond, hcomparable⟩
    rcases matchWithin_twins htwins hfirst hsecond hlimits hcomparable rfl with ⟨bound, hbound⟩
    exact ⟨bound, fun fuel hfuel => (hbound fuel hfuel).eq
      fun found found' hplaced => congrArg Placed.length hplaced⟩

/-- The code of a tree that is no more than a repeat which has to run once, with the repeat counted,
and the body of the repeat. -/
def countedOnce (enc : Encoding) : Tree → Option (Tree × Code × Ids)
  | .repeated 1 none greedy body =>
    match body.emit enc {} with
    | .error _ => none
    | .ok (inner, mid) =>
      some (body, Code.counted mid.loops.size greedy inner,
        { mid with loops := mid.loops.push ⟨1, none⟩ })
  | _ => none

/-- With the repeat counted, it is a layout of the tree. -/
theorem layout_countedOnce {kind : Tree → Prop} {tree body : Tree}
    (h : countedOnce enc tree = some (body, code, ids)) (hkind : kind body) :
    tree.Layout enc (Scheme.AtWill kind enc) {} code ids := by
  rw [countedOnce.eq_def] at h
  split at h
  · rename_i greedy body
    rcases hemit : body.emit enc {} with cause | ⟨inner, mid⟩
    · rw [hemit] at h
      cases h
    · rw [hemit] at h
      cases h
      refine .repeated (Option.some_ne_none 0).symm ?_ (Or.inr ⟨rfl, rfl, hkind, Or.inr rfl⟩)
        .counted
      exact Node.Layout.mono (fun _ _ _ _ => Or.inl) body (Node.layout_emit body hemit)
  · cases h

/-- What a computation shows of the program of a pattern that is no more than a repeat, and of the
program with the repeat counted. -/
theorem exists_countedOnce {holds : Program → Tree × Code × Ids → Bool}
    (h : ((Pattern.parse pattern options enc dialect readLimits).toOption.any fun parsed =>
      (ofParsed pattern options enc dialect parsed).toOption.any fun program =>
        (countedOnce enc (prepare enc dialect parsed.tree)).any (holds program)) = true) :
    ∃ parsed program body code ids,
      Pattern.parse pattern options enc dialect readLimits = .ok parsed ∧
      ofParsed pattern options enc dialect parsed = .ok program ∧
      countedOnce enc (prepare enc dialect parsed.tree) = some (body, code, ids) ∧
      holds program (body, code, ids) = true := by
  rcases exists_program h with ⟨parsed, program, hparse, hprogram, hholds⟩
  rcases hcounted : countedOnce enc (prepare enc dialect parsed.tree) with _ | ⟨body, code, ids⟩
  · rw [hcounted] at hholds
    cases hholds
  · rw [hcounted] at hholds
    exact ⟨parsed, program, body, code, ids, hparse, hprogram, hcounted, hholds⟩

/-- The pattern `(?:(a?)\1(b)?)+`, written out by its own program and counted by the other one. -/
theorem search_unrolled_optional :
    let pattern : List UInt8 := [40, 63, 58, 40, 97, 63, 41, 92, 49, 40, 98, 41, 63, 41, 43]
    ∃ parsed program code ids,
      Pattern.parse pattern {} .utf8 Dialect.standard {} = .ok parsed ∧
      ofParsed pattern {} .utf8 Dialect.standard parsed = .ok program ∧
      (prepare .utf8 Dialect.standard parsed.tree).Layout .utf8
        (Scheme.AtWill Node.Settled .utf8) {} code ids ∧
      Limits.off.Off ∧ program.code ≠ (program.withLayout code ids).code ∧
      ∃ bound, ∀ fuel, bound ≤ fuel →
        program.searchWithin fuel #[97, 97, 98, 97] 0 4 (Region.ofCapacity 3) {} Limits.off =
          (program.withLayout code ids).searchWithin fuel #[97, 97, 98, 97] 0 4
            (Region.ofCapacity 3) {} Limits.off := by
  intro pattern
  -- The body of the repeat, the counted layout and that its body is settled are computed.
  have hcomputed : ((Pattern.parse pattern {} .utf8 Dialect.standard {}).toOption.any fun parsed =>
      (ofParsed pattern {} .utf8 Dialect.standard parsed).toOption.any fun program =>
        (countedOnce .utf8 (prepare .utf8 Dialect.standard parsed.tree)).any fun counted =>
          decide (counted.1.Settled ∧
            program.code ≠ (program.withLayout counted.2.1 counted.2.2).code)) = true := by
    decide +kernel
  rcases exists_countedOnce hcomputed with
    ⟨parsed, program, body, code, ids, hparse, hprogram, hcounted, hholds⟩
  rcases of_decide_eq_true hholds with ⟨hsettled, hcode⟩
  -- The hypotheses of the theorem, and then the theorem at this layout.
  have hoff : Limits.off.Off := ⟨rfl, rfl, rfl⟩
  have hlayout := layout_countedOnce hcounted hsettled
  exact ⟨parsed, program, code, ids, hparse, hprogram, hlayout, hoff, hcode,
    (search_unrolled hparse hprogram hlayout hoff).1 _ 0 4 _ {}⟩

/-- The spans that a match at the start of a subject reports, with room for one group. -/
def reports (program : Program) (subject : Array UInt8) (given : Options) :
    List (Option (Nat × Nat)) :=
  (program.matchWithin 100 subject 0 (Region.ofCapacity 2) given Limits.off).2.toList

/-- A repeat with a short body is told apart: some spans are reported with the repeat written out,
and other ones with the repeat counted. -/
def ToldApart (pattern : List UInt8) (subject : Array UInt8) (given : Options)
    (unrolled counted : List (Option (Nat × Nat))) : Prop :=
  ∃ parsed program code ids,
    Pattern.parse pattern {} .utf8 Dialect.standard {} = .ok parsed ∧
    ofParsed pattern {} .utf8 Dialect.standard parsed = .ok program ∧
    (prepare .utf8 Dialect.standard parsed.tree).Layout .utf8
      (Scheme.AtWill (fun body => body.codeLength .utf8 ≤ Scheme.copyLimit) .utf8) {} code ids ∧
    program.reports subject given = unrolled ∧
    (program.withLayout code ids).reports subject given = counted ∧ unrolled ≠ counted

theorem toldApart_of_computed {subject : Array UInt8} {given : Options}
    {unrolled counted : List (Option (Nat × Nat))}
    (h : ((Pattern.parse pattern {} .utf8 Dialect.standard {}).toOption.any fun parsed =>
      (ofParsed pattern {} .utf8 Dialect.standard parsed).toOption.any fun program =>
        (countedOnce .utf8 (prepare .utf8 Dialect.standard parsed.tree)).any fun found =>
          decide (found.1.codeLength .utf8 ≤ Scheme.copyLimit ∧
            program.reports subject given = unrolled ∧
            (program.withLayout found.2.1 found.2.2).reports subject given = counted ∧
            unrolled ≠ counted)) = true) :
    ToldApart pattern subject given unrolled counted := by
  rcases exists_countedOnce h with
    ⟨parsed, program, body, code, ids, hparse, hprogram, hcounted, hholds⟩
  rcases of_decide_eq_true hholds with ⟨hshort, hreports⟩
  exact ⟨parsed, program, code, ids, hparse, hprogram, layout_countedOnce hcounted hshort, hreports⟩

/-- With `(?:\1a|())+`, the text `a` is matched if the repeat is written out, since the group has
been closed by an empty iteration when another one is tried; the counted loop ends before. With
`(?:()|a)+?`, where an empty match is refused, the group has a span for the same reason, and has
none if the loop is counted. -/
theorem unrolled_toldApart :
    ToldApart [40, 63, 58, 92, 49, 97, 124, 40, 41, 41, 43] #[97] {}
      [some (0, 1), some (1, 1)] [some (0, 0), some (0, 0)] ∧
    ToldApart [40, 63, 58, 40, 41, 124, 97, 41, 43, 63] #[97] { findNotEmpty := true }
      [some (0, 1), some (0, 0)] [some (0, 1), none] :=
  ⟨toldApart_of_computed (by decide +kernel), toldApart_of_computed (by decide +kernel)⟩

end Program

end RegexEngine
