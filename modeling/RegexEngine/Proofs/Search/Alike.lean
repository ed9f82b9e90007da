import RegexEngine.Proofs.Unrolled.Answer

/-!
# Programs That Answer Alike

Two programs look the same from outside if calls of them are checked alike and run in the same
context. If their attempts come to the same outcomes as well, up to those that come again, they
answer every call alike. So whatever is found out about the outcomes of a pattern becomes a
statement about what a caller sees.

## Main definitions

* `Program.AnswersLike`: Calling two programs does not tell them apart.

## Theorems

* `answersLike_of_alike`: Programs with the same outcomes answer alike.
-/

namespace RegexEngine

namespace Program

/-- With steps enough, two programs answer every search and every attempt at a position alike, and
report the same spans. -/
structure AnswersLike (limits : Limits) (program other : Program) : Prop where
  searches : ∀ (subject : Array UInt8) (start range : Nat) (region : Region) (given : Options),
    ∃ bound, ∀ fuel, bound ≤ fuel →
      program.searchWithin fuel subject start range region given limits =
        other.searchWithin fuel subject start range region given limits
  attempts : ∀ (subject : Array UInt8) (pos : Nat) (region : Region) (given : Options),
    ∃ bound, ∀ fuel, bound ≤ fuel →
      program.matchWithin fuel subject pos region given limits =
        other.matchWithin fuel subject pos region given limits

/-- In a context, two programs explore the same outcomes, up to those that come again. -/
def ExploresLike (program other : Program) (ctx : Context) : Prop :=
  ∃ ways ways', program.Explored ctx ways ∧ other.Explored ctx ways' ∧ Ways.Advances ctx ways' ∧
    ways.Alike ways'

/-- Programs that look the same from outside and explore the same outcomes, up to those that come
again, answer alike. -/
theorem answersLike_of_alike {program other : Program} {limits : Limits}
    (htwins : Twins program other) (hlimits : limits.Off)
    (h : ∀ ctx : Context, ctx.encoding = program.encoding → program.ExploresLike other ctx) :
    program.AnswersLike limits other := by
  constructor
  · intro subject start range region given
    rcases h (Context.make program subject start range given) rfl with
      ⟨ways, ways', hfirst, hsecond, hadvances, halike⟩
    have hcomparable := comparable_alike hadvances halike
    rcases searchWithin_twins htwins hfirst hsecond hlimits hcomparable rfl with ⟨bound, hbound⟩
    exact ⟨bound, fun fuel hfuel => (hbound fuel hfuel).eq
      fun found found' hplaced => congrArg Prod.fst hplaced⟩
  · intro subject pos region given
    rcases h (Context.make program subject pos subject.size given) rfl with
      ⟨ways, ways', hfirst, hsecond, hadvances, halike⟩
    have hcomparable := comparable_alike hadvances halike
    rcases matchWithin_twins htwins hfirst hsecond hlimits hcomparable rfl with ⟨bound, hbound⟩
    exact ⟨bound, fun fuel hfuel => (hbound fuel hfuel).eq
      fun found found' hplaced => congrArg Placed.length hplaced⟩

/-- A program with other code looks the same from outside. -/
theorem twins_withLayout (program : Program) (code : Code) (ids : Ids) :
    Twins program (program.withLayout code ids) :=
  ⟨rfl, rfl, rfl, rfl⟩

end Program

end RegexEngine
