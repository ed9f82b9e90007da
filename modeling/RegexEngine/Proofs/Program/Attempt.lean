import RegexEngine.Program.Compile
import RegexEngine.Proofs.Emission.Correct
import RegexEngine.Search.Scan

/-!
# Attempts of a Program

A program is the code of a tree and an instruction that ends the match. An attempt with it explores
the outcomes of the tree at the position of the attempt, so it has a verdict unless it meets a
limit, and the verdict is read off the list of outcomes: the first one, or, if the longest match is
wanted, the first one of those that end furthest on.

## Main definitions

* `Program.Means`: A program is that of a tree.
* `Place.furthest`: The first one of the places that lie furthest on.
* `Found.StartsAt`: A match starts at a position.

## Theorems

* `explores_code`: An attempt explores what the code of the program comes to.
* `explores_joined`, `explores_start`: An attempt explores the outcomes of the tree.
* `attempt_comes`: An attempt comes to the verdict that the outcomes lead to, or meets a limit.
* `furthest_eq_some`: Which one of several places is the furthest.
* `furthest_pos_congr`: The furthest position is one of a set of positions.
* `comes_first`, `comes_furthest`: The match that a verdict has.
-/

namespace RegexEngine

/-- The program is made of the code of a well-formed tree. -/
structure Program.Means (program : Program) (tree : Tree) : Prop where
  wellFormed : tree.WellFormed program.slotCount
  emits : ∃ code ids, tree.emit program.encoding {} = .ok (code, ids) ∧
    program.code = (code ++ [Instr.finish]).toArray ∧ program.loops = ids.loops ∧
    program.emptyChecks = ids.emptyChecks

namespace Registers

variable {program : Program} {regs : Registers}

theorem spans_clear (regs : Registers) (n : Nat) : regs.clear.spans n = none := by
  rw [spans, clear, Array.getElem?_replicate]
  split
  · rfl
  · rfl

/-- Registers in which nothing has happened record a place where no group has been closed. -/
theorem records_clear (joins : Nat → Nat → Prop) (h : regs.Fits program) (pos : Nat) :
    regs.clear.Records program joins (.fresh pos) :=
  ⟨h.clear, funext (spans_clear regs), by rintro _ _ _ ⟨⟩⟩

end Registers

/-- From the start of an attempt, a program explores what its code comes to, if the code has no
other end than the one behind it. -/
theorem Program.explores_code {program : Program} {ctx : Context} {regs : Registers}
    {joins : Nat → Nat → Prop} {code : Code} {ways : Ways} {pos : Nat}
    (hcode : program.code = (code ++ [Instr.finish]).toArray) (hends : Instr.finish ∉ code)
    (hrealizes : Realizes program joins ctx (.running 0 pos regs []) code ways)
    (hrecords : regs.Records program joins (.fresh pos)) :
    Control.Explores program ctx (Control.Sound program joins ctx (.running 0 pos regs []))
      (.running 0 pos regs []) (ways (.fresh pos)) := by
  have hlist : program.code.toList = code ++ [.finish] := by rw [hcode]
  have hat : program.CodeAt 0 (code ++ [.finish]) := ⟨[], [], by rw [hlist]; simp, rfl⟩
  have hfinish : program.instrAt (0 + code.length) = some .finish := (hat.right rfl).head
  -- The claim is that the places are explored, if the run comes there at all.
  refine hrealizes 0 (.fresh pos) regs []
    (fun c places => Control.Reaches program ctx (.running 0 pos regs []) c →
      Control.Explores program ctx (Control.Sound program joins ctx (.running 0 pos regs [])) c
        places)
    hat.left hrecords ⟨?_, ?_, fun _ => .bottom regs⟩ Relation.ReflTransGen.refl
  · intro c d places hinside hnext hstep hreach
    rcases hstep hreach with ⟨hsound, hlater⟩
    refine .step hsound (fun pc pos regs stack hc hfinishes => ?_) hnext
      (hlater (hreach.tail hnext))
    subst hc
    rcases hinside with ⟨hlow, hhigh, -⟩
    rw [Program.instrAt, if_neg (by omega), ← Array.getElem?_toList, hlist,
      List.getElem?_append_left (by omega)] at hfinishes
    exact hends (List.mem_of_getElem? hfinishes)
  · intro last hlast after above rest hafter hsaves hclaim hreach
    have hplace : last = ⟨last.pos, after.spans⟩ := by rw [hafter.spans]
    rw [hplace]
    refine .accept (Control.sound_of_plain hfinish rfl hafter) hfinish ?_
    exact hclaim (hreach.tail (Control.next_finish hfinish))

namespace Program.Means

variable {program : Program} {tree : Tree} {ctx : Context} {regs : Registers}

/-- From the start of an attempt, the outcomes of the tree are explored. Every span on the way joins
positions between which the tests of the tree lead. -/
theorem explores_joined {allowed : Leaf → Prop} {joins : Nat → Nat → Prop} (h : program.Means tree)
    (hencoding : ctx.encoding = program.encoding)
    (hleading : Node.Leading ctx allowed joins joins)
    (hallowed : ∀ test ∈ tree.leaves ctx.encoding, allowed test) {pos : Nat}
    (hrecords : regs.Records program joins (.fresh pos)) :
    Control.Explores program ctx (Control.Sound program joins ctx (.running 0 pos regs []))
      (.running 0 pos regs []) (tree.outcomes ctx (.fresh pos)) := by
  rcases h.emits with ⟨code, ids, hemit, hcode, hloops, hchecks⟩
  have hprovides : program.Provides ids := ⟨hloops ▸ List.prefix_rfl, Nat.le_of_eq hchecks.symm⟩
  exact explores_code hcode (fun hends => (Node.numbered_emit tree hemit).2 _ hends)
    (Node.realizes_emit hleading tree h.wellFormed hallowed (hencoding ▸ hemit) hprovides) hrecords

/-- From the start of an attempt, the outcomes of the tree are explored, and no span on the way ends
before it starts. -/
theorem explores_start (h : program.Means tree) (hencoding : ctx.encoding = program.encoding)
    {pos : Nat} (hrecords : regs.Records program (· ≤ ·) (.fresh pos)) :
    Control.Explores program ctx (Control.Sound program (· ≤ ·) ctx (.running 0 pos regs []))
      (.running 0 pos regs []) (tree.outcomes ctx (.fresh pos)) :=
  h.explores_joined hencoding (Node.leading_le ctx) (fun _ _ => trivial) hrecords

variable {m : Machine}

/-- An attempt comes to the verdict that the outcomes lead to, or meets a limit. -/
theorem attempt_comes (h : program.Means tree) (hencoding : ctx.encoding = program.encoding)
    (hfits : m.registers.Fits program) (limits : Limits) (start : Nat) :
    ∃ bound, ∀ fuel, bound ≤ fuel →
      Machine.StopsWith limits (m.attempt program limits ctx fuel start) ∨
        ∃ verdict, m.attempt program limits ctx fuel start = .ok verdict ∧
          Verdict.Comes ctx start m.best (tree.outcomes ctx (.fresh start)) verdict :=
  Machine.explores_resume (h.explores_start hencoding (Registers.records_clear _ hfits start))
    (m.restart start)

end Program.Means

namespace Place

/-- The one of two places that lies further on, the first one in a tie. -/
def further (best : Option Place) (place : Place) : Option Place :=
  match best with
  | none => some place
  | some best => if best.pos < place.pos then some place else some best

/-- The first one of the places that lie furthest on. -/
def furthest (places : List Place) : Option Place :=
  places.foldl further none

/-- The fold keeps the place that it has, or comes to a first one of those that lie furthest on. -/
theorem foldl_further_some (places : List Place) (best : Place) :
    ∃ found, places.foldl further (some best) = some found ∧
      ((found = best ∧ ∀ place ∈ places, place.pos ≤ best.pos) ∨
        best.pos < found.pos ∧ ∃ before after, places = before ++ found :: after ∧
          (∀ place ∈ before, place.pos < found.pos) ∧ ∀ place ∈ after, place.pos ≤ found.pos) := by
  induction places generalizing best with
  | nil => exact ⟨best, rfl, Or.inl ⟨rfl, fun _ h => absurd h List.not_mem_nil⟩⟩
  | cons first rest ih =>
      rw [List.foldl_cons]
      -- In a tie the earlier place is kept, so only a place strictly further on takes over.
      by_cases hlt : best.pos < first.pos
      · have hfurther : further (some best) first = some first := if_pos hlt
        rw [hfurther]
        rcases ih first with
          ⟨found, hfold, ⟨rfl, hle⟩ | ⟨hlt', before, after, rfl, hbefore, hafter⟩⟩
        · exact ⟨found, hfold, Or.inr ⟨hlt, [], rest, rfl, List.forall_mem_nil _, hle⟩⟩
        · refine ⟨found, hfold, Or.inr ⟨by omega, first :: before, after, rfl, ?_, hafter⟩⟩
          exact List.forall_mem_cons.mpr ⟨hlt', hbefore⟩
      · have hfurther : further (some best) first = some best := if_neg hlt
        rw [hfurther]
        rcases ih best with
          ⟨found, hfold, ⟨rfl, hle⟩ | ⟨hlt', before, after, rfl, hbefore, hafter⟩⟩
        · exact ⟨found, hfold, Or.inl ⟨rfl, List.forall_mem_cons.mpr ⟨by omega, hle⟩⟩⟩
        · refine ⟨found, hfold, Or.inr ⟨hlt', first :: before, after, rfl, ?_, hafter⟩⟩
          exact List.forall_mem_cons.mpr ⟨by omega, hbefore⟩

/-- The furthest place lies further on than all before it in the list, and not less far than those
after it. -/
theorem furthest_eq_some {places : List Place} {found : Place} (h : furthest places = some found) :
    ∃ before after, places = before ++ found :: after ∧
      (∀ place ∈ before, place.pos < found.pos) ∧ ∀ place ∈ after, place.pos ≤ found.pos := by
  cases places with
  | nil => cases h
  | cons first rest =>
      rcases foldl_further_some rest first with
        ⟨other, hfold, ⟨rfl, hle⟩ | ⟨hlt, before, after, rfl, hbefore, hafter⟩⟩
      · obtain rfl : other = found := Option.some.inj (hfold.symm.trans h)
        exact ⟨[], rest, rfl, fun _ h => absurd h List.not_mem_nil, hle⟩
      · obtain rfl : other = found := Option.some.inj (hfold.symm.trans h)
        exact ⟨first :: before, after, rfl, List.forall_mem_cons.mpr ⟨hlt, hbefore⟩, hafter⟩

/-- The furthest position is one of a set of positions, in whatever order they are listed. -/
theorem furthest_pos_le {places others : List Place}
    (h : ∀ place ∈ places, ∃ found ∈ others, found.pos = place.pos) {best : Place}
    (hbest : furthest places = some best) :
    ∃ other, furthest others = some other ∧ best.pos ≤ other.pos := by
  rcases furthest_eq_some hbest with ⟨before, behind, rfl, -, -⟩
  rcases h best (List.mem_append_right _ List.mem_cons_self) with ⟨found, hfound, hpos⟩
  rcases hother : furthest others with _ | other
  · rcases others with _ | ⟨first, rest⟩
    · exact absurd hfound List.not_mem_nil
    · rcases foldl_further_some rest first with ⟨last, hlast, -⟩
      cases hlast.symm.trans hother
  · refine ⟨other, rfl, ?_⟩
    -- What is listed lies before the furthest one, which none lies beyond, or behind it.
    rcases furthest_eq_some hother with ⟨before', behind', rfl, hbefore, hbehind⟩
    rw [← hpos]
    rcases List.mem_append.mp hfound with hfound | hfound
    · exact Nat.le_of_lt (hbefore found hfound)
    rcases List.mem_cons.mp hfound with rfl | hfound
    · exact Nat.le_refl _
    · exact hbehind found hfound

theorem furthest_pos_congr {places others : List Place}
    (h : ∀ place ∈ places, ∃ found ∈ others, found.pos = place.pos)
    (h' : ∀ place ∈ others, ∃ found ∈ places, found.pos = place.pos) :
    (furthest places).map Place.pos = (furthest others).map Place.pos := by
  rcases hbest : furthest places with _ | best
  · rcases hother : furthest others with _ | other
    · rfl
    · rcases furthest_pos_le h' hother with ⟨best, hbest', -⟩
      cases hbest'.symm.trans hbest
  · rcases furthest_pos_le h hbest with ⟨other, hother, hle⟩
    rcases furthest_pos_le h' hother with ⟨best', hbest', hle'⟩
    cases hbest'.symm.trans hbest
    rw [hother, Option.map_some, Option.map_some, Nat.le_antisymm hle hle']

end Place

namespace Found

/-- A match that starts at `start` and does not end before. -/
def StartsAt (start : Nat) (found : Found) : Prop :=
  found.start = start ∧ start ≤ found.stop

/-- Of matches that start at the same position, the longer one is the one that ends further on. -/
theorem orLonger_place {start : Nat} {best : Option Found} {found : Found}
    (hfound : found.StartsAt start) (hbest : ∀ other, best = some other → other.StartsAt start) :
    (found.orLonger best).map Found.place = Place.further (best.map Found.place) found.place := by
  cases best with
  | none => rfl
  | some best =>
      rcases hfound with ⟨hstart, hle⟩
      rcases hbest best rfl with ⟨hsame, hbestle⟩
      -- With a common start, lengths compare as the ends do.
      have hiff : best.length < found.length ↔ best.place.pos < found.place.pos := by
        simp only [length, place]
        omega
      simp only [orLonger, Place.further, Option.map_some]
      by_cases hlt : best.length < found.length
      · rw [if_pos hlt, if_pos (hiff.mp hlt)]
        rfl
      · rw [if_neg hlt, if_neg fun h => hlt (hiff.mpr h)]
        rfl

theorem orLonger_startsAt {start : Nat} {best : Option Found} {found : Found}
    (hfound : found.StartsAt start) (hbest : ∀ other, best = some other → other.StartsAt start) :
    ∀ other, found.orLonger best = some other → other.StartsAt start := by
  intro other hother
  cases best with
  | none =>
      cases hother
      exact hfound
  | some best =>
      rw [orLonger] at hother
      split at hother
      · cases hother
        exact hfound
      · cases hother
        exact hbest _ rfl

end Found

namespace Verdict

variable {ctx : Context} {start : Nat} {best : Option Found} {places : List Place}
  {verdict : Verdict}

/-- The match that an attempt comes to, where none was noted before and none is refused, ends at the
first place. -/
theorem comes_first (h : Comes ctx start best places verdict) (hbest : best = none)
    (hadmits : ∀ pos, ¬ ctx.Refuses start pos) (hshortest : ctx.options.findLongest = false) :
    (Program.matchOf verdict).map Found.place = places.head? ∧
      ∀ found, Program.matchOf verdict = some found → found.start = start := by
  cases h with
  | exhausted m =>
      rw [Program.matchOf, hbest]
      exact ⟨rfl, by rintro found ⟨⟩⟩
  | refused refuses => exact absurd refuses (hadmits _)
  | noted _ longest =>
      rw [longest] at hshortest
      cases hshortest
  | matched _ _ starts =>
      refine ⟨rfl, fun found hfound => ?_⟩
      cases hfound
      exact starts

/-- If the longest match is wanted, it ends at the furthest place. -/
theorem comes_furthest (h : Comes ctx start best places verdict)
    (hbest : ∀ other, best = some other → other.StartsAt start)
    (hadmits : ∀ pos, ¬ ctx.Refuses start pos) (hlongest : ctx.options.findLongest = true)
    (hplaces : ∀ place ∈ places, start ≤ place.pos) :
    (Program.matchOf verdict).map Found.place =
        places.foldl Place.further (best.map Found.place) ∧
      ∀ found, Program.matchOf verdict = some found → found.start = start := by
  induction h with
  | exhausted m => exact ⟨rfl, fun found hfound => (hbest found hfound).1⟩
  | refused refuses => exact absurd refuses (hadmits _)
  | @noted best found rest verdict _ _ starts later ih =>
      rw [List.forall_mem_cons] at hplaces
      have hfound : found.StartsAt start := ⟨starts, hplaces.1⟩
      rw [List.foldl_cons, ← Found.orLonger_place hfound hbest]
      exact ih (Found.orLonger_startsAt hfound hbest) hplaces.2
  | matched _ shortest =>
      rw [shortest] at hlongest
      cases hlongest

end Verdict

end RegexEngine
