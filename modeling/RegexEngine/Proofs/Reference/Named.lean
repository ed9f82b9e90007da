import RegexEngine.Proofs.Reference.Compiled
import RegexEngine.Proofs.Search.Spans
import RegexEngine.Regex.Find

/-!
# References to Names

A name may be that of several groups, and two parts of the program choose among them. The registry
is asked with a region and answers with the last of the groups that took part. A reference is obeyed
by the matcher, which does not ask the registry: it tries the groups that took part from the last
one to the first, and goes on behind the first text that is here again.

So the group that the registry answers with is the one that the matcher tries first. If its text is
here again, both agree. If it is not, the registry's answer stands, but the matcher goes on to the
groups declared before it, and the reference may succeed with the text of one of those.

## Main definitions

* `Context.FoldsAlike`, `Context.Repeats`: A text is here again, in any case or in the same.
* `Region.Repeats`: The text of a group is here again.
* `Machine.SeesNamed`: What a reference to a name does.

## Theorems

* `acceptCopy_iff`: The matcher finds a text where it is here again.
* `named_reference`: A reference to a name tries the group that the registry selects, then others.
* `named_reference_elsewhere`: It may succeed where the text of that group is not here again.
-/

namespace RegexEngine

namespace Context

/-- The characters from `p` up to `stop` and those from `q` up to `last` fold alike, one by one. All
of the latter end within the range. -/
inductive FoldsAlike (ctx : Context) (stop : Nat) : (p q last : Nat) → Prop where
  | done {p q : Nat} (reached : stop ≤ p) : FoldsAlike ctx stop p q q
  | more {p q n last : Nat} (inside : p < stop) (within : ctx.charWithin q = some n)
      (alike : ctx.foldedAt p = ctx.foldedAt q)
      (rest : FoldsAlike ctx stop (p + ctx.encoding.charLength ctx.subject p) (q + n) last) :
      FoldsAlike ctx stop p q last

/-- The text of a span is here again, up to `next` and within the range. If case is ignored, only
the folded characters are compared, and the text here may have another length. -/
def Repeats (ctx : Context) (ignoreCase : Bool) (span : Nat × Nat) (pos next : Nat) : Prop :=
  if ignoreCase then ctx.FoldsAlike span.2 span.1 pos next
  else next = pos + (span.2 - span.1) ∧ next ≤ ctx.range ∧
    (ctx.subject.extract pos next).toList = (ctx.subject.extract span.1 span.2).toList

variable {ctx : Context} {pos next : Nat} {span : Nat × Nat}

/-- The folded characters of a text are found where they are here again. -/
theorem acceptFolded_iff {fuel p stop q last : Nat} (hfuel : stop - p ≤ fuel) :
    ctx.acceptFolded q (ctx.foldedBetween fuel p stop) = some last ↔
      ctx.FoldsAlike stop p q last := by
  -- The induction is on the fuel, which is as much as there is of the text. Each round compares one
  -- character of the text with one character here.
  induction fuel generalizing p q with
  | zero =>
      rw [foldedBetween, acceptFolded]
      constructor
      · intro h
        cases h
        exact .done (by omega)
      · intro h
        cases h with
        | done => rfl
        | more inside => omega
  | succ fuel ih =>
      rw [foldedBetween]
      -- A character has a byte at least, so the rest of the text has fuel enough.
      have hlength := Encoding.charLength_pos ctx.encoding ctx.subject p
      by_cases hp : p < stop
      · rw [if_pos hp, acceptFolded, acceptChar, Option.bind_assoc]
        -- Behind the two characters the rest is compared.
        have hrest := fun q => @ih (p + ctx.encoding.charLength ctx.subject p) q (by omega)
        rcases hwithin : ctx.charWithin q with _ | n
        -- There is no character here to compare with.
        · constructor
          · intro h
            cases h
          · intro h
            cases h with
            | done reached => omega
            | more _ within =>
                rw [hwithin] at within
                cases within
        · rw [Option.bind_some]
          -- The two characters are folded alike, or the comparison ends.
          by_cases halike : ctx.foldedAt p = ctx.foldedAt q
          · rw [halike, beq_self_eq_true, if_pos rfl, Option.bind_some, hrest]
            constructor
            · exact .more hp hwithin halike
            · intro h
              cases h with
              | done reached => omega
              | more _ within _ rest =>
                  rw [hwithin] at within
                  cases within
                  exact rest
          · rw [if_neg (by simpa using fun h => halike h.symm), Option.bind_none]
            constructor
            · intro h
              cases h
            · intro h
              cases h with
              | done reached => omega
              | more _ _ alike => exact absurd alike halike
      -- The text is used up, and the comparison has succeeded.
      · rw [if_neg hp, acceptFolded]
        constructor
        · intro h
          cases h
          exact .done (Nat.le_of_not_lt hp)
        · intro h
          cases h with
          | done => rfl
          | more inside => exact absurd inside hp

/-- The matcher finds a text where it is here again. -/
theorem acceptCopy_iff (ignoreCase : Bool) (hrange : ctx.range ≤ ctx.stop) (hpos : pos ≤ ctx.range)
    (hstop : span.2 ≤ ctx.stop) :
    ctx.acceptCopy pos ignoreCase span = some next ↔ ctx.Repeats ignoreCase span pos next := by
  rw [acceptCopy, Repeats]
  -- Without regard to case the characters are compared one by one, otherwise the bytes are.
  cases ignoreCase with
  | true => exact acceptFolded_iff (Nat.le_refl _)
  | false =>
      have hlength : (ctx.subject.extract span.1 span.2).toList.length = span.2 - span.1 := by
        have hsize : span.2 ≤ ctx.subject.size := hstop
        rw [Array.length_toList, Array.size_extract, Nat.min_eq_left hsize]
      simp only [Bool.false_eq_true, if_false]
      rw [acceptBytes_eq hrange hpos, hlength]
      constructor
      · intro h
        split at h
        · rename_i hcopy
          cases h
          exact ⟨rfl, hcopy⟩
        · cases h
      · rintro ⟨rfl, hcopy⟩
        rw [if_pos hcopy]

end Context

/-- The text that a region holds for a group is here again, up to `next`. -/
def Region.Repeats (region : Region) (ctx : Context) (ignoreCase : Bool) (pos n next : Nat) :
    Prop :=
  ∃ span, region.slot n = some span ∧ ctx.Repeats ignoreCase span pos next

namespace Machine

/-- What a reference to a name, with the given groups, does when a matcher obeys it. The region
holds the current captures. -/
structure SeesNamed (program : Program) (ctx : Context) (m : Machine) (name : String)
    (groups : List Nat) (ignoreCase : Bool) (current : Region) : Prop where
  /-- It goes on behind the text of the group that the registry selects, if that is here again. -/
  selected : ∀ n next, program.groupMeant name (some current) = .ok n →
    current.Repeats ctx ignoreCase m.pos n next → ∀ limits,
      m.obey program limits ctx (.leaf (.backref groups ignoreCase)) =
        .ok (.goOn { m.next with pos := next })
  /-- It goes on behind the text of the last group whose text is here again. -/
  last : ∀ front n back next, groups = front ++ n :: back →
    current.Repeats ctx ignoreCase m.pos n next →
    (∀ later ∈ back, ∀ other, ¬ current.Repeats ctx ignoreCase m.pos later other) → ∀ limits,
      m.obey program limits ctx (.leaf (.backref groups ignoreCase)) =
        .ok (.goOn { m.next with pos := next })
  /-- It falls back if there is no such group. -/
  refused : (∀ n ∈ groups, ∀ next, ¬ current.Repeats ctx ignoreCase m.pos n next) → ∀ limits,
    m.obey program limits ctx (.leaf (.backref groups ignoreCase)) = .ok (.fallBack m)
  /-- If no other group of the name has a text that is here again, then that of the group that the
  registry selects decides. -/
  alone : ∀ n, program.groupMeant name (some current) = .ok n →
    (∀ other ∈ groups, other ≠ n → ∀ next,
      ¬ current.Repeats ctx ignoreCase m.pos other next) → ∀ limits,
      ((∃ next, m.obey program limits ctx (.leaf (.backref groups ignoreCase)) =
          .ok (.goOn { m.next with pos := next })) ↔
        ∃ next, current.Repeats ctx ignoreCase m.pos n next)
  /-- The captures of a match answer to the name with the text of the group that the registry
  selects. -/
  named : ∀ n, program.groupMeant name (some current) = .ok n →
    Captures.named? ⟨ctx.subject, current, program⟩ name =
      (current.slot n).map (Match.ofSpan ctx.subject)

section Choosing

variable {groups : List Nat} {region : Region} {name : String} {program : Program}

/-- The search from the end of a list stops at the last element that has something. -/
theorem findSome_reverse {α β : Type} {f : α → Option β} {front back : List α} {a : α} {b : β}
    (ha : f a = some b) (hback : ∀ later ∈ back, f later = none) :
    (front ++ a :: back).reverse.findSome? f = some b := by
  have hnone : back.reverse.findSome? f = none := by
    rw [List.findSome?_eq_none_iff]
    intro later hlater
    exact hback later (List.mem_reverse.mp hlater)
  simp [List.findSome?_append, hnone, ha]

/-- The group that the registry selects has no group behind it that took part. If it did not take
part, none did. -/
theorem groupMeant_last (hnamed : program.groupsNamed name = .ok groups) {n : Nat}
    (h : program.groupMeant name (some region) = .ok n) :
    ∃ front back, groups = front ++ n :: back ∧ ∀ later ∈ back, region.slot later = none := by
  simp only [Program.groupMeant, hnamed, bind, Except.bind, Option.bind] at h
  rcases htaken : Program.lastTaken groups region with _ | taken
  · -- No group took part, so the last one of all is selected.
    rw [htaken, Option.none_or] at h
    rcases hlast : groups.getLast? with _ | last
    · rw [hlast] at h
      cases h
    · rw [hlast] at h
      cases h
      obtain ⟨front, rfl⟩ := List.getLast?_eq_some_iff.mp hlast
      exact ⟨front, [], rfl, List.forall_mem_nil _⟩
  -- The list is searched from its end, so what was passed over stands behind.
  · rw [htaken, Option.some_or] at h
    cases h
    rw [Program.lastTaken, List.find?_eq_some_iff_append] at htaken
    obtain ⟨-, behind, before, hreverse, hbehind⟩ := htaken
    refine ⟨before.reverse, behind.reverse, ?_, ?_⟩
    · rw [← List.reverse_reverse groups, hreverse]
      simp
    · intro later hlater
      simpa using hbehind later (List.mem_reverse.mp hlater)

end Choosing

section Obeying

variable {program : Program} {limits : Limits} {ctx : Context} {m : Machine} {groups : List Nat}
  {ignoreCase : Bool} {next : Nat}

theorem obey_reference_some
    (h : Leaf.accept ctx m.registers.captures m.pos (.backref groups ignoreCase) = some next) :
    m.obey program limits ctx (.leaf (.backref groups ignoreCase)) =
      .ok (.goOn { m.next with pos := next }) := by
  rw [obey, h, moveTo]

theorem obey_reference_none
    (h : Leaf.accept ctx m.registers.captures m.pos (.backref groups ignoreCase) = none) :
    m.obey program limits ctx (.leaf (.backref groups ignoreCase)) = .ok (.fallBack m) := by
  rw [obey, h, moveTo]

end Obeying

/-- What a matcher finds of the groups is what the region says, if it holds the current captures. -/
theorem seesNamed_of_accepts {program : Program} {ctx : Context} {m : Machine} {name : String}
    {groups : List Nat} {ignoreCase : Bool} {current : Region}
    (hnamed : program.groupsNamed name = .ok groups) (hcount : ∀ n ∈ groups, n < current.count)
    (haccepts : ∀ n ∈ groups, ∀ next,
      Leaf.acceptGroup ctx m.registers.captures m.pos ignoreCase n = some next ↔
        current.Repeats ctx ignoreCase m.pos n next) :
    m.SeesNamed program ctx name groups ignoreCase current := by
  have hnone : ∀ n ∈ groups, (∀ next, ¬ current.Repeats ctx ignoreCase m.pos n next) →
      Leaf.acceptGroup ctx m.registers.captures m.pos ignoreCase n = none := by
    intro n hn hno
    rw [Option.eq_none_iff_forall_ne_some]
    intro next haccept
    exact hno next ((haccepts n hn next).mp haccept)
  have hlast : ∀ front n back next, groups = front ++ n :: back →
      current.Repeats ctx ignoreCase m.pos n next →
      (∀ later ∈ back, ∀ other, ¬ current.Repeats ctx ignoreCase m.pos later other) →
      Leaf.accept ctx m.registers.captures m.pos (.backref groups ignoreCase) = some next := by
    intro front n back next hgroups hrepeats hlater
    rw [Leaf.accept, hgroups]
    refine findSome_reverse ((haccepts n (by simp [hgroups]) next).mpr hrepeats) ?_
    intro later hin
    exact hnone later (by simp [hgroups, hin]) (hlater later hin)
  have hselected : ∀ n next, program.groupMeant name (some current) = .ok n →
      current.Repeats ctx ignoreCase m.pos n next →
      Leaf.accept ctx m.registers.captures m.pos (.backref groups ignoreCase) = some next := by
    intro n next hmeant hrepeats
    obtain ⟨front, back, hgroups, hback⟩ := groupMeant_last hnamed hmeant
    refine hlast front n back next hgroups hrepeats ?_
    -- A group that did not take part has no text that could be here again.
    rintro later hin other ⟨span, hslot, -⟩
    rw [hback later hin] at hslot
    cases hslot
  have hrefused : (∀ n ∈ groups, ∀ next, ¬ current.Repeats ctx ignoreCase m.pos n next) →
      Leaf.accept ctx m.registers.captures m.pos (.backref groups ignoreCase) = none := by
    intro hno
    rw [Leaf.accept, List.findSome?_eq_none_iff]
    intro n hn
    exact hnone n (List.mem_reverse.mp hn) (hno n (List.mem_reverse.mp hn))
  constructor
  case selected =>
    intro n next hmeant hrepeats limits
    exact obey_reference_some (hselected n next hmeant hrepeats)
  case last =>
    intro front n back next hgroups hrepeats hlater limits
    exact obey_reference_some (hlast front n back next hgroups hrepeats hlater)
  case refused =>
    intro hno limits
    exact obey_reference_none (hrefused hno)
  case alone =>
    intro n hmeant hothers limits
    constructor
    · rintro ⟨next, hobey⟩
      by_contra hno
      have hfalls := @obey_reference_none program limits ctx m groups ignoreCase (hrefused ?_)
      · rw [hfalls] at hobey
        cases hobey
      · intro other hother last hrepeats
        by_cases hsame : other = n
        · exact hno ⟨last, hsame ▸ hrepeats⟩
        · exact hothers other hother hsame last hrepeats
    · rintro ⟨next, hrepeats⟩
      exact ⟨next, obey_reference_some (hselected n next hmeant hrepeats)⟩
  case named =>
    intro n hmeant
    obtain ⟨front, back, hgroups, -⟩ := groupMeant_last hnamed hmeant
    have hlt := hcount n (by simp [hgroups])
    simp only [Captures.named?, hmeant, Captures.get?, Region.get?, if_pos hlt]

end Machine

namespace Program

open Machine (SeesNamed)

variable {pattern : List UInt8} {asked : Options} {enc : Encoding} {dialect : Dialect}
  {readLimits : Limits} {program : Program}

/-- At every point of every search and every match, a reference to a name goes on behind the text of
the last group of the name whose text is here again. The group that the registry selects is tried
first, and it decides if no other group has a text that is here again. -/
theorem named_reference (hcompile : compile pattern asked enc dialect readLimits = .ok program)
    {subject : Array UInt8} {start range : Nat} (hstart : start ≤ range)
    (hrange : range ≤ subject.size) {given : Options} {limits : Limits} {fuel : Nat}
    {m first : Machine}
    (hvisits : program.Visits limits (Context.make program subject start range given) fuel m first)
    {name : String} {groups : List Nat} (hnamed : program.groupsNamed name = .ok groups) {pc : Int}
    {ignoreCase : Bool} (hinstr : program.instrAt pc = some (.leaf (.backref groups ignoreCase)))
    {region : Region} (hroom : program.slotCount ≤ region.capacity) :
    m.SeesNamed program (Context.make program subject start range given) name groups ignoreCase
      (region.fill m.found) := by
  rcases means_of_compile hcompile with ⟨tree, hprogram⟩
  have hsafe : m.Safe program (Context.make program subject start range given) first := by
    rcases hvisits with ⟨before, begins, hbegins, rfl, hreach⟩
    rcases hprogram.begins_rests rfl hbegins hstart with ⟨hrests, hle⟩
    exact hprogram.attempt_safe rfl hrests hle hreach
  have hgroups := (reference_compiled hcompile hinstr).1
  have hcaptures : m.registers.captures.size = program.slotCount := hsafe.inside.2.1.fits.captures
  refine Machine.seesNamed_of_accepts hnamed ?_ ?_
  · intro n hn
    have hle := (hgroups n hn).2
    change n < m.registers.captures.size
    rw [hcaptures, slotCount]
    omega
  · intro n hn next
    -- The region holds for the group what the registers do.
    have hslot : (region.fill m.found).slot n = m.registers.spans n := by
      obtain ⟨hpos, hle⟩ := hgroups n hn
      rw [slotCount] at hroom
      obtain ⟨k, rfl⟩ : ∃ k, n = k + 1 := ⟨n - 1, by omega⟩
      rw [Region.slot_fill, if_pos (by omega)]
      rfl
    rw [Region.Repeats, hslot]
    change (m.registers.spans n).bind _ = some next ↔ _
    rcases hspan : m.registers.spans n with _ | ⟨low, high⟩
    · simp
    · have hin := hsafe.spans n low high hspan
      rw [Option.bind_some, Context.acceptCopy_iff ignoreCase hrange hsafe.inside.1
        (Nat.le_trans hin.2 hrange)]
      constructor
      · intro hrepeats
        exact ⟨(low, high), rfl, hrepeats⟩
      · rintro ⟨span, hsame, hrepeats⟩
        cases hsame
        exact hrepeats

/-- The program of `(?<x>a)(?<x>b)\k<x>`, with two groups of one name and a reference to it. -/
def sharedName : Program where
  code := #[.openGroup 1, .leaf (.literal [97]), .closeGroup 1, .openGroup 2,
    .leaf (.literal [98]), .closeGroup 2, .leaf (.backref [1, 2] false), .finish]
  groups := 2
  pattern := [40, 63, 60, 120, 62, 97, 41, 40, 63, 60, 120, 62, 98, 41, 92, 107, 60, 120, 62]
  names := ⟨[⟨[120], [1, 2]⟩]⟩

theorem compile_sharedName :
    compile sharedName.pattern {} .utf8 Dialect.standard {} = .ok sharedName := by
  decide +kernel

/-- The matcher that has read `ab` and comes to the reference. -/
def atSharedName : Machine where
  pc := 6
  pos := 2
  start := 0
  registers :=
    { captures := #[{}, { opened := some 0, start := some 0, stop := some 1 },
        { opened := some 1, start := some 1, stop := some 2 }]
      counters := #[]
      checks := #[] }
  stack := [.capture 2 { opened := some 1 }, .capture 2 {}, .capture 1 { opened := some 0 },
    .capture 1 {}]

/-- Whatever comes after `ab`, the reference is come to. -/
theorem visits_sharedName (b : UInt8) :
    sharedName.Visits Limits.off (Context.make sharedName #[97, 98, b] 0 3 {}) 0 atSharedName
      ((Machine.initial sharedName 0).restart 0) := by
  refine ⟨_, _, .single, rfl, ?_⟩
  exact .head rfl (.head rfl (.head rfl (.head rfl (.head rfl (.single rfl)))))

/-- In `abb` the reference of `(?<x>a)(?<x>b)\k<x>` is to the `b`, as the registry says. -/
theorem named_reference_selected :
    compile sharedName.pattern {} .utf8 Dialect.standard {} = .ok sharedName ∧ 0 ≤ 3 ∧
      3 ≤ #[97, 98, 98].size ∧
      let ctx := Context.make sharedName #[97, 98, 98] 0 3 {}
      let current := (Region.ofCapacity 3).fill atSharedName.found
      sharedName.Visits Limits.off ctx 0 atSharedName
          ((Machine.initial sharedName 0).restart 0) ∧
        sharedName.groupsNamed "x" = .ok [1, 2] ∧
        sharedName.instrAt 6 = some (.leaf (.backref [1, 2] false)) ∧
        sharedName.slotCount ≤ (Region.ofCapacity 3).capacity ∧
        sharedName.groupMeant "x" (some current) = .ok 2 ∧
        atSharedName.obey sharedName Limits.off ctx (.leaf (.backref [1, 2] false)) =
          .ok (.goOn { atSharedName.next with pos := 3 }) := by
  -- The registry, the instruction and the state of the matcher are computed. What the reference
  -- does there follows from the theorem.
  have hnamed : sharedName.groupsNamed "x" = .ok [1, 2] := by decide +kernel
  have hmeant : sharedName.groupMeant "x" (some ((Region.ofCapacity 3).fill atSharedName.found)) =
      .ok 2 := by decide +kernel
  have hinstr : sharedName.instrAt 6 = some (.leaf (.backref [1, 2] false)) := rfl
  have hroom : sharedName.slotCount ≤ (Region.ofCapacity 3).capacity := by decide
  have hsees := named_reference compile_sharedName (by decide) (by decide) (visits_sharedName 98)
    hnamed hinstr hroom
  refine ⟨compile_sharedName, by decide, by decide, visits_sharedName 98, hnamed, hinstr, hroom,
    hmeant, hsees.selected 2 3 hmeant ⟨(1, 2), rfl, rfl, by decide, rfl⟩ Limits.off⟩

/-- In `aba` the registry selects the `b` as well, and no `b` follows. The reference succeeds with
the `a` of the other group. -/
theorem named_reference_elsewhere :
    compile sharedName.pattern {} .utf8 Dialect.standard {} = .ok sharedName ∧
      let ctx := Context.make sharedName #[97, 98, 97] 0 3 {}
      let current := (Region.ofCapacity 3).fill atSharedName.found
      sharedName.Visits Limits.off ctx 0 atSharedName
          ((Machine.initial sharedName 0).restart 0) ∧
        atSharedName.fetch sharedName = some (.leaf (.backref [1, 2] false)) ∧
        sharedName.groupsNamed "x" = .ok [1, 2] ∧
        sharedName.groupMeant "x" (some current) = .ok 2 ∧
        (∀ next, ¬ current.Repeats ctx false atSharedName.pos 2 next) ∧
        atSharedName.step sharedName Limits.off ctx =
          .ok (.running { atSharedName.next with pos := 3 }) := by
  refine ⟨compile_sharedName, visits_sharedName 97, rfl, by decide +kernel, by decide +kernel, ?_,
    rfl⟩
  -- If the group of the registry followed, its text would stand at the position, but an `a` stands
  -- there.
  rintro next ⟨span, hslot, hnext, -, htext⟩
  obtain rfl : (1, 2) = span := Option.some.inj hslot
  subst hnext
  revert htext
  decide

end Program

end RegexEngine
