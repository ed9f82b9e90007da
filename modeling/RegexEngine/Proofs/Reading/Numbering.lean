import Mathlib.Data.List.Nodup
import RegexEngine.Proofs.Reading.Levels
import RegexEngine.Proofs.Reference.Compiled

/-!
# Numbers and Names of Groups

A group gets its number when its parenthesis is opened, before anything inside is read, and at the
same time its name, if it has one. A number is always greater than all that have been given before.
So no number is given twice, and the numbers of a name are in order.

What every way of changing the state keeps is kept by every reader. So when the pattern has been
read, no level is open, there are not more groups than there may be, and the names stand for groups
that there are.

References are resolved last, with all names known.

## Main definitions

* `GroupNames.Consistent`: The names stand for groups, none of which has two names.

## Theorems

* `Consistent.insert`: A name is given to a new group.
* `Passes.within`, `Passes.consistent`: What is kept while a pattern is read.
* `draftOf_ends`: The state when a pattern has been read.
* `parse_numbered`: Groups, names and references of a pattern that was read.
-/

namespace RegexEngine

/-- The names stand for groups among the first `groups` ones, and no group has two names. Where
names are not shared, a name stands for one group. -/
structure GroupNames.Consistent (names : GroupNames) (groups : Nat) (shared : Bool) : Prop where
  distinct : (names.entries.map GroupName.name).Nodup
  nonempty : ∀ entry ∈ names.entries, entry.groups ≠ []
  increasing : ∀ entry ∈ names.entries, entry.groups.Pairwise (· < ·)
  within : ∀ entry ∈ names.entries, ∀ n ∈ entry.groups, 0 < n ∧ n ≤ groups
  apart : ∀ entry ∈ names.entries, ∀ other ∈ names.entries, ∀ n ∈ entry.groups,
    n ∈ other.groups → entry = other
  single : shared = false → ∀ entry ∈ names.entries, entry.groups.length = 1

namespace GroupNames

variable {names after : GroupNames} {name : List UInt8} {groups : Nat} {shared : Bool}

theorem consistent_empty (groups : Nat) (shared : Bool) :
    ({} : GroupNames).Consistent groups shared where
  distinct := List.nodup_nil
  nonempty _ h := absurd h List.not_mem_nil
  increasing _ h := absurd h List.not_mem_nil
  within _ h := absurd h List.not_mem_nil
  apart _ h := absurd h List.not_mem_nil
  single _ _ h := absurd h List.not_mem_nil

/-- The groups of a name are those of its entry. -/
theorem entry_of_find {found : List Nat} (h : names.find? name = some found) :
    ∃ entry ∈ names.entries, entry.name = name ∧ entry.groups = found := by
  rcases Option.map_eq_some_iff.mp h with ⟨entry, hfind, rfl⟩
  have hname := @List.find?_some _ (fun entry : GroupName => entry.name == name) _ _ hfind
  exact ⟨entry, List.mem_of_find?_eq_some hfind, beq_iff_eq.mp hname, rfl⟩

/-- A name without groups has no entry. -/
theorem ne_of_find_none (h : names.find? name = none) : ∀ entry ∈ names.entries,
    entry.name ≠ name := by
  intro entry hmem hname
  have hnone := List.find?_eq_none.mp (Option.map_eq_none_iff.mp h) entry hmem
  exact hnone (beq_iff_eq.mpr hname)

namespace Consistent

/-- More groups do no harm. -/
theorem mono (h : names.Consistent groups shared) {more : Nat} (hle : groups ≤ more) :
    names.Consistent more shared :=
  { h with
    within := fun entry hmem n hn =>
      ⟨(h.within entry hmem n hn).1, Nat.le_trans (h.within entry hmem n hn).2 hle⟩ }

/-- A new name for a new group. -/
theorem add (h : names.Consistent groups shared)
    (hnew : ∀ entry ∈ names.entries, entry.name ≠ name) :
    GroupNames.Consistent ⟨names.entries ++ [⟨name, [groups + 1]⟩]⟩ (groups + 1) shared := by
  -- A number that an entry has already is not the new one.
  have hold : ∀ entry ∈ names.entries, groups + 1 ∉ entry.groups := by
    intro entry hmem hin
    have hle := (h.within entry hmem _ hin).2
    omega
  have hmem : ∀ {entry}, entry ∈ names.entries ++ [(⟨name, [groups + 1]⟩ : GroupName)] →
      entry ∈ names.entries ∨ entry = ⟨name, [groups + 1]⟩ := by
    intro entry hentry
    rwa [List.mem_append, List.mem_singleton] at hentry
  constructor
  case distinct =>
    rw [List.map_append, List.nodup_append]
    refine ⟨h.distinct, List.nodup_singleton _, ?_⟩
    rintro a ha b hb rfl
    rcases List.mem_map.mp ha with ⟨entry, hentry, hname⟩
    exact hnew entry hentry (hname.trans (List.mem_singleton.mp hb))
  case nonempty =>
    intro entry hentry
    rcases hmem hentry with hentry | rfl
    · exact h.nonempty entry hentry
    · exact List.cons_ne_nil _ _
  case increasing =>
    intro entry hentry
    rcases hmem hentry with hentry | rfl
    · exact h.increasing entry hentry
    · exact List.pairwise_singleton _ _
  case within =>
    intro entry hentry n hn
    rcases hmem hentry with hentry | rfl
    · exact (h.mono (Nat.le_succ groups)).within entry hentry n hn
    · cases List.mem_singleton.mp hn
      omega
  case apart =>
    intro entry hentry other hother n hn hn'
    rcases hmem hentry with hentry | rfl <;> rcases hmem hother with hother | rfl
    · exact h.apart entry hentry other hother n hn hn'
    · cases List.mem_singleton.mp hn'
      exact absurd hn (hold entry hentry)
    · cases List.mem_singleton.mp hn
      exact absurd hn' (hold other hother)
    · rfl
  case single =>
    intro hshared entry hentry
    rcases hmem hentry with hentry | rfl
    · exact h.single hshared entry hentry
    · rfl

/-- A name that is shared, for one more group. -/
theorem share (h : names.Consistent groups true) :
    GroupNames.Consistent ⟨names.entries.map fun entry =>
      if entry.name == name then { entry with groups := entry.groups ++ [groups + 1] } else entry⟩
      (groups + 1) true := by
  let f : GroupName → GroupName := fun entry =>
    if entry.name == name then { entry with groups := entry.groups ++ [groups + 1] } else entry
  have hname : ∀ entry, (f entry).name = entry.name := by
    intro entry
    change (if entry.name == name then _ else entry).name = entry.name
    split <;> rfl
  -- An entry keeps its numbers, and the new one is added where the name stands.
  have hgroups : ∀ entry, (f entry).groups = entry.groups ∨
      entry.name = name ∧ (f entry).groups = entry.groups ++ [groups + 1] := by
    intro entry
    by_cases hsame : (entry.name == name) = true
    · exact .inr ⟨beq_iff_eq.mp hsame, congrArg GroupName.groups (if_pos hsame)⟩
    · exact .inl (congrArg GroupName.groups (if_neg hsame))
  have hin : ∀ {entry n}, n ∈ (f entry).groups →
      n ∈ entry.groups ∨ entry.name = name ∧ n = groups + 1 := by
    intro entry n hn
    rcases hgroups entry with hsame | ⟨hentry, hmore⟩
    · exact .inl (hsame ▸ hn)
    · rw [hmore, List.mem_append, List.mem_singleton] at hn
      exact hn.imp_right fun hlast => ⟨hentry, hlast⟩
  constructor
  case distinct =>
    have hmap : (names.entries.map f).map GroupName.name = names.entries.map GroupName.name := by
      rw [List.map_map]
      exact List.map_congr_left fun entry _ => hname entry
    exact hmap.symm ▸ h.distinct
  case nonempty =>
    intro entry hentry
    rcases List.mem_map.mp hentry with ⟨old, hold, rfl⟩
    rcases hgroups old with hsame | ⟨-, hmore⟩
    · exact hsame.symm ▸ h.nonempty old hold
    · exact fun hnil => List.append_ne_nil_of_right_ne_nil _ (List.cons_ne_nil _ _)
        (hmore.symm.trans hnil)
  case increasing =>
    intro entry hentry
    rcases List.mem_map.mp hentry with ⟨old, hold, rfl⟩
    rcases hgroups old with hsame | ⟨-, hmore⟩
    · exact hsame.symm ▸ h.increasing old hold
    · refine hmore.symm ▸ List.pairwise_append.mpr
        ⟨h.increasing old hold, List.pairwise_singleton _ _, fun n hn m hm => ?_⟩
      have hle := (h.within old hold n hn).2
      cases List.mem_singleton.mp hm
      omega
  case within =>
    intro entry hentry n hn
    rcases List.mem_map.mp hentry with ⟨old, hold, rfl⟩
    rcases hin hn with hn | ⟨-, rfl⟩
    · exact (h.mono (Nat.le_succ groups)).within old hold n hn
    · omega
  case apart =>
    intro entry hentry other hother n hn hn'
    rcases List.mem_map.mp hentry with ⟨old, hold, rfl⟩
    rcases List.mem_map.mp hother with ⟨old', hold', rfl⟩
    -- Both entries have an old number, or both have the name.
    refine congrArg f ?_
    rcases hin hn with hn | ⟨hfirst, rfl⟩ <;> rcases hin hn' with hn' | ⟨hsecond, hlast⟩
    · exact h.apart old hold old' hold' n hn hn'
    · have hle := (h.within old hold n hn).2
      omega
    · have hle := (h.within old' hold' _ hn').2
      omega
    · exact List.inj_on_of_nodup_map h.distinct hold hold' (hfirst.trans hsecond.symm)
  case single => rintro ⟨⟩

/-- A name is given to the next group. -/
theorem insert (h : names.Consistent groups shared)
    (hinsert : names.insert? name (groups + 1) shared = some after) :
    after.Consistent (groups + 1) shared := by
  rw [insert?] at hinsert
  split at hinsert
  · rename_i hfind
    cases hinsert
    exact h.add (ne_of_find_none hfind)
  · split at hinsert
    · rename_i hshared
      cases hinsert
      rw [hshared] at h ⊢
      exact h.share
    · cases hinsert

end Consistent

end GroupNames

namespace Pattern

variable {env : Setting} {st after : State}

namespace Passes

theorem lt_of_opened {start : List UInt8} {number : Nat}
    (opens : st.openGroup env start = .ok (number, after)) : st.groups < env.captureLimit := by
  rw [State.openGroup] at opens
  split at opens
  · cases opens
  · exact Nat.not_le.mp ‹_›

/-- No more groups are opened than there may be. -/
theorem within (h : Passes env st after) (hst : st.groups ≤ env.captureLimit) :
    after.groups ≤ env.captureLimit := by
  induction h with
  | move rest options => exact hst
  | opened opens =>
      have hlt := lt_of_opened opens
      rcases openGroup_ok opens with ⟨-, rfl⟩
      exact hlt
  | named opens names =>
      rw [(groups_of_named opens names).1]
      exact lt_of_opened opens
  | deeper inner ih => exact ih hst
  | trans first later ihfirst ihlater => exact ihlater (ihfirst hst)

/-- The names stay consistent with the groups. -/
theorem consistent (h : Passes env st after)
    (hst : st.names.Consistent st.groups env.dialect.sharedNames) :
    after.names.Consistent after.groups env.dialect.sharedNames := by
  induction h with
  | move rest options => exact hst
  | opened opens =>
      rcases openGroup_ok opens with ⟨-, rfl⟩
      exact hst.mono (Nat.le_succ _)
  | named opens names =>
      rcases groups_of_named opens names with ⟨hgroups, -, hinsert⟩
      rw [hgroups]
      exact hst.insert hinsert
  | deeper inner ih => exact ih hst
  | trans first later ihfirst ihlater => exact ihlater (ihfirst hst)

end Passes

/-- Outside of groups, an alternation ends with the pattern. -/
theorem rest_branches {fuel : Nat} {group : Reader (Option Draft)} {nodes found : List Draft}
    (hread : branches env group false fuel nodes st = .ok (found, after)) :
    after.rest = [] := by
  induction fuel generalizing nodes st with
  | zero => cases hread
  | succ fuel ih =>
      rw [branches] at hread
      rcases bind_ok hread with ⟨⟨node, mid⟩, -, hread⟩
      simp only [Bool.false_eq_true, if_false] at hread
      split at hread
      · rename_i hrest
        cases hread
        exact hrest
      · split at hread
        · exact ih hread
        · cases hread
        · cases hread

section Whole

variable {pattern : List UInt8} {options : Options} {enc : Encoding} {dialect : Dialect}
  {limits : Limits} {draft : Draft}

/-- When a pattern has been read, nothing is left of it, no level is open, there are not more groups
than there may be, and the names are consistent. -/
theorem draftOf_ends (h : draftOf pattern options enc dialect limits = .ok (draft, after)) :
    after.rest = [] ∧ after.depth = 0 ∧ after.groups ≤ limits.captures ∧
      after.names.Consistent after.groups dialect.sharedNames := by
  have hpasses := passing_alternatives (passing_groupsWithin _ _) h
  rcases bind_ok h with ⟨⟨nodes, last⟩, hnodes, hpair⟩
  cases hpair
  exact ⟨rest_branches hnodes, hpasses.depth_eq, hpasses.within (Nat.zero_le _),
    hpasses.consistent (GroupNames.consistent_empty _ _)⟩

/-- A reference stands for one group at least, if the names are consistent. -/
theorem Reference.Names.ne_nil {names : GroupNames} {target : Reference} {numbers : List Nat}
    (h : target.Names names numbers) {groups : Nat} {shared : Bool}
    (hnames : names.Consistent groups shared) : numbers ≠ [] := by
  cases h with
  | number n => exact List.cons_ne_nil _ _
  | name found =>
      rcases GroupNames.entry_of_find found with ⟨entry, hmem, -, rfl⟩
      exact hnames.nonempty entry hmem

/-- Whenever a pattern is read, it is read to its end, and no level is open there, neither of a
parenthesis nor of a repeat, in the count that the limit on nesting is compared with. The groups of
the tree are numbered from one on in the order of their opening parentheses, and there are not more
of them than there may be. No name is listed twice; each has some of these numbers, in increasing
order, and just one where names are not shared; and no number has two names. Every reference of the
tree comes from one of the pattern. It has the number that is written, or all numbers of the name,
one at least, and all of them are numbers of groups. -/
theorem parse_numbered {parsed : Parsed}
    (h : parse pattern options enc dialect limits = .ok parsed) :
    parsed.offset = pattern.length ∧
    parsed.tree.groupNumbers = List.range' 1 parsed.groups ∧ parsed.groups ≤ limits.captures ∧
    parsed.names.Consistent parsed.groups dialect.sharedNames ∧
    ∃ draft after, draftOf pattern options enc dialect limits = .ok (draft, after) ∧
      after.depth = 0 ∧ after.groups = parsed.groups ∧ after.names = parsed.names ∧
      ∀ numbers ignoreCase, (numbers, ignoreCase) ∈ parsed.tree.references →
        numbers ≠ [] ∧ (∀ n ∈ numbers, 0 < n ∧ n ≤ parsed.groups) ∧
        ∃ target : Reference, (target, ignoreCase) ∈ draft.references ∧
          target.Names parsed.names numbers := by
  -- The draft says what the reader found; names in it are resolved only after all groups are known.
  rcases parse_resolves h with ⟨draft, after, hdraft, hresolve, hgroups, hnames, hoffset⟩
  rcases draftOf_ends hdraft with ⟨hrest, hdepth, hwithin, hconsistent⟩
  rw [hgroups] at hwithin hconsistent
  rw [hnames] at hconsistent
  refine ⟨hoffset hrest, (parse_ok h).1, hwithin, hconsistent, draft, after, hdraft, hdepth,
    hgroups, hnames, fun numbers ignoreCase hmem => ?_⟩
  rcases references_resolve draft hresolve numbers ignoreCase hmem with
    ⟨hnumbers, target, hdrafted, htarget⟩
  exact ⟨htarget.ne_nil hconsistent, hnumbers, target, hdrafted, htarget⟩

/-- In `(?<x>(?<y>a)\k<x>)(?<x>b)`, the name `x` stands for the first and the third group, and so
does the reference to it. -/
theorem parse_numbered_shared :
    ∃ parsed, parse [40, 63, 60, 120, 62, 40, 63, 60, 121, 62, 97, 41, 92, 107, 60, 120, 62, 41, 40,
        63, 60, 120, 62, 98, 41] {} .utf8 Dialect.standard {} = .ok parsed ∧
      parsed.groups = 3 ∧ parsed.names = ⟨[⟨[120], [1, 3]⟩, ⟨[121], [2]⟩]⟩ ∧
      parsed.tree.references = [([1, 3], false)] ∧
      parsed.offset = 25 ∧ parsed.tree.groupNumbers = [1, 2, 3] ∧
      parsed.names.Consistent 3 Dialect.standard.sharedNames := by
  have hread : ((parse [40, 63, 60, 120, 62, 40, 63, 60, 121, 62, 97, 41, 92, 107, 60, 120, 62, 41,
      40, 63, 60, 120, 62, 98, 41] {} .utf8 Dialect.standard {}).toOption.any fun parsed =>
        parsed.groups == 3 && parsed.names == ⟨[⟨[120], [1, 3]⟩, ⟨[121], [2]⟩]⟩ &&
          parsed.tree.references == [([1, 3], false)]) = true := by decide +kernel
  rcases exists_parsed hread with ⟨parsed, hparsed, hholds⟩
  simp only [Bool.and_eq_true, beq_iff_eq] at hholds
  rcases hholds with ⟨⟨hgroups, hnames⟩, hreferences⟩
  rcases parse_numbered hparsed with ⟨hoffset, hnumbers, -, hconsistent, -⟩
  rw [hgroups] at hnumbers hconsistent
  exact ⟨parsed, hparsed, hgroups, hnames, hreferences, hoffset, hnumbers, hconsistent⟩

end Whole

end Pattern

end RegexEngine
