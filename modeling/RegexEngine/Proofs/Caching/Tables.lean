import Mathlib.Data.Finmap
import RegexEngine.Proofs.Caching.Newest

/-!
# A Cache in Two Tables

A list of programs has to be gone through to find one. A cache can be kept in two tables instead: a
map finds the program of a key, and a queue knows the keys in the order in which they have come in,
so that it can be told which one has to go. A request then looks at the tables twice. It looks for
its program, and if there is none it comes back with a new one; in between the tables are not held,
so the key may have come in meanwhile, and then its program stays.

The queue must have the keys of the map, each of them once. Both looks at the tables keep it so,
whatever has been done between them. Then the tables are nothing but a cache, and the queue lists
the newest keys.

## Main definitions

* `Cache.Tables`: A cache in two tables.
* `Tables.evict`, `Tables.keep`, `Tables.ask`: What a request does to them.
* `Tables.Turn`: What a caller does who holds them.
* `Tables.InStep`: The queue has the keys of the map.
* `Tables.Shows`: The tables show a cache.

## Theorems

* `evict_spec`: What is left after the oldest keys have gone.
* `inStep_keep`, `inStep_after`, `inStep_turns`: The tables stay in step.
* `shows_ask`: A request is answered as by the cache that the tables show.
* `calls_keepNewest`: What is kept after any calls.
-/

namespace RegexEngine

namespace Cache

/-- A cache in two tables. -/
structure Tables where
  /-- How many programs are kept at most. -/
  capacity : Nat
  /-- The programs, to be found by their keys. -/
  programs : Finmap fun _ : CacheKey => CachedProgram := ∅
  /-- The keys in the order in which they have come in, oldest first. -/
  order : List CacheKey := []
  /-- How many compilations there have been. -/
  compilations : Nat := 0

namespace Tables

/-- Empty tables. -/
def ofCapacity (capacity : Nat) : Tables :=
  { capacity := capacity }

/-- Forgets all programs. -/
def clear (tables : Tables) : Tables :=
  { tables with programs := ∅, order := [] }

/-- Takes the oldest key out of both tables, again and again, until there is room for another one or
no key is left. -/
def evict (capacity : Nat) :
    (order : List CacheKey) → (programs : Finmap fun _ : CacheKey => CachedProgram) →
      List CacheKey × Finmap fun _ : CacheKey => CachedProgram
  | [], programs => ([], programs)
  | oldest :: order, programs =>
    if capacity ≤ programs.keys.card then evict capacity order (programs.erase oldest)
    else (oldest :: order, programs)

/-- Puts in a program that has been made, if there is room for any. A program that is there already
stays, and is the answer. -/
def keep (tables : Tables) (key : CacheKey) (made : CachedProgram) : CachedProgram × Tables :=
  if tables.capacity = 0 then (made, tables)
  else
    match tables.programs.lookup key with
    | some found => (found, tables)
    | none =>
      let left := evict tables.capacity tables.order tables.programs
      (made, { tables with programs := left.2.insert key made, order := left.1 ++ [key] })

/-- The tables after another compilation. -/
def counted (tables : Tables) : Tables :=
  { tables with compilations := tables.compilations + 1 }

/-- The answer to a request, and the tables afterwards. -/
def ask (tables : Tables) (limits : Limits) (request : Request) :
    Except Error CachedProgram × Tables :=
  match tables.programs.lookup request.key with
  | some found => (.ok found, tables)
  | none =>
    match request.compile limits with
    | .error e => (.error e, tables)
    | .ok program =>
      let kept := tables.counted.keep request.key ⟨program, tables.compilations⟩
      (.ok kept.1, kept.2)

/-- What is done to the tables by someone who holds them. -/
inductive Turn where
  | keep (key : CacheKey) (made : CachedProgram)
  | clear

/-- Tables after somebody has held them. -/
def turn (tables : Tables) : Turn → Tables
  | .keep key made => (tables.keep key made).2
  | .clear => tables.clear

/-- Tables after a call. -/
def call (limits : Limits) (tables : Tables) : Call → Tables
  | .get request => (tables.ask limits request).2
  | .clear => tables.clear

/-- Tables after a series of calls. -/
def after (limits : Limits) (tables : Tables) (calls : List Call) : Tables :=
  calls.foldl (call limits) tables

/-- The queue has the keys of the map, each of them once, and there is room for them. -/
structure InStep (tables : Tables) : Prop where
  distinct : tables.order.Nodup
  keys : tables.order.toFinset = tables.programs.keys
  room : tables.programs.keys.card ≤ tables.capacity

/-- The tables show a cache: the queue lists its keys, and the map finds its programs. -/
structure Shows (tables : Tables) (cache : Cache) : Prop where
  capacity : tables.capacity = cache.capacity
  compilations : tables.compilations = cache.compilations
  order : tables.order = cache.keys
  programs : ∀ key, tables.programs.lookup key = cache.find? key

variable {limits : Limits} {tables : Tables} {cache : Cache}
  {order : List CacheKey} {programs : Finmap fun _ : CacheKey => CachedProgram}

theorem mem_order (h : order.toFinset = programs.keys) (key : CacheKey) :
    key ∈ order ↔ key ∈ programs := by
  rw [← List.mem_toFinset, h, Finmap.mem_keys]

/-- After the oldest keys have gone, the queue lists the newest ones, one less than there is room
for, and the map finds these and no others. -/
theorem evict_spec (capacity : Nat) (hdistinct : order.Nodup)
    (hkeys : order.toFinset = programs.keys) :
    (evict capacity order programs).1 = order.drop (order.length + 1 - capacity) ∧
    ∀ key, (evict capacity order programs).2.lookup key =
      if key ∈ order.drop (order.length + 1 - capacity) then programs.lookup key else none := by
  induction order generalizing programs with
  | nil =>
      refine ⟨List.drop_nil.symm, fun key => ?_⟩
      rw [List.drop_nil, if_neg List.not_mem_nil, evict]
      exact Finmap.lookup_eq_none.mpr (mt (mem_order hkeys key).mpr List.not_mem_nil)
  | cons oldest order ih =>
      -- The map has as many keys as the queue, so that the loop could as well look at the queue.
      rcases List.nodup_cons.mp hdistinct with ⟨hnew, hrest⟩
      have hcard : programs.keys.card = order.length + 1 := by
        rw [← hkeys, List.toFinset_card_of_nodup hdistinct, List.length_cons]
      rw [evict, hcard]
      split
      · rename_i hfull
        have herase : order.toFinset = (programs.erase oldest).keys := by
          rw [Finmap.keys_erase, ← hkeys, List.toFinset_cons,
            Finset.erase_insert (mt List.mem_toFinset.mp hnew)]
        have hdrop : (oldest :: order).length + 1 - capacity = order.length + 1 - capacity + 1 := by
          rw [List.length_cons]
          omega
        rcases ih hrest herase with ⟨horder, hlookup⟩
        rw [hdrop, List.drop_succ_cons]
        refine ⟨horder, fun key => ?_⟩
        rw [hlookup]
        split
        · rename_i hmem
          -- The key that has gone is not among the others.
          have hne : key ≠ oldest := fun heq => hnew (heq ▸ List.mem_of_mem_drop hmem)
          exact Finmap.lookup_erase_ne hne
        · rfl
      · have hdrop : (oldest :: order).length + 1 - capacity = 0 := by
          rw [List.length_cons]
          omega
        rw [hdrop, List.drop_zero]
        refine ⟨rfl, fun key => ?_⟩
        split
        · rfl
        · rename_i hmem
          exact Finmap.lookup_eq_none.mpr (mt (mem_order hkeys key).mpr hmem)

section InStep

theorem inStep_ofCapacity (capacity : Nat) : (ofCapacity capacity).InStep :=
  ⟨List.nodup_nil, rfl, Nat.zero_le _⟩

theorem inStep_clear (tables : Tables) : tables.clear.InStep :=
  ⟨List.nodup_nil, rfl, Nat.zero_le _⟩

/-- The tables stay in step when a program is put in, whether its key is there by now or not. -/
theorem inStep_keep (h : tables.InStep) (key : CacheKey) (made : CachedProgram) :
    (tables.keep key made).2.InStep := by
  rw [keep]
  split
  · exact h
  rename_i hroom
  split
  · exact h
  rename_i hnone
  rcases evict_spec tables.capacity h.distinct h.keys with ⟨horder, hlookup⟩
  have hnew : key ∉ tables.order := mt (mem_order h.keys key).mp (Finmap.lookup_eq_none.mp hnone)
  have hlength : tables.order.length ≤ tables.capacity := by
    rw [← List.toFinset_card_of_nodup h.distinct, h.keys]
    exact h.room
  -- The map finds the keys that the queue lists yet, and the new one.
  have hkeys : (tables.order.drop (tables.order.length + 1 - tables.capacity) ++ [key]).toFinset =
      ((evict tables.capacity tables.order tables.programs).2.insert key made).keys := by
    ext other
    rw [List.mem_toFinset, List.mem_append, List.mem_singleton, Finmap.mem_keys,
      Finmap.mem_insert, or_comm, ← Finmap.lookup_isSome, hlookup]
    refine or_congr Iff.rfl ⟨fun hmem => ?_, fun hsome => ?_⟩
    · rw [if_pos hmem, Finmap.lookup_isSome, ← mem_order h.keys]
      exact List.mem_of_mem_drop hmem
    · by_contra hmem
      rw [if_neg hmem] at hsome
      cases hsome
  have hdistinct :
      (tables.order.drop (tables.order.length + 1 - tables.capacity) ++ [key]).Nodup := by
    refine List.Nodup.append (h.distinct.sublist (List.drop_sublist _ _))
      (List.nodup_singleton _) ?_
    exact List.disjoint_singleton.mpr (mt List.mem_of_mem_drop hnew)
  refine ⟨?_, ?_, ?_⟩
  · simp only [horder]
    exact hdistinct
  · simp only [horder]
    exact hkeys
  · simp only
    rw [← hkeys, List.toFinset_card_of_nodup hdistinct, List.length_append, List.length_drop,
      List.length_singleton]
    omega

theorem inStep_ask (h : tables.InStep) (limits : Limits) (request : Request) :
    (tables.ask limits request).2.InStep := by
  rw [ask]
  split
  · exact h
  · split
    · exact h
    · have hcounted : tables.counted.InStep := ⟨h.distinct, h.keys, h.room⟩
      exact inStep_keep hcounted _ _

/-- The tables stay in step through any calls. -/
theorem inStep_after (h : tables.InStep) (limits : Limits) (calls : List Call) :
    (tables.after limits calls).InStep := by
  induction calls generalizing tables with
  | nil => exact h
  | cons call calls ih =>
      cases call with
      | get request => exact ih (inStep_ask h limits request)
      | clear => exact ih (inStep_clear tables)

/-- The tables are in step whenever nobody holds them, however the turns of several callers follow
one another. -/
theorem inStep_turns (h : tables.InStep) (turns : List Turn) :
    (turns.foldl turn tables).InStep := by
  induction turns generalizing tables with
  | nil => exact h
  | cons first turns ih =>
      cases first with
      | keep key made => exact ih (inStep_keep h key made)
      | clear => exact ih (inStep_clear tables)

end InStep

section Shows

theorem shows_ofCapacity (capacity : Nat) : (ofCapacity capacity).Shows (Cache.ofCapacity capacity)
    where
  capacity := rfl
  compilations := rfl
  order := rfl
  programs key := Finmap.lookup_empty key

theorem Shows.clear (h : tables.Shows cache) : tables.clear.Shows cache.clear where
  capacity := h.capacity
  compilations := h.compilations
  order := rfl
  programs key := Finmap.lookup_empty key

/-- Both keep a new program in the same way, and give it the same number. -/
theorem shows_keep {key : CacheKey} (hstep : tables.InStep) (h : tables.Shows cache)
    (htidy : cache.Tidy) (hnew : key ∉ cache.keys) (program : Program) :
    (tables.counted.keep key ⟨program, tables.compilations⟩).1 = ⟨program, cache.compilations⟩ ∧
      (tables.counted.keep key ⟨program, tables.compilations⟩).2.Shows
        (cache.insert key program).2 := by
  -- The key is new, so the table of programs has nothing for it.
  have hnone : tables.counted.programs.lookup key = none := by
    rw [counted, h.programs, find?_eq_none]
    exact hnew
  rw [keep, hnone, counted, h.compilations]
  -- Without room nothing is kept but the count.
  by_cases hroom : cache.capacity = 0
  · rw [if_pos (h.capacity.trans hroom)]
    refine ⟨rfl, h.capacity, rfl, ?_, fun other => ?_⟩
    · rw [keys_insert, if_pos hroom]
      exact h.order
    · rw [insert, if_pos hroom]
      exact h.programs other
  · rw [if_neg fun hzero => hroom (h.capacity.symm.trans hzero)]
    -- The oldest keys are evicted from both tables alike.
    rcases evict_spec tables.capacity hstep.distinct hstep.keys with ⟨horder, hlookup⟩
    rw [h.capacity, h.order] at horder hlookup
    refine ⟨rfl, h.capacity, rfl, ?_, fun other => ?_⟩
    -- The order: the newest keys, of which the new one is the last.
    · have hle : cache.keys.length + 1 - cache.capacity ≤ cache.keys.length := by omega
      rw [keys_insert, if_neg hroom, List.rtake, List.length_append, List.length_singleton,
        List.drop_append_of_le_length hle, ← horder, ← h.capacity, ← h.order]
    · rw [find?_insert htidy hroom hnew]
      -- The programs: the new one for its key, and for any other key what has been left by the
      -- eviction.
      by_cases hkey : other = key
      · rw [if_pos hkey, hkey]
        exact Finmap.lookup_insert _
      · rw [if_neg hkey, ← h.programs other, ← hlookup, ← h.capacity, ← h.order]
        exact Finmap.lookup_insert_of_ne _ hkey

/-- A request is answered as by the cache that the tables show, and they show it afterwards. -/
theorem shows_ask (hstep : tables.InStep) (h : tables.Shows cache) (htidy : cache.Tidy)
    (limits : Limits) (request : Request) :
    (tables.ask limits request).1 = (cache.ask limits request).1 ∧
      (tables.ask limits request).2.Shows (cache.ask limits request).2 := by
  rw [ask, h.programs]
  rcases ask_cases limits cache request with
    ⟨kept, hfind, hask⟩ | ⟨hnew, e, hcompile, hask⟩ | ⟨hnew, program, hcompile, hask⟩
  · rw [hask, hfind]
    exact ⟨rfl, h⟩
  · rw [hask, find?_eq_none.mpr hnew, hcompile]
    exact ⟨rfl, h⟩
  · rw [hask, find?_eq_none.mpr hnew, hcompile]
    rcases shows_keep hstep h htidy hnew program with ⟨hanswer, hshows⟩
    exact ⟨congrArg Except.ok hanswer, hshows⟩

/-- The tables too are left as they are by a request that finds its program, or has none. -/
theorem ask_unchanged (h : tables.Shows cache) {request : Request}
    (hold : request.key ∈ cache.keys ∨ (request.compile limits).isOk = false) :
    (tables.ask limits request).2 = tables := by
  rw [ask, h.programs]
  rcases hfind : cache.find? request.key with _ | kept
  · rcases hcompile : request.compile limits with e | program
    · rfl
    · rw [hcompile] at hold
      rcases hold with hmem | hfail
      · exact absurd hmem (find?_eq_none.mp hfind)
      · cases hfail
  · rfl

/-- The tables show the same cache through any calls. -/
theorem shows_after (hstep : tables.InStep) (h : tables.Shows cache) (htidy : cache.Tidy)
    (limits : Limits) (calls : List Call) :
    (tables.after limits calls).Shows (cache.after limits calls) := by
  induction calls generalizing tables cache with
  | nil => exact h
  | cons call calls ih =>
      cases call with
      | get request =>
          exact ih (inStep_ask hstep limits request) (shows_ask hstep h htidy limits request).2
            (htidy.ask limits request)
      | clear => exact ih (inStep_clear tables) h.clear (htidy.call limits .clear)

end Shows

end Tables

/-- A request comes into a cache that has been called before: its key is put in if it is new, its
program can be made and there is room for one. -/
theorem insertions_concat (capacity : Nat) (limits : Limits) (calls : List Call)
    (request : Request) :
    insertions limits capacity (calls ++ [.get request]) =
      if Inserts limits capacity ((ofCapacity capacity).after limits calls).keys request then
        insertions limits capacity calls ++ [request.key]
      else insertions limits capacity calls := by
  rw [keys_after, insertions, List.foldl_append]
  rfl

/-- A request that finds its program, or has none, changes nothing. -/
theorem ask_unchanged {cache : Cache} {limits : Limits} {request : Request}
    (h : request.key ∈ cache.keys ∨ (request.compile limits).isOk = false) :
    (cache.ask limits request).2 = cache := by
  rcases ask_cases limits cache request with
    ⟨kept, -, hask⟩ | ⟨-, e, -, hask⟩ | ⟨hnew, program, hcompile, hask⟩
  · rw [hask]
  · rw [hask]
  · rcases h with hmem | hfail
    · exact absurd hmem hnew
    · rw [hcompile] at hfail
      cases hfail

/-- After any calls, a new cache has the newest keys that have come in since it was cleared last, as
many as there is room for, and the queue of the tables lists just the keys of their map. A key comes
in if it is not there, its program can be made and there is room for one, and otherwise the keys
stay; a request that finds its program, or has none, changes nothing. Two requests with one key
share their program just if the key stays between them. If several callers take turns, the queue and
the map still go together. -/
theorem calls_keepNewest (capacity : Nat) (limits : Limits) (calls : List Call) :
    let cache := (ofCapacity capacity).after limits calls
    let tables := (Tables.ofCapacity capacity).after limits calls
    let inserted := insertions limits capacity calls
    tables.order.Nodup ∧ tables.order.toFinset = tables.programs.keys ∧
    tables.programs.keys.card = min capacity inserted.length ∧
    tables.order = inserted.rtake capacity ∧
    cache.keys = tables.order ∧ cache.size = tables.programs.keys.card ∧
    (∀ key, cache.find? key = tables.programs.lookup key) ∧
    (∀ request, insertions limits capacity (calls ++ [.get request]) =
      if Inserts limits capacity cache.keys request then inserted ++ [request.key]
      else inserted) ∧
    insertions limits capacity (calls ++ [.clear]) = [] ∧
    (∀ request, (tables.ask limits request).1 = (cache.ask limits request).1) ∧
    (∀ request, request.key ∈ cache.keys ∨ (request.compile limits).isOk = false →
      (cache.ask limits request).2 = cache ∧ (tables.ask limits request).2 = tables) ∧
    (∀ first second between, second.key = first.key →
      ((∃ kept, (cache.ask limits first).1 = .ok kept ∧
          (((cache.ask limits first).2.after limits between).ask limits second).1 = .ok kept) ↔
        StaysPresent limits (cache.ask limits first).2 between first.key)) ∧
    ∀ turns : List Tables.Turn, (turns.foldl Tables.turn tables).InStep := by
  intro cache tables inserted
  have htidy : cache.Tidy := tidy_after (tidy_ofCapacity capacity) limits calls
  have hstep : tables.InStep := Tables.inStep_after (Tables.inStep_ofCapacity capacity) limits calls
  have hshows : tables.Shows cache :=
    Tables.shows_after (Tables.inStep_ofCapacity capacity) (Tables.shows_ofCapacity capacity)
      (tidy_ofCapacity capacity) limits calls
  have hkeys : cache.keys = inserted.rtake capacity := keys_after capacity limits calls
  -- The queue repeats no key, so it is as long as the map has keys.
  have hcard : tables.programs.keys.card = tables.order.length := by
    rw [← hstep.keys, List.toFinset_card_of_nodup hstep.distinct]
  have hlength : tables.order.length = min capacity inserted.length := by
    rw [hshows.order, hkeys, length_rtake]
  refine ⟨hstep.distinct, hstep.keys, hcard.trans hlength, hshows.order.trans hkeys,
    hshows.order.symm, ?_, fun key => (hshows.programs key).symm,
    insertions_concat capacity limits calls, ?_,
    fun request => (Tables.shows_ask hstep hshows htidy limits request).1,
    fun request hold => ⟨ask_unchanged hold, ?_⟩, fun first second between => shared_iff htidy,
    Tables.inStep_turns hstep⟩
  · rw [hcard, hshows.order, length_keys]
  · rw [insertions, List.foldl_append]
    rfl
  · exact Tables.ask_unchanged hshows hold

/-- With room for two, a third key takes the place of the first one, which then comes in again; that
it had been asked for once more did not help it. A pattern without a program changes nothing. -/
theorem calls_keepNewest_again :
    let a : Request := ⟨[97], {}, .utf8, .standard⟩
    let b : Request := ⟨[98], {}, .utf8, .standard⟩
    let c : Request := ⟨[99], {}, .utf8, .standard⟩
    let calls : List Call := [.clear, .get a, .get b, .get a, .get c, .get ⟨[40], {}, .utf8, .perl⟩,
      .get a]
    insertions {} 2 calls = [a.key, b.key, c.key, a.key] ∧
    ((ofCapacity 2).after {} calls).keys = [c.key, a.key] ∧
    (((ofCapacity 2).after {} calls).ask {} c).2 = (ofCapacity 2).after {} calls := by
  intro a b c calls
  have hinserted : insertions {} 2 calls = [a.key, b.key, c.key, a.key] := by decide +kernel
  rcases calls_keepNewest 2 {} calls with
    ⟨-, -, -, horder, hkeys, -, -, -, -, -, hunchanged, -, -⟩
  have hnewest : ((ofCapacity 2).after {} calls).keys = [c.key, a.key] := by
    rw [hkeys, horder, hinserted]
    decide
  refine ⟨hinserted, hnewest, (hunchanged c (Or.inl ?_)).1⟩
  rw [hnewest]
  decide

end Cache

end RegexEngine
