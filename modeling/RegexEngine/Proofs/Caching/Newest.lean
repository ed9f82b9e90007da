import Mathlib.Data.List.DropRight
import Mathlib.Data.List.Nodup
import RegexEngine.Proofs.Caching.Answers

/-!
# The Newest Programs

A key comes into a cache when its program has been asked for, was not there and could be compiled,
and if there is room for a program at all. Nothing else brings a key in, and being asked for again
does not make a key newer. So it can be told from the calls alone which keys have come in since the
cache was cleared last, and the keys that the cache has are the last ones of these, as many as there
is room for.

While a key stays, it keeps its program, and everyone who asks for it is answered with that one. A
key that had to go comes back with another program, even if it looks the same: serial numbers are
given in order, so the number of a program tells when it was made.

## Main definitions

* `Cache.keys`: The keys of the programs that are kept, oldest first.
* `Cache.after`: A cache after a series of calls.
* `Cache.Inserts`: A request brings its key in.
* `Cache.insertions`: The keys that have come in since the cache was cleared last.
* `Cache.Tidy`: No key is kept twice, and there is room for all of them.
* `Cache.StaysPresent`: A key stays while some calls are made.

## Theorems

* `ask_cases`: What one request does.
* `keys_call`, `keys_after`: A cache keeps the newest keys.
* `find?_insert`: What is found after another program has been put in.
* `tidy_after`: A cache stays tidy.
* `shared_iff`: A program is shared as long as its key stays.
-/

namespace RegexEngine

namespace Cache

/-- The keys of the programs that are kept, oldest first. -/
def keys (cache : Cache) : List CacheKey :=
  cache.entries.map Prod.fst

/-- A cache after a call. -/
def call (limits : Limits) (cache : Cache) : Call → Cache
  | .get request => (cache.ask limits request).2
  | .clear => cache.clear

/-- A cache after a series of calls. -/
def after (limits : Limits) (cache : Cache) (calls : List Call) : Cache :=
  calls.foldl (call limits) cache

/-- A request brings its key into a cache that has some keys: its own is none of them, it has a
program, and there is room for a program. -/
def Inserts (limits : Limits) (capacity : Nat) (keys : List CacheKey) (request : Request) : Prop :=
  request.key ∉ keys ∧ (request.compile limits).isOk = true ∧ capacity ≠ 0

instance (limits : Limits) (capacity : Nat) (keys : List CacheKey) (request : Request) :
    Decidable (Inserts limits capacity keys request) :=
  inferInstanceAs (Decidable (_ ∧ _ ∧ _))

/-- The keys that have come in since the cache was cleared last, after one more call. -/
def inserted (limits : Limits) (capacity : Nat) (keys : List CacheKey) : Call → List CacheKey
  | .get request =>
    if Inserts limits capacity (keys.rtake capacity) request then keys ++ [request.key] else keys
  | .clear => []

/-- The keys that have come into a new cache since it was cleared last, oldest first, as the calls
alone tell it: at any time the cache has the last ones of them, as many as there is room for. -/
def insertions (limits : Limits) (capacity : Nat) (calls : List Call) : List CacheKey :=
  calls.foldl (inserted limits capacity) []

/-- No key is kept twice, there is room for all of them, and the programs have been made before. -/
structure Tidy (cache : Cache) : Prop where
  distinct : cache.keys.Nodup
  room : cache.size ≤ cache.capacity
  serials : ∀ key kept, (key, kept) ∈ cache.entries → kept.serial < cache.compilations

/-- A key is kept, and is so after each of some calls. -/
def StaysPresent (limits : Limits) (cache : Cache) (calls : List Call) (key : CacheKey) : Prop :=
  ∀ first, first <+: calls → key ∈ (cache.after limits first).keys

variable {limits : Limits} {cache : Cache} {request : Request} {key other : CacheKey}
  {kept : CachedProgram} {program : Program} {calls : List Call} {n : Nat}

theorem length_keys (cache : Cache) : cache.keys.length = cache.size :=
  List.length_map _

theorem find?_eq_none : cache.find? key = none ↔ key ∉ cache.keys := by
  rw [find?, Option.map_eq_none_iff, List.find?_eq_none, keys, List.mem_map]
  constructor
  · rintro hnone ⟨entry, hentry, rfl⟩
    exact hnone entry hentry (beq_self_eq_true _)
  · intro hmem entry hentry heq
    exact hmem ⟨entry, hentry, eq_of_beq heq⟩

theorem mem_keys_of_find? (h : cache.find? key = some kept) : key ∈ cache.keys := by
  by_contra hmem
  rw [find?_eq_none.mpr hmem] at h
  cases h

/-- Where no key is kept twice, the program that is kept under a key is found. -/
theorem find?_of_mem (h : cache.keys.Nodup) (hmem : (key, kept) ∈ cache.entries) :
    cache.find? key = some kept := by
  rcases hfind : cache.find? key with _ | found
  · exact absurd (List.mem_map.mpr ⟨_, hmem, rfl⟩) (find?_eq_none.mp hfind)
  · have hsame := List.inj_on_of_nodup_map h (mem_of_find? hfind) hmem rfl
    rw [(Prod.mk.inj hsame).2]

/-- A request finds its program, or has none, or puts it in. -/
theorem ask_cases (limits : Limits) (cache : Cache) (request : Request) :
    (∃ kept, cache.find? request.key = some kept ∧
      cache.ask limits request = (.ok kept, cache)) ∨
    (request.key ∉ cache.keys ∧ ∃ e, request.compile limits = .error e ∧
      cache.ask limits request = (.error e, cache)) ∨
    request.key ∉ cache.keys ∧ ∃ program, request.compile limits = .ok program ∧
      cache.ask limits request =
        (.ok ⟨program, cache.compilations⟩, (cache.insert request.key program).2) := by
  rcases hfind : cache.find? request.key with _ | kept
  · have hnew := find?_eq_none.mp hfind
    rcases hcompile : request.compile limits with e | program
    · refine Or.inr (Or.inl ⟨hnew, e, rfl, ?_⟩)
      rw [ask_missing hfind, hcompile]
    · refine Or.inr (Or.inr ⟨hnew, program, rfl, ?_⟩)
      rw [ask_missing hfind, hcompile]
      rfl
  · exact Or.inl ⟨kept, rfl, ask_kept hfind⟩

/-- An entry of a cache that keeps another program is an old one or has the next number. -/
theorem mem_insert_serial (h : (other, kept) ∈ (cache.insert key program).2.entries) :
    (other, kept) ∈ cache.entries ∨ kept.serial = cache.compilations := by
  simp only [insert] at h
  split at h
  · exact Or.inl h
  · rcases List.mem_append.mp h with hold | hnew
    · exact Or.inl (List.mem_of_mem_drop hold)
    · cases List.mem_singleton.mp hnew
      exact Or.inr rfl

section Newest

/-- The last elements of a list and one more, without those that are too many. -/
theorem rtake_append_singleton {α : Type} (xs : List α) (x : α) (n : Nat) :
    (xs.rtake n ++ [x]).rtake n = (xs ++ [x]).rtake n := by
  cases n with
  | zero => rw [List.rtake_zero, List.rtake_zero]
  | succ n =>
      rw [List.rtake_concat_succ, List.rtake_concat_succ, List.rtake_eq_reverse_take_reverse,
        List.rtake_eq_reverse_take_reverse, List.reverse_reverse, List.take_take,
        Nat.min_eq_left (Nat.le_succ n), ← List.rtake_eq_reverse_take_reverse]

/-- The new key is the newest, and the oldest one makes place if there is no room. -/
theorem keys_insert (cache : Cache) (key : CacheKey) (program : Program) :
    (cache.insert key program).2.keys =
      if cache.capacity = 0 then cache.keys else (cache.keys ++ [key]).rtake cache.capacity := by
  rw [insert, keys]
  split
  · rfl
  · rename_i hroom
    -- With room for one program at least, only old keys have to go.
    have hle : cache.size + 1 - cache.capacity ≤ cache.keys.length := by
      rw [length_keys]
      omega
    rw [List.rtake, List.length_append, length_keys, List.length_singleton,
      List.drop_append_of_le_length hle, List.map_append, makeRoom, List.map_drop]
    rfl

theorem capacity_ask (limits : Limits) (cache : Cache) (request : Request) :
    (cache.ask limits request).2.capacity = cache.capacity := by
  rcases ask_cases limits cache request with
    ⟨kept, -, hask⟩ | ⟨-, e, -, hask⟩ | ⟨-, program, -, hask⟩ <;> rw [hask]
  rfl

theorem capacity_call (limits : Limits) (cache : Cache) (call : Call) :
    (cache.call limits call).capacity = cache.capacity := by
  cases call with
  | get request => exact capacity_ask limits cache request
  | clear => rfl

/-- One request brings one key in, or leaves the keys as they are. -/
theorem keys_ask (limits : Limits) (cache : Cache) (request : Request) :
    (cache.ask limits request).2.keys =
      if Inserts limits cache.capacity cache.keys request then
        (cache.keys ++ [request.key]).rtake cache.capacity
      else cache.keys := by
  rcases ask_cases limits cache request with
    ⟨kept, hfind, hask⟩ | ⟨-, e, hcompile, hask⟩ | ⟨hnew, program, hcompile, hask⟩
  · rw [hask, if_neg fun h => h.1 (mem_keys_of_find? hfind)]
  · rw [hask, if_neg]
    rintro ⟨-, hok, -⟩
    rw [hcompile] at hok
    cases hok
  · rw [hask, keys_insert]
    by_cases hroom : cache.capacity = 0
    · rw [if_pos hroom, if_neg fun h => h.2.2 hroom]
    · have hok : (request.compile limits).isOk = true := by rw [hcompile]; rfl
      rw [if_neg hroom, if_pos ⟨hnew, hok, hroom⟩]

/-- If a cache has the newest of some keys, it has the newest of them after another call. -/
theorem keys_call {keys : List CacheKey} (h : cache.keys = keys.rtake cache.capacity)
    (call : Call) :
    (cache.call limits call).keys =
      (inserted limits cache.capacity keys call).rtake cache.capacity := by
  cases call with
  | clear => exact (List.rtake_nil _).symm
  | get request =>
      rw [Cache.call, keys_ask, inserted, h]
      split
      · -- The keys that had gone before are too old to come in again by this.
        exact rtake_append_singleton keys request.key cache.capacity
      · rfl

/-- The keys of a new cache, after any calls, are the last ones of those that have come in. -/
theorem keys_after (capacity : Nat) (limits : Limits) (calls : List Call) :
    ((ofCapacity capacity).after limits calls).keys =
      (insertions limits capacity calls).rtake capacity := by
  -- The keys that have come in are collected along the calls, so any cache has to be considered.
  suffices hany : ∀ (cache : Cache) (keys : List CacheKey), cache.capacity = capacity →
      cache.keys = keys.rtake capacity → (cache.after limits calls).keys =
        (calls.foldl (inserted limits capacity) keys).rtake capacity from
    hany (ofCapacity capacity) [] rfl (List.rtake_nil _).symm
  induction calls with
  | nil => exact fun _ _ _ h => h
  | cons call calls ih =>
      rintro cache keys rfl h
      exact ih _ _ (capacity_call limits cache call) (keys_call h call)

end Newest

section Tidy

theorem tidy_ofCapacity (capacity : Nat) : (ofCapacity capacity).Tidy :=
  ⟨List.nodup_nil, Nat.zero_le _, fun _ _ h => absurd h List.not_mem_nil⟩

theorem length_rtake {α : Type} (xs : List α) (n : Nat) :
    (xs.rtake n).length = min n xs.length := by
  rw [List.rtake, List.length_drop]
  omega

theorem rtake_sublist {α : Type} (xs : List α) (n : Nat) : (xs.rtake n).Sublist xs :=
  List.drop_sublist _ _

theorem Tidy.insert (h : cache.Tidy) (hnew : key ∉ cache.keys) (program : Program) :
    (cache.insert key program).2.Tidy := by
  have hkeys := keys_insert cache key program
  refine ⟨?_, ?_, fun other kept hmem => ?_⟩
  · rw [hkeys]
    split
    · exact h.distinct
    · refine List.Nodup.sublist (rtake_sublist _ _) ?_
      exact List.Nodup.append h.distinct (List.nodup_singleton _) (List.disjoint_singleton.mpr hnew)
  · rw [← length_keys, hkeys]
    split
    · exact (length_keys cache).symm ▸ h.room
    · rw [length_rtake]
      exact Nat.min_le_left _ _
  · change kept.serial < cache.compilations + 1
    rcases mem_insert_serial hmem with hold | hmade
    · exact Nat.lt_succ_of_lt (h.serials other kept hold)
    · exact Nat.lt_succ_of_le (Nat.le_of_eq hmade)

/-- What is found after another program has been put in. -/
theorem find?_insert (h : cache.Tidy) (hroom : cache.capacity ≠ 0)
    (hnew : key ∉ cache.keys) (program : Program) (other : CacheKey) :
    (cache.insert key program).2.find? other =
      if other = key then some ⟨program, cache.compilations⟩
      else if other ∈ cache.keys.drop (cache.keys.length + 1 - cache.capacity) then
        cache.find? other
      else none := by
  have hdistinct := (h.insert hnew program).distinct
  have hentries : (cache.insert key program).2.entries =
      cache.entries.drop (cache.keys.length + 1 - cache.capacity) ++
        [(key, ⟨program, cache.compilations⟩)] := by
    rw [length_keys, insert, if_neg hroom, makeRoom]
  by_cases hkey : other = key
  · rw [if_pos hkey, hkey]
    refine find?_of_mem hdistinct ?_
    rw [hentries]
    exact List.mem_append_right _ (List.mem_singleton_self _)
  rw [if_neg hkey, keys, ← List.map_drop]
  split
  · rename_i hmem
    rcases List.mem_map.mp hmem with ⟨⟨_, kept⟩, hentry, rfl⟩
    -- The same entry is found in both, since no key is kept twice in either.
    rw [find?_of_mem h.distinct (List.mem_of_mem_drop hentry)]
    refine find?_of_mem hdistinct ?_
    rw [hentries]
    exact List.mem_append_left _ hentry
  · rename_i hmem
    rw [find?_eq_none, keys, hentries, List.map_append, List.mem_append]
    rintro (hold | hmade)
    · exact hmem hold
    · exact hkey (List.mem_singleton.mp hmade)

theorem Tidy.ask (h : cache.Tidy) (limits : Limits) (request : Request) :
    (cache.ask limits request).2.Tidy := by
  rcases ask_cases limits cache request with
    ⟨kept, -, hask⟩ | ⟨-, e, -, hask⟩ | ⟨hnew, program, -, hask⟩
  · rw [hask]
    exact h
  · rw [hask]
    exact h
  · rw [hask]
    exact h.insert hnew program

theorem Tidy.call (h : cache.Tidy) (limits : Limits) (call : Call) :
    (cache.call limits call).Tidy := by
  cases call with
  | get request => exact h.ask limits request
  | clear => exact ⟨List.nodup_nil, Nat.zero_le _, fun _ _ h => absurd h List.not_mem_nil⟩

/-- A tidy cache stays tidy. -/
theorem tidy_after (h : cache.Tidy) (limits : Limits) (calls : List Call) :
    (cache.after limits calls).Tidy := by
  induction calls generalizing cache with
  | nil => exact h
  | cons call calls ih => exact ih (h.call limits call)

end Tidy

section Shared

theorem StaysPresent.now (h : StaysPresent limits cache calls key) : key ∈ cache.keys :=
  h [] List.nil_prefix

theorem StaysPresent.next {call : Call} (h : StaysPresent limits cache (call :: calls) key) :
    StaysPresent limits (cache.call limits call) calls key :=
  fun first hfirst => h (call :: first) (List.cons_prefix_cons.mpr ⟨rfl, hfirst⟩)

/-- A key that stays during a call keeps its program. -/
theorem find?_call (h : cache.Tidy) (hfind : cache.find? key = some kept) {call : Call}
    (hstays : key ∈ (cache.call limits call).keys) :
    (cache.call limits call).find? key = some kept := by
  cases call with
  | clear => exact absurd hstays List.not_mem_nil
  | get request =>
      have htidy := h.ask limits request
      rcases List.mem_map.mp hstays with ⟨⟨_, found⟩, hmem, rfl⟩
      rw [Cache.call] at hmem ⊢
      rcases ask_cases limits cache request with
        ⟨found, -, hask⟩ | ⟨-, e, -, hask⟩ | ⟨hnew, program, -, hask⟩
      · rw [hask]
        exact hfind
      · rw [hask]
        exact hfind
      · -- The key is not the new one, so that its entry is an old one.
        rw [find?_of_mem htidy.distinct hmem]
        rw [hask] at hmem
        rcases mem_insert hmem with ⟨rfl, -⟩ | hold
        · exact absurd (mem_keys_of_find? hfind) hnew
        · rw [← hfind, find?_of_mem h.distinct hold]

/-- A key that stays during some calls keeps its program. -/
theorem find?_after (h : cache.Tidy) (hfind : cache.find? key = some kept)
    (hstays : StaysPresent limits cache calls key) :
    (cache.after limits calls).find? key = some kept := by
  induction calls generalizing cache with
  | nil => exact hfind
  | cons call calls ih =>
      exact ih (h.call limits call) (find?_call h hfind hstays.next.now) hstays.next

theorem compilations_call_le (limits : Limits) (cache : Cache) (call : Call) :
    cache.compilations ≤ (cache.call limits call).compilations := by
  cases call with
  | clear => exact Nat.le_refl _
  | get request =>
      rw [Cache.call]
      rcases ask_cases limits cache request with
        ⟨kept, -, hask⟩ | ⟨-, e, -, hask⟩ | ⟨-, program, -, hask⟩ <;> rw [hask]
      exact Nat.le_succ _

theorem compilations_after_le (limits : Limits) (cache : Cache) (calls : List Call) :
    cache.compilations ≤ (cache.after limits calls).compilations := by
  induction calls generalizing cache with
  | nil => exact Nat.le_refl _
  | cons call calls ih => exact Nat.le_trans (compilations_call_le limits cache call) (ih _)

/-- The programs that are kept under a key have been made after the first `n` compilations. -/
def MadeSince (n : Nat) (key : CacheKey) (cache : Cache) : Prop :=
  ∀ kept, (key, kept) ∈ cache.entries → n ≤ kept.serial

theorem MadeSince.call (h : MadeSince n key cache) (hn : n ≤ cache.compilations) (limits : Limits)
    (call : Call) : MadeSince n key (cache.call limits call) := by
  intro kept hmem
  cases call with
  | clear => exact absurd hmem List.not_mem_nil
  | get request =>
      rw [Cache.call] at hmem
      rcases ask_cases limits cache request with
        ⟨found, -, hask⟩ | ⟨-, e, -, hask⟩ | ⟨-, program, -, hask⟩ <;> rw [hask] at hmem
      · exact h kept hmem
      · exact h kept hmem
      · rcases mem_insert_serial hmem with hold | hmade
        · exact h kept hold
        · exact hmade ▸ hn

theorem MadeSince.after (h : MadeSince n key cache) (hn : n ≤ cache.compilations) (limits : Limits)
    (calls : List Call) : MadeSince n key (cache.after limits calls) := by
  induction calls generalizing cache with
  | nil => exact h
  | cons call calls ih =>
      exact ih (h.call hn limits call) (Nat.le_trans hn (compilations_call_le limits cache call))

/-- A request is answered with a program of its key that is kept, or with the next one. -/
theorem MadeSince.answer (h : MadeSince n request.key cache) (hn : n ≤ cache.compilations)
    (hanswer : (cache.ask limits request).1 = .ok kept) : n ≤ kept.serial := by
  rcases ask_cases limits cache request with
    ⟨found, hfind, hask⟩ | ⟨-, e, -, hask⟩ | ⟨-, program, -, hask⟩ <;>
    rw [hask] at hanswer <;> cases hanswer
  · exact h kept (mem_of_find? hfind)
  · exact hn

/-- The program that a request is answered with has been made before. -/
theorem serial_lt_of_answer (h : cache.Tidy) (hanswer : (cache.ask limits request).1 = .ok kept) :
    kept.serial < (cache.ask limits request).2.compilations := by
  rcases ask_cases limits cache request with
    ⟨found, hfind, hask⟩ | ⟨-, e, -, hask⟩ | ⟨-, program, -, hask⟩ <;>
    rw [hask] at hanswer ⊢ <;> cases hanswer
  · exact h.serials request.key kept (mem_of_find? hfind)
  · exact Nat.lt_succ_self _

/-- If the key is kept after a request, the answer to the request is what is kept. -/
theorem find?_of_answer (h : cache.Tidy)
    (hmem : request.key ∈ (cache.ask limits request).2.keys) :
    ∃ kept, (cache.ask limits request).1 = .ok kept ∧
      (cache.ask limits request).2.find? request.key = some kept := by
  rcases ask_cases limits cache request with
    ⟨kept, hfind, hask⟩ | ⟨hnew, e, -, hask⟩ | ⟨hnew, program, -, hask⟩ <;> rw [hask] at hmem ⊢
  · exact ⟨kept, rfl, hfind⟩
  · exact absurd hmem hnew
  · by_cases hroom : cache.capacity = 0
    · rw [keys_insert, if_pos hroom] at hmem
      exact absurd hmem hnew
    · refine ⟨_, rfl, ?_⟩
      rw [find?_insert h hroom hnew, if_pos rfl]

/-- Two requests with the same key are answered with one and the same program just if the key stays
between them. -/
theorem shared_iff (h : cache.Tidy) {second : Request} (hkey : second.key = request.key) :
    (∃ kept, (cache.ask limits request).1 = .ok kept ∧
      (((cache.ask limits request).2.after limits calls).ask limits second).1 = .ok kept) ↔
    StaysPresent limits (cache.ask limits request).2 calls request.key := by
  have htidy := h.ask limits request
  constructor
  · rintro ⟨kept, hfirst, hsecond⟩ first ⟨rest, rfl⟩
    by_contra hgone
    -- A program that is made after the key has gone has a greater number than the one before.
    have hbefore := serial_lt_of_answer h hfirst
    have hgrows := compilations_after_le limits (cache.ask limits request).2 first
    have hsince : MadeSince (cache.ask limits request).2.compilations second.key
        ((cache.ask limits request).2.after limits first) := by
      intro found hmem
      rw [hkey] at hmem
      exact absurd (List.mem_map.mpr ⟨_, hmem, rfl⟩) hgone
    rw [Cache.after, List.foldl_append] at hsecond
    have hafter := (hsince.after hgrows limits rest).answer
      (Nat.le_trans hgrows (compilations_after_le limits _ rest)) hsecond
    omega
  · intro hstays
    rcases find?_of_answer h hstays.now with ⟨kept, hanswer, hfind⟩
    have hlater := find?_after htidy hfind hstays
    rw [← hkey] at hlater
    exact ⟨kept, hanswer, by rw [ask_kept hlater]⟩

end Shared

end Cache

end RegexEngine
