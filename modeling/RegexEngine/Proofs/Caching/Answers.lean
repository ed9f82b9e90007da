import RegexEngine.Cache

/-!
# Answers of a Cache

A cache should not be noticed: whatever was asked of it before, it answers with the program that the
pattern is compiled to, or with the error of that. The programs it keeps are known by a key, and a
key is made of everything that a program depends on, but of a dialect it has only the name.

So each program that is kept is that of some request with the key that it is kept under. Every call
preserves this, and an answer is right as long as no other dialect of the same name has been asked
for. Two dialects of the same name are taken for each other: the second one is answered with the
program of the first.

## Main definitions

* `Cache.Request`, `Cache.Call`: What is asked of a cache.
* `Cache.answers`: The answers to a series of calls.
* `Cache.Transparent`: The answers are those of the compiler.
* `Cache.Keeps`: Every program that is kept is that of a request.

## Theorems

* `keeps_get`: What one call is answered, and what it leaves.
* `answers_compile`: A cache is not noticed where dialects are told apart by their names.
* `answers_sameName`: It is noticed where they are not.
-/

namespace RegexEngine

namespace Cache

/-- A pattern to be compiled, and how. -/
structure Request where
  pattern : List UInt8
  options : Options := {}
  encoding : Encoding := .utf8
  dialect : Dialect
  deriving DecidableEq, Repr

namespace Request

/-- What the program of a request is kept under. -/
def key (request : Request) : CacheKey :=
  ⟨request.pattern, request.options, request.dialect.name, request.encoding⟩

/-- The program of a request when there is no cache. -/
def compile (request : Request) (limits : Limits) : Except Error Program :=
  Program.compile request.pattern request.options request.encoding request.dialect limits

end Request

/-- What is done with a cache. -/
inductive Call where
  | get (request : Request)
  | clear
  deriving DecidableEq, Repr

/-- The requests of a series of calls. -/
def requests : List Call → List Request
  | [] => []
  | .get request :: calls => request :: requests calls
  | .clear :: calls => requests calls

/-- The answer to a request, and the cache afterwards. -/
def ask (cache : Cache) (limits : Limits) (request : Request) :
    Except Error CachedProgram × Cache :=
  cache.get request.pattern request.options request.encoding request.dialect limits

/-- The answers to a series of calls. -/
def answers (limits : Limits) : Cache → List Call → List (Except Error CachedProgram)
  | _, [] => []
  | cache, .get request :: calls =>
    (cache.ask limits request).1 :: answers limits (cache.ask limits request).2 calls
  | cache, .clear :: calls => answers limits cache.clear calls

/-- A new cache answers a series of calls as the compiler would. -/
def Transparent (capacity : Nat) (limits : Limits) (calls : List Call) : Prop :=
  (answers limits (ofCapacity capacity) calls).map (Except.map CachedProgram.program) =
    (requests calls).map (Request.compile · limits)

/-- Every program that is kept is that of one of the requests that were made, and is kept under the
key of that request. -/
def Keeps (limits : Limits) (made : Request → Prop) (cache : Cache) : Prop :=
  ∀ key kept, (key, kept) ∈ cache.entries →
    ∃ request, made request ∧ request.key = key ∧ request.compile limits = .ok kept.program

variable {limits : Limits} {made : Request → Prop} {cache : Cache} {request : Request}
  {kept : CachedProgram} {key : CacheKey} {program : Program}

theorem keeps_ofCapacity (capacity : Nat) : (ofCapacity capacity).Keeps limits made := by
  intro key kept hmem
  cases hmem

/-- A cleared cache keeps nothing. -/
theorem keeps_clear (cache : Cache) : cache.clear.Keeps limits made := by
  intro key kept hmem
  cases hmem

/-- A program that is found is kept. -/
theorem mem_of_find? (h : cache.find? key = some kept) : (key, kept) ∈ cache.entries := by
  rcases Option.map_eq_some_iff.mp h with ⟨⟨other, found⟩, hfind, rfl⟩
  have hkey : other = key := by simpa using List.find?_some hfind
  rw [← hkey]
  exact List.mem_of_find?_eq_some hfind

/-- An entry of a cache that keeps another program is the new one or an old one. -/
theorem mem_insert {other : CacheKey} (h : (other, kept) ∈ (cache.insert key program).2.entries) :
    (other = key ∧ kept.program = program) ∨ (other, kept) ∈ cache.entries := by
  simp only [insert] at h
  split at h
  · exact Or.inr h
  -- Old entries are dropped to make place, and the new one is added at the end.
  · rcases List.mem_append.mp h with hold | hnew
    · exact Or.inr (List.mem_of_mem_drop hold)
    · cases List.mem_singleton.mp hnew
      exact Or.inl ⟨rfl, rfl⟩

theorem keeps_insert (h : cache.Keeps limits made) (hmade : made request)
    (hcompile : request.compile limits = .ok program) :
    (cache.insert request.key program).2.Keeps limits made := by
  intro key kept hmem
  rcases mem_insert hmem with ⟨rfl, hprogram⟩ | hold
  · exact ⟨request, hmade, rfl, hprogram ▸ hcompile⟩
  · exact h key kept hold

theorem ask_kept (h : cache.find? request.key = some kept) :
    cache.ask limits request = (.ok kept, cache) := by
  have hfind : cache.find? ⟨request.pattern, request.options, request.dialect.name,
      request.encoding⟩ = some kept := h
  simp only [ask, get, hfind]

/-- A request whose key is not kept is compiled, and its program is kept. -/
theorem ask_missing (h : cache.find? request.key = none) :
    cache.ask limits request = match request.compile limits with
      | .error e => (.error e, cache)
      | .ok program =>
        (.ok (cache.insert request.key program).1, (cache.insert request.key program).2) := by
  have hfind : cache.find? ⟨request.pattern, request.options, request.dialect.name,
      request.encoding⟩ = none := h
  simp only [ask, get, hfind]
  rfl

/-- A request is answered with what a request of the same key is compiled to, and every program that
is kept afterwards is again that of a request. -/
theorem keeps_get (h : cache.Keeps limits made) (hmade : made request) :
    (∃ other, made other ∧ other.key = request.key ∧
      (cache.ask limits request).1.map CachedProgram.program = other.compile limits) ∧
    (cache.ask limits request).2.Keeps limits made := by
  rcases hfind : cache.find? request.key with _ | kept
  · rw [ask_missing hfind]
    -- Nothing is kept under the key, so the request itself is compiled.
    rcases hcompile : request.compile limits with e | program
    · exact ⟨⟨request, hmade, rfl, hcompile.symm⟩, h⟩
    · exact ⟨⟨request, hmade, rfl, hcompile.symm⟩, keeps_insert h hmade hcompile⟩
  · rw [ask_kept hfind]
    rcases h request.key kept (mem_of_find? hfind) with ⟨other, hother, hkey, hcompile⟩
    exact ⟨⟨other, hother, hkey, hcompile.symm⟩, h⟩

/-- Requests with dialects that are told apart by their names have keys of their own. -/
theorem request_eq_of_key {other : Request} (hkey : other.key = request.key)
    (hname : other.dialect.name = request.dialect.name → other.dialect = request.dialect) :
    other = request := by
  cases other
  cases request
  simp only [Request.key, CacheKey.mk.injEq] at hkey
  rcases hkey with ⟨rfl, rfl, hsame, rfl⟩
  rw [Request.mk.injEq]
  exact ⟨rfl, rfl, rfl, hname hsame⟩

/-- The calls that are made of a cache are answered as the compiler would answer them, from every
cache that keeps programs of known requests. -/
theorem answers_keeps {calls : List Call} (h : cache.Keeps limits made)
    (hmade : ∀ request ∈ requests calls, made request)
    (hnames : ∀ request other, made request → made other →
      request.dialect.name = other.dialect.name → request.dialect = other.dialect) :
    (answers limits cache calls).map (Except.map CachedProgram.program) =
      (requests calls).map (Request.compile · limits) := by
  induction calls generalizing cache with
  | nil => rfl
  | cons call calls ih =>
      cases call with
      | clear => exact ih (keeps_clear cache) hmade
      | get request =>
          rw [requests, List.forall_mem_cons] at hmade
          -- The program was perhaps kept for an earlier request, which then was the same one.
          rcases keeps_get h hmade.1 with ⟨⟨other, hother, hkey, hanswer⟩, hkeeps⟩
          obtain rfl : other = request :=
            request_eq_of_key hkey (hnames other request hother hmade.1)
          rw [answers, requests, List.map_cons, List.map_cons, hanswer, ih hkeeps hmade.2]

/-- A cache of any capacity answers every series of calls as the compiler would, programs and errors
alike, if dialects of the same name are the same. -/
theorem answers_compile (capacity : Nat) (limits : Limits) {calls : List Call}
    (hnames : ∀ request ∈ requests calls, ∀ other ∈ requests calls,
      request.dialect.name = other.dialect.name → request.dialect = other.dialect) :
    Transparent capacity limits calls := by
  have hmade : ∀ request ∈ requests calls, request ∈ requests calls := fun _ hmem => hmem
  exact answers_keeps (keeps_ofCapacity capacity) hmade
    fun request other hrequest hother => hnames request hrequest other hother

/-- With both of the dialects that have a name of their own, and a pattern that is asked for again
after it had to make place. -/
theorem answers_compile_twoDialects :
    let calls : List Call := [.get ⟨[97], {}, .utf8, .standard⟩, .get ⟨[97], {}, .utf8, .perl⟩,
      .clear, .get ⟨[97], {}, .ascii, .perl⟩, .get ⟨[97], {}, .utf8, .standard⟩]
    (∀ request ∈ requests calls, ∀ other ∈ requests calls,
      request.dialect.name = other.dialect.name → request.dialect = other.dialect) ∧
    Transparent 1 {} calls := by
  intro calls
  have hnames : ∀ request ∈ requests calls, ∀ other ∈ requests calls,
      request.dialect.name = other.dialect.name → request.dialect = other.dialect := by decide
  exact ⟨hnames, answers_compile 1 {} hnames⟩

/-- With two dialects of the same name, of which only the first one knows of look-ahead, `(?=a)` is
answered with a program though the second one refuses it. -/
theorem answers_sameName :
    ¬ Transparent 4 {} [.get ⟨[40, 63, 61, 97, 41], {}, .utf8, .custom 16 0 {}⟩,
      .get ⟨[40, 63, 61, 97, 41], {}, .utf8, .custom 0 0 {}⟩] := by
  intro h
  -- It is enough to look at which of the two requests have a program.
  have hsame := congrArg (List.map fun answer => answer.toOption.isSome) h
  revert hsame
  decide +kernel

end Cache

end RegexEngine
