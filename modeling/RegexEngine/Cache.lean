import RegexEngine.Program.Compile

/-!
# A Cache of Programs

A cache keeps the programs of the patterns that were asked for last, up to a number of them. A
pattern is found again by its text, its options, the name of its dialect, and its encoding. When
there is no room for another program, the oldest one makes place. A cache without any room keeps
nothing.

Every compilation gets a serial number, so that two answers can be told to be one and the same
program.

## Main definitions

* `Cache`: the caches.
* `Cache.get`: the program of a pattern, compiled if it is not kept.
* `Cache.clear`: forgets all programs.

## Theorems

* `size_clear`: a cleared cache is empty.
-/

namespace RegexEngine

/-- What a program is found again by. -/
structure CacheKey where
  pattern : List UInt8
  options : Options
  dialectName : String
  encoding : Encoding
  deriving DecidableEq, Repr

/-- A program with the serial number of its compilation. -/
structure CachedProgram where
  program : Program
  serial : Nat
  deriving Repr

/-- A cache of programs. -/
structure Cache where
  /-- How many programs are kept at most. -/
  capacity : Nat
  /-- The programs, oldest first. -/
  entries : List (CacheKey × CachedProgram) := []
  /-- How many compilations there have been. -/
  compilations : Nat := 0
  deriving Repr

namespace Cache

/-- How many programs a cache keeps when no number is asked for. -/
def defaultCapacity : Nat := 256

/-- An empty cache. -/
def ofCapacity (capacity : Nat) : Cache :=
  { capacity := capacity }

/-- How many programs are kept. -/
def size (cache : Cache) : Nat :=
  cache.entries.length

/-- Whether no program is kept. -/
def isEmpty (cache : Cache) : Bool :=
  cache.entries.isEmpty

/-- Forgets all programs. -/
def clear (cache : Cache) : Cache :=
  { cache with entries := [] }

/-- The program that is kept for a key. -/
def find? (cache : Cache) (key : CacheKey) : Option CachedProgram :=
  (cache.entries.find? fun entry => entry.1 == key).map Prod.snd

/-- The newest entries, one less than there is room for. -/
def makeRoom (cache : Cache) : List (CacheKey × CachedProgram) :=
  cache.entries.drop (cache.size + 1 - cache.capacity)

/-- Keeps a program that has just been compiled. -/
def insert (cache : Cache) (key : CacheKey) (program : Program) : CachedProgram × Cache :=
  let made : CachedProgram := ⟨program, cache.compilations⟩
  -- The program is handed out in any case, and kept only where there is room.
  let entries := if cache.capacity = 0 then cache.entries else cache.makeRoom ++ [(key, made)]
  (made, { cache with entries := entries, compilations := cache.compilations + 1 })

/-- The program of a pattern. It is compiled if it is not kept; a pattern without a program leaves
the cache as it is. -/
def get (cache : Cache) (pattern : List UInt8) (options : Options) (enc : Encoding)
    (dialect : Dialect) (limits : Limits) : Except Error CachedProgram × Cache :=
  let key : CacheKey := ⟨pattern, options, dialect.name, enc⟩
  match cache.find? key with
  | some made => (.ok made, cache)
  | none =>
    match Program.compile pattern options enc dialect limits with
    | .error e => (.error e, cache)
    | .ok program =>
      let (made, cache) := cache.insert key program
      (.ok made, cache)

@[simp] theorem size_clear (cache : Cache) : cache.clear.size = 0 := rfl

end Cache

end RegexEngine
