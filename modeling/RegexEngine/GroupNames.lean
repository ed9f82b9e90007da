/-!
# Group Names

The names of the groups of a pattern, in the order of their first declaration. Each name comes with
the numbers of the groups that were given it. A name is kept as its bytes.

## Main definitions

* `GroupNames`: the names with their group numbers.
* `GroupNames.insert?`: gives a name to one more group.
* `GroupNames.find?`: the numbers of a name.
-/

namespace RegexEngine

/-- A name and the numbers of its groups, in the order they were given it. -/
structure GroupName where
  name : List UInt8
  groups : List Nat
  deriving DecidableEq, Repr

/-- The names of the groups of a pattern, in the order of their first declaration. -/
structure GroupNames where
  entries : List GroupName := []
  deriving DecidableEq, Repr, Inhabited

namespace GroupNames

/-- How many names there are. -/
def size (names : GroupNames) : Nat :=
  names.entries.length

/-- The numbers of the groups that have a name. -/
def find? (names : GroupNames) (name : List UInt8) : Option (List Nat) :=
  (names.entries.find? fun entry => entry.name == name).map GroupName.groups

/-- Gives a name to one more group. A name that another group has already is refused unless names
may be shared. -/
def insert? (names : GroupNames) (name : List UInt8) (group : Nat) (shared : Bool) :
    Option GroupNames :=
  match names.find? name with
  | none => some ⟨names.entries ++ [⟨name, [group]⟩]⟩
  | some _ =>
    if shared then
      some ⟨names.entries.map fun entry =>
        if entry.name == name then { entry with groups := entry.groups ++ [group] } else entry⟩
    else none

end GroupNames

end RegexEngine
