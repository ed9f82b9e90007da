import RegexEngine.Error.Basic
import RegexEngine.Search.Region

/-!
# Groups by Name

A name may be given to several groups. Asked for the group that a name means after a match, a
program answers with the last of them that took part, as a back-reference to the name would choose
it; without a match, or if none took part, with the last one declared.

## Main definitions

* `Program.groupsNamed`: the groups of a name.
* `Program.groupMeant`: the group that a name means after a match.
-/

namespace RegexEngine

namespace Program

/-- The numbers of the groups that have a name. -/
def groupsNamed (program : Program) (name : String) : Except Error (List Nat) :=
  match program.names.find? name.toUTF8.toList with
  | some groups => .ok groups
  | none => .error (.undefinedName name)

/-- The last of some groups that took part in the match of a region. -/
def lastTaken (groups : List Nat) (region : Region) : Option Nat :=
  groups.reverse.find? fun n => (region.slot n).isSome

/-- The group that a name means, after the match of a region if there is one. -/
def groupMeant (program : Program) (name : String) (region : Option Region) :
    Except Error Nat := do
  let groups ← program.groupsNamed name
  match (region.bind (lastTaken groups)).or groups.getLast? with
  | some n => .ok n
  | none => .error (.undefinedName name)

end Program

end RegexEngine
