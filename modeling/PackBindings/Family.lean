/-
  PackBindings.Family — namespaces that share what stands before their first dot.

  Two or more namespaces of one family form a group with their members in order of
  name (`Family.ofNamespaces`). A resource that occurs at least twice among the members
  is shared; the copy that is kept is the one of the first member that has it. Storages
  are counted by their location as commands write it, so two storages whose locations
  read the same count as one.
-/

import PackBindings.Namespace

namespace PackBindings

structure Family where
  name : String
  members : List String
  objectives : Inventory Objective
  storages : Inventory Storage

namespace Family

section Shared

variable {α : Type} [Keyed α]

/-- The first of all values with the same `id`. -/
def firstsBy (id : α → String) (xs : List α) : List α :=
  xs.foldl (fun firsts x => if firsts.any (id · == id x) then firsts else firsts ++ [x]) []

/-- What occurs at least twice. -/
def repeated (id : α → String) (xs : List α) : List α :=
  (firstsBy id xs).filter fun x => 1 < xs.countP (id · == id x)

def shared (id : α → String) (inventories : List (Inventory α)) : Inventory α :=
  .ofList (repeated id (inventories.flatMap (·.items)))

end Shared

/-- The family of the given name among namespaces that are sorted by name. -/
def ofMembers (name : String) (members : List Namespace) : Family :=
  ⟨name, members.map (·.name), shared (·.name) (members.map (·.objectives)),
    shared Storage.id (members.map (·.storages))⟩

def membersOf (name : String) (namespaces : List Namespace) : List Namespace :=
  (namespaces.filter (·.family? = some name)).mergeSort (·.name ≤ ·.name)

def ofNamespaces (namespaces : List Namespace) : List Family :=
  (((namespaces.filterMap (·.family?)).eraseDups.mergeSort (· ≤ ·)).map fun name =>
    (name, membersOf name namespaces)).filterMap fun (name, members) =>
      if 1 < members.length then some (ofMembers name members) else none

end Family

end PackBindings
