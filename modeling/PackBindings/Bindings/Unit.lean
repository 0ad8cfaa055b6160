/-
  PackBindings.Bindings.Unit — the sources of a namespace and of a family.

  The unit of a namespace has its name and the root of all paths as constants, objects
  for its objectives and storages, and below them its components. What the members of
  its family share is left out: it stands in the unit of the family, together with the
  names of the members.

  No object below the root takes a reserved name or the name of the root, so dotted
  paths start at the root wherever they stand.
-/

import PackBindings.Bindings.Directory
import PackBindings.Datapack

namespace PackBindings.Bindings

open PackBindings.Kotlin

/-! ## Objectives and storages -/

/-- What an objective is called inside its owner. -/
def localName (owner : String) (o : Objective) : String :=
  match (owner.toList ++ ['.']).isPrefixOf? o.name.toList with
  | some rest => String.ofList rest
  | none => o.name

def objectiveMembers (owner : String) (os : List Objective) : List Decl :=
  List.zipWith (fun o name => .property ⟨name, "String", literal o.name, true⟩) os
    ((Scope.mk []).nameAll (os.map fun o => camel (localName owner o)))

def storageName (owner : String) (s : Storage) : String :=
  if s.owner = owner then camel s.name else camel (s.owner ++ "_" ++ s.name)

def storageMembers (imports : Imports) (owner : String) (ss : List Storage) : List Decl :=
  let type := imports.spelled storageArgument
  List.zipWith (fun s name => .property ⟨name, type,
      callText type ["name = " ++ literal s.name, "namespace = " ++ literal s.owner], false⟩) ss
    ((Scope.mk []).nameAll (ss.map (storageName owner)))

/-! ## Units -/

structure Contents where
  /-- The namespace or family that the unit is about. -/
  owner : String
  /-- The constants at the root. -/
  constants : List Property
  objectives : List Objective
  storages : List Storage
  components : List Component

namespace Contents

def uses (u : Contents) : List ClassName :=
  (if u.storages = [] then [] else [storageArgument]) ++ u.components.flatMap usesOf

def imports (u : Contents) : Imports := .ofUses u.uses

/-- The objects for objectives and storages, where there are any. -/
def resourceObjects (u : Contents) : List (String × List Decl) :=
  (if u.objectives = [] then [] else [("Scoreboards", objectiveMembers u.owner u.objectives)]) ++
    if u.storages = [] then [] else [("Storages", storageMembers u.imports u.owner u.storages)]

def rootScope (u : Contents) (reserved : List String) : Scope :=
  ⟨u.constants.map (·.name) ++ "PATH" :: reserved⟩

/-- The names of the resource objects, one after the other. -/
def resourceNames (u : Contents) (reserved : List String) : List String :=
  (u.rootScope reserved).nameAll (u.resourceObjects.map (·.1))

def rootMembers (u : Contents) (reserved : List String) (name : String) : List Decl :=
  let ps := u.components.map placed
  let names := u.resourceNames (name :: reserved)
  members (name :: reserved) (accessorsOf u.imports u.owner) (depthOf ps) name
    ⟨names ++ (u.rootScope (name :: reserved)).taken⟩
    (u.constants.map .property ++
      List.zipWith (fun n (_, ds) => .object n ds) names u.resourceObjects) ps

def source (u : Contents) (reserved : List String) (name package comment : String) : Source :=
  ⟨comment, package, u.imports.names, name, u.rootMembers reserved name⟩

end Contents

/-! ## Namespaces and families -/

def sharesObjective (family : Option Family) (o : Objective) : Bool :=
  family.any (·.objectives.has o)

def sharesStorage (family : Option Family) (s : Storage) : Bool := family.any (·.storages.has s)

def ofNamespace (ns : Namespace) (family : Option Family) : Contents where
  owner := ns.name
  constants := [⟨"NAMESPACE", "String", literal ns.name, true⟩, ⟨"PATH", "String", literal "", true⟩]
  objectives := ns.objectives.items.filter (!sharesObjective family ·)
  storages := ns.storages.items.filter (!sharesStorage family ·)
  components := ns.inOrder

def ofFamily (f : Family) : Contents where
  owner := f.name
  constants := [⟨"PREFIX", "String", literal f.name, true⟩,
    ⟨"NAMESPACES", "List<String>", callText "listOf" (f.members.map literal), false⟩]
  objectives := f.objectives.items
  storages := f.storages.items
  components := []

def namespaceComment (ns : Namespace) : String := "Bindings for namespace " ++ ns.name

def familyComment (f : Family) : String := "Resources shared by the " ++ f.name ++ " namespaces"

end PackBindings.Bindings
