/-
  PackBindings.Bindings.Directory — nested objects for nested directories.

  The components of a unit are laid out as their directories are: each directory is an
  object with the accessors of its own components, and inside it the objects of its
  subdirectories, in order of segment. Every object has a constant `PATH`, its parent's
  path and its own segment, by which accessors name their files.

  Names are handed out one directory at a time, in the order in which components come
  up (`slots`): a component of the directory itself claims an accessor, and the first
  component of a subdirectory claims the name of its object. Each directory has a scope
  of its own, so what is handed out in one has no effect on any other.
-/

import PackBindings.Bindings.Accessor

namespace PackBindings.Bindings

open PackBindings.Kotlin

/-- A component and the directories that are left above it. -/
abbrev Placed := List String × Component

def placed (c : Component) : Placed := (c.location.segments, c)

/-- What a directory hands a name to. -/
inductive Slot where
  | accessor (name : String) (c : Component)
  | child (segment name : String)

/-- The name that is tried where the file name alone is taken. -/
def secondName (c : Component) : String := camel (c.location.stem ++ "_" ++ c.kind.shape.suffix)

/-- The slots of a directory. `known`: the segments that have an object. -/
def slots (scope : Scope) (known : List String) : List Placed → List Slot
  | [] => []
  | ([], c) :: rest =>
    let (name, scope) := scope.claim (camel c.location.stem) (secondName c)
    .accessor name c :: slots scope known rest
  | (segment :: _, _) :: rest =>
    if known.contains segment then slots scope known rest
    else
      let (name, scope) := scope.claimNumbered (pascal segment)
      .child segment name :: slots scope (segment :: known) rest

/-- The subdirectories, in order of segment, with the names of their objects. -/
def children (ss : List Slot) : List (String × String) :=
  (ss.filterMap fun
    | .child segment name => some (segment, name)
    | .accessor .. => none).mergeSort (·.1 ≤ ·.1)

/-- The components below a subdirectory. -/
def below (segment : String) (ps : List Placed) : List Placed :=
  ps.filterMap fun
    | (s :: rest, c) => if s = segment then some (rest, c) else none
    | ([], _) => none

/-- The path of a subdirectory, from the object of its parent. -/
def pathConstant (parent segment : String) : Decl :=
  .property ⟨"PATH", "String", parent ++ ".PATH + " ++ literal (segment ++ "/"), true⟩

/-- The names taken in a nested object before anything is laid out in it. -/
def nestedScope (reserved : List String) : Scope := ⟨"PATH" :: reserved⟩

/-- The members of a directory: its own ones `first`, its accessors, and its subdirectories.
`path` is the dotted name of its object; `depth` bounds the directories below it. -/
def members (reserved : List String) (declare : Component → String → List Decl) :
    (depth : Nat) → (path : String) → Scope → (first : List Decl) → List Placed → List Decl
  | depth, path, scope, first, ps =>
    let ss := slots scope [] ps
    let accessors := ss.flatMap fun
      | .accessor name c => declare c name
      | .child .. => []
    let objects := match depth with
      | 0 => []
      | d + 1 => (children ss).map fun (segment, name) =>
        .object name (members reserved declare d (path ++ "." ++ name) (nestedScope reserved)
          [pathConstant path segment] (below segment ps))
    Decl.byRank (first ++ accessors ++ objects)

def depthOf (ps : List Placed) : Nat := (ps.map (·.1.length)).foldr max 0

end PackBindings.Bindings
