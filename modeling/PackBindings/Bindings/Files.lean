/-
  PackBindings.Bindings.Files — the source files of a datapack.

  There is one for each namespace, in order, and after them one for each family. A
  namespace that is a member of a family lies in the package of the family, below the
  package of the settings, under its name as a member. Root objects of one package have
  different names, none of them reserved (`rootNames`): a name is what has been handed
  out in its package before, so packages do not affect one another.
-/

import PackBindings.Bindings.Unit
import PackBindings.Settings

namespace PackBindings.Bindings

open PackBindings.Kotlin

/-- What a source file is about. -/
inductive Subject where
  | member (ns : Namespace) (family : Option Family)
  | shared (f : Family)

namespace Subject

def package (s : Settings) : Subject → String
  | member _ (some f) => s.package ++ "." ++ packageSegment f.name
  | member _ none => s.package
  | shared _ => s.package

/-- The name that the root object gets if it is free. -/
def wish : Subject → String
  | member ns (some _) => pascal (Namespace.memberOf ns.name)
  | member ns none => pascal ns.name
  | shared f => pascal f.name

def suffix : Subject → String
  | member .. => "Namespace"
  | shared _ => "Group"

def source (name package : String) : Subject → Source
  | member ns family =>
    (ofNamespace ns family).source reservedNames name package (namespaceComment ns)
  | shared f => (ofFamily f).source reservedNames name package (familyComment f)

end Subject

def subjects (d : Datapack) : List Subject :=
  (d.namespaces.map fun ns => .member ns (d.familyOf? ns.name)) ++ d.families.map .shared

/-- Names of root objects. `given`: packages and names of the files before. -/
def rootNames (s : Settings) (given : List (String × String)) : List Subject → List String
  | [] => []
  | x :: xs =>
    let package := x.package s
    let taken := (given.filter (·.1 = package)).map (·.2)
    let name := ((Scope.mk (taken ++ reservedNames)).claim x.wish (x.wish ++ x.suffix)).1
    name :: rootNames s ((package, name) :: given) xs

structure SourceFile where
  /-- The directory below the output. -/
  directory : List String
  source : Source

namespace SourceFile

def path (f : SourceFile) : List String := f.directory ++ [f.source.name ++ ".kt"]

def contents (f : SourceFile) : String := f.source.text

end SourceFile

def files (d : Datapack) (s : Settings) : List SourceFile :=
  List.zipWith (fun x name => ⟨s.segmentsOf (x.package s), x.source name (x.package s)⟩)
    (subjects d) (rootNames s [] (subjects d))

end PackBindings.Bindings
