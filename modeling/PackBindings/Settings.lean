/-
  PackBindings.Settings — the settings of a run, and where its output goes.

  A package is a row of segments between dots, each a letter or low line and then
  letters, digits and low lines (`isPackage`). The output is a directory whose top
  stands for the parent package: a package below the parent loses the parent's segments
  there, and any other keeps all of its own (`segmentsOf`). The parent package is the
  package without its last segment unless it is given, and it may be empty.
-/

import PackBindings.Files.Name

namespace PackBindings

/-- Where sources are written. -/
inductive Target where
  | directory (path : String)
  | archive (path : String)
  deriving DecidableEq, Repr

namespace Target

def path : Target → String
  | directory p => p
  | archive p => p

/-- A path whose last name has the extension `zip`, in any case, is an archive. -/
def ofPath (path : String) : Target :=
  match (Files.lastName? path.toList).bind Files.extension? with
  | some e => if e.map Char.toLower = "zip".toList then archive path else directory path
  | none => directory path

end Target

def isPackageSegment : List Char → Bool
  | [] => false
  | c :: cs => (c.isAlpha || c == '_') && cs.all fun d => d.isAlphanum || d == '_'

def isPackage (package : String) : Bool :=
  (package.toList.splitOn '.').all isPackageSegment

structure Settings where
  package : String
  parent : String
  target : Target
  /-- How many workers to use; none leaves the choice to the machine. -/
  threads : Nat
  manifestRequired : Bool
  deriving DecidableEq, Repr

namespace Settings

/-- A package without its last segment. -/
def parentOf (package : String) : String :=
  String.ofList (['.'].intercalate (package.toList.splitOn '.').dropLast)

/-- Settings for a package that leave everything else open. -/
def forPackage (package : String) : Settings :=
  ⟨package, parentOf package, .directory "generated", 0, true⟩

/-- The first of the package and the parent that is no package. -/
def invalidPackage? (s : Settings) : Option String :=
  if !isPackage s.package then some s.package
  else if s.parent ≠ "" && !isPackage s.parent then some s.parent
  else none

/-- The part of a package below the parent package, if it lies below it. -/
def below? (s : Settings) (package : List Char) : Option (List Char) :=
  if s.parent = "" then some package else (s.parent.toList ++ ['.']).isPrefixOf? package

/-- The segments that the directory of a package has below the output. -/
def segmentsOf (s : Settings) (package : String) : List String :=
  (((s.below? package.toList).getD package.toList).splitOn '.').map String.ofList

/-- The directory of a package as a path from the output. -/
def directoryOf (s : Settings) (package : String) : String :=
  (s.segmentsOf package).foldl Files.join ""

end Settings

end PackBindings
