/-
  PackBindings.Component.Location — where a component lies below the directory of its
  kind.

  A location is a directory, written with `/` between its segments and empty at the
  top, and a file name without its extension. The full form puts both together with a
  `/`; reading it back splits at the last one.
-/

namespace PackBindings

structure Location where
  directory : String
  stem : String
  deriving DecidableEq, Repr

namespace Location

def full (l : Location) : String :=
  if l.directory = "" then l.stem else l.directory ++ "/" ++ l.stem

/-- The location at a path; all but the last segment is its directory. -/
def ofSegments (segments : List (List Char)) : Location :=
  ⟨String.ofList (['/'].intercalate segments.dropLast), String.ofList (segments.getLastD [])⟩

def ofFull (path : String) : Location := ofSegments (path.toList.splitOn '/')

/-- The directories that hold the file, outermost first. -/
def segments (l : Location) : List String :=
  ((l.directory.toList.splitOn '/').filter (· ≠ [])).map String.ofList

end Location

end PackBindings
