/-
  PackBindings.Files.Name — file names and paths as they are spelled.

  The extension of a file name is what follows its last dot, unless nothing stands
  before that dot; the stem is what stands before. A dot alone in front does not count,
  so `.json` has no extension, while `a.` has an empty one. A path is a row of names
  between slashes; empty names and single dots say nothing.
-/

namespace PackBindings.Files

/-- The last dot of a name cuts it into stem and extension. -/
def stemAndExtension? (name : List Char) : Option (List Char × List Char) :=
  if name = ['.', '.'] then none
  else
    match (name.splitOn '.').dropLast, (name.splitOn '.').getLast? with
    | [], _ => none
    | [[]], _ => none
    | parts, some e => some (['.'].intercalate parts, e)
    | _, none => none

def extension? (name : List Char) : Option (List Char) := (stemAndExtension? name).map (·.2)

def stem (name : List Char) : List Char := ((stemAndExtension? name).map (·.1)).getD name

example : extension? ".json".toList = none := by decide

/-- The names that a path goes through. -/
def names (path : List Char) : List (List Char) :=
  (path.splitOn '/').filter fun n => n ≠ [] && n ≠ ['.']

/-- The last name of a path, if it ends in one. -/
def lastName? (path : List Char) : Option (List Char) :=
  (names path).getLast?.filter (· ≠ ['.', '.'])

/-- A path with a name put after it. An empty name leaves the slash that it would stand behind,
and one that starts with a slash begins a path of its own. -/
def join (path name : String) : String :=
  if path = "" || name.toList.head? = some '/' then name
  else if path.toList.getLast? = some '/' then path ++ name
  else path ++ "/" ++ name

end PackBindings.Files
