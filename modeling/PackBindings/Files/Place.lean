/-
  PackBindings.Files.Place — what is found from a place in a tree.

  A place has the path by which it was reached, as it was spelled, and everything below it
  is looked up by that path and one more name. Spelled paths have a limit, so a long way
  round hides what is there; the listing of a directory that is in reach shows it all the
  same.
-/

import PackBindings.Files.Name
import PackBindings.Files.Tree

namespace PackBindings.Files

structure Place where
  tree : Tree
  /-- From the top of the tree. -/
  path : Path
  /-- As messages show it. -/
  spelled : String

/-- The place at a spelled path; nothing is below it if no directory is there. -/
def Tree.placeAt (t : Tree) (path : String) : Place := ⟨t.base path, [], path⟩

namespace Place

/-- What stands below a place under a name, or at the end of names between slashes. -/
def below (here : Place) (name : String) : Place :=
  ⟨here.tree, here.path ++ (name.toList.splitOn '/').map String.ofList, join here.spelled name⟩

def along (here : Place) (p : Path) : Place := p.foldl below here

def isInReach (here : Place) : Bool := Tree.isInReach here.spelled

def isDirectory (here : Place) : Bool := here.isInReach && here.tree.isDirectory here.path

def isFile (here : Place) : Bool := here.isInReach && here.tree.isFile here.path

/-- What is found at a place that is in reach. -/
def found (here : Place) : Found :=
  if here.isInReach then
    match here.tree.node? here.path with
    | none => .nothing
    | some (.file contents) => .file contents
    | some .directory => .directory (here.tree.subtree here.path)
  else .nothing

end Place

end PackBindings.Files
