/-
  PackBindings.Pack.Contents — reading the namespaces of a datapack from a tree.

  The components of a kind are the files at any depth below its directory that have its
  extension, in order of their locations; other files do not count. Scripts are read as
  text, and one that is no text makes the reading fail. The namespaces are the
  directories directly below `data`, in order of name.

  Files and directories are listed by name, but a directory is opened and a script is read
  by its path: one that is out of reach makes the reading fail, except that a kind has no
  components where its own directory is out of reach.
-/

import PackBindings.Datapack
import PackBindings.Failure
import PackBindings.Files.Place

namespace PackBindings.Pack

open PackBindings.Files

/-! ## Components -/

/-- A file that counts as a component of some kind. -/
structure ComponentFile where
  location : Location
  /-- From the directory of its kind. -/
  path : Path
  contents : ByteArray

def componentFile? (k : Kind) (path : Path) (contents : ByteArray) : Option ComponentFile :=
  path.getLast?.bind fun name =>
    if extension? name.toList = some k.extension.toList then
      some ⟨⟨"/".intercalate path.dropLast, String.ofList (stem name.toList)⟩, path, contents⟩
    else none

/-- The component files in the directory of a kind, in order. -/
def componentFiles (k : Kind) (dir : Place) : List ComponentFile :=
  ((dir.tree.filesBelow dir.path).filterMap fun (p, contents) =>
    componentFile? k p contents).mergeSort fun f g => f.location.full ≤ g.location.full

/-- The first directory below a directory that is out of reach. -/
def outOfReach? (dir : Place) : Option Place :=
  ((dir.tree.directoriesBelow dir.path).map dir.along).find? (!·.isInReach)

/-- The component files of a kind in the directory of a namespace. -/
def filesOf (here : Place) (k : Kind) : Except Failure (List ComponentFile) :=
  let dir := here.below k.directory
  if !dir.isDirectory then .ok []
  else
    match outOfReach? dir with
    | some there => .error (.ofCause (.unlistable dir.spelled there.spelled))
    | none => .ok (componentFiles k dir)

def textOf? (file : Place) (contents : ByteArray) : Option String :=
  if file.isInReach then String.fromUTF8? contents else none

/-- What a script file in the directory of its kind uses. -/
def readScript (source : String) (dir : Place) (f : ComponentFile) : Except Failure Script.Usage :=
  match textOf? (dir.along f.path) f.contents with
  | some text => .ok (.ofText text source f.location.full)
  | none => .error (.ofCause (.unreadableScript (dir.along f.path).spelled))

structure ReadComponent where
  component : Component
  usage : Option Script.Usage

def readComponent (source : String) (dir : Place) (k : Kind) (f : ComponentFile) :
    Except Failure ReadComponent :=
  match k.role with
  | .script => do
    let usage ← readScript source dir f
    return ⟨.script f.location usage.template, some usage⟩
  | .scriptTag => return ⟨.scriptTag f.location, none⟩
  | .resource => return ⟨.resource k f.location, none⟩

def readKind (here : Place) (name : String) (k : Kind) : Except Failure (List ReadComponent) :=
  (filesOf here k >>= List.mapM (readComponent name (here.below k.directory) k)).mapError
    (.within (.components k name))

/-! ## Namespaces -/

/-- The namespace whose components these are. -/
def namespaceOf (name : String) (cs : List ReadComponent) : Namespace where
  name := name
  components := cs.map (·.component)
  objectives := .ofList (cs.flatMap fun c => (c.usage.map (·.objectives.items)).getD [])
  storages := .ofList (cs.flatMap fun c => (c.usage.map (·.storages.items)).getD [])

/-- The namespace in a directory. -/
def readNamespace (here : Place) (name : String) : Except Failure Namespace := do
  return namespaceOf name (← Kind.all.mapM (readKind here name)).flatten

def namespaceNames (data : Place) : List String :=
  (data.tree.directoriesIn data.path).mergeSort (· ≤ ·)

/-- The datapack in a directory. -/
def readDatapack (root : Place) : Except Failure Datapack := do
  let data := root.below "data"
  if !data.isDirectory then throw (.ofCause (.missingData root.spelled))
  let namespaces ← (namespaceNames data).mapM fun name =>
    (readNamespace (data.below name) name).mapError (.within (.inNamespace name))
  return .ofNamespaces namespaces

end PackBindings.Pack
