/-
  PackBindings.Pack.Source — opening a datapack.

  A datapack is read from a directory, or from an archive that is unpacked first. In an
  archive the pack is at the top or in the only thing at the top, a directory
  (`packRoot?`); it is recognised by a `data` directory or a `pack.mcmeta` file. Either
  way an opened pack has a `data` directory, and a manifest if one is asked for. A manifest
  that is there is read, and a run goes on if it cannot be.

  Anything else beside a directory at the top of an archive hides the pack in it.
-/

import PackBindings.Archive.Unpack
import PackBindings.Failure
import PackBindings.Files.Place
import PackBindings.Manifest

namespace PackBindings.Pack

open PackBindings.Files

inductive Source where
  | directory (path : String)
  | archive (path : String)
  deriving DecidableEq, Repr

def Source.path : Source → String
  | directory p => p
  | archive p => p

/-- A datapack that is ready to be read. -/
structure Opened where
  root : Place
  unpacked : Bool
  /-- What its manifest says, or why that cannot be read. -/
  manifest : Option (Except Failure Manifest)

def manifestName : String := "pack.mcmeta"

def looksLikePack (root : Place) : Bool :=
  (root.below "data").isDirectory || (root.below manifestName).isFile

/-- Where the pack is, below the top of what was unpacked. -/
def packRoot? (top : Place) : Option Place :=
  if looksLikePack top then some top
  else
    match top.tree.namesIn top.path with
    | [only] =>
      let root := top.below only
      if root.isDirectory && looksLikePack root then some root else none
    | _ => none

/-- Messages show what is unpacked below a name of its own. -/
def unpackedName : String := "<unpacked>"

namespace Source

/-- The directory that a source stands for, given what is found at its path. -/
def resolve : Source → Found → Except Failure Opened
  | source, .nothing => .error (.ofCause (.missingInput source.path))
  | directory p, found => .ok ⟨⟨found.tree, [], p⟩, false, none⟩
  | archive p, .directory _ => .error (.ofCause (.unreadableArchive p))
  | archive p, .file contents =>
    match Archive.unpack? contents with
    | none => .error (.ofCause (.unreadableArchive p))
    | some t =>
      match packRoot? ⟨t, [], unpackedName⟩ with
      | none => .error (.ofCause (.noPack p))
      | some root => .ok ⟨root, true, none⟩

end Source

/-- A pack that has what it needs, with its manifest read. -/
def Opened.check (o : Opened) (manifestRequired : Bool) : Except Failure Opened :=
  let manifest := o.root.below manifestName
  if !(o.root.below "data").isDirectory then .error (.ofCause (.missingData o.root.spelled))
  else if !manifest.isFile then
    if manifestRequired then .error (.ofCause (.missingManifest o.root.spelled)) else .ok o
  else .ok { o with manifest := some (Manifest.read manifest.found) }

def Source.open (source : Source) (found : Found) (manifestRequired : Bool) :
    Except Failure Opened := do
  (← source.resolve found).check manifestRequired

end PackBindings.Pack
