/-
  PackBindings.Generate — from a datapack to written source files.

  A run opens its source, reads the pack, and writes one file for each unit. Nothing is
  written unless everything before succeeds.
-/

import PackBindings.Output.Action
import PackBindings.Pack.Contents
import PackBindings.Pack.Source

namespace PackBindings

open PackBindings.Files PackBindings.Pack

structure Summary where
  namespaces : Nat
  families : Nat
  components : Nat
  files : Nat
  deriving DecidableEq, Repr

/-- The settings, if their packages are valid. -/
def Settings.validate (s : Settings) : Except Failure Settings :=
  match s.invalidPackage? with
  | some name => .error (.ofCause (.invalidPackage name))
  | none => .ok s

/-- The datapack of a source, given what is found at its path. -/
def readSource (source : Source) (found : Found) (s : Settings) : Except Failure Datapack := do
  let o ← source.open found s.manifestRequired
  (readDatapack o.root).mapError (.within (.datapack source.path))

def generateFiles (source : Source) (found : Found) (s : Settings) :
    Except Failure (Datapack × List Bindings.SourceFile) := do
  let d ← readSource source found s
  return (d, Bindings.files d s)

def summaryOf (d : Datapack) (fs : List Bindings.SourceFile) : Summary :=
  ⟨d.namespaces.length, d.families.length, d.componentCount, fs.length⟩

/-- A run on what is found at the path of its source, wherever that is, with a tree that holds the
output. -/
def generateFrom (t : Tree) (source : Source) (found : Found) (s : Settings) :
    Tree × Except Failure Summary :=
  match generateFiles source found s with
  | .error f => (t, .error f)
  | .ok (d, fs) =>
    match Output.perform t (Output.actions s.target fs) with
    | (t', none) => (t', .ok (summaryOf d fs))
    | (t', some cause) => (t', .error ⟨[.output], cause⟩)

/-- A run on a tree that holds both the source and the output. -/
def generate (t : Tree) (source : Source) (s : Settings) : Tree × Except Failure Summary :=
  generateFrom t source (t.find source.path) s

end PackBindings
