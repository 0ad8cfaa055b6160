/-
  PackBindings.Script.Usage — what a script uses, and what it needs to be called.

  Objectives, storages and parameters are read off the logical lines alone, so neither
  comments nor layout show (`Usage.ofText` is a function of `plain`). A script that
  substitutes parameters is a template: it names each one once, in the order of their
  first occurrences.
-/

import PackBindings.Resource
import PackBindings.Script.Line
import PackBindings.Script.Objectives
import PackBindings.Script.Parameters
import PackBindings.Script.Storages

namespace PackBindings

/-- The parameters of a script that has some to substitute. -/
structure Template where
  script : String
  parameters : List String
  deriving DecidableEq, Repr

namespace Script

structure Usage where
  objectives : Inventory Objective
  storages : Inventory Storage
  template : Option Template

/-- What the logical lines `plain` of the script at `location` in `source` use. -/
def Usage.ofPlain (plain : List Char) (source location : String) : Usage where
  objectives := .ofList <| (objectiveNames plain).map fun name =>
    .ofName (String.ofList name) source
  storages := .ofList <| (storageReferences plain).map fun (owner, path) =>
    ⟨String.ofList owner, String.ofList path, source⟩
  template :=
    match (parameterOccurrences plain).eraseDups with
    | [] => none
    | names => some ⟨location, names.map String.ofList⟩

def Usage.ofText (text source location : String) : Usage :=
  .ofPlain (plain text.toList) source location

end Script

end PackBindings
