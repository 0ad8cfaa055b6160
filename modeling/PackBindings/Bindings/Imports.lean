/-
  PackBindings.Bindings.Imports — the classes that a unit refers to, and how.

  A unit imports each simple name at most once, for the class that uses it first
  (`Imports.ofUses`); a class whose simple name stands for another one is written out in
  full (`spelled`). Which class wins depends on the order of uses alone, not on how far
  along the unit is, so every reference can be spelled from the imports of the whole
  unit.
-/

import PackBindings.Component
import PackBindings.Kotlin.Source

namespace PackBindings.Bindings

open PackBindings.Kotlin

def nbtBuilder : ClassName := ⟨"io.github.ayfri.kore.utils", "nbt"⟩
def nbtCompound : ClassName := ⟨"net.benwoodworth.knbt", "NbtCompound"⟩
def dataArgument : ClassName := ⟨"io.github.ayfri.kore.arguments.types", "DataArgument"⟩
def storageArgument : ClassName :=
  ⟨"io.github.ayfri.kore.arguments.types.resources", "StorageArgument"⟩

abbrev Imports := List ClassName

namespace Imports

/-- One use after another; the first class of a simple name stays. -/
def ofUses (uses : List ClassName) : Imports :=
  uses.foldl (fun imports c => if imports.any (·.name == c.name) then imports else imports ++ [c]) []

def spelled (imports : Imports) (c : ClassName) : String :=
  if imports.contains c then c.name else c.qualified

/-- The imports as a source lists them. -/
def names (imports : Imports) : List String := sortedNames (imports.map (·.qualified))

end Imports

/-- The parameters of a component, if it has any to pass on. -/
def parametersOf (c : Component) : List String :=
  match c.template? with
  | some t => t.parameters
  | none => []

/-- The classes that the accessors of a component refer to, in the order of their uses. -/
def usesOf (c : Component) : List ClassName :=
  [c.kind.shape.callee, c.kind.shape.result] ++ c.kind.shape.context.toList ++
    if parametersOf c = [] then [] else [nbtBuilder, nbtCompound, dataArgument]

/-- The simple names that generated objects must not take. -/
def reservedNames : List String :=
  (["String", "Boolean", "List", nbtCompound.name, dataArgument.name, storageArgument.name] ++
    Kind.all.flatMap fun k =>
      [k.shape.callee.name, k.shape.result.name] ++ k.shape.context.toList.map (·.name)).eraseDups

end PackBindings.Bindings
