/-
  PackBindings.Kotlin.Source — a source file: a comment, a package, imports and one
  object.
-/

import PackBindings.Kotlin.Declaration

namespace PackBindings.Kotlin

/-- Names in increasing order, each once. -/
def sortedNames (names : List String) : List String := names.eraseDups.mergeSort (· ≤ ·)

structure Source where
  comment : String
  package : String
  /-- In increasing order, each once. -/
  imports : List String
  name : String
  members : List Decl
  deriving Repr

namespace Source

def object (s : Source) : Decl := .object s.name s.members

def lines (s : Source) (depth : Nat) : List String :=
  ["// " ++ s.comment, "@file:Suppress(\"unused\", \"RedundantVisibilityModifier\")", "",
    "package " ++ s.package] ++
  (if s.imports = [] then [] else "" :: s.imports.map ("import " ++ ·)) ++
  [""] ++ s.object.lines depth

def text (s : Source) : String := textOf (s.lines 0)

end Source

end PackBindings.Kotlin
