/-
  PackBindings.Kotlin.ClassName — fully qualified names of classes and functions.
-/

namespace PackBindings.Kotlin

structure ClassName where
  package : String
  name : String
  deriving DecidableEq, Repr

def ClassName.qualified (c : ClassName) : String := c.package ++ "." ++ c.name

end PackBindings.Kotlin
