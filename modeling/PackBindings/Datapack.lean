/-
  PackBindings.Datapack — everything found in a datapack.
-/

import PackBindings.Family

namespace PackBindings

structure Datapack where
  namespaces : List Namespace
  families : List Family

namespace Datapack

/-- The families of a datapack are those of its namespaces. -/
def ofNamespaces (namespaces : List Namespace) : Datapack :=
  ⟨namespaces, Family.ofNamespaces namespaces⟩

/-- The family that counts a namespace among its members. -/
def familyOf? (d : Datapack) (name : String) : Option Family :=
  (Namespace.familyOf? name).bind fun family =>
    (d.families.find? (·.name = family)).filter (·.members.contains name)

def componentCount (d : Datapack) : Nat :=
  (d.namespaces.map (·.inOrder.length)).foldr (· + ·) 0

end Datapack

end PackBindings
