/-
  PackBindings.Namespace — the namespaces of a datapack.

  A namespace holds components and refers to objectives and storages. What stands
  before the first dot of its name is its family, what stands after is its name as a
  member (`familyOf?`, `memberOf`); a name without a dot has no family and is its own
  member name. Components are taken up kind after kind (`inOrder`), and those of one
  kind in the order in which they were found.
-/

import PackBindings.Component

namespace PackBindings

structure Namespace where
  name : String
  components : List Component
  objectives : Inventory Objective
  storages : Inventory Storage

namespace Namespace

def familyOf? (name : String) : Option String :=
  if name.toList.contains '.' then some (String.ofList (name.toList.takeWhile (· ≠ '.'))) else none

def memberOf (name : String) : String :=
  if name.toList.contains '.' then String.ofList ((name.toList.dropWhile (· ≠ '.')).drop 1)
  else name

def family? (ns : Namespace) : Option String := familyOf? ns.name

def ofKind (ns : Namespace) (k : Kind) : List Component := ns.components.filter (·.kind = k)

def inOrder (ns : Namespace) : List Component := Kind.all.flatMap ns.ofKind

def templates (ns : Namespace) : List Template := ns.inOrder.filterMap Component.template?

end Namespace

end PackBindings
