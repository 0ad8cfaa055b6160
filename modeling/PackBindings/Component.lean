/-
  PackBindings.Component — the components of a namespace.
-/

import PackBindings.Component.Kind
import PackBindings.Component.Location
import PackBindings.Script.Usage

namespace PackBindings

inductive Component where
  | resource (kind : Kind) (location : Location)
  | script (location : Location) (template : Option Template)
  | scriptTag (location : Location)
  deriving DecidableEq, Repr

namespace Component

def kind : Component → Kind
  | resource k _ => k
  | script .. => .function
  | scriptTag _ => .functionTag

def location : Component → Location
  | resource _ l => l
  | script l _ => l
  | scriptTag l => l

def template? : Component → Option Template
  | script _ t => t
  | _ => none

/-- The component of a kind at a location; only a script can be a template. -/
def ofKind (k : Kind) (l : Location) (t : Option Template) : Component :=
  match k.role with
  | .script => script l t
  | .scriptTag => scriptTag l
  | .resource => resource k l

end Component

end PackBindings
