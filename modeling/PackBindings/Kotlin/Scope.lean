/-
  PackBindings.Kotlin.Scope — the names taken in one place, and handing out new ones.

  A scope is asked for a name and hands out that name if it is free, and else the name
  with the first free number after it, counting from two (`claimNumbered`). Where a
  second wish is known, it takes the place of the first one before numbers are tried
  (`claim`). What is handed out is taken from then on.

  The search for a number is bounded by the number of names taken: so many numbered
  names, and no more, can be taken already. `List.find?` therefore always succeeds on
  the range it is given.
-/

namespace PackBindings.Kotlin

structure Scope where
  taken : List String
  deriving Repr

namespace Scope

def reserve (s : Scope) (name : String) : Scope := ⟨name :: s.taken⟩

def isTaken (s : Scope) (name : String) : Bool := s.taken.contains name

def numbered (base : String) (n : Nat) : String := base ++ toString n

/-- The first number from two on that makes a free name. -/
def firstFree (s : Scope) (base : String) : Nat :=
  ((List.range' 2 (s.taken.length + 1)).find? fun n => !s.isTaken (numbered base n)).getD 2

def freshName (s : Scope) (base : String) : String :=
  if s.isTaken base then numbered base (s.firstFree base) else base

def claimNumbered (s : Scope) (base : String) : String × Scope :=
  (s.freshName base, s.reserve (s.freshName base))

def claim (s : Scope) (base second : String) : String × Scope :=
  s.claimNumbered (if s.isTaken base then second else base)

/-- Names for wishes in turn. -/
def nameAll (s : Scope) : List String → List String
  | [] => []
  | base :: bases => s.freshName base :: (s.reserve (s.freshName base)).nameAll bases

end Scope

end PackBindings.Kotlin
