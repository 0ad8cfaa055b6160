/-
  PackBindings.Kotlin.Declaration — the declarations of a source, and their lines.

  A declaration is a property, a function whose body is one expression, or an object
  with members. It is written as lines, one tab deeper for each object around it. An
  object without members is its head alone; one with members has them between braces.
  Between two members stands a blank line if they differ in rank or one of them is a
  block (`apart`). Ranks order members as constants, other properties, functions and
  objects (`byRank`), and otherwise leave them as they are.
-/

import PackBindings.Kotlin.Identifier

namespace PackBindings.Kotlin

structure Parameter where
  name : String
  type : String
  default : Option String
  deriving DecidableEq, Repr

structure Property where
  name : String
  type : String
  value : String
  isConst : Bool
  deriving DecidableEq, Repr

structure Function where
  name : String
  context : Option String
  parameters : List Parameter
  result : String
  body : String
  deriving DecidableEq, Repr

inductive Decl where
  | property (p : Property)
  | function (f : Function)
  | object (name : String) (members : List Decl)
  deriving Repr, Inhabited

/-! ## The text of a declaration -/

def Parameter.text (p : Parameter) : String :=
  quoted p.name ++ ": " ++ p.type ++ (match p.default with | some d => " = " ++ d | none => "")

def Property.text (p : Property) : String :=
  (if p.isConst then "const " else "") ++ "val " ++ quoted p.name ++ ": " ++ p.type ++ " = " ++ p.value

def Function.text (f : Function) : String :=
  "fun " ++ quoted f.name ++ "(" ++ ", ".intercalate (f.parameters.map Parameter.text) ++ "): " ++
    f.result ++ " = " ++ f.body

def indent (depth : Nat) (line : String) : String :=
  String.ofList (List.replicate depth '\t') ++ line

namespace Decl

def name : Decl → String
  | property p => p.name
  | function f => f.name
  | object n _ => n

def rank : Decl → Nat
  | property p => if p.isConst then 0 else 1
  | function _ => 2
  | object .. => 3

/-- Whether a declaration takes up more than one line. -/
def isBlock : Decl → Bool
  | property _ => false
  | function f => f.context.isSome
  | object _ members => !members.isEmpty

/-- Whether a blank line stands between two members. -/
def apart (d e : Decl) : Bool := d.rank != e.rank || d.isBlock || e.isBlock

mutual

def lines (depth : Nat) : Decl → List String
  | property p => [indent depth p.text]
  | function f =>
    (match f.context with | some c => [indent depth ("context(" ++ c ++ ")")] | none => []) ++
      [indent depth f.text]
  | object n [] => [indent depth ("object " ++ quoted n)]
  | object n (m :: ms) =>
    [indent depth ("object " ++ quoted n ++ " \x7b")] ++ memberLines (depth + 1) none (m :: ms) ++
      [indent depth "\x7d"]

/-- The lines of members. `above`: the member just before them. -/
def memberLines (depth : Nat) (above : Option Decl) : List Decl → List String
  | [] => []
  | m :: ms =>
    (if above.any (apart · m) then [""] else []) ++ lines depth m ++ memberLines depth (some m) ms

end

def byRank (members : List Decl) : List Decl :=
  [0, 1, 2, 3].flatMap fun r => members.filter (·.rank = r)

/-! ## Finding members -/

def objects (members : List Decl) (n : String) : List (List Decl) :=
  members.filterMap fun
    | object m inner => if m = n then some inner else none
    | _ => none

def properties (members : List Decl) (n : String) : List Property :=
  members.filterMap fun
    | property p => if p.name = n then some p else none
    | _ => none

/-- Every overload of a function. -/
def functions (members : List Decl) (n : String) : List Function :=
  members.filterMap fun
    | function f => if f.name = n then some f else none
    | _ => none

end Decl

/-- Every line ends in a line feed, the last one too. -/
def textOf (lines : List String) : String := String.join (lines.map (· ++ "\n"))

end PackBindings.Kotlin
