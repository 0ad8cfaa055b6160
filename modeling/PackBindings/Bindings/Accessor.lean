/-
  PackBindings.Bindings.Accessor — the members by which a source reaches a component.

  A resource is reached by a value, a script or a tag of scripts by a function that is
  called in a context. A script that substitutes parameters has three more functions of
  the same name, which differ in how they take the arguments: one string for each
  parameter, a compound, or a data argument with an optional path.

  Each parameter gets an identifier of its own, and the compound that is passed on has
  under each parameter's name the value of that identifier (`payload`).
-/

import PackBindings.Bindings.Imports
import PackBindings.Kotlin.Literal
import PackBindings.Kotlin.Scope

namespace PackBindings.Bindings

open PackBindings.Kotlin

/-! ## What a component is called with -/

def argumentValue (namespaceName : String) (l : Location) : ArgumentSource → String
  | .stem => "PATH + " ++ literal l.stem
  | .owner => "NAMESPACE"
  | .itself => literal (namespaceName ++ ":" ++ l.full)
  | .fixed text => text

def argumentsOf (namespaceName : String) (c : Component) : List String :=
  c.kind.shape.arguments.map fun (name, source) =>
    name ++ " = " ++ argumentValue namespaceName c.location source

def callText (callee : String) (arguments : List String) : String :=
  callee ++ "(" ++ ", ".intercalate arguments ++ ")"

/-! ## Functions -/

/-- A function of a component, with parameters and arguments beyond those of every call. -/
def callable (imports : Imports) (namespaceName name : String) (c : Component)
    (parameters : List Parameter) (more : List String) : Function :=
  ⟨name, c.kind.shape.context.map imports.spelled, parameters, imports.spelled c.kind.shape.result,
    callText (imports.spelled c.kind.shape.callee) (argumentsOf namespaceName c ++ more)⟩

/-- The identifiers of parameters, one for each. -/
def identifiersOf (parameters : List String) : List String :=
  (Scope.mk []).nameAll (parameters.map camel)

def assignment (parameter identifier : String) : String :=
  "this[" ++ literal parameter ++ "] = " ++ quoted identifier

def payload (parameters : List String) : String :=
  "; ".intercalate (List.zipWith assignment parameters (identifiersOf parameters))

def overloads (imports : Imports) (namespaceName name : String) (c : Component)
    (parameters : List String) : List Function :=
  [callable imports namespaceName name c
      ((identifiersOf parameters).map fun x => ⟨x, "String", none⟩)
      ["arguments = " ++ imports.spelled nbtBuilder ++ " \x7b " ++ payload parameters ++ " \x7d"],
    callable imports namespaceName name c
      [⟨"arguments", imports.spelled nbtCompound, none⟩]
      ["arguments = arguments"],
    callable imports namespaceName name c
      [⟨"arguments", imports.spelled dataArgument, none⟩, ⟨"path", "String?", some "null"⟩]
      ["arguments = arguments", "path = path"]]

/-! ## Accessors -/

def accessorsOf (imports : Imports) (namespaceName : String) (c : Component) (name : String) :
    List Decl :=
  match c with
  | .resource .. =>
    [.property ⟨name, imports.spelled c.kind.shape.result,
      callText (imports.spelled c.kind.shape.callee) (argumentsOf namespaceName c), false⟩]
  | .script .. | .scriptTag .. =>
    .function (callable imports namespaceName name c [] []) ::
      if parametersOf c = [] then []
      else (overloads imports namespaceName name c (parametersOf c)).map .function

end PackBindings.Bindings
