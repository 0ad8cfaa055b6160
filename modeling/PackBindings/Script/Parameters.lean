/-
  PackBindings.Script.Parameters — the parameters that a text substitutes.

  Substitution happens on the lines whose first character that is not blank is `$`, and
  on no other. There each `$(name)` stands for the argument of that name, where a name
  is a run of letters, digits and low lines. A parameter may occur any number of times.
-/

import PackBindings.Text.Blank

namespace PackBindings.Script

open PackBindings.Text

def isParameterChar (c : Char) : Bool := c.isAlphanum || c == '_'

/-- The parameter that a text starts with. -/
def parameterAt? (cs : List Char) : Option (List Char) :=
  (['$', '('].isPrefixOf? cs).bind fun rest =>
    match rest.takeWhile isParameterChar, rest.dropWhile isParameterChar with
    | c :: name, ')' :: _ => some (c :: name)
    | _, _ => none

def parametersIn : List Char → List (List Char)
  | [] => []
  | c :: cs => (parameterAt? (c :: cs)).toList ++ parametersIn cs

def isSubstituted (line : List Char) : Bool := (trimStart line).head? == some '$'

def parameterOccurrences (text : List Char) : List (List Char) :=
  ((text.splitOn '\n').filter isSubstituted).flatMap parametersIn

end PackBindings.Script
