/-
  PackBindings.Script.Objectives — the objective commands of a text.

  A line declares an objective when it starts with `scoreboard objectives `, one of
  `add `, `remove ` and `modify `, and a name; it displays one when it starts with
  `scoreboard objectives setdisplay ` and a slot. A slot runs up to the next blank. A
  displayed name follows its slot after exactly one space, and a slot may be displayed
  without a name, which clears it. Names are the longest run of name characters; what
  follows a name does not matter. A line holds at most one command.

  A dotted name belongs to the namespace before its last dot (`owner`).
-/

import PackBindings.Text.Blank

namespace PackBindings.Script

open PackBindings.Text

def isObjectiveChar (c : Char) : Bool := c.isAlphanum || ['_', '.', '+', '-'].contains c

/-- The objective name that a text starts with. -/
def objectiveAt? (cs : List Char) : Option (List Char) :=
  match cs.takeWhile isObjectiveChar with
  | [] => none
  | name => some name

/-- The name after `add`, `remove` or `modify`. -/
def declared? (cs : List Char) : Option (List Char) :=
  ["add ", "remove ", "modify "].findSome? fun verb =>
    (verb.toList.isPrefixOf? cs).bind objectiveAt?

/-- The name, if any, that `setdisplay` puts into a slot. -/
def displayed? (cs : List Char) : Option (Option (List Char)) :=
  ("setdisplay ".toList.isPrefixOf? cs).bind fun rest =>
    if rest.takeWhile (!isBlank ·) = [] then none
    else some (([' '].isPrefixOf? (rest.dropWhile (!isBlank ·))).bind objectiveAt?)

/-- The objective command on a line; inside, the name it has, if any. -/
def objectiveCommand? (line : List Char) : Option (Option (List Char)) :=
  ("scoreboard objectives ".toList.isPrefixOf? line).bind fun rest =>
    ((declared? rest).map some).or (displayed? rest)

def objectiveCommands (text : List Char) : List (Option (List Char)) :=
  (text.splitOn '\n').filterMap objectiveCommand?

def objectiveNames (text : List Char) : List (List Char) :=
  (objectiveCommands text).filterMap id

end PackBindings.Script
