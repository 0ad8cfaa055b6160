/-
  PackBindings.Script.Line — the logical lines of a script.

  A script is cut at its line feeds. Each line loses its comment and the blanks around
  it, and goes if nothing is left. A line that ends in a backslash is continued: the
  backslash and the blanks before it go, and what follows is joined on with one space.

  (1) A comment starts at the first `#` outside quotes (`code`). One toggle tracks
  quoting: either quote character flips it unless a backslash stands directly before,
  so mixed quoting is not understood: an apostrophe hides a comment.

  (2) A carriage return before a line feed needs no rule of its own: it is blank, and
  goes when the line is trimmed.

  (3) A continued line that is left open at the end of the script stands as it is
  (`joined`); one that consists of backslashes alone leaves nothing.
-/

import PackBindings.Text.Blank

namespace PackBindings.Script

open PackBindings.Text

def isQuote (c : Char) : Bool := c == '"' || c == '\''

/-! ## (1) Comments -/

/-- The part of a line before its comment. `escaped`: a backslash stands directly before. -/
def code (quoted escaped : Bool) : List Char → List Char
  | [] => []
  | c :: cs =>
    if c == '#' && !quoted then []
    else c :: code (quoted ^^ (isQuote c && !escaped)) (c == '\\') cs

example : code false false "don't # x".toList = "don't # x".toList := by decide

/-- What a line says: its code without the blanks around it. -/
def content (line : List Char) : List Char := trim (code false false line)

def contents (text : List Char) : List (List Char) :=
  ((text.splitOn '\n').map content).filter (· ≠ [])

/-! ## (3) Continued lines -/

/-- The text before the backslash that continues a line. -/
def continued? (line : List Char) : Option (List Char) :=
  if line.getLast? = some '\\' then some (trimEnd line.dropLast) else none

/-- One space stands between two parts; an empty part is left out. -/
def glue (held part : List Char) : List Char :=
  if part = [] then held else if held = [] then part else held ++ ' ' :: part

/-- `held`: what the continued lines just before amount to. -/
def joined (held : List Char) : List (List Char) → List (List Char)
  | [] => if held = [] then [] else [held]
  | line :: lines =>
    match continued? line with
    | some part => joined (glue held part) lines
    | none => glue held line :: joined [] lines

def logicalLines (text : List Char) : List (List Char) := joined [] (contents text)

/-- The logical lines as a text of their own. -/
def plain (text : List Char) : List Char := ['\n'].intercalate (logicalLines text)

end PackBindings.Script
