/-
  PackBindings.Script.Storages — the storages a text refers to.

  A reference is the word `storage`, a space, a namespace, a colon and a path. No word
  character stands directly before the word. References are taken from left to right,
  each with the longest path, and the next one starts after that path at the earliest,
  so a path hides a reference inside it.
-/

import PackBindings.Text.Word

namespace PackBindings.Script

open PackBindings.Text

def isStorageChar (c : Char) : Bool :=
  c.isLower || c.isDigit || ['_', '.', '-'].contains c

def isStoragePathChar (c : Char) : Bool := isStorageChar c || c == '/'

/-- The reference that a text starts with, as its namespace and its path. -/
def storageAt? (cs : List Char) : Option (List Char × List Char) :=
  ("storage ".toList.isPrefixOf? cs).bind fun rest =>
    let owner := rest.takeWhile isStorageChar
    ([':'].isPrefixOf? (rest.dropWhile isStorageChar)).bind fun tail =>
      let path := tail.takeWhile isStoragePathChar
      if owner = [] ∨ path = [] then none else some (owner, path)

/-- How many characters a reference takes up: the word, the space and the colon are nine. -/
def storageLength (r : List Char × List Char) : Nat := r.1.length + r.2.length + 9

/-- The references of a text, after `skip` characters that one found before takes up.
`inWord`: the character before the text is a word character. -/
def storagesFrom (inWord : Bool) (skip : Nat) : List Char → List (List Char × List Char)
  | [] => []
  | c :: cs =>
    match skip with
    | n + 1 => storagesFrom (isWord c) n cs
    | 0 =>
      match if inWord then none else storageAt? (c :: cs) with
      | some r => r :: storagesFrom (isWord c) (storageLength r - 1) cs
      | none => storagesFrom (isWord c) 0 cs

def storageReferences (text : List Char) : List (List Char × List Char) :=
  storagesFrom false 0 text

example :
    storageReferences "storage a:x/storage b:y".toList = [("a".toList, "x/storage".toList)] := by
  decide +kernel

end PackBindings.Script
