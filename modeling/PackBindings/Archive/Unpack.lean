/-
  PackBindings.Archive.Unpack — the tree that an archive unpacks to.

  Entries are put into the tree in turn; directories are made where they are missing, and
  a later file takes the place of an earlier one. A directory needs no contents, so what is
  kept as its contents need not make sense. A name that leads out of the tree, starts at
  the root of all files or is too long, or an entry that another one is in the way of,
  makes the archive unreadable. What is too long is up to the system and to the directory
  for temporary files: on Linux, and below `/tmp`, names may have 4079 bytes.
-/

import PackBindings.Archive.Reader
import PackBindings.Files.Name
import PackBindings.Files.Tree

namespace PackBindings.Archive

open PackBindings.Files

/-- How deep names lead, from a depth on; none if they lead out. -/
def depth? (d : Nat) : List (List Char) → Option Nat
  | [] => some d
  | name :: rest =>
    if name = ['.', '.'] then (if d = 0 then none else depth? (d - 1) rest)
    else depth? (d + 1) rest

/-- A name that stays inside the tree wherever it is unpacked. -/
def isEnclosed (name : String) : Bool :=
  !name.toList.contains '\x00' && name.toList.head? != some '/' &&
    (depth? 0 (names name.toList)).isSome

/-- How many bytes stand before a name in the path that it is unpacked to: those of a temporary
directory on Linux with a slash behind it, such as `/tmp/.tmpAbCdEf/`. -/
def waySize : Nat := 16

/-- A name that is in reach where it is unpacked to. -/
def fits (name : String) : Bool := waySize + name.utf8ByteSize ≤ pathLimit

/-- The directory part of an entry's name, as a spelled path. -/
def parentNames (name : String) : List String :=
  ((names name.toList).dropLast).map String.ofList

def unpackEntry (t : Tree) (e : Entry) : Option Tree :=
  if !isEnclosed e.name || !fits e.name then none
  else if e.isDirectory then
    match t.makeDirectories e.name with
    | (t', true) => some t'
    | (_, false) => none
  else
    match t.makeAlong [] (parentNames e.name) with
    | (t', some _) => t'.write? e.name e.contents
    | (_, none) => none

def treeOf? (es : List Entry) : Option Tree := es.foldlM unpackEntry .empty

/-- What is unpacked for a header: a directory without its contents, or a file with them. -/
def unpackable? (b : ByteArray) (h : Header) : Option Entry :=
  if namesDirectory h.name then (packed? b h).map fun _ => ⟨h.name, .empty⟩
  else (contents? b h).map fun c => ⟨h.name, c⟩

/-- The tree of an archive, if every entry can be read and put in its place. -/
def unpack? (b : ByteArray) : Option Tree :=
  (directory? b).bind fun hs => (hs.mapM (unpackable? b)).bind treeOf?

end PackBindings.Archive
