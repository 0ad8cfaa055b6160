/-
  PackBindings.Output.Action — writing source files.

  Output is a list of actions, each with the cause that its failure has: the directories
  that are needed and then the files. To an archive it is a single file, whose entries
  have the paths that the files would have in a directory.
-/

import PackBindings.Archive.Writer
import PackBindings.Bindings.Files
import PackBindings.Failure
import PackBindings.Files.Name
import PackBindings.Files.Tree

namespace PackBindings.Output

open PackBindings.Bindings PackBindings.Files

inductive Action where
  | makeDirectories (path : String) (orElse : Cause)
  | write (path : String) (contents : ByteArray) (orElse : Cause)

/-- The directory that a path to a file lies in, without names that say nothing at its end;
empty if the path is a name alone. -/
def directoryPart (path : String) : String :=
  let idle (name : List Char) := name = [] || name = ['.']
  String.ofList <| ['/'].intercalate
    (((((path.toList.splitOn '/').reverse.dropWhile idle).drop 1).dropWhile idle).reverse)

/-- The actions for one file below a directory. -/
def fileActions (root : String) (f : SourceFile) : List Action :=
  let directory := f.directory.foldl join root
  [.makeDirectories directory (.directory directory),
    .write (join directory (f.source.name ++ ".kt")) f.contents.toUTF8
      (.file (join directory (f.source.name ++ ".kt")))]

def entryOf (f : SourceFile) : Archive.Entry :=
  ⟨"/".intercalate f.path, f.contents.toUTF8⟩

def actions : Target → List SourceFile → List Action
  | .directory root, fs =>
    .makeDirectories root .outputDirectory :: fs.flatMap (fileActions root)
  | .archive path, fs =>
    [.makeDirectories (directoryPart path) .outputDirectory,
      .write path (Archive.write .deflated (fs.map entryOf)) (.archiveFile path)]

/-- Takes actions in turn up to the first one that fails. -/
def perform (t : Tree) : List Action → Tree × Option Cause
  | [] => (t, none)
  | .makeDirectories path orElse :: rest =>
    match t.makeDirectories path with
    | (t', true) => perform t' rest
    | (t', false) => (t', some orElse)
  | .write path contents orElse :: rest =>
    match t.write? path contents with
    | some t' => perform t' rest
    | none => (t, some orElse)

end PackBindings.Output
