/-
  PackBindings.Failure — why a run fails.

  A failure is a cause and the stages in which it happened, outermost first. Its message
  names the stages and then the cause (`Failure.message`), and its category, by which a
  caller tells failures apart, depends on the cause alone (`Cause.category`).
-/

import PackBindings.Component.Kind
import PackBindings.Text.Visible

namespace PackBindings

inductive Category where
  | configuration | packLayout | archive | io | internal
  deriving DecidableEq, Repr

def Category.name : Category → String
  | configuration => "config"
  | packLayout => "structure"
  | archive => "archive"
  | io => "io"
  | internal => "internal"

inductive Cause where
  | missingInput (path : String)
  | invalidPackage (name : String)
  | missingManifest (root : String)
  | missingData (root : String)
  | noPack (archive : String)
  | unreadableArchive (path : String)
  /-- A script cannot be read as text. -/
  | unreadableScript (path : String)
  /-- A directory with components cannot be listed, as the path to one below it is too long. -/
  | unlistable (dir path : String)
  | unreadableManifest
  | malformedManifest
  | outputDirectory
  | directory (path : String)
  | file (path : String)
  | archiveFile (path : String)
  deriving DecidableEq, Repr

/-- What a run is at when something fails. -/
inductive Stage where
  | datapack (path : String)
  | inNamespace (name : String)
  | components (kind : Kind) (name : String)
  | output
  deriving DecidableEq, Repr

structure Failure where
  stages : List Stage
  cause : Cause
  deriving DecidableEq, Repr

/-! ## Paths in quotation marks -/

/-- The hexadecimal digits of a number, in lower case. -/
def hexDigits (n : Nat) : List Char := Nat.toDigits 16 n

def shownChar (c : Char) : List Char :=
  match c with
  | '"' => ['\\', '"']
  | '\\' => ['\\', '\\']
  | '\n' => ['\\', 'n']
  | '\r' => ['\\', 'r']
  | '\t' => ['\\', 't']
  | '\x00' => ['\\', '0']
  | c =>
    if Text.isVisible c then [c] else ['\\', 'u', '\x7b'] ++ hexDigits c.toNat ++ ['\x7d']

/-- A path in quotation marks. A backslash stands before a quotation mark, before a backslash,
and in the names of characters that show nothing of their own; all else stands for itself. -/
def shown (path : String) : String :=
  String.ofList ('"' :: path.toList.flatMap shownChar ++ ['"'])

/-! ## Messages -/

def Cause.category : Cause → Category
  | missingInput _ | invalidPackage _ => .configuration
  | missingManifest _ | missingData _ | noPack _ => .packLayout
  | unreadableArchive _ => .archive
  | malformedManifest => .internal
  | unreadableScript _ | unlistable _ _ | unreadableManifest | outputDirectory | directory _
  | file _ | archiveFile _ => .io

def Cause.message : Cause → String
  | missingInput path => "Input path " ++ path ++ " does not exist"
  | invalidPackage name => "Invalid package identifier '" ++ name ++ "'"
  | missingManifest root => "Datapack at " ++ root ++ " has no pack.mcmeta manifest"
  | missingData root => "Datapack at " ++ root ++ " has no data directory"
  | noPack archive => "Archive " ++ archive ++ " does not contain a datapack"
  | unreadableArchive path => "Failed to read archive " ++ path
  | unreadableScript path => "Failed to read function file " ++ path
  | unlistable dir path => "Failed to walk directory " ++ dir ++
    ": IO error for operation on " ++ path ++ ": File name too long (os error 36)"
  | unreadableManifest => "Failed to read pack.mcmeta"
  | malformedManifest => "Failed to deserialize pack.mcmeta"
  | outputDirectory => "Failed to create output directory"
  | directory path => "Failed to create directory " ++ shown path
  | file path => "Failed to write file " ++ shown path
  | archiveFile path => "Failed to create archive " ++ shown path

def Stage.message : Stage → String
  | datapack path => "Failed to parse datapack " ++ path
  | inNamespace name => "Failed to parse namespace " ++ name
  | components kind name =>
    "Failed to collect " ++ kind.directory ++ " components of namespace " ++ name
  | output => "Failed to write output"

namespace Failure

def ofCause (c : Cause) : Failure := ⟨[], c⟩

/-- The same failure, seen from the stage around it. -/
def within (s : Stage) (f : Failure) : Failure := ⟨s :: f.stages, f.cause⟩

def category (f : Failure) : Category := f.cause.category

def message (f : Failure) : String :=
  ": ".intercalate (f.stages.map Stage.message ++ [f.cause.message])

end Failure

end PackBindings
