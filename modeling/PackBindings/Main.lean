/-
  PackBindings.Main — the command line.

  Reads the source from the disk, writes what `Output.actions` says, and ends with code 0,
  with 1 after a failure and with 2 when the arguments are misused. A failure is reported
  with its category and its message.
-/

import PackBindings.CommandLine

namespace PackBindings.CommandLine

open PackBindings.Files PackBindings.Output

def usage : String :=
  "usage: packbindings -p PACKAGE (-d DIRECTORY | -z ARCHIVE) [options]

  -p, --package PACKAGE         package of the generated sources
      --parent-package PACKAGE  package that the output stands for; by default the package
                                without its last segment
  -d, --directory DIRECTORY     datapack to read
  -z, --zip ARCHIVE             zipped datapack to read
  -o, --output PATH             output directory, or a .zip file [default: generated]
  -t, --threads NUMBER          number of workers, 0 to choose automatically [default: 0]
      --no-manifest-check       accept a datapack without a pack.mcmeta
  -v, --verbose                 say more
  -q, --quiet                   say less
  -h, --help                    show this help
  -V, --version                 show the version"

def versionLine : String := "packbindings 0.1.0"

/-! ## The disk -/

/-- Puts everything below a directory of the disk at a path of a tree. -/
partial def readBelow (directory : String) (t : Tree) (p : Path) : IO Tree := do
  (← (← IO.FS.realPath directory).readDir).foldlM (fun t entry => do
    let there := join directory entry.fileName
    if ← entry.path.isDir then
      match t.put? (p ++ [entry.fileName]) .directory with
      | some t' => readBelow there t' (p ++ [entry.fileName])
      | none => return t
    else
      return (t.writeFile? (p ++ [entry.fileName]) (← IO.FS.readBinFile there)).getD t) t

def findOnDisk (path : String) : IO Found := do
  match ← (IO.FS.realPath path).toBaseIO with
  | .error _ => return .nothing
  | .ok there =>
    if ← there.isDir then return .directory (← readBelow path .empty [])
    else if ← there.pathExists then return .file (← IO.FS.readBinFile path)
    else return .nothing

def attempt (act : IO Unit) (orElse : Cause) : IO (Option Cause) := do
  match ← act.toBaseIO with
  | .ok _ => return none
  | .error _ => return some orElse

def performOnDisk : List Action → IO (Option Cause)
  | [] => return none
  | action :: rest => do
    let failed ← match action with
      | .makeDirectories path orElse =>
        attempt (if path = "" then pure () else IO.FS.createDirAll path) orElse
      | .write path contents orElse => attempt (IO.FS.writeBinFile path contents) orElse
    match failed with
    | some cause => return some cause
    | none => performOnDisk rest

/-! ## Runs -/

def runOnDisk (source : Pack.Source) (settings : Settings) : IO (Except Failure Summary) := do
  match settings.validate with
  | .error f => return .error f
  | .ok s =>
    match generateFiles source (← findOnDisk source.path) s with
    | .error f => return .error f
    | .ok (d, fs) =>
      match ← performOnDisk (actions s.target fs) with
      | none => return .ok (summaryOf d fs)
      | some cause => return .error ⟨[.output], cause⟩

def summaryLine (s : Summary) : String :=
  "Finished generating bindings: " ++ ", ".intercalate
    [toString s.namespaces ++ " namespaces", toString s.families ++ " groups",
      toString s.components ++ " components", toString s.files ++ " files"]

end PackBindings.CommandLine

open PackBindings PackBindings.CommandLine in
def main (arguments : List String) : IO UInt32 := do
  match Request.ofArguments arguments with
  | .help =>
    IO.println usage
    return 0
  | .version =>
    IO.println versionLine
    return 0
  | .misuse =>
    IO.eprintln usage
    return 2
  | .generate source settings quiet =>
    match ← runOnDisk source settings with
    | .ok summary =>
      if !quiet then IO.println (summaryLine summary)
      return 0
    | .error f =>
      IO.eprintln ("error[" ++ f.category.name ++ "]: " ++ f.message)
      return 1
