/-
  PackBindings.CommandLine — what the arguments of a run ask for.

  Arguments are read from the left. An option is a word behind two hyphens or a letter
  behind one, and letters can stand together. The value of an option stands behind its
  letter, behind an equals sign or in the next argument, which then must not look like
  an option. The first argument that asks for help or for the version, or that is a
  mistake, decides. Whether the options fit together is judged when all have been read:
  there is a package, and either a directory or an archive to read, and a run is not
  verbose and quiet at once.
-/

import PackBindings.Generate

namespace PackBindings.CommandLine

open PackBindings.Files PackBindings.Pack

/-! ## Options -/

/-- The options that take a value. -/
inductive Key where
  | package | parent | directory | archive | output | threads
  deriving DecidableEq, Repr

/-- The options that say something by being there. -/
inductive Switch where
  | verbose | quiet | noManifestCheck
  deriving DecidableEq, Repr

/-- What the arguments say, piece by piece. -/
inductive Item where
  | value (key : Key) (text : String)
  | switch (s : Switch)
  | help
  | version
  | mistake
  deriving DecidableEq, Repr

/-- What an option says by its name: something of its own, or that a value follows. -/
inductive Meaning where
  | takes (key : Key)
  | gives (item : Item)

def ofWord? : String → Option Meaning
  | "package" => some (.takes .package)
  | "parent-package" => some (.takes .parent)
  | "directory" => some (.takes .directory)
  | "zip" => some (.takes .archive)
  | "output" => some (.takes .output)
  | "threads" => some (.takes .threads)
  | "verbose" => some (.gives (.switch .verbose))
  | "quiet" => some (.gives (.switch .quiet))
  | "no-manifest-check" => some (.gives (.switch .noManifestCheck))
  | "help" => some (.gives .help)
  | "version" => some (.gives .version)
  | _ => none

def ofLetter? : Char → Option Meaning
  | 'p' => some (.takes .package)
  | 'd' => some (.takes .directory)
  | 'z' => some (.takes .archive)
  | 'o' => some (.takes .output)
  | 't' => some (.takes .threads)
  | 'v' => some (.gives (.switch .verbose))
  | 'q' => some (.gives (.switch .quiet))
  | 'h' => some (.gives .help)
  | 'V' => some (.gives .version)
  | _ => none

/-! ## Arguments -/

/-- Where the value of an option is when its argument is read. -/
def valued (key : Key) : List Char → List Item × Option Key
  | [] => ([], some key)
  | '=' :: text => ([.value key (String.ofList text)], none)
  | text => ([.value key (String.ofList text)], none)

def ofLetters : List Char → List Item × Option Key
  | [] => ([], none)
  | c :: rest =>
    match ofLetter? c with
    | none => ([.mistake], none)
    | some (.takes key) => valued key rest
    | some (.gives item) =>
      let (said, key) := ofLetters rest
      (item :: said, key)

def ofLong (text : List Char) : List Item × Option Key :=
  match ofWord? (String.ofList (text.takeWhile (· ≠ '='))), text.dropWhile (· ≠ '=') with
  | some (.takes key), value => valued key value
  | some (.gives item), [] => ([item], none)
  | _, _ => ([.mistake], none)

/-- What an argument says by itself, and the option whose value the next one must be. -/
def ofArgument (argument : String) : List Item × Option Key :=
  match argument.toList with
  | '-' :: '-' :: text => ofLong text
  | '-' :: c :: text => ofLetters (c :: text)
  | _ => ([.mistake], none)

/-- A hyphen alone is a value. -/
def isValue (argument : String) : Bool := argument = "-" || argument.toList.head? != some '-'

/-- What the arguments say, where an option may wait for its value. Two hyphens end the options,
and nothing else may follow. -/
def items : Option Key → List String → List Item
  | none, [] => []
  | some _, [] => [.mistake]
  | some key, text :: rest =>
    if isValue text then .value key text :: items none rest else [.mistake]
  | none, argument :: rest =>
    if argument = "--" then (if rest = [] then [] else [.mistake])
    else
      let (said, key) := ofArgument argument
      said ++ items key rest

/-! ## Requests -/

/-- A number of workers may have a plus sign before it, and has sixty-four bits. -/
def threads? (text : String) : Option Nat :=
  let digits := if text.toList.head? = some '+' then text.toList.drop 1 else text.toList
  if digits ≠ [] && digits.all Char.isDigit then
    let n := digits.foldl (fun n c => 10 * n + (c.toNat - '0'.toNat)) 0
    if n < Nat.pow 2 64 then some n else none
  else none

def Key.accepts (text : String) : Key → Bool
  | package | parent => true
  | directory | archive | output => text != ""
  | threads => (threads? text).isSome

/-- The options read so far. -/
structure Options where
  values : List (Key × String)
  switches : List Switch

inductive Request where
  | help
  | version
  | misuse
  | generate (source : Source) (settings : Settings) (quiet : Bool)

namespace Options

def value? (o : Options) (key : Key) : Option String := o.values.lookup key

def source? (o : Options) : Option Source :=
  match o.value? .directory, o.value? .archive with
  | some path, none => some (.directory path)
  | none, some path => some (.archive path)
  | _, _ => none

def settings (o : Options) (package : String) : Settings :=
  let default := Settings.forPackage package
  { default with
    parent := (o.value? .parent).getD default.parent
    target := ((o.value? .output).map Target.ofPath).getD default.target
    threads := ((o.value? .threads).bind threads?).getD default.threads
    manifestRequired := !o.switches.contains .noManifestCheck }

/-- What the options ask for together. -/
def request (o : Options) : Request :=
  match o.value? .package, o.source? with
  | some package, some source =>
    if o.switches.contains .verbose && o.switches.contains .quiet then .misuse
    else .generate source (o.settings package) (o.switches.contains .quiet)
  | _, _ => .misuse

/-- Takes up items in turn; an option may be given once. -/
def read (o : Options) : List Item → Request
  | [] => o.request
  | .help :: _ => .help
  | .version :: _ => .version
  | .mistake :: _ => .misuse
  | .value key text :: rest =>
    if (o.value? key).isSome || !key.accepts text then .misuse
    else read { o with values := (key, text) :: o.values } rest
  | .switch s :: rest =>
    if o.switches.contains s then .misuse else read { o with switches := s :: o.switches } rest

end Options

def Request.ofArguments (arguments : List String) : Request :=
  Options.read ⟨[], []⟩ (items none arguments)

example :
    Request.ofArguments ["-x", "--help"] = .misuse ∧ Request.ofArguments ["--help", "-x"] = .help := by
  constructor <;> cbv

/-! ## Runs -/

inductive Outcome where
  | informed
  | misused
  | finished (summary : Summary)
  | failed (failure : Failure)

def Outcome.exitCode : Outcome → Nat
  | informed | finished _ => 0
  | failed _ => 1
  | misused => 2

/-- A run on a tree; a package that is none fails before the source is opened. -/
def run (t : Tree) (arguments : List String) : Tree × Outcome :=
  match Request.ofArguments arguments with
  | .help | .version => (t, .informed)
  | .misuse => (t, .misused)
  | .generate source settings _ =>
    match settings.validate with
    | .error f => (t, .failed f)
    | .ok s =>
      match PackBindings.generate t source s with
      | (t', .ok summary) => (t', .finished summary)
      | (t', .error f) => (t', .failed f)

end PackBindings.CommandLine
