/-
  PackBindings.Manifest — what the manifest of a datapack says.

  A manifest is an object whose field `pack` is the section about the pack; there the
  number of a format and a description may stand. Either one may also be an array of its
  fields in order. Fields that are not known are passed over, whatever their values; a
  known field may stand only once. The format is a whole number of thirty-two bits or
  null. The description is any value, and it is kept as compact text with its keys in
  order, where the last of equal keys counts.

  Values that count may be nested one hundred and twenty-seven deep, and their strings
  must be text. Values that are passed over may be nested deeper, and may hold half
  surrogate pairs.
-/

import PackBindings.Failure
import PackBindings.Files.Tree
import PackBindings.Manifest.Number

namespace PackBindings

namespace Manifest

/-! ## Compact text -/

def compactChar (c : Char) : List Char :=
  match c with
  | '"' => ['\\', '"']
  | '\\' => ['\\', '\\']
  | '\x08' => ['\\', 'b']
  | '\x0c' => ['\\', 'f']
  | '\n' => ['\\', 'n']
  | '\r' => ['\\', 'r']
  | '\t' => ['\\', 't']
  | c =>
    if c.toNat < 0x20 then
      ['\\', 'u', '0', '0'] ++ List.replicate (2 - (hexDigits c.toNat).length) '0' ++
        hexDigits c.toNat
    else [c]

def compactString (s : String) : String :=
  String.ofList ('"' :: s.toList.flatMap compactChar ++ ['"'])

/-- Fields in order of key; the last of equal keys counts. -/
def sortedFields (fields : List (String × String)) : List (String × String) :=
  let last := fields.foldr (fun f later => if later.any (·.1 == f.1) then later else f :: later) []
  last.mergeSort (·.1 ≤ ·.1)

mutual

/-- The compact text of a value that is nested at most `depth` deep. -/
def Json.compact? (depth : Nat) : Json → Option String
  | .null => some "null"
  | .bool b => some (if b then "true" else "false")
  | .number n => n.text?
  | .string s => s.map compactString
  | .array items =>
    match depth with
    | 0 => none
    | d + 1 => (compactAll? d items).map fun ts => "[" ++ ",".intercalate ts ++ "]"
  | .object keys values =>
    match depth with
    | 0 => none
    | d + 1 =>
      match keys.mapM id, compactAll? d values with
      | some ks, some ts =>
        some ("\x7b" ++ ",".intercalate ((sortedFields (ks.zip ts)).map fun (k, t) =>
          compactString k ++ ":" ++ t) ++ "\x7d")
      | _, _ => none

def compactAll? (depth : Nat) : List Json → Option (List String)
  | [] => some []
  | v :: vs =>
    match v.compact? depth, compactAll? depth vs with
    | some t, some ts => some (t :: ts)
    | _, _ => none

end

end Manifest

/-! ## Manifests -/

structure Manifest where
  format : Option Nat
  /-- The compact text of the description. -/
  description : String
  deriving DecidableEq, Repr

namespace Manifest

/-- How deep a value that counts may be nested. -/
def depthLimit : Nat := 127

/-- The values of a field; none if a key of the object is no text. -/
def valuesOf? (name : String) (keys : List (Option String)) (values : List Json) :
    Option (List Json) :=
  (keys.mapM id).map fun ks => (ks.zip values).filterMap fun (k, v) =>
    if k = name then some v else none

/-- The value of a field that may be left out; none if the field stands twice. -/
def optional? : List Json → Option (Option Json)
  | [] => some none
  | [v] => some (some v)
  | _ => none

def format? : Option Json → Option (Option Nat)
  | none => some none
  | some .null => some none
  | some (.number n) =>
    if n.isWhole ∧ !n.negative ∧ natOf n.whole < Nat.pow 2 32 then some (some (natOf n.whole)) else none
  | some _ => none

/-- The section and the manifest are nested around the description. -/
def description? : Option Json → Option String
  | none => some "null"
  | some v => v.compact? (depthLimit - 2)

def ofFields? (format description : Option Json) : Option Manifest := do
  return ⟨← format? format, ← description? description⟩

def ofSection? : Json → Option Manifest
  | .array [] => ofFields? none none
  | .array [f] => ofFields? (some f) none
  | .array [f, d] => ofFields? (some f) (some d)
  | .object keys values => do
    let f ← optional? (← valuesOf? "pack_format" keys values)
    let d ← optional? (← valuesOf? "description" keys values)
    ofFields? f d
  | _ => none

def ofJson? : Json → Option Manifest
  | .array [section_] => ofSection? section_
  | .object keys values => do
    match ← valuesOf? "pack" keys values with
    | [section_] => ofSection? section_
    | _ => none
  | _ => none

/-- The manifest found at a path. -/
def read : Files.Found → Except Failure Manifest
  | .file contents =>
    match String.fromUTF8? contents with
    | none => .error (.ofCause .unreadableManifest)
    | some text =>
      match (Json.parse? text).bind ofJson? with
      | some m => .ok m
      | none => .error (.ofCause .malformedManifest)
  | _ => .error (.ofCause .unreadableManifest)

end Manifest

end PackBindings
