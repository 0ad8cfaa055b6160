/-
  PackBindings.Archive.Reader — the entries of an archive.

  An archive ends in a record that says how many entries there are and where their
  directory is; the last record in the file counts, and bytes in front of the archive
  shift all positions (`locate?`). The directory gives each entry its name and the place of
  its data. Data is stored or deflated; anything else, an encrypted entry, or data that
  does not have the check value it should have, makes the archive unreadable.
-/

import PackBindings.Archive.CodePage
import PackBindings.Archive.Crc32
import PackBindings.Archive.Entry
import PackBindings.Archive.Method
import PackBindings.Text.Utf8

namespace PackBindings.Archive

/-! ## The end of an archive -/

def endSignature : Nat := 0x06054B50
def longEndSignature : Nat := 0x06064B50
def locatorSignature : Nat := 0x07064B50
def headerSignature : Nat := 0x02014B50
def localSignature : Nat := 0x04034B50

/-- The last position, at `i` or before, of a record that ends an archive; the record has
twenty-two bytes, and the search goes back as far as a comment can be long. -/
def lastEnd? (b : ByteArray) : (i : Nat) → Option Nat
  | 0 => if word? b 0 = some endSignature then some 0 else none
  | i + 1 =>
    if word? b (i + 1) = some endSignature then some (i + 1)
    else if b.size - 22 - 0xFFFF ≤ i then lastEnd? b i
    else none

/-- Where the directory of an archive is, how far its positions are off, and how many
entries it has. -/
structure Located where
  start : Nat
  shift : Nat
  count : Nat

/-- The first position from `i` on, with `n` to try, of a record for large archives. -/
def longEnd? (b : ByteArray) (i : Nat) : (n : Nat) → Option Nat
  | 0 => none
  | n + 1 => if word? b i = some longEndSignature then some i else longEnd? b (i + 1) n

/-- Positions in a file are below it. -/
def positionLimit : Nat := Nat.pow 2 63

/-- The directory of a large archive, whose own end record stands before the common one. -/
def locateLong? (b : ByteArray) (pos disk : Nat) (tooSmall : Bool) (locator : Nat) :
    Option Located := do
  let directoryDisk ← word? b (locator + 4)
  let nominal ← long? b (locator + 8)
  let _ ← word? b (locator + 16)
  if !tooSmall ∧ disk ≠ directoryDisk then none
  if pos < 60 then none
  let found ← longEnd? b nominal (pos - 60 + 1 - nominal)
  let ownDisk ← word? b (found + 16)
  let itsDisk ← word? b (found + 20)
  let count ← long? b (found + 32)
  let start ← long? b (found + 48)
  if ownDisk ≠ itsDisk then none
  if positionLimit ≤ start + (found - nominal) then none
  return ⟨start + (found - nominal), found - nominal, count⟩

def locate? (b : ByteArray) : Option Located := do
  if b.size < 22 then none
  let pos ← lastEnd? b (b.size - 22)
  let disk ← half? b (pos + 4)
  let directoryDisk ← half? b (pos + 6)
  let count ← half? b (pos + 8)
  let total ← half? b (pos + 10)
  let size ← word? b (pos + 12)
  let start ← word? b (pos + 16)
  let comment ← half? b (pos + 20)
  let _ ← slice? b (pos + 22) comment
  let tooSmall := [disk, directoryDisk, count, total].contains 0xFFFF ||
    [size, start].contains 0xFFFFFFFF
  if !tooSmall ∧ disk ≠ directoryDisk then none
  if 42 + comment ≤ b.size ∧ word? b (b.size - 42 - comment) = some locatorSignature then
    locateLong? b pos disk tooSmall (b.size - 42 - comment)
  else if pos < size + start then none
  else return ⟨pos - size, pos - size - start, count⟩

/-! ## The directory -/

structure Header where
  name : String
  encrypted : Bool
  method : Nat
  check : Nat
  packedSize : Nat
  position : Nat

/-- Positions and sizes that do not fit into their fields: the packed size, the size and the
position. -/
structure Large where
  packedSize : Nat
  size : Nat
  position : Nat

def isLarge (n : Nat) : Bool := n = 0xFFFFFFFF

/-- The values that an extra field for large entries replaces, and what is left of the field.
A field that breaks off ends the reading of fields, and what was read before counts. -/
def largeFrom (l : Large) (b : ByteArray) (i : Nat) : Large × Option Nat :=
  let (l, i) := if isLarge l.size then
    match long? b i with
    | some v => ({ l with size := v }, some (i + 8))
    | none => (l, none)
    else (l, some i)
  let (l, i) := match i with
    | some i => if isLarge l.packedSize then
        match long? b i with
        | some v => ({ l with packedSize := v }, some (i + 8))
        | none => (l, none)
        else (l, some i)
    | none => (l, none)
  match i with
  | some i => if isLarge l.position then
      match long? b i with
      | some v => ({ l with position := v }, some (i + 8))
      | none => (l, none)
      else (l, some i)
  | none => (l, none)

/-- The extra fields of an entry, from `i` on; none if they claim an encryption, whether rightly
or in a field that is not seven bytes long. -/
def extraFields (b : ByteArray) (l : Large) (i : Nat) : (fuel : Nat) → Option Large
  | 0 => some l
  | fuel + 1 =>
    if b.size ≤ i then some l
    else
      match half? b i, half? b (i + 2) with
      | some 0x0001, some n =>
        match largeFrom l b (i + 4) with
        | (l, some j) => extraFields b l (max j (i + 4 + n)) fuel
        | (l, none) => some l
      | some 0x9901, some n => if n = 7 ∧ (slice? b (i + 4) 7).isNone then some l else none
      | some _, some n => extraFields b l (i + 4 + n) fuel
      | _, _ => some l

/-- The header at a position, and the position after it. -/
def header? (b : ByteArray) (shift i : Nat) : Option (Header × Nat) := do
  if word? b i ≠ some headerSignature then none
  let flags ← half? b (i + 8)
  let method ← half? b (i + 10)
  let check ← word? b (i + 16)
  let packedSize ← word? b (i + 20)
  let size ← word? b (i + 24)
  let nameLength ← half? b (i + 28)
  let extraLength ← half? b (i + 30)
  let commentLength ← half? b (i + 32)
  let position ← word? b (i + 42)
  let name ← slice? b (i + 46) nameLength
  let extra ← slice? b (i + 46 + nameLength) extraLength
  let _ ← slice? b (i + 46 + nameLength + extraLength) commentLength
  let large ← extraFields extra ⟨packedSize, size, position⟩ 0 extraLength
  let isUtf8 := flags / 0x800 % 2 = 1
  return (⟨if isUtf8 then Text.lossy name else nameOf name, flags % 2 = 1, method, check,
    large.packedSize, large.position + shift⟩, i + 46 + nameLength + extraLength + commentLength)

def headers? (b : ByteArray) (shift : Nat) : (count i : Nat) → Option (List Header)
  | 0, _ => some []
  | n + 1, i => do
    let (h, j) ← header? b shift i
    return h :: (← headers? b shift n j)

/-! ## Data -/

/-- The data of an entry as it is kept; data that the file breaks off is taken as far as it
goes. -/
def packed? (b : ByteArray) (h : Header) : Option ByteArray := do
  if h.encrypted ∨ (Method.ofCode? h.method).isNone then none
  if word? b h.position ≠ some localSignature then none
  let nameLength ← half? b (h.position + 26)
  let extraLength ← half? b (h.position + 28)
  let start := h.position + 30 + nameLength + extraLength
  return b.extract start (min (start + h.packedSize) b.size)

def contents? (b : ByteArray) (h : Header) : Option ByteArray := do
  let contents ← (← Method.ofCode? h.method).unpack? (← packed? b h)
  if (crc32 contents).toNat = h.check then return contents else none

/-- The headers of the entries, in the order of the directory. -/
def directory? (b : ByteArray) : Option (List Header) :=
  (locate? b).bind fun l => headers? b l.shift l.count l.start

def entries? (b : ByteArray) : Option (List Entry) := do
  (← directory? b).mapM fun h => return ⟨h.name, ← contents? b h⟩

end PackBindings.Archive
