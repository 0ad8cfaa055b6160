/-
  PackBindings.Archive.Bits — numbers in bits, lowest bit first.

  A field is a number on a given count of bits. Fields follow each other without gaps, so
  one can begin and end anywhere in a byte; the bits after the last one are zeros.
-/

import PackBindings.Archive.Bytes

namespace PackBindings.Archive

structure Field where
  value : Nat
  width : Nat
  deriving Repr, Inhabited

/-- The fields so far: full bytes, and the number that the bits after them make. -/
structure Packed where
  bytes : ByteArray
  rest : Nat
  /-- How many bits are in `rest`. -/
  count : Nat
  count_lt : count < 8

namespace Packed

def empty : Packed := ⟨.empty, 0, 0, by decide⟩

def push (p : Packed) (f : Field) : Packed :=
  let value := p.rest + f.value * Nat.pow 2 p.count
  let full := (p.count + f.width) / 8
  ⟨(bytesOf full value).foldl ByteArray.push p.bytes, value / Nat.pow 256 full,
    (p.count + f.width) % 8, Nat.mod_lt _ (by decide)⟩

def pushAll (p : Packed) (fs : List Field) : Packed := fs.foldl push p

/-- Zeros up to the next full byte. -/
def align (p : Packed) : Packed := p.push ⟨0, (8 - p.count) % 8⟩

end Packed

end PackBindings.Archive
