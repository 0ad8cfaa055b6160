/-
  PackBindings.Archive.Bytes — numbers in bytes, least significant byte first.
-/

namespace PackBindings.Archive

/-- `n` bytes from a position on, if there are so many. -/
def slice? (b : ByteArray) (i n : Nat) : Option ByteArray :=
  if i + n ≤ b.size then some (b.extract i (i + n)) else none

/-- The number in `n` bytes from a position on. -/
def number? (n : Nat) (b : ByteArray) (i : Nat) : Option Nat :=
  (slice? b i n).map fun s => s.toList.foldr (fun d v => d.toNat + 256 * v) 0

def half? : ByteArray → Nat → Option Nat := number? 2
def word? : ByteArray → Nat → Option Nat := number? 4
def long? : ByteArray → Nat → Option Nat := number? 8

/-- The `n` low bytes of a number. -/
def bytesOf : (n : Nat) → Nat → List UInt8
  | 0, _ => []
  | n + 1, v => UInt8.ofNat v :: bytesOf n (v / 256)

end PackBindings.Archive
