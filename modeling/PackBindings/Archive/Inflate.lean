/-
  PackBindings.Archive.Inflate — reading deflated data.

  Deflated data is a row of blocks, read bit after bit. A block is stored as it is, or
  coded: symbols of a prefix code stand for single bytes, for the end of the block, or for
  a piece of what came before, by its length and its distance. The code is fixed, or given
  at the head of the block by the lengths of its words.

  Data that breaks off before the end of its last block, or that makes no sense, has no
  contents (`inflate?`); what follows the last block does not matter. A piece that reaches
  back to before the start of the contents finds zeros there (`byteBack`).
-/

import PackBindings.Archive.Bytes
import PackBindings.Archive.Symbol

namespace PackBindings.Archive

structure Reading where
  data : ByteArray
  /-- How many bits have been read. -/
  position : Nat
  output : ByteArray

abbrev Inflating := StateT Reading Option

def bit : Inflating Nat := do
  let r ← get
  match r.data[r.position / 8]? with
  | none => failure
  | some b =>
    set { r with position := r.position + 1 }
    return (b.toNat >>> (r.position % 8)) % 2

/-- A number of `n` bits, the lowest one first. -/
def bits : (n : Nat) → Inflating Nat
  | 0 => return 0
  | n + 1 => do
    let b ← bit
    return b + 2 * (← bits n)

/-! ## Codes -/

/-- A code whose words of one length follow each other in order of symbol. -/
structure Code where
  /-- How many words there are of each length from one on. -/
  counts : List Nat
  symbols : Array Nat

/-- The code with words of the given lengths; a word without length is left out. -/
def codeOf (lengths : List Nat) : Code where
  counts := (List.range' 1 longest).map fun l => lengths.count l
  symbols := ((List.range' 1 longest).flatMap fun l =>
    (lengths.zipIdx.filter (·.1 = l)).map (·.2)).toArray

/-- Every row of bits starts with exactly one word. -/
def Code.isComplete (c : Code) : Bool :=
  c.counts.foldl (fun total n => (total + n) * 2) 0 = Nat.pow 2 (longest + 1)

/-- There are no words but one, of a single bit, or not even that. -/
def Code.isMeagre (c : Code) : Bool :=
  c.counts.head? = some (c.counts.foldr (· + ·) 0) && c.counts.foldr (· + ·) 0 ≤ 1

/-- The code of a block; it may be meagre. -/
def codeOf? (lengths : List Nat) : Option Code :=
  let c := codeOf lengths
  if c.isComplete || c.isMeagre then some c else none

/-- The symbol of the next word. `first`: the first word of the length at hand; `index`: where
its symbol is. -/
def symbolAmong (symbols : Array Nat) (word first index : Nat) : List Nat → Inflating Nat
  | [] => failure
  | count :: counts => do
    let word := word * 2 + (← bit)
    if word < first + count then
      match symbols[index + (word - first)]? with
      | some s => return s
      | none => failure
    else symbolAmong symbols word ((first + count) * 2) (index + count) counts

def Code.symbol (c : Code) : Inflating Nat := symbolAmong c.symbols 0 0 0 c.counts

/-! ## Blocks -/

def put (b : UInt8) : Inflating Unit := modify fun r => { r with output := r.output.push b }

/-- The byte a distance back from the end; before the start of the output are zeros. -/
def byteBack (output : ByteArray) (distance : Nat) : UInt8 :=
  if distance ≤ output.size then output[output.size - distance]?.getD 0 else 0

/-- Repeats the output from a distance back, byte after byte. -/
def repeatBack (distance : Nat) : (length : Nat) → Inflating Unit
  | 0 => return ()
  | n + 1 => do
    modify fun r => { r with output := r.output.push (byteBack r.output distance) }
    repeatBack distance n

def tableEntry (table : List (Nat × Nat)) (i : Nat) : Inflating Nat :=
  match table[i]? with
  | some (least, n) => return least + (← bits n)
  | none => failure

/-- The symbols of a block up to its end. Each takes up a bit at least, so `fuel` need not be
more than the bits of the data. -/
def symbols (literals distances : Code) : (fuel : Nat) → Inflating Unit
  | 0 => failure
  | fuel + 1 => do
    let s ← literals.symbol
    if s = endOfBlock then return ()
    else if s < endOfBlock then put (UInt8.ofNat s)
    else
      let length ← tableEntry lengthTable (s - endOfBlock - 1)
      let distance ← tableEntry distanceTable (← distances.symbol)
      repeatBack distance length
    symbols literals distances fuel

def someBits : (n : Nat) → Inflating (List Nat)
  | 0 => return []
  | n + 1 => do
    let b ← bits 3
    return b :: (← someBits n)

/-- `n` lengths of words, after the ones that are known, last one first. -/
def lengths (code : Code) (n : Nat) : (fuel : Nat) → (known : List Nat) → Inflating (List Nat)
  | 0, known => if known.length = n then return known.reverse else failure
  | fuel + 1, known => do
    if known.length = n then return known.reverse
    else if n < known.length then failure
    else
      let s ← code.symbol
      if s < 16 then lengths code n fuel (s :: known)
      else if s = 16 then
        match known with
        | [] => failure
        | l :: _ => lengths code n fuel (List.replicate (3 + (← bits 2)) l ++ known)
      else if s = 17 then lengths code n fuel (List.replicate (3 + (← bits 3)) 0 ++ known)
      else lengths code n fuel (List.replicate (11 + (← bits 7)) 0 ++ known)

/-- The codes at the head of a block, of which there are 286 literals and 30 distances at most. -/
def blockCodes : Inflating (Code × Code) := do
  let literals := 257 + (← bits 5)
  let distances := 1 + (← bits 5)
  let given ← someBits (4 + (← bits 4))
  if 286 < literals || 30 < distances then failure
  let code := codeOf ((List.range 19).map fun i => given.getD (lengthOrder.idxOf i) 0)
  if !code.isComplete then failure
  let all ← lengths code (literals + distances) (literals + distances) []
  return (← codeOf? (all.take literals), ← codeOf? (all.drop literals))

/-- The rest of the byte is left out; a stored block starts with a full byte. -/
def toFullByte : Inflating Unit := modify fun r => { r with position := (r.position + 7) / 8 * 8 }

def storedBytes : (n : Nat) → Inflating Unit
  | 0 => return ()
  | n + 1 => do
    put (UInt8.ofNat (← bits 8))
    storedBytes n

def block (kind fuel : Nat) : Inflating Unit := do
  match kind with
  | 0 =>
    toFullByte
    let n ← bits 16
    let inverse ← bits 16
    if n + inverse ≠ 0xFFFF then failure
    storedBytes n
  | 1 => symbols (codeOf fixedLiterals) (codeOf fixedDistances) fuel
  | 2 =>
    let (literals, distances) ← blockCodes
    symbols literals distances fuel
  | _ => failure

/-- The blocks up to the last one. -/
def blocks (bitCount : Nat) : (fuel : Nat) → Inflating Unit
  | 0 => failure
  | fuel + 1 => do
    let last ← bit
    let kind ← bits 2
    block kind bitCount
    if last = 1 then return () else blocks bitCount fuel

/-- The contents of deflated data, if it makes sense. -/
def inflate? (data : ByteArray) : Option ByteArray :=
  ((blocks (8 * data.size + 1) (8 * data.size + 1)).run ⟨data, 0, .empty⟩).map (·.2.output)

end PackBindings.Archive
