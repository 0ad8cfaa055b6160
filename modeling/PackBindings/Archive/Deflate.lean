/-
  PackBindings.Archive.Deflate — writing deflated data.

  Each block of tokens is written with the fixed words if it is short, and with words of
  its own otherwise, whose lengths stand at its head. A block that this makes no shorter
  is stored as it is.
-/

import PackBindings.Archive.PrefixCode
import PackBindings.Archive.Token

namespace PackBindings.Archive

/-! ## Tokens -/

/-- The symbol of a number, and the bits that tell where in the range of the symbol it is. -/
def symbolOf (table : List (Nat × Nat)) (n : Nat) : Nat × Field :=
  let i := (table.takeWhile (·.1 ≤ n)).length - 1
  let (least, width) := table.getD i (0, 0)
  (i, ⟨n - least, width⟩)

/-- What a token is written as: a literal symbol with more bits, and a distance symbol with more
bits. -/
structure Symbols where
  literal : Nat × Field
  distance : Option (Nat × Field)

def noBits : Field := ⟨0, 0⟩

def Token.symbols : Token → Symbols
  | literal byte => ⟨(byte.toNat, noBits), none⟩
  | copy length distance =>
    let (l, more) := symbolOf lengthTable length
    ⟨(endOfBlock + 1 + l, more), some (symbolOf distanceTable distance)⟩

def wordFor (words : Array Field) (s : Nat × Field) : List Field :=
  [words[s.1]?.getD noBits, s.2]

def Symbols.fields (literals distances : Array Field) (s : Symbols) : List Field :=
  wordFor literals s.literal ++ (s.distance.map (wordFor distances)).getD []

/-- Symbols in words of the given lengths, and the end of their block. -/
def coded (literals distances : List Nat) (ss : List Symbols) : List Field :=
  let literalWords := wordsOf literals
  let distanceWords := wordsOf distances
  ss.flatMap (·.fields literalWords distanceWords) ++ wordFor literalWords (endOfBlock, noBits)

/-! ## Lengths of words -/

/-- How often each of `n` symbols occurs. -/
def tally (n : Nat) (symbols : List Nat) : List Nat :=
  (symbols.foldl (fun counts s => counts.modify s (· + 1)) (Array.replicate n 0)).toList

/-- Without the zeros at the end, but with so many numbers at least. -/
def trimmed (least : Nat) (ls : List Nat) : List Nat :=
  ls.take (max least (ls.length - (ls.reverse.takeWhile (· = 0)).length))

/-- A number in full pieces and what is left. -/
def pieces (size n : Nat) : List Nat := List.replicate (n / size) size ++ [n % size]

/-- The symbols for `n` more lengths that are the same as the one before. -/
def sameAgain (l n : Nat) : List (Nat × Field) :=
  if n < 3 then List.replicate n (l, noBits) else [(16, ⟨n - 3, 2⟩)]

/-- The symbols for `n` lengths that are zero. -/
def zeros (n : Nat) : List (Nat × Field) :=
  if n < 3 then List.replicate n (0, noBits)
  else if n ≤ 10 then [(17, ⟨n - 3, 3⟩)]
  else [(18, ⟨n - 11, 7⟩)]

/-- The symbols for a run of lengths that are all the same. -/
def runSymbols : List Nat → List (Nat × Field)
  | [] => []
  | 0 :: more => (pieces 138 (more.length + 1)).flatMap zeros
  | l :: more => (l, noBits) :: (pieces 6 more.length).flatMap (sameAgain l)

/-- The head of a block with words of its own, which have the given lengths. -/
def head (literals distances : List Nat) : List Field :=
  let symbols := ((literals ++ distances).splitBy (· == ·)).flatMap runSymbols
  let lengths := lengthsFor 7 (tally 19 (symbols.map (·.1)))
  let given := trimmed 4 (lengthOrder.map (lengths.getD · 0))
  let words := wordsOf lengths
  [⟨literals.length - 257, 5⟩, ⟨distances.length - 1, 5⟩, ⟨given.length - 4, 4⟩] ++
    given.map (⟨·, 3⟩) ++ symbols.flatMap (wordFor words)

/-! ## Blocks -/

def fixedBlock (ss : List Symbols) : List Field :=
  ⟨1, 2⟩ :: coded fixedLiterals fixedDistances ss

def ownBlock (ss : List Symbols) : List Field :=
  let literals := trimmed 257 (lengthsFor longest
    (tally 286 (ss.map (·.literal.1) ++ [endOfBlock])))
  let distances := trimmed 1 (lengthsFor longest
    (tally 30 (ss.filterMap fun s => s.distance.map (·.1))))
  ⟨2, 2⟩ :: head literals distances ++ coded literals distances ss

def Packed.pushStored (p : Packed) (data : ByteArray) (b : Block) : Packed :=
  ((p.push ⟨0, 2⟩).align.pushAll [⟨b.size, 16⟩, ⟨0xFFFF - b.size, 16⟩]).pushAll
    ((List.range b.size).map fun i => ⟨(byteAt data (b.start + i)).toNat, 8⟩)

/-- A block of fewer bytes has the fixed words. -/
def fixedLimit : Nat := 48

/-- A block of so many bytes is not stored. -/
def storedLimit : Nat := 32

def Packed.pushBlock (p : Packed) (data : ByteArray) (b : Block) (isLast : Bool) : Packed :=
  let p := p.push ⟨isLast.toNat, 1⟩
  let ss := b.tokens.toList.map Token.symbols
  let packed := p.pushAll (if b.size < fixedLimit then fixedBlock ss else ownBlock ss)
  if b.isAtHand && storedLimit < b.size && b.size ≤ packed.bytes.size - p.bytes.size + 1 then
    p.pushStored data b
  else packed

def Packed.pushBlocks (p : Packed) (data : ByteArray) : List Block → Packed
  | [] => p
  | b :: bs => (p.pushBlock data b bs.isEmpty).pushBlocks data bs

def deflate (data : ByteArray) : ByteArray :=
  (Packed.empty.pushBlocks data (blocksOf data).toList).align.bytes

end PackBindings.Archive
