/-
  PackBindings.Archive.Token — data as bytes and copies of what came before.

  A copy is looked for at one position after the other (`Finder.copy?`), among the last
  positions whose next three bytes have the same hash, the nearest one first, and only so
  many of them are tried. A copy that is found waits for one position (`Finder.step`): if
  there is a longer one at the next, the byte between stands for itself. Short copies from
  far away are no gain.

  Tokens make up blocks. A block ends when it is full, or when it turns out that its
  tokens take up as much as the bytes they stand for (`Block.isDone`).
-/

namespace PackBindings.Archive

inductive Token where
  | literal (byte : UInt8)
  | copy (length distance : Nat)
  deriving DecidableEq, Repr

namespace Token

/-- How many bytes a token stands for. -/
def size : Token → Nat
  | literal _ => 1
  | copy length _ => length

/-- How many bytes a token takes up while its block is collected. -/
def weight : Token → Nat
  | literal _ => 1
  | copy _ _ => 3

end Token

/-! ## Finding copies -/

def byteAt (data : ByteArray) (i : Nat) : UInt8 := data[i]?.getD 0

def hashCount : Nat := 0x8000

def hash (data : ByteArray) (i : Nat) : Nat :=
  ((byteAt data i).toNat <<< 10 ^^^ (byteAt data (i + 1)).toNat <<< 5 ^^^
    (byteAt data (i + 2)).toNat) % hashCount

/-- Positions are remembered by their remainders, and one whose remainder is zero is not. -/
def positionCount : Nat := 0x10000

structure Finder where
  data : ByteArray
  /-- For each position, what is remembered of the last one before it with the same hash. -/
  earlier : Array Nat

/-- How far back a copy can be. -/
def window : Nat := 0x8000

def shortestCopy : Nat := 3
def longestCopy : Nat := 258

/-- How many bytes two places have in common, up to a limit. -/
def common (data : ByteArray) (i j : Nat) : (limit : Nat) → Nat
  | 0 => 0
  | n + 1 => if byteAt data i = byteAt data j then common data (i + 1) (j + 1) n + 1 else 0

structure Copy where
  length : Nat
  distance : Nat

namespace Finder

def ofData (data : ByteArray) : Finder where
  data := data
  earlier := ((List.range (data.size - 2)).foldl (fun (earlier, last) i =>
    let h := hash data i
    (earlier.push (last[h]?.getD 0), last.setIfInBounds h (i % positionCount)))
    ((#[] : Array Nat), Array.replicate hashCount 0)).1

/-- How many bytes there are to compare at a position. -/
def room (f : Finder) (i : Nat) : Nat := min longestCopy (f.data.size - i)

/-- The best copy for a position, given the best one so far and where it was looked for last.
`tries`: how many places are left; they come in groups of three, and a place whose bytes agree
where `best` ends is the last of its group. -/
def search (f : Finder) (i : Nat) (best : Copy) (last tries : Nat) : Copy :=
  if tries = 0 then best
  else
    let place := f.earlier[last]?.getD 0
    let distance := (i + positionCount - place) % positionCount
    let there := i - distance
    if place = 0 ∨ min i (window - f.room i) < distance then best
    else if byteAt f.data (there + best.length - 1) ≠ byteAt f.data (i + best.length - 1) ∨
        byteAt f.data (there + best.length) ≠ byteAt f.data (i + best.length) then
      search f i best there (tries - 1)
    else if distance = 0 then best
    else
      let n := common f.data i there (f.room i)
      if n ≤ best.length then search f i best there ((tries - 1) / 3 * 3)
      else if n = f.room i then ⟨n, distance⟩
      else search f i ⟨n, distance⟩ there ((tries - 1) / 3 * 3)
termination_by tries

/-- Fewer places are tried when a long copy is known. -/
def triesFor (length : Nat) : Nat := 3 * (if length < 32 then 43 else 11)

/-- A copy of the shortest length is worth its place up to here. -/
def nearby : Nat := 8192

/-- The copy to take at a position where one of the given length is known. -/
def copy? (f : Finder) (i length : Nat) : Option Copy :=
  if f.room i ≤ length then none
  else
    let c := f.search i ⟨length, 0⟩ i (triesFor length)
    if c.distance = i % window ∨ (c.length = shortestCopy ∧ nearby ≤ c.distance) then none
    else if c.length ≤ length then none
    else some c

end Finder

/-! ## Taking tokens -/

/-- How far the data is read, and the copy that was found for the position before. -/
structure Progress where
  position : Nat
  waiting : Option Copy

/-- A copy of this length is taken without waiting. -/
def longCopy : Nat := 128

/-- The tokens that are settled at a position, and how it goes on. -/
def Finder.step (f : Finder) (p : Progress) : List Token × Progress :=
  let literal (i : Nat) : Token := .literal (byteAt f.data i)
  match f.copy? p.position ((p.waiting.map (·.length)).getD (shortestCopy - 1)), p.waiting with
  | none, none => ([literal p.position], ⟨p.position + 1, none⟩)
  | none, some c => ([.copy c.length c.distance], ⟨p.position + c.length - 1, none⟩)
  | some c, waiting =>
    let before := if waiting.isSome then [literal (p.position - 1)] else []
    if longCopy ≤ c.length then
      (before ++ [.copy c.length c.distance], ⟨p.position + c.length, none⟩)
    else (before, ⟨p.position + 1, some c⟩)

/-! ## Blocks -/

structure Block where
  tokens : Array Token
  /-- Where the bytes begin that the tokens stand for. -/
  start : Nat
  size : Nat
  weight : Nat
  /-- Up to where the data was looked at when the block ended. -/
  seen : Nat

namespace Block

def begin (start : Nat) : Block := ⟨#[], start, 0, 0, start⟩

def push (b : Block) (t : Token) : Block :=
  { b with tokens := b.tokens.push t, size := b.size + t.size, weight := b.weight + t.weight }

/-- What the tokens take up, and one byte more for eight of them. -/
def weightOfAll (b : Block) : Nat := 1 + b.weight + b.tokens.size / 8

def isDone (b : Block) : Bool :=
  0x10000 - 8 < b.weightOfAll || (31 * 1024 < b.size && b.size ≤ b.weightOfAll * 115 / 128)

/-- The bytes of the block are still at hand when it ends. -/
def isAtHand (b : Block) : Bool := b.seen ≤ b.start + window

end Block

/-- The blocks up to the end of the data, after the ones that are done. Every step moves on, so
`fuel` need not be more than there are bytes. -/
def Finder.blocksFrom (f : Finder) : (fuel : Nat) → Progress → Block → Array Block → Array Block
  | 0, _, b, done => done.push { b with seen := f.data.size }
  | fuel + 1, p, b, done =>
    if f.data.size ≤ p.position then done.push { b with seen := f.data.size }
    else
      let (ts, next) := f.step p
      let b := { ts.foldl Block.push b with seen := p.position + f.room p.position }
      if b.isDone then f.blocksFrom fuel next (.begin (b.start + b.size)) (done.push b)
      else f.blocksFrom fuel next b done

/-- Data as blocks of tokens; there is one at least. -/
def blocksOf (data : ByteArray) : Array Block :=
  (Finder.ofData data).blocksFrom data.size ⟨0, none⟩ (.begin 0) #[]

end PackBindings.Archive
