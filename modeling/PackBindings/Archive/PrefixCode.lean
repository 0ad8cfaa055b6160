/-
  PackBindings.Archive.PrefixCode — words for symbols by how often they occur.

  Symbols get words of lengths such that all words together are as short as can be: the
  two lightest bundles of symbols are joined until one is left, and how deep a symbol is
  in it is the length of its word (`depthCounts`). Of equally light bundles a single
  symbol comes first. Words that would be too long are cut back at the cost of the next
  shorter ones (`limited`). Frequent symbols get short words, and of equally frequent ones
  the later. The lengths alone determine the words (`wordsOf`).
-/

import PackBindings.Archive.Bits
import PackBindings.Archive.Symbol

namespace PackBindings.Archive

/-! ## Lengths -/

/-- Symbols that were joined: how often they occur, and how many there are at each depth. -/
structure Bundle where
  weight : Nat
  depths : List Nat

def addDepths : List Nat → List Nat → List Nat
  | [], ys => ys
  | xs, [] => xs
  | x :: xs, y :: ys => (x + y) :: addDepths xs ys

def Bundle.join (a b : Bundle) : Bundle := ⟨a.weight + b.weight, 0 :: addDepths a.depths b.depths⟩

/-- The lightest of single symbols and joined ones, each with the lightest first, and the rest. -/
def lightest? : (single joined : List Bundle) → Option (Bundle × List Bundle × List Bundle)
  | [], [] => none
  | a :: single, [] => some (a, single, [])
  | [], b :: joined => some (b, [], joined)
  | a :: single, b :: joined =>
    if b.weight < a.weight then some (b, a :: single, joined) else some (a, single, b :: joined)

/-- Joins bundles until one is left. Each time there is one less, so `fuel` need not be more than
there are. -/
def joinAll : (fuel : Nat) → (single joined : List Bundle) → Option Bundle
  | 0, _, _ => none
  | fuel + 1, single, joined =>
    (lightest? single joined).bind fun (a, single, joined) =>
      match lightest? single joined with
      | none => some a
      | some (b, single, joined) => joinAll fuel single (joined ++ [a.join b])

/-- How many of the symbols with the given weights, the lightest first, are at each depth from one
on; a symbol that is alone is one deep. -/
def depthCounts : (weights : List Nat) → List Nat
  | [_] => [1]
  | weights =>
    let single := weights.map fun w => Bundle.mk w [1]
    (((joinAll weights.length single []).map (·.depths)).getD []).drop 1

/-- The next longest word gives way to two that are one bit longer. `n`: how many there are of the
length after; shorter ones follow, and so do the results. -/
def splitNext (n : Nat) : List Nat → List Nat
  | [] => [n]
  | 0 :: shorter => n :: splitNext 0 shorter
  | (m + 1) :: shorter => (n + 2) :: m :: shorter

/-- One of the longest words moves in beside a shorter one; longest first. -/
def moveIn : List Nat → List Nat
  | [] => []
  | n :: shorter => splitNext (n - 1) shorter

/-- How many words there are of each length from one to `limit`, if those that would be longer
have that length. -/
def limited (limit : Nat) (counts : List Nat) : List Nat :=
  let all := (List.range (limit - 1)).map (counts.getD · 0) ++
    [(counts.drop (limit - 1)).foldr (· + ·) 0]
  let taken := all.foldl (fun total n => 2 * total + n) 0
  (Nat.repeat moveIn (taken - Nat.pow 2 limit) all.reverse).reverse

/-- The lengths of the words for symbols that occur so many times; one that never does has no
word. -/
def lengthsFor (limit : Nat) (counts : List Nat) : List Nat :=
  let used := (counts.zipIdx.filter (·.1 ≠ 0)).mergeSort (·.1 ≤ ·.1)
  let lengths := (limited limit (depthCounts (used.map (·.1)))).zipIdx.flatMap fun (n, i) =>
    List.replicate n (i + 1)
  (((used.map (·.2)).reverse.zip lengths).foldl (fun ls (s, l) => ls.setIfInBounds s l)
    (Array.replicate counts.length 0)).toList

/-! ## Words -/

/-- The bits of a word in reverse; a word is written from its first bit on, a number from its
lowest. -/
def reversed : (width : Nat) → Nat → Nat
  | 0, _ => 0
  | n + 1, v => v % 2 * 2 ^ n + reversed n (v / 2)

/-- The first word of each length from zero on. -/
def firstWords (lengths : List Nat) : Array Nat :=
  ((List.range' 1 longest).foldl (fun (words, next) l =>
    (words.push next, (next + lengths.count l) * 2)) (#[0], 0)).1

/-- The words of the given lengths; words of one length follow each other. -/
def wordsOf (lengths : List Nat) : Array Field :=
  (lengths.foldl (fun (words, next) l =>
    (words.push ⟨reversed l (next[l]?.getD 0), l⟩, next.modify l (· + 1)))
    ((#[] : Array Field), firstWords lengths)).1

end PackBindings.Archive
