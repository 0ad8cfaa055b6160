/-
  PackBindings.Manifest.Number — numbers as they are written back.

  A whole number that fits into sixty-four bits is written as it is. Every other one is of
  double precision: its digits count as far as they fit into sixty-four bits, and the power
  of ten is put on by one multiplication or division, so the last bit may be off. It is
  written with the fewest digits that read back, with a point up to sixteen places before
  it and five after it, and beyond with an exponent that has a sign. A number too large has
  no text.
-/

import PackBindings.Decimal.Shortest
import PackBindings.Manifest.Json

namespace PackBindings.Manifest

def digitValue (c : Char) : Nat := c.toNat - '0'.toNat

def natOf (digits : List Char) : Nat := digits.foldl (fun n c => n * 10 + digitValue c) 0

def longLimit : Nat := Nat.pow 2 64

/-- The digits as far as they fit, after those that are known, and how many are left. -/
def fitting (known : Nat) : List Char → Nat × Nat
  | [] => (known, 0)
  | c :: cs =>
    if known * 10 + digitValue c < longLimit then fitting (known * 10 + digitValue c) cs
    else (known, cs.length + 1)

/-- The digits that count, and the exponent that the point gives them. -/
def Numeral.significand (n : Numeral) : Nat × Int :=
  let (whole, left) := fitting 0 n.whole
  let (all, dropped) := fitting whole n.fraction
  (all, (left : Int) - ((n.fraction.length - dropped : Nat) : Int))

def power (n : Nat) : Float := Float.ofScientific 1 false n

/-- A number with the exponent `e` put on; none if it is too large. -/
def scaled (f : Float) (e : Int) : (fuel : Nat) → Option Float
  | 0 => some 0
  | fuel + 1 =>
    if e.natAbs ≤ 308 then
      if 0 ≤ e then
        let g := f * power e.toNat
        if g.isInf then none else some g
      else some (f / power e.natAbs)
    else if f == 0 then some 0
    else if 0 ≤ e then none
    else scaled (f / power 308) (e + 308) fuel

/-- The exponent that is written, as far as it goes. -/
def Numeral.writtenExponent (n : Numeral) : Int :=
  match n.exponent with
  | none => 0
  | some (negative, ds) => if negative then -(natOf ds : Int) else natOf ds

/-- The size of a number in double precision. -/
def Numeral.magnitude? (n : Numeral) : Option Float :=
  let (digits, e) := n.significand
  if Nat.pow 2 31 ≤ n.writtenExponent.natAbs then
    if digits ≠ 0 && 0 < n.writtenExponent then none else some 0
  else scaled digits.toUInt64.toFloat (e + n.writtenExponent) 8

def zeros (n : Nat) : List Char := List.replicate n '0'

/-- The text of a decimal. -/
def decimalText (d : Nat) (e : Int) : List Char :=
  let ds := Nat.toDigits 10 d
  let point : Int := ds.length + e
  if 0 ≤ e ∧ point ≤ 16 then ds ++ zeros e.toNat ++ ['.', '0']
  else if 0 < point ∧ point ≤ 16 then ds.take point.toNat ++ '.' :: ds.drop point.toNat
  else if -5 < point ∧ point ≤ 0 then '0' :: '.' :: zeros (-point).toNat ++ ds
  else
    ds.take 1 ++ (if ds.length = 1 then [] else '.' :: ds.drop 1) ++
      'e' :: (if point ≤ 0 then '-' else '+') :: Nat.toDigits 10 (point - 1).natAbs

def doubleText (f : Float) : List Char :=
  if f == 0 then ['0', '.', '0']
  else
    let (d, e) := (Decimal.Interval.ofBits f.toBits.toNat).shortest
    decimalText d e

def Numeral.isWhole (n : Numeral) : Bool := n.fraction = [] && n.exponent.isNone

def Numeral.text? (n : Numeral) : Option String :=
  let sign := if n.negative then ['-'] else []
  let size := natOf n.whole
  if n.isWhole ∧ !n.negative ∧ size < longLimit then some (toString size)
  else if n.isWhole ∧ n.negative ∧ size ≠ 0 ∧ size ≤ longLimit / 2 then some ("-" ++ toString size)
  else n.magnitude?.map fun f => String.ofList (sign ++ doubleText f)

end PackBindings.Manifest
