/-
  PackBindings.Decimal.Shortest — the shortest decimals that read back as a number.

  A positive binary number is a significand times a power of two, and stands for all reals
  that round to it: those up to half way to its neighbours, the half ways included if the
  significand is even. Of the decimals in that interval the shortest one is taken, of two
  with as many digits the nearer one, and half way between them the even one (`shortest`).
  On the grid of all decimals with a given last place only the two around the number itself
  need to be looked at.
-/

namespace PackBindings.Decimal

/-- An interval around a number: all over the same denominator. -/
structure Interval where
  low : Nat
  value : Nat
  high : Nat
  den : Nat
  closed : Bool

/-- The reals that round to `m * 2 ^ q`. `lowest`: the significand is the least of its power,
so that the neighbour below is only half as far away as the one above. -/
def Interval.around (m : Nat) (q : Int) (lowest : Bool) : Interval :=
  let scale := Nat.pow 2 q.toNat
  ⟨(4 * m - if lowest then 1 else 2) * scale, 4 * m * scale, (4 * m + 2) * scale,
    4 * Nat.pow 2 (-q).toNat, m % 2 = 0⟩

/-- `d * 10 ^ e` and the numbers of an interval, over a denominator that they share. -/
def Interval.scaled (i : Interval) (d : Nat) (e : Int) : Nat × Nat :=
  (d * Nat.pow 10 e.toNat * i.den, Nat.pow 10 (-e).toNat)

def Interval.has (i : Interval) (d : Nat) (e : Int) : Bool :=
  let (x, s) := i.scaled d e
  if i.closed then i.low * s ≤ x && x ≤ i.high * s else i.low * s < x && x < i.high * s

def Interval.distance (i : Interval) (d : Nat) (e : Int) : Nat :=
  let (x, s) := i.scaled d e
  (x - i.value * s) + (i.value * s - x)

/-- How often ten has to be multiplied to a number below one to reach it, `n` times at most. -/
def leadingZeros (value den : Nat) : (n : Nat) → Nat
  | 0 => 0
  | n + 1 => if den ≤ value then 0 else leadingZeros (value * 10) den n + 1

/-- The exponent of the power of ten just above a number. -/
def Interval.magnitude (i : Interval) : Int :=
  if i.den ≤ i.value then (Nat.toDigits 10 (i.value / i.den)).length
  else 1 - (leadingZeros i.value i.den 400 : Int)

/-- The decimal of the interval with a given last place that is nearest to the number; half way
between two it is the even one. -/
def Interval.nearest? (i : Interval) (e : Int) : Option Nat :=
  let d := i.value * Nat.pow 10 (-e).toNat / (i.den * Nat.pow 10 e.toNat)
  match i.has d e, i.has (d + 1) e with
  | true, true =>
    if i.distance d e < i.distance (d + 1) e then some d
    else if i.distance (d + 1) e < i.distance d e then some (d + 1)
    else some (d + d % 2)
  | true, false => some d
  | false, true => some (d + 1)
  | false, false => none

/-- A decimal without zeros at its end. -/
def normalized (d : Nat) (e : Int) : (n : Nat) → Nat × Int
  | 0 => (d, e)
  | n + 1 => if d % 10 = 0 then normalized (d / 10) (e + 1) n else (d, e)

/-- The shortest decimal of an interval, as its digits and its exponent; seventeen digits are
enough for a number of fifty-three bits. -/
def Interval.shortest (i : Interval) : Nat × Int :=
  match (List.range' 1 17).findSome? fun (n : Nat) =>
      (i.nearest? (i.magnitude - n)).map fun d => (d, i.magnitude - (n : Int)) with
  | some (d, e) => normalized d e 20
  | none => (0, 0)

/-- The interval of a finite number of double precision that is not zero, by its bits. -/
def Interval.ofBits (bits : Nat) : Interval :=
  let exponent : Nat := bits / Nat.pow 2 52 % Nat.pow 2 11
  let fraction : Nat := bits % Nat.pow 2 52
  if exponent = 0 then .around fraction (-1074) false
  else .around (Nat.pow 2 52 + fraction) ((exponent : Int) - 1075) (fraction = 0 && 1 < exponent)

end PackBindings.Decimal
