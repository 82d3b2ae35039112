import TypeCoupling.Number.Binary64

/-!
# The fewest digits

The decimal of a binary number is the one with the fewest digits among those that round to it,
and of these the nearest. Numbers down to one hundred thousandth are written without an exponent,
and a fraction is always written.
-/

namespace TypeCoupling.Binary64

def tenTo (n : Nat) : Nat := Nat.pow 10 n

structure Decimal where
  digits : Nat
  exponent : Int
  deriving DecidableEq, Repr

/-- The reals that round to `x`, times four and times `den`: the ends are half way to the
neighbours, and below a power of two the neighbour is half as far. -/
structure Interval where
  low : Nat
  value : Nat
  high : Nat
  den : Nat
  /-- Whether the ends belong to the interval. -/
  closed : Bool

def interval (x : Binary64) : Interval :=
  let (_, den) := scale x.significand 1 x.exponent
  let unit := twoTo x.exponent.toNat
  let below := if x.significand = twoTo (precision - 1) then 1 else 2
  { low := (4 * x.significand - below) * unit
    value := 4 * x.significand * unit
    high := (4 * x.significand + 2) * unit
    den := 4 * den
    closed := x.significand % 2 == 0 }

def Interval.contains (i : Interval) (d : Nat) (k : Int) : Bool :=
  let num := d * tenTo k.toNat * i.den
  let unit := tenTo (-k).toNat
  if i.closed then i.low * unit ≤ num && num ≤ i.high * unit
  else i.low * unit < num && num < i.high * unit

/-- Twice the distance of `d * 10 ^ k` from the value, in a unit that depends on `k` only. -/
def Interval.distance (i : Interval) (d : Nat) (k : Int) : Nat :=
  let num := d * tenTo k.toNat * i.den
  let value := i.value * tenTo (-k).toNat
  (num - value) + (value - num)

/-- The nearest multiple of `10 ^ k` in the interval; of two equally near ones the even. -/
def Interval.onGrid? (i : Interval) (k : Int) : Option Nat :=
  let d := i.value * tenTo (-k).toNat / (i.den * tenTo k.toNat)
  match i.contains d k, i.contains (d + 1) k with
  | true, true =>
    let below := i.distance d k
    let above := i.distance (d + 1) k
    if below < above then some d
    else if above < below then some (d + 1)
    else some (d + d % 2)
  | true, false => some d
  | false, true => some (d + 1)
  | false, false => none

/-- The decimal on the coarsest of the grids `10 ^ k`, `10 ^ (k - 1)`, … that has one. -/
def Interval.coarsest (i : Interval) (k : Int) : (grids : Nat) → Decimal
  | 0 => ⟨0, 0⟩
  | n + 1 =>
    match i.onGrid? k with
    | some d => ⟨d, k⟩
    | none => i.coarsest (k - 1) n

def wholeDigits (num den : Nat) : Nat := (Nat.toDigits 10 (num / den)).length

/-- Seventeen digits tell all numbers apart, so some grid down to the eighteenth digit has a
decimal; a number below one starts as many places after the point as its exponent tells. -/
def shortest (x : Binary64) : Decimal :=
  let i := x.interval
  let start : Int := wholeDigits i.value i.den
  i.coarsest start (18 + (-x.exponent).toNat)

/-- The text of a decimal: positional from one hundred thousandth up to sixteen digits before
the point, with an exponent otherwise. -/
def Decimal.text (d : Decimal) : String :=
  let digits := Nat.toDigits 10 d.digits
  let point : Int := digits.length + d.exponent
  if d.digits = 0 then "0.0"
  else if 0 ≤ d.exponent ∧ point ≤ 16 then
    String.ofList (digits ++ List.replicate d.exponent.toNat '0') ++ ".0"
  else if 0 < point ∧ point ≤ 16 then
    String.ofList (digits.take point.toNat) ++ "." ++ String.ofList (digits.drop point.toNat)
  else if -5 < point ∧ point ≤ 0 then
    "0." ++ String.ofList (List.replicate (-point).toNat '0' ++ digits)
  else
    let fraction := String.ofList (digits.drop 1)
    let dot := if fraction.isEmpty then "" else "."
    String.ofList (digits.take 1) ++ dot ++ fraction ++ "e" ++ toString (point - 1)

def text (x : Binary64) : String :=
  if x.significand = 0 then "0.0" else x.shortest.text

end TypeCoupling.Binary64
