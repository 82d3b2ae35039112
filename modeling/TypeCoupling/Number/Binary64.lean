/-!
# Quotients as binary floating point numbers

A non-negative number with a 53-bit significand, exact or rounded to the nearest, a tie going to
the even significand. Only counts and their quotients are needed, so the exponent stays far from
its limits and there is neither a sign nor an infinity.
-/

namespace TypeCoupling

/-- The number `significand * 2 ^ exponent`. The significand of a number other than zero has
exactly 53 bits. -/
structure Binary64 where
  significand : Nat
  exponent : Int
  deriving DecidableEq, Repr

namespace Binary64

def zero : Binary64 := ⟨0, 0⟩

def precision : Nat := 53

def twoTo (n : Nat) : Nat := Nat.pow 2 n

/-- `num / den` rounded to the nearest natural number, ties to even. -/
def roundDiv (num den : Nat) : Nat :=
  let q := num / den
  let twice := 2 * (num % den)
  if twice < den then q else if den < twice then q + 1 else q + q % 2

/-- `num * 2 ^ shift / den` as a fraction of natural numbers. -/
def scale (num den : Nat) (shift : Int) : Nat × Nat :=
  (num * twoTo shift.toNat, den * twoTo (-shift).toNat)

/-- The number nearest to `num / den`. -/
def ofQuotient (num den : Nat) : Binary64 :=
  if num = 0 ∨ den = 0 then zero
  else
    -- The logarithms put the scaled quotient between 2 ^ 52 and 2 ^ 54.
    let guess : Int := precision - ((num.log2 : Int) - den.log2)
    let (n, d) := scale num den guess
    let shift := if twoTo precision ≤ n / d then guess - 1 else guess
    let (n, d) := scale num den shift
    let m := roundDiv n d
    if m = twoTo precision then ⟨twoTo (precision - 1), 1 - shift⟩ else ⟨m, -shift⟩

def ofNat (n : Nat) : Binary64 := ofQuotient n 1

def toFraction (x : Binary64) : Nat × Nat := scale x.significand 1 x.exponent

def div (x y : Binary64) : Binary64 :=
  let (a, b) := x.toFraction
  let (c, d) := y.toFraction
  ofQuotient (a * d) (b * c)

/-- The encoding in 64 bits: sign, eleven bits of biased exponent, 52 bits of fraction. -/
def bits (x : Binary64) : Nat :=
  if x.significand = 0 then 0
  else (x.exponent + 52 + 1023).toNat * twoTo 52 + (x.significand - twoTo 52)

def hex (x : Binary64) : String :=
  let digits := Nat.toDigits 16 x.bits
  String.ofList (List.replicate (16 - digits.length) '0' ++ digits)

end Binary64

end TypeCoupling
