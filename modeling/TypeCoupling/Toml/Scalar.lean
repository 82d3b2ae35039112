import TypeCoupling.Toml.Quoted

/-!
# Unquoted values in TOML

Numbers, truth values and dates are words without blanks, except that one blank may stand between a
date and a time. Numbers may have underscores between their digits and no zeros in front.
-/

namespace TypeCoupling.Toml

/-- A value. Of fractions, dates and inline tables only their presence is kept. -/
inductive Value where
  | text (s : String)
  | integer (i : Int)
  | boolean (b : Bool)
  | array (items : List Value)
  | other
  deriving Repr

/-! ### Integers -/

def digit? (base : Nat) (c : Char) : Option Nat :=
  (hexDigit? c).bind fun d => if d < base then some d else none

/-- The number of digits with single underscores between them, after the digits of `n`. -/
def readDigits (base : Nat) (n : Nat) : List Char → Option Nat
  | [] => none
  | [c] => (digit? base c).map (n * base + ·)
  | c :: '_' :: s => (digit? base c).bind fun d => readDigits base (n * base + d) s
  | c :: s => (digit? base c).bind fun d => readDigits base (n * base + d) s

/-- A decimal number without zeros in front. -/
def decimal? : List Char → Option Nat
  | ['0'] => some 0
  | '0' :: _ => none
  | s => readDigits 10 0 s

/-- A sign in front, if there is one, and the rest. -/
def readSign : List Char → Bool × List Char
  | '+' :: s => (false, s)
  | '-' :: s => (true, s)
  | s => (false, s)

def readInteger (s : List Char) : Option Int :=
  match s with
  | '0' :: 'x' :: s => (readDigits 16 0 s).map Int.ofNat
  | '0' :: 'o' :: s => (readDigits 8 0 s).map Int.ofNat
  | '0' :: 'b' :: s => (readDigits 2 0 s).map Int.ofNat
  | s =>
    let (negative, s) := readSign s
    (decimal? s).map fun n => if negative then - (n : Int) else n

def maxInteger : Nat := 9223372036854775807

/-- An integer of 64 bits. -/
def integer? (s : List Char) : Option Int :=
  (readInteger s).bind fun i =>
    if - (maxInteger : Int) - 1 ≤ i && i ≤ maxInteger then some i else none

/-! ### Fractions -/

def isDigitOrLine (c : Char) : Bool := c.isDigit || c == '_'

def isExponent : List Char → Bool
  | c :: s => (c == 'e' || c == 'E') && (readDigits 10 0 (readSign s).2).isSome
  | [] => false

/-- A number with a fraction or an exponent, infinity, or no number. -/
def isFraction (s : List Char) : Bool :=
  let s := (readSign s).2
  if s == ['i', 'n', 'f'] || s == ['n', 'a', 'n'] then true
  else
    let rest := s.dropWhile isDigitOrLine
    (decimal? (s.takeWhile isDigitOrLine)).isSome &&
      match rest with
      | '.' :: s =>
        let rest := s.dropWhile isDigitOrLine
        (readDigits 10 0 (s.takeWhile isDigitOrLine)).isSome && (rest.isEmpty || isExponent rest)
      | rest => isExponent rest

/-! ### Dates and times -/

def twoDigits? (a b : Char) : Option Nat :=
  if a.isDigit && b.isDigit then some ((a.toNat - 48) * 10 + (b.toNat - 48)) else none

def twoDigitsAtMost (max : Nat) (a b : Char) : Bool := (twoDigits? a b).any (· ≤ max)

def daysIn (year month : Nat) : Nat :=
  if month == 2 then
    if (year % 4 == 0 && year % 100 != 0) || year % 400 == 0 then 29 else 28
  else if month == 4 || month == 6 || month == 9 || month == 11 then 30
  else 31

def afterDate? : List Char → Option (List Char)
  | y₁ :: y₂ :: y₃ :: y₄ :: '-' :: m₁ :: m₂ :: '-' :: d₁ :: d₂ :: s => do
    let century ← twoDigits? y₁ y₂
    let year ← twoDigits? y₃ y₄
    let month ← twoDigits? m₁ m₂
    let day ← twoDigits? d₁ d₂
    if 1 ≤ month && month ≤ 12 && 1 ≤ day && day ≤ daysIn (century * 100 + year) month then some s
    else none
  | _ => none

def afterTime? : List Char → Option (List Char)
  | h₁ :: h₂ :: ':' :: m₁ :: m₂ :: ':' :: s₁ :: s₂ :: s =>
    if twoDigitsAtMost 23 h₁ h₂ && twoDigitsAtMost 59 m₁ m₂ && twoDigitsAtMost 60 s₁ s₂ then
      match s with
      | '.' :: c :: t => if c.isDigit then some (t.dropWhile Char.isDigit) else none
      | s => some s
    else none
  | _ => none

/-- An offset of a time, or none at all. -/
def isOffset : List Char → Bool
  | [] => true
  | ['Z'] => true
  | ['z'] => true
  | [sign, h₁, h₂, ':', m₁, m₂] =>
    (sign == '+' || sign == '-') && twoDigitsAtMost 23 h₁ h₂ && twoDigitsAtMost 59 m₁ m₂
  | _ => false

def isOffsetTime (s : List Char) : Bool := (afterTime? s).any isOffset

/-- A date, a time, or both with a letter between them. -/
def isDateTime (s : List Char) : Bool :=
  afterTime? s == some [] ||
    match afterDate? s with
    | some [] => true
    | some (c :: s) => (c == 'T' || c == 't') && isOffsetTime s
    | none => false

/-! ### Words -/

def isWordChar (c : Char) : Bool :=
  c.isAlphanum || c == '+' || c == '-' || c == '_' || c == '.' || c == ':'

def ofWord? (word : List Char) : Option Value :=
  if word == ['t', 'r', 'u', 'e'] then some (.boolean true)
  else if word == ['f', 'a', 'l', 's', 'e'] then some (.boolean false)
  else
    match integer? word with
    | some i => some (.integer i)
    | none => if isFraction word || isDateTime word then some .other else none

/-- What follows the time after a date and a blank, or everything if there is no time. -/
def dropTime (word rest : List Char) : List Char :=
  match rest with
  | ' ' :: s =>
    if afterDate? word == some [] && isOffsetTime (s.takeWhile isWordChar) then
      s.dropWhile isWordChar
    else rest
  | _ => rest

def readWord? (s : List Char) : Option (Value × List Char) :=
  let word := s.takeWhile isWordChar
  (ofWord? word).map fun v => (v, dropTime word (s.dropWhile isWordChar))

end TypeCoupling.Toml
