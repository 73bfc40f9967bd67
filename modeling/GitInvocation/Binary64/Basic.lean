/-!
# Binary floating-point numbers

The numbers of 64 bits: 53 bits of precision, exponents down to that of the least subnormal. A
number is kept as what it means, so rounding is a statement about ratios of natural numbers.
-/
namespace GitInvocation

/-- `finite negative m e` is `m * 2 ^ e` with its sign. Zero has two signs. -/
inductive Binary64 where
  | finite (negative : Bool) (mantissa : Nat) (exponent : Int)
  | infinite (negative : Bool)
  | notANumber
  deriving DecidableEq

namespace Binary64

/-- The exponent of the least positive number, and of zero. -/
def leastExponent : Int := -1074

def greatestExponent : Int := 971

def precision : Nat := 53

def zero (negative : Bool) : Binary64 := .finite negative 0 leastExponent

/-- `num / den` rounded to the nearest natural number, a tie to the even one. -/
def divideToEven (num den : Nat) : Nat :=
  let q := num / den
  let twice := 2 * (num % den)
  if twice < den then q
  else if den < twice then q + 1
  else if q % 2 = 0 then q else q + 1

/-- `num / den` in units of `2 ^ e`, as a ratio. -/
def scaled (num den : Nat) (e : Int) : Nat × Nat :=
  if 0 ≤ e then (num, den * Nat.pow 2 e.toNat) else (num * Nat.pow 2 (-e).toNat, den)

/-- The exponent that leaves `precision` bits before the point, or the least one. -/
def exponentFor (num den : Nat) : Int :=
  let guess : Int := (num.log2 : Int) - (den.log2 : Int) - (precision : Int) + 1
  let (n, d) := scaled num den guess
  let fitting := if n < d * Nat.pow 2 (precision - 1) then guess - 1 else guess
  max fitting leastExponent

/-- The number nearest to `num / den`, a tie to the even mantissa. -/
def round (negative : Bool) (num den : Nat) : Binary64 :=
  if num = 0 then zero negative
  else
    let e := exponentFor num den
    let (n, d) := scaled num den e
    let m := divideToEven n d
    let (m, e) := if m = Nat.pow 2 precision then (Nat.pow 2 (precision - 1), e + 1) else (m, e)
    if greatestExponent < e then .infinite negative else .finite negative m e

def ofNat (n : Nat) : Binary64 := round false n 1

/-- The nearest number to `digits * 10 ^ exponent`. Exponents far outside the range of finite
numbers are decided without computing the power. -/
def ofDecimal (negative : Bool) (digits : Nat) (exponent : Int) : Binary64 :=
  let places : Int := (Nat.toDigits 10 digits).length
  if digits = 0 then zero negative
  else if 310 < exponent + places then .infinite negative
  else if exponent + places < -330 then zero negative
  else if 0 ≤ exponent then round negative (digits * Nat.pow 10 exponent.toNat) 1
  else round negative digits (Nat.pow 10 (-exponent).toNat)

/-- A positive finite number as a ratio. -/
def ratio (mantissa : Nat) (exponent : Int) : Nat × Nat :=
  if 0 ≤ exponent then (mantissa * Nat.pow 2 exponent.toNat, 1)
  else (mantissa, Nat.pow 2 (-exponent).toNat)

def mul : Binary64 → Binary64 → Binary64
  | .finite s m e, .finite t n f =>
    let (a, b) := ratio m e
    let (c, d) := ratio n f
    round (s != t) (a * c) (b * d)
  | .infinite s, .finite t _ _ => .infinite (s != t)
  | .finite s _ _, .infinite t => .infinite (s != t)
  | .infinite s, .infinite t => .infinite (s != t)
  | _, _ => .notANumber

/-- Division by a finite number other than zero. -/
def div : Binary64 → Binary64 → Binary64
  | .finite s m e, .finite t n f =>
    let (a, b) := ratio m e
    let (c, d) := ratio n f
    round (s != t) (a * d) (b * c)
  | .infinite s, .finite t _ _ => .infinite (s != t)
  | _, _ => .notANumber

def neg : Binary64 → Binary64
  | .finite s m e => .finite (!s) m e
  | .infinite s => .infinite (!s)
  | .notANumber => .notANumber

/-- The nearest natural number, a half rounded up; negative numbers and no number at all give
zero, and `limit` is not exceeded. -/
def toNatClamped (limit : Nat) : Binary64 → Nat
  | .finite true _ _ => 0
  | .finite false m e =>
    let (a, b) := ratio m e
    min limit ((2 * a + b) / (2 * b))
  | .infinite negative => if negative then 0 else limit
  | .notANumber => 0

end Binary64

end GitInvocation
