/-!
# Whole numbers in text

A number is written with ASCII digits, any number of leading zeros allowed. What may stand in
front of the digits and how large the number may be differs from reader to reader.
-/
namespace GitInvocation.Text

/-- The value of a digit in bases up to 16, in either letter case. -/
def digit? (base : Nat) (c : Char) : Option Nat :=
  let n :=
    if '0' ≤ c ∧ c ≤ '9' then some (c.toNat - 0x30)
    else if 'a' ≤ c ∧ c ≤ 'f' then some (c.toNat - 0x61 + 10)
    else if 'A' ≤ c ∧ c ≤ 'F' then some (c.toNat - 0x41 + 10)
    else none
  n.filter (· < base)

def isDigit (base : Nat) (c : Char) : Bool := (digit? base c).isSome

/-- Appends digits to a number already read. -/
def digitsFrom? (base : Nat) : Nat → List Char → Option Nat
  | n, [] => some n
  | n, c :: rest => (digit? base c).bind fun d => digitsFrom? base (n * base + d) rest

/-- One digit or more. -/
def digits? (base : Nat) : List Char → Option Nat
  | [] => none
  | c :: rest => digitsFrom? base 0 (c :: rest)

/-- A natural number, with or without a plus sign. -/
def unsigned? (base : Nat) : List Char → Option Nat
  | '+' :: rest => digits? base rest
  | s => digits? base s

/-- A natural number of at most `limit`. -/
def bounded? (base limit : Nat) (s : List Char) : Option Nat :=
  (unsigned? base s).filter (· ≤ limit)

def leastInt64 : Int := -0x8000000000000000
def greatestInt64 : Int := 0x7FFFFFFFFFFFFFFF
def greatestUInt64 : Nat := 0xFFFFFFFFFFFFFFFF

/-- An integer of 64 bits, with or without a sign. -/
def int64? (s : List Char) : Option Int :=
  let n : Option Int := match s with
    | '-' :: rest => (digits? 10 rest).map fun n => -(n : Int)
    | _ => (unsigned? 10 s).map fun n => (n : Int)
  n.filter fun n => decide (leastInt64 ≤ n) && decide (n ≤ greatestInt64)

/-- The lower-case hexadecimal digits of a number. -/
def hex (n : Nat) : String := String.ofList (Nat.toDigits 16 n)

/-- The digits of a number, with zeros in front up to the width. -/
def padded (width n : Nat) : String :=
  let digits := Nat.toDigits 10 n
  String.ofList (List.replicate (width - digits.length) '0' ++ digits)

end GitInvocation.Text
