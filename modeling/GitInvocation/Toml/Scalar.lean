import GitInvocation.Binary64.Basic
import GitInvocation.Toml.Moment
/-!
# TOML values without structure

A value that is no string, array or table is a run of characters: a truth value, an integer, a
float, or a moment. Underscores may part the digits of a number, one at a time.
-/
namespace GitInvocation.Toml

inductive Scalar where
  | bool (value : Bool)
  | integer (value : Int)
  | float (value : Binary64)
  | text (value : String)
  | moment (value : Moment)
  deriving DecidableEq

namespace Scalar

/-- The digits of a number without its underscores. Each of those stands between two digits. -/
def parted? (base : Nat) : List Char → Option (List Char)
  | [] => none
  | [c] => if Text.isDigit base c then some [c] else none
  | c :: '_' :: rest =>
    if Text.isDigit base c then (parted? base rest).map (c :: ·) else none
  | c :: rest => if Text.isDigit base c then (parted? base rest).map (c :: ·) else none

def number? (base : Nat) (s : List Char) : Option Nat :=
  (parted? base s).bind (Text.digits? base)

/-- The digits of a number that does not start with a zero, unless it is zero. -/
def whole? (s : List Char) : Option (List Char) :=
  match s with
  | '0' :: _ :: _ => none
  | s => parted? 10 s

def sign : List Char → Bool × List Char
  | '+' :: s => (false, s)
  | '-' :: s => (true, s)
  | s => (false, s)

/-- The base that a prefix announces. -/
def based? (s : List Char) : Option (Nat × List Char) :=
  match s with
  | '0' :: 'x' :: s => some (16, s)
  | '0' :: 'o' :: s => some (8, s)
  | '0' :: 'b' :: s => some (2, s)
  | _ => none

def fits (n : Int) : Bool := decide (Text.leastInt64 ≤ n) && decide (n ≤ Text.greatestInt64)

/-- An integer of 64 bits. Only a decimal one may have a sign. -/
def integer? (s : List Char) : Option Int :=
  let n : Option Int :=
    match based? s with
    | some (base, digits) => (number? base digits).map fun n => (n : Int)
    | none =>
      let (negative, digits) := sign s
      ((whole? digits).bind (Text.digits? 10)).map fun n => if negative then -(n : Int) else n
  n.filter fits

/-- The exponent of a float, from behind its letter. -/
def exponent? (s : List Char) : Option Int :=
  let (negative, digits) := sign s
  (number? 10 digits).map fun n => if negative then -(n : Int) else n

/-- A float without its sign: its digits and the power of ten they are multiplied with. -/
def decimal? (s : List Char) : Option (Nat × Int) := do
  let front := s.takeWhile fun c => c ≠ 'e' ∧ c ≠ 'E'
  let exponent ← match s.drop front.length with
    | [] => some 0
    | _ :: power => exponent? power
  let (whole, places) ← match Text.cut? '.' front with
    | none => if front.length = s.length then none else (whole? front).map fun d => (d, [])
    | some (before, behind) => (whole? before).bind fun d => (parted? 10 behind).map fun p => (d, p)
  let digits ← Text.digits? 10 (whole ++ places)
  some (digits, exponent - places.length)

def special? (negative : Bool) (s : List Char) : Option Binary64 :=
  if s = "inf".toList then some (.infinite negative)
  else if s = "nan".toList then some .notANumber
  else none

/-- A float. One that is too large is refused. -/
def float? (s : List Char) : Option Binary64 :=
  let (negative, s) := sign s
  match special? negative s with
  | some x => some x
  | none =>
    (decimal? s).bind fun (digits, exponent) =>
      match Binary64.ofDecimal negative digits exponent with
      | .infinite _ => none
      | x => some x

/-- The value that a run of characters stands for. -/
def parse? (s : List Char) : Option Scalar :=
  if s = "true".toList then some (.bool true)
  else if s = "false".toList then some (.bool false)
  else
    match integer? s, float? s with
    | some n, _ => some (.integer n)
    | none, some x => some (.float x)
    | none, none => (Moment.parse? s).map .moment

end Scalar

/-- True of a run that is a date and nothing else. A time may follow it behind a blank. -/
def isDate (s : List Char) : Bool :=
  match Moment.parse? s with
  | some (.date _) => true
  | _ => false

end GitInvocation.Toml
