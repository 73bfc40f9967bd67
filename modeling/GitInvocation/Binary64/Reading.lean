import GitInvocation.Binary64.Basic
import GitInvocation.Text.Lines
import GitInvocation.Text.LowerCase
import GitInvocation.Text.Number
/-!
# Floating-point numbers from text

The loose notation that people type: digits with or without a point, which may stand first or
last, and an exponent. Infinity and the absence of a number may be spelled out.
-/
namespace GitInvocation.Binary64

/-- The exponent behind its letter. -/
def power? (s : List Char) : Option Int :=
  match s with
  | '-' :: digits => (Text.digits? 10 digits).map fun n => -(n : Int)
  | s => (Text.unsigned? 10 s).map fun n => (n : Int)

/-- Digits with at most one point among them: the number without the point, and the places behind
it. -/
def mantissa? (s : List Char) : Option (Nat × Nat) :=
  let (whole, places) := (Text.cut? '.' s).getD (s, [])
  (Text.digits? 10 (whole ++ places)).map fun n => (n, places.length)

def unsigned? (negative : Bool) (s : List Char) : Option Binary64 :=
  let word := String.ofList (s.map Text.lowerAscii)
  if word = "inf" ∨ word = "infinity" then some (.infinite negative)
  else if word = "nan" then some .notANumber
  else do
    let front := s.takeWhile fun c => c ≠ 'e' ∧ c ≠ 'E'
    let (digits, places) ← mantissa? front
    let power ← match s.drop front.length with
      | [] => some 0
      | _ :: rest => power? rest
    some (ofDecimal negative digits (power - places))

/-- The number that a text spells. -/
def parse? (s : List Char) : Option Binary64 :=
  match s with
  | '-' :: rest => unsigned? true rest
  | '+' :: rest => unsigned? false rest
  | s => unsigned? false s

end GitInvocation.Binary64
