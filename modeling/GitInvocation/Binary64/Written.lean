import GitInvocation.Binary64.Shortest
/-!
# Floating-point numbers in text

Three notations share the shortest digits. The plain one never has an exponent and shows whole
numbers without a point; the pointed one adds the point; the compact one turns to an exponent
for numbers that are very large or very small.
-/
namespace GitInvocation.Binary64

private def zeros (n : Nat) : String := String.ofList (List.replicate n '0')

/-- Digits with the point in its place. -/
def positional (x : Decimal) : String :=
  let digits := Nat.toDigits 10 x.digits
  if 0 ≤ x.exponent then
    String.ofList digits ++ (if x.digits = 0 then "" else zeros x.exponent.toNat)
  else
    let places := (-x.exponent).toNat
    if places < digits.length then
      String.ofList (digits.take (digits.length - places)) ++ "." ++
        String.ofList (digits.drop (digits.length - places))
    else "0." ++ zeros (places - digits.length) ++ String.ofList digits

private def withSign (negative : Bool) (s : String) : String := if negative then "-" ++ s else s

/-- No exponent, and no point in a whole number. -/
def plain : Binary64 → String
  | .finite negative m e => withSign negative (positional (shortest .upper m e))
  | .infinite negative => withSign negative "inf"
  | .notANumber => "NaN"

private def pointed (s : String) : String := if s.toList.contains '.' then s else s ++ ".0"

/-- No exponent, and a point in every number. -/
def plainWithPoint (x : Binary64) : String :=
  match x with
  | .finite .. => pointed (plain x)
  | _ => plain x

/-- One digit before the point and a signed exponent. -/
def scientific (x : Decimal) (exponent : Int) : String :=
  let mark := if exponent < 0 then "e-" else "e+"
  let power := mark ++ toString exponent.natAbs
  match Nat.toDigits 10 x.digits with
  | [] => power
  | [d] => d.toString ++ power
  | d :: rest => d.toString ++ "." ++ String.ofList rest ++ power

/-- A point and no exponent from `1e-5` to below `1e16`, else an exponent. -/
def compact : Binary64 → String
  | .finite negative m e =>
    let x := shortest .even m e
    let exponent : Int := x.exponent + (Nat.toDigits 10 x.digits).length - 1
    withSign negative <|
      if x.digits = 0 then "0.0"
      else if -5 ≤ exponent ∧ exponent ≤ 15 then pointed (positional x)
      else scientific x exponent
  | x => plain x

end GitInvocation.Binary64
