import GitInvocation.Binary64.Basic
/-!
# Shortest decimals

Among the decimals that round to a given number, the one with the fewest digits is written, and
of those the nearest. The search goes through the decimal grids from coarse to fine. Notations
differ in what they write when two decimals are equally near.
-/
namespace GitInvocation.Binary64

/-- `digits * 10 ^ exponent`, with no zero at the end of the digits. -/
structure Decimal where
  digits : Nat
  exponent : Int

/-- True when `d * 10 ^ p` rounds to `m * 2 ^ e`. -/
def hits (m : Nat) (e : Int) (d : Nat) (p : Int) : Bool :=
  let rounded :=
    if 0 ≤ p then round false (d * Nat.pow 10 p.toNat) 1
    else round false d (Nat.pow 10 (-p).toNat)
  rounded = .finite false m e

/-- Which of two decimals that are equally near is written. -/
inductive Tie where
  | even
  | upper
  deriving DecidableEq

/-- True when the neighbour above is preferred, for a remainder of a division by `d`. -/
def Tie.prefersAbove (tie : Tie) (below remainder d : Nat) : Bool :=
  d < 2 * remainder || (d = 2 * remainder && (tie = .upper || below % 2 = 1))

/-- The better of the two neighbours on the grid of `10 ^ p` of a number given as a ratio. -/
def neighbour? (tie : Tie) (m : Nat) (e : Int) (num den : Nat) (p : Int) : Option Nat :=
  let (n, d) :=
    if 0 ≤ p then (num, den * Nat.pow 10 p.toNat) else (num * Nat.pow 10 (-p).toNat, den)
  let below := n / d
  let above := below + 1
  match hits m e below p, hits m e above p with
  | true, true => some (if tie.prefersAbove below (n % d) d then above else below)
  | true, false => some below
  | false, true => some above
  | false, false => none

/-- Refines the grid until a neighbour hits. -/
def search (tie : Tie) (m : Nat) (e : Int) (num den : Nat) : Nat → Int → Decimal
  | 0, p => ⟨num, p⟩
  | steps + 1, p =>
    match neighbour? tie m e num den p with
    | some d => ⟨d, p⟩
    | none => search tie m e num den steps (p - 1)

/-- Moves the zeros at the end of the digits into the exponent. -/
def stripped : Nat → Decimal → Decimal
  | 0, x => x
  | fuel + 1, x =>
    if x.digits ≠ 0 ∧ x.digits % 10 = 0 then stripped fuel ⟨x.digits / 10, x.exponent + 1⟩ else x

/-- The shortest decimal that rounds to `m * 2 ^ e`. -/
def shortest (tie : Tie) (m : Nat) (e : Int) : Decimal :=
  if m = 0 then ⟨0, 0⟩
  else
    let (num, den) := ratio m e
    let scale : Int :=
      ((Nat.toDigits 10 num).length : Int) - ((Nat.toDigits 10 den).length : Int) + 1
    stripped 20 (search tie m e num den 25 scale)

end GitInvocation.Binary64
