import GitInvocation.Json.Basic
import GitInvocation.Text.Number
/-!
# JSON numbers

A number without fraction and exponent is an integer when it fits in 64 bits, zero with a minus
sign excepted. Any other number is a float: its leading digits, as many as fit in an unsigned
word of 64 bits, are scaled by a power of ten in one floating-point operation.
-/
namespace GitInvocation.Json.Number

/-- A number as it is written: the digits of its whole part and its fraction, and its exponent. -/
structure Written where
  negative : Bool
  whole : List Char
  fraction : Option (List Char)
  exponent : Option (Bool × List Char)

/-- How the reading of a number ends. -/
inductive Scan where
  | number (written : Written) (rest : List Char)
  | ended
  | malformed

def stopped (rest : List Char) : Scan := if rest = [] then .ended else .malformed

theorem stopped_ne_number {rest : List Char} {w : Written} {r : List Char} :
    stopped rest ≠ .number w r := by
  unfold stopped; split <;> simp

/-- The digits in front and what follows them. -/
def spanDigits (s : List Char) : List Char × List Char :=
  (s.takeWhile (Text.isDigit 10), s.dropWhile (Text.isDigit 10))

theorem length_spanDigits (s : List Char) :
    (spanDigits s).1.length + (spanDigits s).2.length = s.length := by
  rw [← List.length_append]
  exact congrArg List.length List.takeWhile_append_dropWhile

/-- The sign of an exponent and what follows it. -/
def spanSign : List Char → Bool × List Char
  | '+' :: rest => (false, rest)
  | '-' :: rest => (true, rest)
  | rest => (false, rest)

theorem length_spanSign (s : List Char) : (spanSign s).2.length ≤ s.length := by
  unfold spanSign; split <;> simp

/-- An exponent, behind the letter that announces it. -/
def scanPower (w : Written) (s : List Char) : Scan :=
  let sign := spanSign s
  let digits := spanDigits sign.2
  if digits.1 = [] then stopped digits.2
  else .number { w with exponent := some (sign.1, digits.1) } digits.2

def scanExponent (w : Written) : List Char → Scan
  | [] => .number w []
  | c :: rest => if c = 'e' ∨ c = 'E' then scanPower w rest else .number w (c :: rest)

/-- A fraction, behind the point. -/
def scanPlaces (w : Written) (s : List Char) : Scan :=
  let digits := spanDigits s
  if digits.1 = [] then stopped digits.2
  else scanExponent { w with fraction := some digits.1 } digits.2

def scanFraction (w : Written) : List Char → Scan
  | [] => scanExponent w []
  | c :: rest => if c = '.' then scanPlaces w rest else scanExponent w (c :: rest)

/-- A digit other than zero may be followed by more digits, a zero may not. -/
def scanWhole (negative : Bool) (s : List Char) : Scan :=
  let digits := spanDigits s
  if digits.1 = [] then stopped digits.2
  else if digits.1.head? = some '0' ∧ 1 < digits.1.length then .malformed
  else scanFraction ⟨negative, digits.1, none, none⟩ digits.2

/-- A number at the front of a text. -/
def scan : List Char → Scan
  | [] => .ended
  | c :: rest => if c = '-' then scanWhole true rest else scanWhole false (c :: rest)

section Length

variable {w v : Written} {negative : Bool} {s rest : List Char}

theorem length_scanPower (h : scanPower w s = .number v rest) : rest.length ≤ s.length := by
  have hs := length_spanSign s
  have hd := length_spanDigits (spanSign s).2
  simp only [scanPower] at h
  split at h
  · exact absurd h stopped_ne_number
  · simp only [Scan.number.injEq] at h
    rw [← h.2]; omega

theorem length_scanExponent (h : scanExponent w s = .number v rest) : rest.length ≤ s.length := by
  cases s with
  | nil => simp_all [scanExponent]
  | cons c s =>
    simp only [scanExponent] at h
    split at h
    · exact Nat.le_succ_of_le (length_scanPower h)
    · simp only [Scan.number.injEq] at h
      exact Nat.le_of_eq (congrArg List.length h.2.symm)

theorem length_scanPlaces (h : scanPlaces w s = .number v rest) : rest.length ≤ s.length := by
  have hd := length_spanDigits s
  simp only [scanPlaces] at h
  split at h
  · exact absurd h stopped_ne_number
  · have := length_scanExponent h; omega

theorem length_scanFraction (h : scanFraction w s = .number v rest) : rest.length ≤ s.length := by
  cases s with
  | nil => exact length_scanExponent h
  | cons c s =>
    simp only [scanFraction] at h
    split at h
    · exact Nat.le_succ_of_le (length_scanPlaces h)
    · exact length_scanExponent h

theorem length_scanWhole (h : scanWhole negative s = .number v rest) :
    rest.length < s.length := by
  have hd := length_spanDigits s
  simp only [scanWhole] at h
  split at h
  · exact absurd h stopped_ne_number
  · rename_i hne
    have hpos := List.length_pos_iff.mpr hne
    split at h
    · simp at h
    · have := length_scanFraction h; omega

/-- A number takes at least one character. -/
theorem length_scan (h : scan s = .number v rest) : rest.length < s.length := by
  cases s with
  | nil => simp [scan] at h
  | cons c s =>
    simp only [scan] at h
    split at h
    · exact Nat.lt_succ_of_lt (length_scanWhole h)
    · exact length_scanWhole h

end Length

def digitValue (c : Char) : Nat := c.toNat - 0x30

/-- Takes digits into a word of 64 bits while they fit. The digits left over are returned. -/
def take64 : Nat → List Char → Nat × List Char
  | n, [] => (n, [])
  | n, c :: rest =>
    let next := n * 10 + digitValue c
    if Text.greatestUInt64 < next then (n, c :: rest) else take64 next rest

/-- `n * 10 ^ exponent` in floating point; `none` when it is too large. -/
def scale? (n : Binary64) (exponent : Int) : Nat → Option Binary64
  | 0 => some n
  | fuel + 1 =>
    if exponent.natAbs ≤ 308 then
      let power := Binary64.ofDecimal false 1 exponent.natAbs
      if 0 ≤ exponent then
        match n.mul power with
        | .infinite _ => none
        | x => some x
      else some (n.div power)
    else match n with
      | .finite _ 0 _ => some n
      | _ =>
        if 0 ≤ exponent then none
        else scale? (n.div (Binary64.ofDecimal false 1 308)) (exponent + 308) fuel

def greatestInt32 : Nat := 0x7FFFFFFF
def leastInt32 : Int := -0x80000000

/-- The float that a number stands for; `none` when it is too large. -/
def toFloat? (w : Written) : Option Binary64 :=
  let (whole, extra) := take64 0 w.whole
  let (significand, left) := take64 whole (w.fraction.getD [])
  let places := (w.fraction.getD []).length - left.length
  let start : Int := (extra.length : Int) - places
  let magnitude :=
    match w.exponent with
    | none => scale? (.ofNat significand) start 8
    | some (down, digits) =>
      let power := digits.foldl (fun n c => n * 10 + digitValue c) 0
      if greatestInt32 < power then
        if significand ≠ 0 ∧ ¬ down then none else some (.zero false)
      else
        let exponent := if down then start - power else start + power
        scale? (.ofNat significand) (max leastInt32 (min greatestInt32 exponent)) 8
  magnitude.map fun x => if w.negative then x.neg else x

/-- The value of a number; `none` when it is too large for a float. -/
def value? (w : Written) : Option Json :=
  match w.fraction, w.exponent with
  | none, none =>
    let (n, extra) := take64 0 w.whole
    if extra ≠ [] then (toFloat? w).map .float
    else if ¬ w.negative then some (.integer n)
    else if n ≠ 0 ∧ n ≤ 0x8000000000000000 then some (.integer (-(n : Int)))
    else some (.float (Binary64.ofNat n).neg)
  | _, _ => (toFloat? w).map .float

end GitInvocation.Json.Number
