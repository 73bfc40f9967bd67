import GitInvocation.Text.Lines
import GitInvocation.Text.Number
/-!
# Dates and times

A moment is a date, a time, or both, in the latter case with or without an offset. It is written
back in one spelling.
-/
namespace GitInvocation.Toml

structure Date where
  year : Nat
  month : Nat
  day : Nat
  deriving DecidableEq

structure Time where
  hour : Nat
  minute : Nat
  second : Option Nat
  nanosecond : Option Nat
  deriving DecidableEq

/-- Minutes east of Greenwich, or Greenwich itself. -/
inductive Offset where
  | zulu
  | minutes (n : Int)
  deriving DecidableEq

inductive Moment where
  | date (d : Date)
  | time (t : Time)
  | both (d : Date) (t : Time) (offset : Option Offset)
  deriving DecidableEq

namespace Moment

/-- A number of exactly `width` digits, and what follows it. -/
def digits? (width : Nat) (s : List Char) : Option (Nat × List Char) :=
  let digits := s.take width
  if digits.length = width ∧ digits.all (Text.isDigit 10) then
    (Text.digits? 10 digits).map fun n => (n, s.drop width)
  else none

/-- A number of two digits that is at most `limit`. -/
def pair? (limit : Nat) (s : List Char) : Option (Nat × List Char) :=
  (digits? 2 s).filter fun r => r.1 ≤ limit

def isLeap (year : Nat) : Bool := year % 4 = 0 && (year % 100 ≠ 0 || year % 400 = 0)

def daysIn (year month : Nat) : Nat :=
  if month = 2 then if isLeap year then 29 else 28
  else if month ∈ [4, 6, 9, 11] then 30 else 31

def date? (s : List Char) : Option (Date × List Char) := do
  let (year, s) ← digits? 4 s
  let s ← Text.afterStart? ['-'] s
  let (month, s) ← pair? 12 s
  let s ← Text.afterStart? ['-'] s
  let (day, s) ← pair? (daysIn year month) s
  if month = 0 ∨ day = 0 then none else some (⟨year, month, day⟩, s)

/-- The digits behind the point, as nanoseconds. Digits beyond the ninth do not count. -/
def fraction? (s : List Char) : Option (Nat × List Char) :=
  let digits := s.takeWhile (Text.isDigit 10)
  let nine := (digits ++ List.replicate 9 '0').take 9
  if digits = [] then none
  else (Text.digits? 10 nine).map fun n => (n, s.dropWhile (Text.isDigit 10))

def time? (s : List Char) : Option (Time × List Char) := do
  let (hour, s) ← pair? 23 s
  let s ← Text.afterStart? [':'] s
  let (minute, s) ← pair? 59 s
  match s with
  | ':' :: s =>
    let (second, s) ← pair? 60 s
    match s with
    | '.' :: s =>
      let (nanosecond, s) ← fraction? s
      some (⟨hour, minute, some second, some nanosecond⟩, s)
    | s => some (⟨hour, minute, some second, none⟩, s)
  | s => some (⟨hour, minute, none, none⟩, s)

def signed? (s : List Char) : Option (Bool × List Char) :=
  match s with
  | '+' :: s => some (false, s)
  | '-' :: s => some (true, s)
  | _ => none

def offset? (s : List Char) : Option (Option Offset) :=
  match s with
  | [] => some none
  | ['Z'] => some (some .zulu)
  | ['z'] => some (some .zulu)
  | s => do
    let (west, s) ← signed? s
    let (hour, s) ← pair? 23 s
    let s ← Text.afterStart? [':'] s
    let (minute, s) ← pair? 59 s
    let n : Int := hour * 60 + minute
    if s = [] then some (some (.minutes (if west then -n else n))) else none

/-- The marks between a date and a time. -/
def separators : List Char := ['T', 't', ' ']

def parse? (s : List Char) : Option Moment :=
  match date? s with
  | some (d, []) => some (.date d)
  | some (d, c :: s) =>
    if c ∈ separators then do
      let (t, s) ← time? s
      let offset ← offset? s
      some (.both d t offset)
    else none
  | none =>
    match time? s with
    | some (t, []) => some (.time t)
    | _ => none

end Moment

def Date.text (d : Date) : String :=
  Text.padded 4 d.year ++ "-" ++ Text.padded 2 d.month ++ "-" ++ Text.padded 2 d.day

/-- A fraction without the zeros at its end, of which one is left if there is nothing else. -/
def fractionText (nanosecond : Nat) : String :=
  match ((Text.padded 9 nanosecond).toList.reverse.dropWhile (· = '0')).reverse with
  | [] => "0"
  | digits => String.ofList digits

def Time.text (t : Time) : String :=
  Text.padded 2 t.hour ++ ":" ++ Text.padded 2 t.minute ++
    (t.second.map fun n => ":" ++ Text.padded 2 n).getD "" ++
    (t.nanosecond.map fun n => "." ++ fractionText n).getD ""

def Offset.text : Offset → String
  | .zulu => "Z"
  | .minutes n =>
    (if n < 0 then "-" else "+") ++ Text.padded 2 (n.natAbs / 60) ++ ":" ++
      Text.padded 2 (n.natAbs % 60)

def Moment.text : Moment → String
  | .date d => d.text
  | .time t => t.text
  | .both d t offset => d.text ++ "T" ++ t.text ++ (offset.map Offset.text).getD ""

end GitInvocation.Toml
