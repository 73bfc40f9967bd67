import GitInvocation.Text.Number
/-!
# JSON strings

A string is read character by character. A half of a surrogate pair that stands alone is noted
but does not stop the reading, for a reader that only skips the string need not mind it.
-/
namespace GitInvocation.Json.Quoted

/-- Where the reader stands within a string. -/
inductive Place where
  | plain
  | escape
  | hex (left value : Nat) (high : Option Nat)
  | high (unit : Nat)
  | highEscape (unit : Nat)

/-- How the reading of a string stops. -/
inductive Stop where
  | closed
  | ended
  | malformed
  deriving DecidableEq

/-- `half` tells of a half pair that stands alone. -/
structure Scan where
  content : List Char
  half : Bool
  stop : Stop
  rest : List Char

/-- What one character does. -/
inductive Move where
  | go (added : List Char) (half : Bool) (next : Place)
  | stop (half : Bool) (why : Stop)

def isHigh (unit : Nat) : Bool := decide (0xD800 ≤ unit) && decide (unit ≤ 0xDBFF)
def isLow (unit : Nat) : Bool := decide (0xDC00 ≤ unit) && decide (unit ≤ 0xDFFF)

def moveEscape (c : Char) (rest : List Char) : Move :=
  if c = '"' ∨ c = '\\' ∨ c = '/' then .go [c] false .plain
  else if c = 'b' then .go ['\x08'] false .plain
  else if c = 'f' then .go ['\x0c'] false .plain
  else if c = 'n' then .go ['\n'] false .plain
  else if c = 'r' then .go ['\r'] false .plain
  else if c = 't' then .go ['\t'] false .plain
  else if c = 'u' then
    if (String.ofList (rest.take 4)).utf8ByteSize < 4 then .stop false .ended
    else .go [] false (.hex 4 0 none)
  else .stop false .malformed

def movePlain (c : Char) : Move :=
  if c = '"' then .stop false .closed
  else if c = '\\' then .go [] false .escape
  else if c.toNat < 0x20 then .stop false .malformed
  else .go [c] false .plain

/-- A code unit has been read, after the high half of a pair or not. -/
def moveUnit (unit : Nat) : Option Nat → Move
  | none =>
    if isHigh unit then .go [] false (.high unit)
    else if isLow unit then .go [] true .plain
    else .go [Char.ofNat unit] false .plain
  | some high =>
    if isLow unit then
      .go [Char.ofNat ((high - 0xD800) * 0x400 + (unit - 0xDC00) + 0x10000)] false .plain
    else .go [] true .plain

/-- Notes a half pair. -/
def Move.noting : Move → Move
  | .go added _ next => .go added true next
  | .stop _ why => .stop true why

def move (c : Char) (rest : List Char) : Place → Move
  | .plain => movePlain c
  | .escape => moveEscape c rest
  | .hex left value high =>
    match Text.digit? 16 c with
    | none => .stop false .malformed
    | some d =>
      if left ≤ 1 then moveUnit (value * 16 + d) high
      else .go [] false (.hex (left - 1) (value * 16 + d) high)
  | .high unit => if c = '\\' then .go [] false (.highEscape unit) else (movePlain c).noting
  | .highEscape unit =>
    if c = 'u' then
      if (String.ofList (rest.take 4)).utf8ByteSize < 4 then .stop false .ended
      else .go [] false (.hex 4 0 (some unit))
    else (moveEscape c rest).noting

/-- Reads a string from behind its opening quote. -/
def scan (place : Place) : List Char → Scan
  | [] => ⟨[], false, .ended, []⟩
  | c :: rest =>
    match move c rest place with
    | .stop half why => ⟨[], half, why, rest⟩
    | .go added half next =>
      let tail := scan next rest
      { tail with content := added ++ tail.content, half := half || tail.half }

theorem length_scan (place : Place) (s : List Char) : (scan place s).rest.length ≤ s.length := by
  induction s generalizing place with
  | nil => simp [scan]
  | cons c rest ih =>
    unfold scan
    cases move c rest place with
    | stop half why => simp
    | go added half next => exact Nat.le_succ_of_le (ih next)

end GitInvocation.Json.Quoted
