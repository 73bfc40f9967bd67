/-!
# Reading bytes as text

Bytes are read as UTF-8, and what is no character is replaced. Bytes that begin a character are
replaced together when the next one does not continue it; any other byte is replaced by itself.
-/
namespace GitInvocation.Text

/-- What stands in the place of bytes that are no character. -/
def replacement : Char := '\uFFFD'

/-- A character that has begun: what its bytes have given so far, how many bytes are missing, and
the range in which the next one has to be. -/
structure Begun where
  value : Nat
  missing : Nat
  low : Nat
  high : Nat

/-- A character of several bytes begins. The range of its second byte leaves out what could be
written with fewer bytes, the surrogates, and what lies above the last code point. -/
def begin? (b : Nat) : Option Begun :=
  if 0xC2 ≤ b ∧ b ≤ 0xDF then some ⟨b - 0xC0, 1, 0x80, 0xBF⟩
  else if 0xE0 ≤ b ∧ b ≤ 0xEF then
    some ⟨b - 0xE0, 2, if b = 0xE0 then 0xA0 else 0x80, if b = 0xED then 0x9F else 0xBF⟩
  else if 0xF0 ≤ b ∧ b ≤ 0xF4 then
    some ⟨b - 0xF0, 3, if b = 0xF0 then 0x90 else 0x80, if b = 0xF4 then 0x8F else 0xBF⟩
  else none

/-- A byte between two characters: the characters that it ends, and the one that it begins. -/
def decodeFirst (b : Nat) : List Char × Option Begun :=
  if b < 0x80 then ([Char.ofNat b], none)
  else
    match begin? b with
    | some begun => ([], some begun)
    | none => ([replacement], none)

/-- A byte after what has begun. One that does not continue it counts as a first byte again. -/
def decodeByte : Option Begun → Nat → List Char × Option Begun
  | none, b => decodeFirst b
  | some begun, b =>
    if begun.low ≤ b ∧ b ≤ begun.high then
      let value := begun.value * 0x40 + (b - 0x80)
      if begun.missing = 1 then ([Char.ofNat value], none)
      else ([], some ⟨value, begun.missing - 1, 0x80, 0xBF⟩)
    else
      let (ended, begun) := decodeFirst b
      (replacement :: ended, begun)

def decodeFrom : Option Begun → List UInt8 → List Char
  | none, [] => []
  | some _, [] => [replacement]
  | begun, b :: rest =>
    let (ended, begun) := decodeByte begun b.toNat
    ended ++ decodeFrom begun rest

/-- The text of some bytes. -/
def ofBytes (bytes : List UInt8) : String := String.ofList (decodeFrom none bytes)

end GitInvocation.Text
