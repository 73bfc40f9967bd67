import GitInvocation.Json.Number
import GitInvocation.Json.Quoted
/-!
# JSON lexemes

A text is cut into brackets, marks, names, numbers and strings, with white space between them
dropped. At the first place where no lexeme can be read the list ends with a broken one, which
says what was begun there and whether it was the end of the text that broke it.
-/
namespace GitInvocation.Json

inductive Lexeme where
  | openObject
  | closeObject
  | openArray
  | closeArray
  | colon
  | comma
  | word (value : Json)
  | text (value : String) (half : Bool)
  | hugeNumber
  | brokenText (half ended : Bool)
  | brokenNumber (ended : Bool)
  | brokenName (ended : Bool)
  | stray

namespace Lexeme

def isSpace (c : Char) : Bool := c = ' ' || c = '\t' || c = '\n' || c = '\r'

def isBroken : Lexeme → Bool
  | .brokenText .. => true
  | .brokenNumber _ => true
  | .brokenName _ => true
  | .stray => true
  | _ => false

/-- Reads the rest of a name. -/
def afterName (value : Json) : List Char → List Char → Lexeme × List Char
  | [], s => (.word value, s)
  | _ :: _, [] => (.brokenName true, [])
  | n :: name, c :: s => if n = c then afterName value name s else (.brokenName false, s)

def ofText (scan : Quoted.Scan) : Lexeme × List Char :=
  match scan.stop with
  | .closed => (.text (String.ofList scan.content) scan.half, scan.rest)
  | .ended => (.brokenText scan.half true, scan.rest)
  | .malformed => (.brokenText scan.half false, scan.rest)

def ofNumber : Number.Scan → Lexeme × List Char
  | .number w rest =>
    match Number.value? w with
    | some v => (.word v, rest)
    | none => (.hugeNumber, rest)
  | .ended => (.brokenNumber true, [])
  | .malformed => (.brokenNumber false, [])

/-- The lexemes of a single character. -/
def marks : List (Char × Lexeme) :=
  [('\x7b', .openObject), ('\x7d', .closeObject), ('[', .openArray), (']', .closeArray),
   (':', .colon), (',', .comma)]

/-- The three names, by their first character. -/
def words : List (Char × Json × List Char) :=
  [('n', .null, ['u', 'l', 'l']), ('t', .bool true, ['r', 'u', 'e']),
   ('f', .bool false, ['a', 'l', 's', 'e'])]

/-- The lexeme that begins with the character `c`. -/
def starting (c : Char) (rest : List Char) : Lexeme × List Char :=
  match marks.lookup c, words.lookup c with
  | some mark, _ => (mark, rest)
  | none, some (value, name) => afterName value name rest
  | none, none =>
    if c = '"' then ofText (Quoted.scan .plain rest)
    else if c = '-' ∨ Text.isDigit 10 c then ofNumber (Number.scan (c :: rest))
    else (.stray, rest)

theorem length_afterName (value : Json) (name s : List Char) :
    (afterName value name s).2.length ≤ s.length := by
  induction name generalizing s with
  | nil => exact Nat.le_refl _
  | cons n name ih =>
    cases s with
    | nil => exact Nat.le_refl _
    | cons c s =>
      simp only [afterName]
      split
      · exact Nat.le_succ_of_le (ih s)
      · simp

theorem length_ofText (scan : Quoted.Scan) : (ofText scan).2 = scan.rest := by
  unfold ofText; split <;> rfl

theorem length_ofNumber (s : List Char) (hs : s ≠ []) :
    (ofNumber (Number.scan s)).2.length < s.length := by
  have hpos := List.length_pos_iff.mpr hs
  cases h : Number.scan s with
  | ended => simpa [ofNumber] using hpos
  | malformed => simpa [ofNumber] using hpos
  | number w rest =>
    have := Number.length_scan h
    simp only [ofNumber]
    split <;> exact this

/-- A lexeme takes at least one character. -/
theorem length_starting (c : Char) (rest : List Char) :
    (starting c rest).2.length < (c :: rest).length := by
  unfold starting
  split
  · exact Nat.lt_succ_self _
  · exact Nat.lt_succ_of_le (length_afterName _ _ _)
  · split
    · rw [length_ofText]; exact Nat.lt_succ_of_le (Quoted.length_scan _ _)
    · split
      · exact length_ofNumber _ (List.cons_ne_nil _ _)
      · exact Nat.lt_succ_self _

/-- The next lexeme and what follows it; `none` when only white space is left. -/
def next? (s : List Char) : Option (Lexeme × List Char) :=
  match s.dropWhile isSpace with
  | [] => none
  | c :: rest => some (starting c rest)

theorem length_next? {s rest : List Char} {l : Lexeme} (h : next? s = some (l, rest)) :
    rest.length < s.length := by
  have hs := (List.dropWhile_suffix (l := s) isSpace).length_le
  unfold next? at h
  split at h
  · simp at h
  · rename_i c tail hd
    rw [hd] at hs
    have := length_starting c tail
    simp only [Option.some.injEq] at h
    rw [h] at this
    exact Nat.lt_of_lt_of_le this hs

/-- The lexemes of a text, up to the first broken one. -/
def ofChars (s : List Char) : List Lexeme :=
  match _h : next? s with
  | none => []
  | some (l, rest) => l :: if l.isBroken then [] else ofChars rest
termination_by s.length
decreasing_by exact length_next? _h

end Lexeme

end GitInvocation.Json
