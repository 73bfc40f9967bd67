import GitInvocation.Toml.Quoted
/-!
# TOML lexemes

A document is cut into brackets, marks, strings, line ends, white space, and runs of all other
characters. What a run means depends on where it stands, so it is kept as it is. Comments are
left out, for a line end always follows them.
-/
namespace GitInvocation.Toml

inductive Lexeme where
  | openBracket
  | closeBracket
  | openBrace
  | closeBrace
  | equals
  | comma
  | dot
  | newline
  | space (text : List Char)
  | text (multiline : Bool) (content : List Char)
  | run (text : List Char)
  deriving DecidableEq

namespace Lexeme

def marks : List (Char × Lexeme) :=
  [('[', .openBracket), (']', .closeBracket), ('\x7b', .openBrace), ('\x7d', .closeBrace),
   ('=', .equals), (',', .comma), ('.', .dot), ('\n', .newline)]

/-- The characters that a run is made of. -/
def inRun (c : Char) : Bool :=
  (marks.lookup c).isNone && !Quoted.isSpace c && c ≠ '"' && c ≠ '\x27' && c ≠ '#' &&
    !Quoted.isControl c

/-- The next lexeme and what follows it. The inner `none` stands for a comment, the outer one for a
character that cannot stand where it does. -/
def starting (c : Char) (rest : List Char) : Option (Option Lexeme × List Char) :=
  match marks.lookup c with
  | some mark => some (some mark, rest)
  | none =>
    if c = '\r' then
      match rest with
      | '\n' :: rest => some (some .newline, rest)
      | _ => none
    else if Quoted.isSpace c then
      some (some (.space (c :: rest.takeWhile Quoted.isSpace)), rest.dropWhile Quoted.isSpace)
    else if c = '#' then some (none, rest.dropWhile fun c => !Quoted.isControl c)
    else if c = '"' ∨ c = '\x27' then
      (Quoted.read c rest).map fun (style, content, rest) =>
        (some (.text style.multiline content), rest)
    else if inRun c then some (some (.run (c :: rest.takeWhile inRun)), rest.dropWhile inRun)
    else none

theorem length_starting {c : Char} {text rest : List Char} {l : Option Lexeme}
    (h : starting c text = some (l, rest)) : rest.length < (c :: text).length := by
  have drop (p : Char → Bool) : (text.dropWhile p).length < (c :: text).length :=
    Nat.lt_succ_of_le (List.dropWhile_suffix p).length_le
  unfold starting at h
  split at h
  · simp only [Option.some.injEq, Prod.mk.injEq] at h
    rw [← h.2]; exact Nat.lt_succ_self _
  · split at h
    · split at h
      · simp only [Option.some.injEq, Prod.mk.injEq] at h
        rw [← h.2]; simp only [List.length_cons]; omega
      · simp at h
    · split at h
      · simp only [Option.some.injEq, Prod.mk.injEq] at h
        rw [← h.2]; exact drop _
      · split at h
        · simp only [Option.some.injEq, Prod.mk.injEq] at h
          rw [← h.2]; exact drop _
        · split at h
          · cases hq : Quoted.read c text with
            | none => simp [hq] at h
            | some r =>
              simp only [hq, Option.map_some, Option.some.injEq, Prod.mk.injEq] at h
              have := Quoted.length_read hq
              rw [h.2] at this
              exact Nat.lt_succ_of_le this
          · split at h
            · simp only [Option.some.injEq, Prod.mk.injEq] at h
              rw [← h.2]; exact drop _
            · simp at h

/-- The lexemes of a text; `none` when a character or a string is broken. -/
def ofChars : List Char → Option (List Lexeme)
  | [] => some []
  | c :: s =>
    match _h : starting c s with
    | none => none
    | some (l, rest) => (ofChars rest).map (l.toList ++ ·)
termination_by s => s.length
decreasing_by exact length_starting _h

end Lexeme

end GitInvocation.Toml
