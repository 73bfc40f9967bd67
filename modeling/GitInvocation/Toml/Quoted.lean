import GitInvocation.Text.Lines
import GitInvocation.Text.Number
/-!
# TOML strings

A string stands on one line or, between triple quotes, on several. Double quotes allow escapes,
single quotes do not. Line ends inside a string are read as line feeds, and up to two quotes may
stand in front of the three that close it.
-/
namespace GitInvocation.Toml.Quoted

/-- The two binary choices for a string. -/
structure Style where
  quote : Char
  multiline : Bool

def Style.escapes (s : Style) : Bool := s.quote = '"'

/-- Where the reader stands within a string. -/
inductive Place where
  | plain
  | escape
  | hex (left value : Nat)
  | lineEnd
  | gap (broken ended : Bool)
  | quotes (count : Nat)
  | closing (extra : Nat)
  deriving DecidableEq

/-- What one character does. `finish` leaves the character to what follows the string. -/
inductive Move where
  | go (added : List Char) (next : Place)
  | close
  | finish (added : List Char)
  | bad

/-- The code points that may not stand in a text as they are. -/
def isControl (c : Char) : Bool := (c.toNat < 0x20 && c ≠ '\t') || c.toNat = 0x7F

def isSpace (c : Char) : Bool := c = ' ' || c = '\t'

def movePlain (s : Style) (c : Char) : Move :=
  if c = s.quote then if s.multiline then .go [] (.quotes 1) else .close
  else if c = '\\' ∧ s.escapes then .go [] .escape
  else if c = '\n' ∧ s.multiline then .go ['\n'] .plain
  else if c = '\r' ∧ s.multiline then .go [] .lineEnd
  else if isControl c then .bad
  else .go [c] .plain

/-- Behind a backslash at the end of a line all white space is left out, line ends included.
`broken` tells that a line has ended, `ended` that a carriage return awaits its line feed. -/
def moveGap (s : Style) (broken ended : Bool) (c : Char) : Move :=
  if ended then if c = '\n' then .go [] (.gap true false) else .bad
  else if isSpace c then .go [] (.gap broken false)
  else if c = '\n' then .go [] (.gap true false)
  else if c = '\r' then .go [] (.gap broken true)
  else if broken then movePlain s c
  else .bad

def escapes : List (Char × Char) :=
  [('b', '\x08'), ('t', '\t'), ('n', '\n'), ('f', '\x0c'), ('r', '\r'), ('e', '\x1b'), ('"', '"'),
   ('\\', '\\')]

def moveEscape (s : Style) (c : Char) : Move :=
  match escapes.lookup c with
  | some e => .go [e] .plain
  | none =>
    if c = 'x' then .go [] (.hex 2 0)
    else if c = 'u' then .go [] (.hex 4 0)
    else if c = 'U' then .go [] (.hex 8 0)
    else if s.multiline then moveGap s false false c
    else .bad

def moveHex (left value : Nat) (c : Char) : Move :=
  match Text.digit? 16 c with
  | none => .bad
  | some d =>
    let value := value * 16 + d
    if 1 < left then .go [] (.hex (left - 1) value)
    else if value.isValidChar then .go [Char.ofNat value] .plain
    else .bad

/-- Puts text in front of what a move adds. -/
def Move.after (before : List Char) : Move → Move
  | .go added next => .go (before ++ added) next
  | .finish added => .finish (before ++ added)
  | m => m

def move (s : Style) (c : Char) : Place → Move
  | .plain => movePlain s c
  | .escape => moveEscape s c
  | .hex left value => moveHex left value c
  | .lineEnd => if c = '\n' then .go ['\n'] .plain else .bad
  | .gap broken ended => moveGap s broken ended c
  | .quotes count =>
    if c = s.quote then if count = 1 then .go [] (.quotes 2) else .go [] (.closing 0)
    else (movePlain s c).after (List.replicate count s.quote)
  | .closing extra =>
    if c = s.quote ∧ extra < 2 then .go [] (.closing (extra + 1))
    else .finish (List.replicate extra s.quote)

/-- Reads a string from behind its opening quotes. -/
def scan (s : Style) (place : Place) : List Char → Option (List Char × List Char)
  | [] =>
    match place with
    | .closing extra => some (List.replicate extra s.quote, [])
    | _ => none
  | c :: rest =>
    match move s c place with
    | .bad => none
    | .close => some ([], rest)
    | .finish added => some (added, c :: rest)
    | .go added next => (scan s next rest).map fun (content, rest) => (added ++ content, rest)

/-- A line end directly behind the opening quotes is no part of the string. -/
def afterOpening : List Char → List Char
  | '\n' :: rest => rest
  | '\r' :: '\n' :: rest => rest
  | rest => rest

/-- Reads a string from behind its first quote. -/
def read (quote : Char) (text : List Char) : Option (Style × List Char × List Char) :=
  match Text.afterStart? [quote, quote] text with
  | some rest => (scan ⟨quote, true⟩ .plain (afterOpening rest)).map fun r => (⟨quote, true⟩, r)
  | none => (scan ⟨quote, false⟩ .plain text).map fun r => (⟨quote, false⟩, r)

theorem length_scan {s : Style} {place : Place} {text content rest : List Char}
    (h : scan s place text = some (content, rest)) : rest.length ≤ text.length := by
  induction text generalizing place content with
  | nil =>
    unfold scan at h
    split at h <;> simp_all
  | cons c text ih =>
    unfold scan at h
    split at h
    · simp at h
    · simp only [Option.some.injEq, Prod.mk.injEq] at h
      rw [← h.2]; exact Nat.le_succ _
    · simp only [Option.some.injEq, Prod.mk.injEq] at h
      exact Nat.le_of_eq (congrArg List.length h.2.symm)
    · rename_i added next _
      cases hs : scan s next text with
      | none => simp [hs] at h
      | some r =>
        simp only [hs, Option.map_some, Option.some.injEq, Prod.mk.injEq] at h
        have hr : scan s next text = some (r.1, rest) := by rw [hs, ← h.2]
        exact Nat.le_succ_of_le (ih hr)

theorem length_afterOpening (text : List Char) : (afterOpening text).length ≤ text.length := by
  unfold afterOpening
  split
  · exact Nat.le_succ _
  · simp only [List.length_cons]; omega
  · exact Nat.le_refl _

theorem length_read {quote : Char} {text content rest : List Char} {s : Style}
    (h : read quote text = some (s, content, rest)) : rest.length ≤ text.length := by
  unfold read at h
  split at h
  · rename_i after ha
    cases hs : scan ⟨quote, true⟩ .plain (afterOpening after) with
    | none => simp [hs] at h
    | some r =>
      simp only [hs, Option.map_some, Option.some.injEq, Prod.mk.injEq] at h
      have := length_scan hs
      rw [h.2] at this
      exact Nat.le_trans this
        (Nat.le_trans (length_afterOpening after) (Text.length_afterStart? ha))
  · cases hs : scan ⟨quote, false⟩ .plain text with
    | none => simp [hs] at h
    | some r =>
      simp only [hs, Option.map_some, Option.some.injEq, Prod.mk.injEq] at h
      have := length_scan hs
      rw [h.2] at this
      exact this

end GitInvocation.Toml.Quoted
