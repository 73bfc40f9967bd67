/-!
# Cutting text

Lines end at a line feed. A text that ends with one has no further empty line after it, and the
empty text has no line at all.
-/
namespace GitInvocation.Text

/-- The lines of a text, without their line feeds. -/
def lines : List Char → List (List Char)
  | [] => []
  | c :: rest =>
    if c = '\n' then [] :: lines rest
    else match lines rest with
      | [] => [[c]]
      | line :: more => (c :: line) :: more

/-- The text before and after the first `mark`, when there is one. -/
def cut? (mark : Char) : List Char → Option (List Char × List Char)
  | [] => none
  | c :: rest =>
    if c = mark then some ([], rest)
    else (cut? mark rest).map fun (before, after) => (c :: before, after)

/-- The pieces between the marks; a text without a mark is one piece. -/
def pieces (mark : Char) : List Char → List (List Char)
  | [] => [[]]
  | c :: rest =>
    if c = mark then [] :: pieces mark rest
    else match pieces mark rest with
      | [] => [[c]]
      | piece :: more => (c :: piece) :: more

/-- The rest of a text that starts with `start`. -/
def afterStart? : List Char → List Char → Option (List Char)
  | [], text => some text
  | _ :: _, [] => none
  | s :: start, c :: text => if s = c then afterStart? start text else none

theorem length_afterStart? {start text rest : List Char} (h : afterStart? start text = some rest) :
    rest.length ≤ text.length := by
  induction start generalizing text with
  | nil =>
    simp only [afterStart?, Option.some.injEq] at h
    exact Nat.le_of_eq (congrArg List.length h.symm)
  | cons s start ih =>
    cases text with
    | nil => simp [afterStart?] at h
    | cons c text =>
      simp only [afterStart?] at h
      split at h
      · exact Nat.le_succ_of_le (ih h)
      · simp at h

end GitInvocation.Text
