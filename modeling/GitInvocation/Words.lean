/-!
# Splitting argument text into words

Words are parted by spaces, tabs and line feeds. A backslash keeps the next character, single
quotes keep everything between them, double quotes keep all but a few escapes, and a word that
would start with a hash opens a comment. A text that ends inside quotes or after a backslash
has no words at all.
-/
namespace GitInvocation.Words

/-- Where the reader stands between two characters. -/
inductive Place where
  | gap
  | comment
  | bare
  | bareEscape
  | single
  | double
  | doubleEscape
  deriving DecidableEq

def isGap (c : Char) : Bool := c = ' ' || c = '\t' || c = '\n'

/-- The characters that a backslash escapes between double quotes. -/
def escapable (c : Char) : Bool := c = '$' || c = '\x60' || c = '"' || c = '\\'

/-- Puts text in front of the word that comes first. -/
def extend (s : List Char) : List (List Char) → List (List Char)
  | [] => [s]
  | word :: more => (s ++ word) :: more

/-- The words of the text from a place on. Inside a word, the first of them is its rest. -/
def scan : Place → List Char → Option (List (List Char))
  | .gap, [] => some []
  | .comment, [] => some []
  | .bare, [] => some [[]]
  | _, [] => none
  | .gap, c :: rest =>
    if isGap c then scan .gap rest
    else if c = '#' then scan .comment rest
    else if c = '"' then scan .double rest
    else if c = '\x27' then scan .single rest
    else if c = '\\' then scan .bareEscape rest
    else (scan .bare rest).map (extend [c])
  | .comment, c :: rest => if c = '\n' then scan .gap rest else scan .comment rest
  | .bare, c :: rest =>
    if isGap c then (scan .gap rest).map ([] :: ·)
    else if c = '"' then scan .double rest
    else if c = '\x27' then scan .single rest
    else if c = '\\' then scan .bareEscape rest
    else (scan .bare rest).map (extend [c])
  | .bareEscape, c :: rest =>
    if c = '\n' then scan .bare rest else (scan .bare rest).map (extend [c])
  | .single, c :: rest =>
    if c = '\x27' then scan .bare rest else (scan .single rest).map (extend [c])
  | .double, c :: rest =>
    if c = '"' then scan .bare rest
    else if c = '\\' then scan .doubleEscape rest
    else (scan .double rest).map (extend [c])
  | .doubleEscape, c :: rest =>
    if escapable c then (scan .double rest).map (extend [c])
    else if c = '\n' then scan .double rest
    else (scan .double rest).map (extend ['\\', c])

end Words

/-- The words of an argument text, or `none` when a quote or a backslash is left open. -/
def words? (text : String) : Option (List String) :=
  (Words.scan .gap text.toList).map (·.map String.ofList)

end GitInvocation
