import GitInvocation.Snapshot.Basic
/-!
# Configuration listings

A listing has one `key=value` on a line. A key alone stands for the value `true`. Blank lines are
skipped, and carriage returns at the end of a line are dropped. Only a line whose key is blank
is an error; it is reported by its number, blank lines counted.
-/
namespace GitInvocation

inductive SnapshotError where
  | keyless (line : Nat) (content : String)
  | unreadable (path reason : String)

def SnapshotError.message : SnapshotError → String
  | .keyless line content =>
    "line " ++ toString line ++ ": missing config key in '" ++ content ++ "'"
  | .unreadable path reason => "failed to read config listing '" ++ path ++ "': " ++ reason

namespace Snapshot

/-- What a line of a listing says. -/
inductive Line where
  | skipped
  | keyless
  | entry (key value : List Char)

def Line.ofChars (line : List Char) : Line :=
  if line.all Text.isBlank then .skipped
  else
    let (key, value) := (Text.cut? '=' line).getD (line, "true".toList)
    if key.all Text.isBlank then .keyless else .entry (Text.trimChars key) value

/-- The lines of a listing, without the carriage returns that end them. -/
def listingLines (text : List Char) : List (List Char) :=
  (Text.lines text).map (Text.dropTrailing (· = '\r'))

/-- Inserts the entries of numbered lines, up to the first line without a key. -/
def readLines (s : Snapshot) : Nat → List (List Char) → Except SnapshotError Snapshot
  | _, [] => .ok s
  | n, line :: rest =>
    match Line.ofChars line with
    | .skipped => readLines s (n + 1) rest
    | .keyless => .error (.keyless n (String.ofList line))
    | .entry key value =>
      readLines (s.insert (String.ofList key) (String.ofList value)) (n + 1) rest

/-- The snapshot that a listing describes. A repeated key keeps its last value. -/
def ofListing (text : String) : Except SnapshotError Snapshot :=
  readLines empty 1 (listingLines text.toList)

end Snapshot

end GitInvocation
