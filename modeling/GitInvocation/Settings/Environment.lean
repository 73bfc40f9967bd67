import GitInvocation.Binary64.Reading
import GitInvocation.Settings.KeyPath
import GitInvocation.Text.LowerCase
/-!
# Settings in the environment

A variable whose name starts with the prefix and an underscore is a setting. Letter case does not
count, and two underscores in a row stand for the dot of a path. A value that looks like a truth
value or a number is one.
-/
namespace GitInvocation

namespace Environment

/-- How a message tells where a variable's value came from. -/
def origin : String := "the environment"

/-- The value that the text of a variable stands for. -/
def leaf (s : String) : Leaf :=
  let word := Text.lower s
  if word = "true" then .bool true
  else if word = "false" then .bool false
  else
    match Text.int64? s.toList, Binary64.parse? s.toList with
    | some n, _ => .integer n
    | none, some x => .float x
    | none, none => .text s

/-- Two underscores become a dot, from left to right. -/
def dotted : List Char → List Char
  | '_' :: '_' :: rest => '.' :: dotted rest
  | c :: rest => c :: dotted rest
  | [] => []

/-- The key of a variable's setting, if it is one. -/
def key? (start name : String) : Option String :=
  let lead := (Text.lower start).toList ++ ['_']
  (Text.afterStart? lead (Text.lower name).toList).map fun rest => String.ofList (dotted rest)

/-- The settings among the variables. -/
def settings (start : String) (pairs : List (String × String)) : List (String × Setting) :=
  pairs.filterMap fun (name, value) =>
    (key? start name).map fun key => (key, .leaf (some origin) (leaf value))

end Environment

end GitInvocation
