import GitInvocation.Text.Number
import GitInvocation.Text.Ranges
import GitInvocation.Text.Unprintable
/-!
# Text inside diagnostics

A diagnostic shows an offending text between double quotes, with everything spelled out that
would not be seen or would not stay inside the quotes.
-/
namespace GitInvocation.Text

def isUnprintable (c : Char) : Bool := inRanges unprintableRanges c

/-- One character as a diagnostic writes it. -/
def escapedChar (c : Char) : String :=
  if c = '\x00' then "\\0"
  else if c = '\t' then "\\t"
  else if c = '\n' then "\\n"
  else if c = '\r' then "\\r"
  else if c = '"' then "\\\""
  else if c = '\\' then "\\\\"
  else if isUnprintable c then "\\u\x7b" ++ hex c.toNat ++ "\x7d"
  else c.toString

/-- The text in double quotes, as diagnostics show it. -/
def escaped (s : String) : String :=
  "\"" ++ String.join (s.toList.map escapedChar) ++ "\""

/-- Names in backticks, as diagnostics list what they would have accepted. -/
def oneOf (names : List String) : String :=
  match names.map fun n => "`" ++ n ++ "`" with
  | [] => ""
  | [a] => a
  | [a, b] => a ++ " or " ++ b
  | many => "one of " ++ ", ".intercalate many

end GitInvocation.Text
