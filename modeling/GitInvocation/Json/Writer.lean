import GitInvocation.Json.Basic
/-!
# Writing JSON

The compact form: no white space, members in their order, and only those characters escaped
that JSON does not allow inside a string.
-/
namespace GitInvocation.Json

def writtenChar (c : Char) : String :=
  if c = '"' then "\\\""
  else if c = '\\' then "\\\\"
  else if c = '\x08' then "\\b"
  else if c = '\x0c' then "\\f"
  else if c = '\n' then "\\n"
  else if c = '\r' then "\\r"
  else if c = '\t' then "\\t"
  else if c.toNat < 0x10 then "\\u000" ++ Text.hex c.toNat
  else if c.toNat < 0x20 then "\\u00" ++ Text.hex c.toNat
  else c.toString

def writtenString (s : String) : String :=
  "\"" ++ String.join (s.toList.map writtenChar) ++ "\""

mutual

/-- The compact form of a value. -/
def text : Json → String
  | .null => "null"
  | .bool b => boolText b
  | .integer n => toString n
  | .float x => x.compact
  | .string s => writtenString s
  | .array items => "[" ++ ",".intercalate (itemTexts items) ++ "]"
  | .object members => "\x7b" ++ ",".intercalate (memberTexts members) ++ "\x7d"

def itemTexts : List Json → List String
  | [] => []
  | v :: rest => text v :: itemTexts rest

def memberTexts : List (String × Json) → List String
  | [] => []
  | (name, v) :: rest => (writtenString name ++ ":" ++ text v) :: memberTexts rest

end

end GitInvocation.Json
