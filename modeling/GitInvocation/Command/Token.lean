/-!
# Argument tokens

A token is a piece of argument text together with its quoting rule. Quotes inside a value are
not escaped. A token without content is left out, never written as an empty pair of quotes.
-/
namespace GitInvocation

/-- The text with every backslash turned into a slash. -/
def posixPath (s : String) : String := s.map fun c => if c = '\\' then '/' else c

def quoted (s : String) : String := "\"" ++ s ++ "\""

def quoted? (s : String) : Option String := if s = "" then none else some (quoted s)

inductive Token where
  | raw (value : String)
  | quoted (value : String)
  | path (value : String)
  deriving DecidableEq

/-- The text of a token with content. -/
def Token.text? : Token → Option String
  | .raw value => if value = "" then none else some value
  | .quoted value => quoted? value
  | .path value => quoted? (posixPath value)

end GitInvocation
