import GitInvocation.Text.Blank
import GitInvocation.Text.Lines
import GitInvocation.Text.LowerCase
/-!
# Configuration keys

A key is `section.name` or `section.subsection.name`. Section and name are compared without
regard to ASCII letter case; a subsection, which may hold further dots, is compared as it is.
The canonical spelling of a key has the white space around it removed and the letters that do
not count in lower case.
-/
namespace GitInvocation.Key

/-- The text before the first dot, the text between the first dot and the last, and the text
after the last; `none` for a key with fewer than two dots. -/
def parts? (s : List Char) : Option (List Char × List Char × List Char) :=
  (Text.cut? '.' s).bind fun (first, rest) =>
    (Text.cut? '.' rest.reverse).map fun (last, middle) => (first, middle.reverse, last.reverse)

def canonicalChars (s : List Char) : List Char :=
  match parts? s with
  | some (first, middle, last) =>
    first.map Text.lowerAscii ++ '.' :: middle ++ '.' :: last.map Text.lowerAscii
  | none => s.map Text.lowerAscii

/-- The one spelling that stands for all spellings of a key. -/
def canonical (key : String) : String :=
  String.ofList (canonicalChars (Text.trimChars key.toList))

end GitInvocation.Key
