import GitInvocation.Settings.Fault
import GitInvocation.Text.Blank
import GitInvocation.Text.Lines
/-!
# Assignments

An assignment is a key and a value with an equals sign between them. White space around the key
does not count, and the key must not be blank; the value may be anything.
-/
namespace GitInvocation

/-- The key and the value of an assignment. -/
def assignment (text : String) : Except SettingFault (String × String) :=
  match Text.cut? '=' text.toList with
  | some (key, value) =>
    if key.all Text.isBlank then .error (.invalidOverride text)
    else .ok (String.ofList (Text.trimChars key), String.ofList value)
  | none => .error (.invalidOverride text)

end GitInvocation
