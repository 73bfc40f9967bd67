/-!
# Faults in settings

Faults that are found after a setting has been read, when its value is looked at.
-/
namespace GitInvocation

inductive SettingFault where
  | invalidValue (table key message : String)
  | invalidOverride (text : String)
  deriving DecidableEq

def SettingFault.message : SettingFault → String
  | .invalidValue table key message =>
    "invalid value for '" ++ key ++ "' in section '[" ++ table ++ "]': " ++ message
  | .invalidOverride text => "invalid override '" ++ text ++ "', expected KEY=VALUE"

end GitInvocation
