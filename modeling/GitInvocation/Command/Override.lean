/-!
# Configuration overrides

A setting that holds for a single invocation, passed as `-c key=value`.
-/
namespace GitInvocation

structure Override where
  key : String
  value : String
  deriving DecidableEq

namespace Override

def text (o : Override) : String := o.key ++ "=" ++ o.value

/-- Lets a submodule be added from a path on this machine. -/
def allowFileProtocol : Override := ⟨"protocol.file.allow", "always"⟩

end Override

end GitInvocation
