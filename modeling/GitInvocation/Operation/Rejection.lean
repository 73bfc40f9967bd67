/-!
# Rejections

An operation that is well formed may still ask for what no argument text can express.
-/
namespace GitInvocation

inductive Rejection where
  | missingTreeish (operation : String)
  | incompleteRange (missing : String)
  deriving DecidableEq

def Rejection.message : Rejection → String
  | .missingTreeish operation => operation ++ " of the index requires an explicit tree-ish"
  | .incompleteRange missing =>
    "rebase range requires both 'from' and 'onto', '" ++ missing ++ "' is missing"

end GitInvocation
