import GitInvocation.Binary64.Written
import GitInvocation.Text.Escaped
/-!
# JSON values

Objects keep their members in the order of the text, repeated names included, since the order
decides which of two faults is reported.
-/
namespace GitInvocation

/-- Integers are those that fit in 64 bits, signed or unsigned; all other numbers are floats. -/
inductive Json where
  | null
  | bool (value : Bool)
  | integer (value : Int)
  | float (value : Binary64)
  | string (value : String)
  | array (items : List Json)
  | object (members : List (String × Json))

/-- What a text could not be decoded for. `ended` and `malformed` are faults of the JSON text, all
others are faults of the data in it. -/
inductive DecodeError where
  | ended
  | malformed
  | wrongType (found expected : String)
  | wrongValue (found expected : String)
  | wrongLength (length : Nat) (expected : String)
  | unknownVariant (name : String) (expected : List String)
  | missingField (name : String)
  | duplicateField (name : String)
  | unknownFlag (name : String)
  | emptyFlag
  | badHexFlag (digits : String)
  | refused (reason : String)
  deriving DecidableEq

/-- The three kinds of decoding faults. -/
inductive DecodeError.Kind where
  | ended
  | malformed
  | data
  deriving DecidableEq

namespace DecodeError

def kind : DecodeError → Kind
  | .ended => .ended
  | .malformed => .malformed
  | _ => .data

def message : DecodeError → String
  | .ended => "unexpected end of JSON text"
  | .malformed => "malformed JSON text"
  | .wrongType found expected => "invalid type: " ++ found ++ ", expected " ++ expected
  | .wrongValue found expected => "invalid value: " ++ found ++ ", expected " ++ expected
  | .wrongLength n expected => "invalid length " ++ toString n ++ ", expected " ++ expected
  | .unknownVariant name expected =>
    "unknown variant `" ++ name ++ "`, expected " ++ Text.oneOf expected
  | .missingField name => "missing field `" ++ name ++ "`"
  | .duplicateField name => "duplicate field `" ++ name ++ "`"
  | .unknownFlag name => "unrecognized named flag `" ++ name ++ "`"
  | .emptyFlag => "encountered empty flag"
  | .badHexFlag digits => "invalid hex flag `" ++ digits ++ "`"
  | .refused reason => reason

end DecodeError

namespace Json

def boolText (b : Bool) : String := if b then "true" else "false"

/-- What a diagnostic calls a value found in the wrong place. -/
def described : Json → String
  | .null => "null"
  | .bool b => "boolean `" ++ boolText b ++ "`"
  | .integer n => "integer `" ++ toString n ++ "`"
  | .float x => "floating point `" ++ x.compact ++ "`"
  | .string s => "string " ++ Text.escaped s
  | .array _ => "sequence"
  | .object _ => "map"

def mismatch (found : Json) (expected : String) : DecodeError :=
  .wrongType found.described expected

end Json

end GitInvocation
