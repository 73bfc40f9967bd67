import GitInvocation.Json.Reader
import GitInvocation.Json.Record
import GitInvocation.Json.Writer
import GitInvocation.Logging.Verbosity
import GitInvocation.Operation.RefFilter
import GitInvocation.Operation.Repository
import GitInvocation.Snapshot.Basic
/-!
# Values that stand alone

The parts of a request, a snapshot and a verbosity can each be the whole of a JSON text. Read
this way they are checked lexeme by lexeme, so the first fault in the text is the one reported,
and a choice is stricter than inside a request.
-/
namespace GitInvocation.Standalone

open Json (Lexeme Choice Variant)
open Json.Reader (Frame Demand begun isText isBracket faultOf?)

/-- Demands that a lexeme begin a value of the right type. -/
def wants (fits : Lexeme → Bool) (expected : String) (l : Lexeme) : Option DecodeError :=
  if fits l then none else some (.wrongType (begun l) expected)

/-- The content of a variant, of which only the first lexeme is needed. -/
def content {α : Type} (v : Variant α) (l : Lexeme) : Except DecodeError α :=
  match faultOf? false l with
  | some e => .error e
  | none =>
    match v, l with
    | .plain a, .word .null => .ok a
    | .plain _, l => .error (.wrongType (begun l) "unit")
    | .text make, .text s _ => .ok (make s)
    | .text _, l => .error (.wrongType (begun l) "a string")

/-- A variant with its content, from behind the opening bracket. -/
def filledVariant {α : Type} (c : Choice α) : List Lexeme → Except DecodeError (α × List Lexeme)
  | [] => .error .ended
  | l :: ls => do
    match faultOf? false l with
    | some e => throw e
    | none =>
      match l with
      | .text name _ =>
        let variant ← c.find name
        match ls with
        | [] => throw .ended
        | .colon :: v :: ls =>
          let a ← content variant v
          match ls with
          | [] => throw .ended
          | .closeObject :: ls => return (a, ls)
          | _ => throw .malformed
        | [.colon] => throw .ended
        | _ => throw .malformed
      | l => throw (.wrongType (begun l) "variant identifier")

def variant {α : Type} (c : Choice α) : List Lexeme → Except DecodeError (α × List Lexeme)
  | [] => .error .ended
  | .openObject :: ls => filledVariant c ls
  | l :: ls =>
    match l, faultOf? false l with
    | .text name _, none => (c.find name).bind fun v => (Choice.bare v).map fun a => (a, ls)
    | .brokenText .., some e => .error e
    | _, _ => .error .malformed

/-- A choice: a name, or an object whose one member holds the content of the variant. -/
def choice {α : Type} (c : Choice α) (text : String) : Except DecodeError α := do
  let (a, rest) ← variant c (Lexeme.ofChars text.toList)
  if rest.isEmpty then return a else throw .malformed

def refFilter (text : String) : Except DecodeError RefFilter :=
  Json.Reader.decodeText
    { Demand.none with value := fun _ l => wants isText RefFilter.title l }
    RefFilter.format.decode text

/-- The members of an override. Others are passed over. -/
def overrideMembers : List String := ["key", "value"]

def overrideDemand : Demand where
  value
    | [], l => wants isBracket "struct ConfigOverride" l
    | [.array _], l => wants isText "a string" l
    | [.object _ key], l => if key ∈ overrideMembers then wants isText "a string" l else none
    | _, _ => none
  key
    | members, [], name =>
      if name ∈ overrideMembers ∧ (members.lookup name).isSome then some (.duplicateField name)
      else none
    | _, _, _ => none
  full
    | [.array items] => overrideMembers.length ≤ items.length
    | _ => false
  skipped stack :=
    match stack.getLast? with
    | some (.object _ key) => !overrideMembers.contains key
    | _ => false

def override (text : String) : Except DecodeError Override :=
  Json.Reader.decodeText overrideDemand Override.record.format.decode text

def snapshotDemand : Demand :=
  { Demand.none with
    value := fun
      | [], .openObject => none
      | [], l => some (.wrongType (begun l) "a map")
      | _, l => wants isText "a string" l }

/-- A snapshot from an object of strings. -/
def decodeSnapshot : Json → Except DecodeError Snapshot
  | .object members =>
    (members.mapM fun m => (Json.Format.string.decode m.2).map fun v => (m.1, v)).map
      Snapshot.ofTable
  | v => .error (v.mismatch "a map")

def snapshot (text : String) : Except DecodeError Snapshot :=
  Json.Reader.decodeText snapshotDemand decodeSnapshot text

def snapshotText (s : Snapshot) : String :=
  (Json.object (s.entries.map fun e => (e.1, .string e.2))).text

/-- The bits of the number that a verbosity is read from. -/
def verbosityBits : Nat := 8

def decodeVerbosity (v : Json) : Except DecodeError Verbosity := do
  let n ← Json.Format.decodeNat verbosityBits v
  match Verbosity.ofNumber n with
  | .ok v => return v
  | .error e => throw (.refused e.message)

def verbosityDemand : Demand :=
  { Demand.none with
    value := fun
      | _, .word v =>
        match decodeVerbosity v with
        | .ok _ => none
        | .error e => some e
      | _, l => some (.wrongType (begun l) ("u" ++ toString verbosityBits)) }

def verbosity (text : String) : Except DecodeError Verbosity :=
  Json.Reader.decodeText verbosityDemand decodeVerbosity text

end GitInvocation.Standalone
