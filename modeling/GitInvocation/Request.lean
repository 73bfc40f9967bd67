import GitInvocation.Json.Reader
import GitInvocation.Json.Writer
import GitInvocation.Operation
/-!
# Requests

A request is an operation in JSON: an object whose member `operation` is the name of the operation,
or an array that starts with that name and goes on with the fields in their order. The name is
checked as soon as it is read, everything else once the whole value has been read.
-/
namespace GitInvocation.Request

open Json.Reader (Frame Demand)

/-- The member that names the operation. -/
def tag : String := "operation"

/-- What diagnostics call a request. -/
def title : String := "internally tagged enum OperationRequest"

def tagTitle : String := "variant identifier"

/-- What is wrong with a lexeme at the place of the name. -/
def tagFault? : Json.Lexeme → Option DecodeError
  | .text name _ =>
    if name ∈ Operation.names then none else some (.unknownVariant name Operation.names)
  | l => some (.wrongType (Json.Reader.begun l) tagTitle)

def demand : Demand :=
  { Demand.none with
    value := fun
      | [], l =>
        if Json.Reader.isBracket l then none
        else some (.wrongType (Json.Reader.begun l) title)
      | [.array []], l => tagFault? l
      | [.object _ key], l => if key = tag then tagFault? l else none
      | _, _ => none
    key := fun
      | members, [], name =>
        if name = tag ∧ (members.lookup tag).isSome then some (.duplicateField tag) else none
      | _, _, _ => none }

/-- Reads the fields of the operation that has been named. -/
def ofTag (v : Json) (body : Json.Body) : Except DecodeError Operation :=
  match v with
  | .string name =>
    match Operation.catalog.lookup name with
    | some read => read body
    | none => .error (.unknownVariant name Operation.names)
  | v => .error (v.mismatch tagTitle)

def ofJson : Json → Except DecodeError Operation
  | .object members =>
    match members.lookup tag with
    | some v => ofTag v (.members (members.filter fun m => m.1 ≠ tag))
    | none => .error (.missingField tag)
  | .array (v :: items) => ofTag v (.items items)
  | .array [] => .error (.missingField tag)
  | v => .error (v.mismatch title)

/-- The operation that a text asks for. -/
def parse (text : String) : Except DecodeError Operation :=
  Json.Reader.decodeText demand ofJson text

def toJson (o : Operation) : Json := .object ((tag, .string o.name) :: o.members)

/-- The request in its compact form, with every field spelled out. -/
def write (o : Operation) : String := (toJson o).text

/-- Why no arguments were assembled for a request. -/
inductive Failure where
  | undecodable (error : DecodeError)
  | rejected (why : Rejection)

/-- The argument text that a request asks for. -/
def render (text : String) (snapshot : Snapshot) : Except Failure String :=
  match parse text with
  | .error e => .error (.undecodable e)
  | .ok o =>
    match o.arguments snapshot with
    | .error e => .error (.rejected e)
    | .ok args => .ok args

end GitInvocation.Request
