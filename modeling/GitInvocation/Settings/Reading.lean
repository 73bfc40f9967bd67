import GitInvocation.Logging.Verbosity
import GitInvocation.Settings.Tree
import GitInvocation.Text.Escaped
import GitInvocation.Text.LowerCase
/-!
# Reading settings from a tree

A setting is converted to the type it is wanted in, as far as that makes sense: a verbosity may be
given as a number, a truth value or a word, a path as anything that is not a list or a table. A
list in the place of a table gives the members in their order. Keys that nobody knows are faults.
-/
namespace GitInvocation

/-- A fault in a tree of settings, as a message. -/
structure TreeFault where
  message : String
  deriving DecidableEq

namespace TreeFault

/-- `origin` is told only when the fault is one of conversion. -/
def wrongType (found expected key : String) (origin : Option String) : TreeFault :=
  ⟨"invalid type: " ++ found ++ ", expected " ++ expected ++ " for key `" ++ key ++ "`" ++
    (origin.map (" in " ++ ·)).getD ""⟩

/-- `table` is the key of the table, unless that is the root. -/
def unknownKey (name : String) (known : List String) (table : Option String) : TreeFault :=
  ⟨"unknown field `" ++ name ++ "`, expected " ++ Text.oneOf known ++
    (table.map fun key => " for key `" ++ key ++ "`").getD ""⟩

end TreeFault

namespace Setting

/-- What a message calls a setting found in the wrong place. -/
def described : Setting → String
  | .leaf _ .nil => "unit value"
  | .leaf _ (.bool b) => "boolean `" ++ (if b then "true" else "false") ++ "`"
  | .leaf _ (.integer n) => "integer `" ++ toString n ++ "`"
  | .leaf _ (.float x) => "floating point `" ++ x.plainWithPoint ++ "`"
  | .leaf _ (.text s) => "string " ++ Text.escaped s
  | .list _ _ => "sequence"
  | .table _ _ => "map"

/-- The words for one and for zero. -/
def words : List (String × Nat) :=
  [("true", 1), ("on", 1), ("yes", 1), ("false", 0), ("off", 0), ("no", 0)]

def wordNumber? (s : String) : Option Nat :=
  (words.lookup (Text.lower s)).or (Text.bounded? 10 Text.greatestUInt64 s.toList)

/-- A setting as a natural number of 64 bits. -/
def toNumber (key : String) (s : Setting) : Except TreeFault Nat :=
  let refused := .error (.wrongType s.described "an integer" key s.origin)
  match s with
  | .leaf _ (.bool b) => .ok (if b then 1 else 0)
  | .leaf origin (.integer n) =>
    if 0 ≤ n then .ok n.toNat
    else
      .error (.wrongType ("64-bit integer `" ++ toString n ++ "`")
        "an unsigned 64 bit or less integer" key origin)
  | .leaf _ (.float x) => .ok (x.toNatClamped Text.greatestUInt64)
  | .leaf _ (.text t) =>
    match wordNumber? t with
    | some n => .ok n
    | none => refused
  | _ => refused

def toVerbosity (key : String) (s : Setting) : Except TreeFault Verbosity := do
  let n ← s.toNumber key
  if 0xFF < n then
    throw (.wrongType ("64-bit unsigned integer `" ++ toString n ++ "`")
      "an unsigned 8 bit integer" key none)
  match Verbosity.ofNumber n with
  | .ok v => return v
  | .error e => throw ⟨e.message ++ " for key `" ++ key ++ "`"⟩

def toText (key : String) (s : Setting) : Except TreeFault String :=
  match s with
  | .leaf _ (.bool b) => .ok (if b then "true" else "false")
  | .leaf _ (.integer n) => .ok (toString n)
  | .leaf _ (.float x) => .ok x.plain
  | .leaf _ (.text t) => .ok t
  | s => .error (.wrongType s.described "a string" key s.origin)

/-- A text that may be nil. -/
def toText? (key : String) : Setting → Except TreeFault (Option String)
  | .leaf _ .nil => .ok none
  | s => (s.toText key).map some

def itemKey (key : String) (position : Nat) : String := key ++ "[" ++ toString position ++ "]"

/-- The texts of a list, of which the first stands at the given position. -/
def toTextsFrom (key : String) : Nat → List Setting → Except TreeFault (List String)
  | _, [] => .ok []
  | n, s :: rest => do
    let t ← s.toText (itemKey key n)
    let ts ← toTextsFrom key (n + 1) rest
    return t :: ts

def toTexts (key : String) : Setting → Except TreeFault (List String)
  | .list _ items => toTextsFrom key 0 items
  | s => .error (.wrongType s.described "a sequence" key none)

/-- The members of a table that stands for a record, each with its name and its full key. -/
def fields (title key : String) (names : List String) :
    Setting → Except TreeFault (List (String × String × Setting))
  | .table _ members =>
    members.mapM fun (name, s) =>
      if name ∈ names then .ok (name, key ++ "." ++ name, s)
      else .error (.unknownKey name names (some key))
  | .list _ items =>
    .ok ((names.zip items.zipIdx).map fun (name, s, n) => (name, itemKey key n, s))
  | s => .error (.wrongType s.described ("struct " ++ title) key none)

end Setting

/-- The settings of the program. -/
structure Settings where
  consoleVerbosity : Verbosity
  fileVerbosity : Verbosity
  logFile : Option String
  snapshotFile : Option String
  snapshotValues : List String
  deriving DecidableEq

namespace Settings

def default : Settings := ⟨.console, .file, none, none, []⟩

def globalNames : List String := ["output_log_level", "file_log_level", "log_file"]

def snapshotNames : List String := ["file", "values"]

def tableNames : List String := ["global", "snapshot"]

def readGlobal (out : Settings) (name key : String) (s : Setting) : Except TreeFault Settings :=
  if name = "output_log_level" then
    (s.toVerbosity key).map fun v => { out with consoleVerbosity := v }
  else if name = "file_log_level" then
    (s.toVerbosity key).map fun v => { out with fileVerbosity := v }
  else (s.toText? key).map fun path => { out with logFile := path }

def readSnapshot (out : Settings) (name key : String) (s : Setting) : Except TreeFault Settings :=
  if name = "file" then (s.toText? key).map fun path => { out with snapshotFile := path }
  else (s.toTexts key).map fun values => { out with snapshotValues := values }

/-- Reads a table of the root. -/
def readTable (out : Settings) (name : String) (s : Setting) : Except TreeFault Settings :=
  if name = "global" then do
    let fields ← s.fields "GlobalConfig" name globalNames
    fields.foldlM (fun out (name, key, s) => readGlobal out name key s) out
  else if name = "snapshot" then do
    let fields ← s.fields "SnapshotConfig" name snapshotNames
    fields.foldlM (fun out (name, key, s) => readSnapshot out name key s) out
  else .error (.unknownKey name tableNames none)

/-- Reads the members of the root. What is not mentioned keeps its default. -/
def ofMembers (members : List (String × Setting)) : Except TreeFault Settings :=
  members.foldlM (fun out (name, s) => readTable out name s) default

end Settings

end GitInvocation
