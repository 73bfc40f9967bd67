import GitInvocation.CommandLine
import GitInvocation.Logging.Event
import GitInvocation.Request
import GitInvocation.Settings.Assignment
import GitInvocation.Settings.Loading
import GitInvocation.Words
/-!
# Rendering a request

The request is read first, then the configuration in force, and only then the request is decoded;
the first of these that fails is the fault that is reported.
-/
namespace GitInvocation.Rendering

inductive Fault where
  | unreadable (what : String) (fault : FileFault)
  | snapshot (fault : SnapshotError)
  | assignment (fault : SettingFault)
  | undecodable (error : DecodeError)
  | rejected (why : Rejection)
  | unsplit (arguments : String)

def Fault.message : Fault → String
  | .unreadable what fault => "failed to read request " ++ what ++ ": " ++ fault.message
  | .snapshot fault => "snapshot error: " ++ fault.message
  | .assignment fault => fault.message
  | .undecodable error => "invalid request: " ++ error.message
  | .rejected why => "request rejected: " ++ why.message
  | .unsplit arguments => "cannot split arguments into argv: " ++ arguments

/-- The path that stands for the standard input. -/
def standardInput : String := "-"

/-- The text of the request: the one that is given, that of a file, or the standard input. -/
def requestText (o : RenderOptions) (files : FileTree) (input : Except FileFault String) :
    Except Fault String :=
  match o.json, o.request with
  | some text, _ => .ok text
  | none, some path =>
    if Path.same path standardInput then input.mapError (.unreadable "from stdin")
    else (files.read path).mapError (.unreadable ("file " ++ path))
  | none, none => input.mapError (.unreadable "from stdin")

/-- True when the request is read from the standard input. -/
def readsInput (o : RenderOptions) : Bool :=
  o.json.isNone && (o.request.map fun path => Path.same path standardInput).getD true

def insertAssignments (s : Snapshot) : List String → Except Fault Snapshot
  | [] => .ok s
  | text :: rest =>
    match assignment text with
    | .error e => .error (.assignment e)
    | .ok (key, value) => insertAssignments (s.insert key value) rest

/-- The configuration in force. A listing that is given takes the place of the one in the settings;
single values come on top of both. -/
def snapshot (o : RenderOptions) (settings : Settings) (files : FileTree) :
    Except Fault Snapshot := do
  let settings := { settings with snapshotFile := o.gitConfig.or settings.snapshotFile }
  let s ← (settings.loadSnapshot files).mapError .snapshot
  insertAssignments s o.configValues

/-- The arguments as they are printed, on one line or with a line for each word. -/
def output (argv : Bool) (arguments : String) : Except Fault String :=
  if argv then
    match words? arguments with
    | some words => .ok ("\n".intercalate words)
    | none => .error (.unsplit arguments)
  else .ok arguments

def ofRequest : Except Request.Failure String → Except Fault String
  | .ok arguments => .ok arguments
  | .error (.undecodable e) => .error (.undecodable e)
  | .error (.rejected why) => .error (.rejected why)

/-- Everything from the request to the output, without the events. -/
def run (o : RenderOptions) (settings : Settings) (files : FileTree)
    (input : Except FileFault String) : Except Fault String := do
  let text ← requestText o files input
  let s ← snapshot o settings files
  let arguments ← ofRequest (Request.render text s)
  output o.argv arguments

/-- The parts of the program that events come from. -/
def renderTarget : String := "gitargs::cmd::render"
def assemblyTarget : String := "gitargs::commands"

def snapshotReady (s : Snapshot) : Event :=
  ⟨.debug, renderTarget, "effective config snapshot ready entries=" ++ toString s.size⟩

/-- The events of assembling the arguments of an operation. -/
def assemblyEvents (o : Operation) (s : Snapshot) : List Event :=
  let named := " operation=" ++ Text.escaped o.name
  ⟨.debug, assemblyTarget, "building git arguments" ++ named⟩ ::
    match o.arguments s with
    | .error why =>
      [⟨.debug, assemblyTarget, "request rejected" ++ named ++ " error=" ++ why.message⟩]
    | .ok arguments =>
      [⟨.trace, assemblyTarget, "built git arguments" ++ named ++ " args=" ++ arguments⟩,
       ⟨.info, renderTarget, "rendered arguments=" ++ arguments⟩]

/-- The events of a run, as far as it gets. -/
def events (o : RenderOptions) (settings : Settings) (files : FileTree)
    (input : Except FileFault String) : List Event :=
  match requestText o files input, snapshot o settings files with
  | .ok text, .ok s =>
    snapshotReady s ::
      match Request.parse text with
      | .ok operation => assemblyEvents operation s
      | .error _ => []
  | _, _ => []

end GitInvocation.Rendering
