import GitInvocation.Files.Tree
import GitInvocation.Settings.Environment
import GitInvocation.Settings.Fault
import GitInvocation.Settings.Reading
import GitInvocation.Snapshot.Listing
/-!
# Loading settings

Settings come in layers: files and texts in the order in which they were added, then the
environment, then overrides. The layers are laid over one another as trees, and only what comes
out is read, so a faulty setting does no harm under one that takes its place. A settings file need
not be text throughout: bytes that are none are replaced.
-/
namespace GitInvocation

/-- An order in which the keys of a layer are laid. They are kept in a hash table, so no order can
be relied on; it matters only to a layer with several keys for one setting. -/
structure LayerOrder where
  lay : List (String × Setting) → List (String × Setting)
  perm : ∀ members, (lay members).Perm members

/-- The keys as they are listed. -/
def LayerOrder.listed : LayerOrder := ⟨id, fun _ => .refl _⟩

/-- A layer that is a document. The default file is one that need not be there. -/
inductive Source where
  | defaultFile (path : String)
  | file (path : String)
  | inline (text : String)
  deriving DecidableEq

def Source.text : Source → String
  | .defaultFile path => "[default] " ++ path
  | .file path => "[file] " ++ path
  | .inline _ => "[inline]"

inductive LoadFault where
  | fileMissing (path : String)
  | badDocument
  | badTree (fault : TreeFault)
  | badSetting (fault : SettingFault)

/-- What can be told of a fault. Nothing is told of a document that cannot be read. -/
def LoadFault.message? : LoadFault → Option String
  | .fileMissing path => some ("configuration file \"" ++ path ++ "\" not found")
  | .badDocument => none
  | .badTree fault => some fault.message
  | .badSetting fault => some fault.message

/-- A stack of layers. Of several environments the last one counts. -/
structure Loader where
  sources : List Source
  environment : Option String
  overrides : List (KeyPath × Setting)

namespace Loader

def empty : Loader := ⟨[], none, []⟩

/-- Adds a file, unless it is missing when this is asked for. -/
def addDefaultFile (l : Loader) (files : FileTree) (path : String) : Loader :=
  if files.isFile path then { l with sources := l.sources ++ [.defaultFile path] } else l

/-- Adds a file that must be there when the settings are loaded. -/
def addFile (l : Loader) (path : String) : Loader :=
  { l with sources := l.sources ++ [.file path] }

def addText (l : Loader) (text : String) : Loader :=
  { l with sources := l.sources ++ [.inline text] }

/-- Adds the variables whose names start as given. -/
def addEnvironment (l : Loader) (start : String) : Loader := { l with environment := some start }

/-- Replaces the value of a path, or adds one. -/
def putOverride (path : KeyPath) (value : Setting) :
    List (KeyPath × Setting) → List (KeyPath × Setting)
  | [] => [(path, value)]
  | (p, v) :: rest =>
    if p = path then (path, value) :: rest else (p, v) :: putOverride path value rest

/-- Adds an override; `none` when its key is no path. -/
def override? (l : Loader) (key : String) (value : Setting) : Option Loader :=
  (KeyPath.parse? key).map fun path =>
    { l with overrides := putOverride path value l.overrides }

end Loader

/-- The ending that a settings file may lack in its path. -/
def settingsEnding : String := ".toml"

/-- The path under which a settings file is found. -/
def findSettings? (files : FileTree) (path : String) : Option String :=
  if files.isFile path then some path
  else (Path.withEnding? settingsEnding path).filter files.isFile

/-- The tree of a document. -/
def readDocument (origin : Option String) (text : String) :
    Except LoadFault (List (String × Setting)) :=
  match Toml.Document.parse? text with
  | some members => .ok (Setting.ofMembers origin members)
  | none => .error .badDocument

/-- A text without the mark that some editors put in front of it. -/
def withoutMark (text : String) : String :=
  String.ofList (Toml.Document.unmarked text.toList)

def readSettingsFile (files : FileTree) (path : String) :
    Except LoadFault (List (String × Setting)) :=
  match findSettings? files path with
  | none => .error (.fileMissing path)
  | some found =>
    match files.readDecoded found with
    | .ok text => readDocument (some (Path.shown found)) (withoutMark text)
    | .error _ => .error .badDocument

/-- The tree of one layer. -/
def Source.read (files : FileTree) : Source → Except LoadFault (List (String × Setting))
  | .defaultFile path => readSettingsFile files path
  | .file path => readSettingsFile files path
  | .inline text => readDocument none text

namespace Loader

/-- The variables that count as settings. -/
def environmentSettings (l : Loader) (environment : List (String × String)) :
    List (String × Setting) :=
  match l.environment with
  | some start => Environment.settings start environment
  | none => []

/-- The tree that the layers make together when the keys of each come in the given order. -/
def treeBy (order : LayerOrder) (l : Loader) (files : FileTree)
    (environment : List (String × String)) : Except LoadFault Setting := do
  let layers ← l.sources.mapM (Source.read files)
  let documents :=
    layers.foldl (fun tree layer => Setting.layer (order.lay layer) tree) (.table none [])
  let all := Setting.layer (order.lay (l.environmentSettings environment)) documents
  return l.overrides.foldl (fun tree (path, value) => path.set value tree) all

/-- The tree that the layers make together. -/
def tree (l : Loader) (files : FileTree) (environment : List (String × String)) :
    Except LoadFault Setting :=
  l.treeBy .listed files environment

end Loader

/-- Checks the entries that are laid over the configuration listing: each is one line with a key.
The first of them has the given number. -/
def checkEntries : Nat → List String → Except SettingFault Unit
  | _, [] => .ok ()
  | n, entry :: rest =>
    let fault message := SettingFault.invalidValue "snapshot" "values" message
    if Text.blank entry ∨ entry.toList.contains '\n' then
      .error (fault ("entry " ++ toString n ++ " must be a single key=value line"))
    else
      match Snapshot.ofListing entry with
      | .error _ =>
        .error (fault ("entry " ++ toString n ++ " '" ++ entry ++ "' has no config key"))
      | .ok _ => checkEntries (n + 1) rest

/-- Loads the settings, with the keys of each layer in the given order. -/
def Loader.loadBy (order : LayerOrder) (l : Loader) (files : FileTree)
    (environment : List (String × String)) : Except LoadFault Settings := do
  let members ← match ← l.treeBy order files environment with
    | .table _ members => .ok members
    | _ => .ok []
  match Settings.ofMembers members with
  | .error e => throw (.badTree e)
  | .ok settings =>
    match checkEntries 0 settings.snapshotValues with
    | .error e => throw (.badSetting e)
    | .ok () => return settings

/-- Loads the settings. -/
def Loader.load (l : Loader) (files : FileTree) (environment : List (String × String)) :
    Except LoadFault Settings :=
  l.loadBy .listed files environment

namespace Settings

/-- The configuration in force: the listing that the settings name, if any, and on top of it the
entries that they hold. -/
def loadSnapshot (s : Settings) (files : FileTree) : Except SnapshotError Snapshot := do
  let base ← match s.snapshotFile with
    | none => .ok Snapshot.empty
    | some path =>
      match files.read path with
      | .error e => .error (.unreadable path e.message)
      | .ok text => Snapshot.ofListing text
  let entries ← Snapshot.ofListing ("\n".intercalate s.snapshotValues)
  return base.merge entries

/-- The settings by key, in ascending order of the keys. -/
def options (s : Settings) : List (String × String) :=
  let entries := s.snapshotValues.zipIdx.map fun (entry, n) =>
    (Setting.itemKey "snapshot.values" n, entry)
  ([("global.output_log_level", toString s.consoleVerbosity.number),
    ("global.file_log_level", toString s.fileVerbosity.number),
    ("global.log_file", s.logFile.getD ""),
    ("snapshot.file", s.snapshotFile.getD "")] ++ entries).foldl
      (fun sorted option => putEntry option.1 option.2 sorted) []

/-- The settings as lines, with the values in one column. -/
def optionLines (s : Settings) : List String :=
  let width := (s.options.map fun option => option.1.length).foldl max 0
  s.options.map fun (key, value) =>
    key ++ String.ofList (List.replicate (width - key.length) ' ') ++ " = " ++ value

end Settings

end GitInvocation
