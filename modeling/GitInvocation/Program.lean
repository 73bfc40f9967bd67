import GitInvocation.Rendering
/-!
# The program

A run as a function of its command line, the files, the environment and the standard input, and of
what is left to chance. It gives an exit code, what is printed, and the files as the run leaves
them; only a log file and the directories above it are ever changed. The log may be sent to the
standard output, and then its lines stand there as well.
-/
namespace GitInvocation

/-- What a run finds. The standard input may be no text. -/
structure World where
  files : FileTree
  environment : List (String × String)
  input : Except FileFault String

/-- What a run leaves to chance: the order of the keys in each layer of settings and, as a log is
written on the side, how much of the text of the command is printed before each line of the log. -/
structure Chance where
  order : LayerOrder
  gaps : List Nat

/-- Keys as they are listed, and a log that is never late. -/
def Chance.steady : Chance := ⟨.listed, []⟩

structure Outcome where
  code : Nat
  stdout : String
  stderr : String
  files : FileTree

namespace Program

def name : String := "gitargs"
def version : String := "0.1.0"

/-- The file with settings that is looked for in the working directory. -/
def defaultSettings : String := name ++ ".toml"

/-- What the names of the variables that are settings start with. -/
def environmentStart : String := "GITARGS"

def unlines (lines : List String) : String := String.join (lines.map (· ++ "\n"))

def usage : String :=
  unlines
    ["Usage: " ++ name ++ " [OPTIONS] [COMMAND]",
     "",
     "Commands: version, options, inis, operations, render, help",
     "Options: --config FILE, -l/--log-level LEVEL, --file-log-level LEVEL, --log-file FILE,",
     "  --no-default-config, -h/--help, -V/--version",
     "Options of render: [REQUEST], --json TEXT, --git-config FILE, -c KEY=VALUE, --argv"]

/-- The layers that the options ask for, with nothing overridden. -/
def layers (o : GlobalOptions) (files : FileTree) : Loader :=
  let start :=
    if o.noDefaultConfig then Loader.empty else Loader.empty.addDefaultFile files defaultSettings
  (o.configs.foldl Loader.addFile start).addEnvironment environmentStart

/-- The layers with the overrides of the options on top. -/
def loader (o : GlobalOptions) (files : FileTree) : Loader :=
  o.settings.foldl (fun l (key, value) => (l.override? key (.leaf none (.text value))).getD l)
    (layers o files)

/-- The paths at which settings may be found. -/
def settingsPaths (o : GlobalOptions) : List String :=
  let given := if o.noDefaultConfig then o.configs else defaultSettings :: o.configs
  given ++ given.filterMap (Path.withEnding? settingsEnding)

/-- The other paths that a command may use, once the settings are known. -/
def dataPaths (c : CommandLine) (s : Settings) : List String :=
  s.snapshotFile.toList ++ s.logFile.toList ++
    match c.command with
    | some (.render o) => o.request.toList ++ o.gitConfig.toList
    | _ => []

def success (w : World) (stdout : String) : Outcome := ⟨0, stdout, "", w.files⟩

def errorLine (message : String) : String := "Error: " ++ message ++ "\n"

def failure (w : World) (message : String) : Outcome := ⟨1, "", errorLine message, w.files⟩

/-- What a command does: what it prints, its events, and the fault that ends it, if any. -/
structure Report where
  stdout : String
  events : List Event
  fault : Option String

def optionsReport (settings : Settings) (files : FileTree) : Report :=
  let shown := unlines settings.optionLines
  match settings.loadSnapshot files with
  | .error e => ⟨shown, [], some ("snapshot error: " ++ e.message)⟩
  | .ok s =>
    let lines := s.entries.map fun (key, value) => "  " ++ key ++ "=" ++ value
    let heading := "effective git config (" ++ toString s.size ++ " entries)"
    ⟨shown ++ unlines ("" :: heading :: lines), [], none⟩

def renderReport (o : RenderOptions) (settings : Settings) (files : FileTree)
    (input : Except FileFault String) : Report :=
  let events := Rendering.events o settings files input
  match Rendering.run o settings files input with
  | .error e => ⟨"", events, some e.message⟩
  | .ok text => ⟨unlines [text], events, none⟩

/-- Why logging cannot start, and the files as that leaves them. -/
structure LogFault where
  message : String
  files : FileTree

/-- Creates the log file and the directories above it. -/
def openLog (files : FileTree) (path : String) : Except LogFault (Place × FileTree) := do
  let files ← match (Path.parent? path).filter (· ≠ "") with
    | none => .ok files
    | some parent =>
      match files.makeDirectories parent with
      | .ok files => .ok files
      | .error e => .error ⟨"failed to create log directory " ++ parent ++ ": " ++ e.message, files⟩
  match files.create path with
  | .ok created => .ok created
  | .error e => .error ⟨"failed to create log file " ++ path ++ ": " ++ e.message, files⟩

/-- True when the log goes to the standard output. -/
def logsToOutput (files : FileTree) (log : Option Place) : Bool :=
  match log with
  | none => false
  | some place => files.entry? place = some .output

/-- A text among which the lines of a log stand, as both are written to one place: before each line
as many further characters of the text as its gap says, and none before a line without a gap. -/
def mixed : List Nat → List String → List Char → List Char
  | _, [], text => text
  | gaps, line :: lines, text =>
    let gap := gaps.headD 0
    text.take gap ++ line.toList ++ '\n' :: mixed gaps.tail lines (text.drop gap)

/-- The outcome of a command that has reported, with its log, if any. -/
def conclude (gaps : List Nat) (settings : Settings) (files : FileTree) (log : Option Place)
    (r : Report) : Outcome where
  code := if r.fault.isSome then 1 else 0
  stdout :=
    if logsToOutput files log then
      String.ofList (mixed gaps (settings.fileVerbosity.fileLines r.events) r.stdout.toList)
    else r.stdout
  stderr :=
    unlines (settings.consoleVerbosity.consoleLines r.events) ++
      (r.fault.map errorLine).getD ""
  files :=
    match log with
    | none => files
    | some place =>
      if logsToOutput files log then files
      else files.put place (.text (unlines (settings.fileVerbosity.fileLines r.events)))

/-- Runs a command that needs settings. Logging starts once they are loaded. -/
def withSettings (k : Chance) (w : World) (o : GlobalOptions)
    (command : Settings → FileTree → Report) : Outcome :=
  match (loader o w.files).loadBy k.order w.files w.environment with
  | .error e =>
    failure w ("failed to load settings" ++ (e.message?.map (": " ++ ·)).getD "")
  | .ok settings =>
    match settings.logFile with
    | none => conclude k.gaps settings w.files none (command settings w.files)
    | some path =>
      match openLog w.files path with
      | .error e =>
        ⟨1, "", errorLine ("failed to initialize logging: " ++ e.message), e.files⟩
      | .ok (place, files) => conclude k.gaps settings files (some place) (command settings files)

/-- The settings files in the order in which they count. -/
def sourceLines (sources : List Source) : List String :=
  if sources.isEmpty then ["No settings files loaded"]
  else sources.zipIdx.map fun (source, n) => toString (n + 1) ++ ". " ++ source.text

def runCommand (k : Chance) (w : World) (c : CommandLine) : Outcome :=
  match c.command with
  | none => failure w "No command specified. Use --help for usage information."
  | some .version => success w (unlines [version])
  | some .operations => success w (unlines Operation.names)
  | some .inis => success w (unlines (sourceLines (layers c.options w.files).sources))
  | some .options => withSettings k w c.options optionsReport
  | some (.render o) =>
    withSettings k w c.options fun settings files => renderReport o settings files w.input

/-- A run of the program on the words of its command line, as chance has it. -/
def runBy (k : Chance) (words : List String) (w : World) : Outcome :=
  match CommandLine.parse words with
  | .ok c => runCommand k w c
  | .error .helpWanted => success w usage
  | .error .versionWanted => success w (unlines [name ++ " " ++ version])
  | .error e => ⟨2, "", "error: " ++ e.message ++ "\n\n" ++ usage, w.files⟩

/-- A run of the program. -/
def run (words : List String) (w : World) : Outcome := runBy .steady words w

end Program

end GitInvocation
