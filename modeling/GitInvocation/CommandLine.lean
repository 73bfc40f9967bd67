import GitInvocation.CommandLine.Reading
/-!
# The command line

What a command line asks for. An option that is given behind the command takes the place of the
same option in front of it; lists are replaced as a whole.
-/
namespace GitInvocation

structure GlobalOptions where
  configs : List String
  logLevel : Option Verbosity
  fileLogLevel : Option Verbosity
  logFile : Option String
  noDefaultConfig : Bool
  deriving DecidableEq

/-- The settings that the options stand for. The log file follows the console unless it is given a
verbosity of its own. -/
def GlobalOptions.settings (o : GlobalOptions) : List (String × String) :=
  (o.logLevel.map fun v => ("global.output_log_level", toString v.number)).toList ++
    ((o.fileLogLevel.or o.logLevel).map fun v =>
      ("global.file_log_level", toString v.number)).toList ++
    (o.logFile.map fun path => ("global.log_file", path)).toList

structure RenderOptions where
  request : Option String
  json : Option String
  gitConfig : Option String
  configValues : List String
  argv : Bool
  deriving DecidableEq

inductive UserCommand where
  | version
  | options
  | inis
  | operations
  | render (options : RenderOptions)
  deriving DecidableEq

structure CommandLine where
  options : GlobalOptions
  command : Option UserCommand
  deriving DecidableEq

namespace CommandLine

/-- The values given for an argument. -/
def valuesOf (given : List (Argument × String)) (a : Argument) : List String :=
  (given.filter fun g => g.1 = a).map Prod.snd

def Words.behind (w : Words) : List (Argument × String) := (w.command.map Prod.snd).getD []

/-- The values of an argument that may be given on both sides of the command. -/
def Words.sharedValues (w : Words) (a : Argument) : List String :=
  match valuesOf w.behind a with
  | [] => valuesOf w.front a
  | values => values

def Words.options (w : Words) : GlobalOptions where
  configs := w.sharedValues .config
  logLevel := (w.sharedValues .logLevel).head?.bind verbosity?
  fileLogLevel := (w.sharedValues .fileLogLevel).head?.bind verbosity?
  logFile := (w.sharedValues .logFile).head?
  noDefaultConfig := !(w.sharedValues .noDefaultConfig).isEmpty

def renderOptions (given : List (Argument × String)) : RenderOptions where
  request := (valuesOf given .request).head?
  json := (valuesOf given .json).head?
  gitConfig := (valuesOf given .gitConfig).head?
  configValues := valuesOf given .configValue
  argv := !(valuesOf given .argv).isEmpty

def Words.userCommand? (w : Words) : Option UserCommand :=
  match w.command with
  | some (.version, _) => some .version
  | some (.options, _) => some .options
  | some (.inis, _) => some .inis
  | some (.operations, _) => some .operations
  | some (.render, given) => some (.render (renderOptions given))
  | some (.root, _) => none
  | none => none

/-- What the words of a command line ask for. -/
def parse (words : List String) : Except Fault CommandLine :=
  (read words).map fun w => ⟨w.options, w.userCommand?⟩

end CommandLine

end GitInvocation
