import GitInvocation.Logging.Verbosity
/-!
# Arguments of the command line

Options may be given before the command or behind it, and a few belong to the command `render`
alone. An option that takes a value is followed by it or has it attached.
-/
namespace GitInvocation.CommandLine

/-- What makes a command line unusable, or ends the reading of it early. -/
inductive Fault where
  | unknownArgument
  | invalidCommand
  | conflict
  | invalidValue
  | refusedValue
  | tooManyValues
  | helpWanted
  | versionWanted
  deriving DecidableEq

def Fault.message : Fault → String
  | .unknownArgument => "unexpected argument"
  | .invalidCommand => "unrecognized subcommand"
  | .conflict => "conflicting arguments"
  | .invalidValue => "a value is required"
  | .refusedValue => "invalid value"
  | .tooManyValues => "unexpected value"
  | .helpWanted => "help is wanted"
  | .versionWanted => "the version is wanted"

/-- The part of a command line that is being read: what comes before any command, or the part
behind one. -/
inductive Level where
  | root
  | version
  | options
  | inis
  | operations
  | render
  deriving DecidableEq

def commands : List (String × Level) :=
  [("version", .version), ("-v", .version), ("options", .options), ("inis", .inis),
   ("operations", .operations), ("render", .render)]

/-- The word that asks for help on a command. -/
def helpWord : String := "help"

def namesCommand (word : String) : Bool :=
  (commands.lookup word).isSome || word == helpWord

inductive Argument where
  | config
  | logLevel
  | fileLogLevel
  | logFile
  | noDefaultConfig
  | request
  | json
  | gitConfig
  | configValue
  | argv
  | help
  | version
  deriving DecidableEq

namespace Argument

/-- The level an argument belongs to; `none` for one that may be given at every level. -/
def home? : Argument → Option Level
  | .request | .json | .gitConfig | .configValue | .argv => some .render
  | .version => some .root
  | _ => none

def allowedAt (level : Level) (a : Argument) : Bool :=
  match a.home? with
  | none => true
  | some home => home = level

def longNames : List (String × Argument) :=
  [("config", .config), ("log-level", .logLevel), ("file-log-level", .fileLogLevel),
   ("log-file", .logFile), ("no-default-config", .noDefaultConfig), ("json", .json),
   ("git-config", .gitConfig), ("argv", .argv), ("help", .help), ("version", .version)]

def shortNames : List (Char × Argument) :=
  [('l', .logLevel), ('c', .configValue), ('h', .help), ('V', .version)]

def ofLong? (level : Level) (name : String) : Option Argument :=
  (longNames.lookup name).filter (allowedAt level)

def ofShort? (level : Level) (name : Char) : Option Argument :=
  (shortNames.lookup name).filter (allowedAt level)

/-- What values an argument takes. -/
inductive Values where
  | none
  | path
  | level
  | text
  deriving DecidableEq

def values : Argument → Values
  | .config | .logFile | .request | .gitConfig => .path
  | .logLevel | .fileLogLevel => .level
  | .json | .configValue => .text
  | .noDefaultConfig | .argv | .help | .version => .none

def takesValue (a : Argument) : Bool := a.values ≠ .none

def repeatable : Argument → Bool
  | .config | .configValue => true
  | _ => false

end Argument

/-- A verbosity given as an option: an integer on the scale, with or without a sign. -/
def verbosity? (s : String) : Option Verbosity :=
  (Text.int64? s.toList).bind fun n => if 0 ≤ n then Verbosity.ofNumber? n.toNat else none

/-- What is wrong with a value. -/
def Argument.fault? (a : Argument) (value : String) : Option Fault :=
  match a.values with
  | .path => if value = "" then some .invalidValue else none
  | .level => if (verbosity? value).isNone then some .refusedValue else none
  | .none | .text => none

end GitInvocation.CommandLine
