import GitInvocation.Logging.Verbosity
/-!
# Log lines

What happens during a run is told in events. The console and the log file each show the events up
to their own verbosity; the file always says where an event comes from.
-/
namespace GitInvocation

/-- An event with the part of the program that it comes from. -/
structure Event where
  severity : Severity
  target : String
  text : String
  deriving DecidableEq

def Severity.label : Severity → String
  | .error => "ERROR"
  | .warning => "WARN"
  | .info => "INFO"
  | .debug => "DEBUG"
  | .trace => "TRACE"

def Event.line (e : Event) (withTarget : Bool) : String :=
  e.severity.label ++ " " ++ (if withTarget then e.target ++ ": " else "") ++ e.text

namespace Verbosity

/-- The lines that the console shows. -/
def consoleLines (v : Verbosity) (events : List Event) : List String :=
  (events.filter fun e => v.shows e.severity).map fun e => e.line v.showsTarget

/-- The lines that a log file holds. -/
def fileLines (v : Verbosity) (events : List Event) : List String :=
  (events.filter fun e => v.shows e.severity).map fun e => e.line true

end Verbosity

end GitInvocation
