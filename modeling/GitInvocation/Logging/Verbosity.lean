import GitInvocation.Settings.Fault
import GitInvocation.Text.Blank
import GitInvocation.Text.Number
/-!
# Verbosity

How much is logged, on a scale from 0 to 6. The highest step shows no further lines than the one
below it, but says where each line comes from.
-/
namespace GitInvocation

inductive Severity where
  | error
  | warning
  | info
  | debug
  | trace
  deriving DecidableEq

/-- The rank of a severity, the gravest first. -/
def Severity.rank : Severity → Nat
  | .error => 1
  | .warning => 2
  | .info => 3
  | .debug => 4
  | .trace => 5

inductive Verbosity where
  | silent
  | errors
  | warnings
  | info
  | debug
  | trace
  | dump
  deriving DecidableEq

namespace Verbosity

def number : Verbosity → Nat
  | .silent => 0
  | .errors => 1
  | .warnings => 2
  | .info => 3
  | .debug => 4
  | .trace => 5
  | .dump => 6

def all : List Verbosity := [.silent, .errors, .warnings, .info, .debug, .trace, .dump]

def ofNumber? (n : Nat) : Option Verbosity := all.find? fun v => v.number = n

/-- The name of the gravest-to-least range that is shown. -/
def filterName : Verbosity → String
  | .silent => "off"
  | .errors => "error"
  | .warnings => "warn"
  | .info => "info"
  | .debug => "debug"
  | .trace | .dump => "trace"

def showsTarget (v : Verbosity) : Bool := v = .dump

def shows (v : Verbosity) (s : Severity) : Bool := s.rank ≤ v.number

def fault (message : String) : SettingFault := .invalidValue "global" "log_level" message

def outOfRange (n : Nat) : SettingFault := fault ("log level must be 0-6, got " ++ toString n)

def ofNumber (n : Nat) : Except SettingFault Verbosity :=
  match ofNumber? n with
  | some v => .ok v
  | none => .error (outOfRange n)

/-- A verbosity in text: a number of at most one byte that is on the scale. -/
def parse (s : String) : Except SettingFault Verbosity :=
  match Text.bounded? 10 0xFF (Text.trimChars s.toList) with
  | some n => ofNumber n
  | none => .error (fault ("expected a number 0-6, got '" ++ s ++ "'"))

/-- What is shown on the console when nothing else is asked for. -/
def console : Verbosity := .warnings

/-- What goes into a log file when nothing else is asked for. -/
def file : Verbosity := .trace

end Verbosity

end GitInvocation
