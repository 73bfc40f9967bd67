import GitInvocation.Command.Override
import GitInvocation.Command.Token
/-!
# Invocation drafts

A draft collects the parts of one invocation in any order and writes them in a fixed one: the
switch against optional locks, the overrides, the command, the tokens.
-/
namespace GitInvocation

structure Draft where
  command : String
  lockFree : Bool
  overrides : List Override
  tokens : List Token

namespace Draft

def start (command : String) : Draft := ⟨command, false, [], []⟩

/-- Decides whether optional locks are renounced; the last call counts. -/
def noOptionalLocks (d : Draft) (on : Bool) : Draft := { d with lockFree := on }

def configure (d : Draft) (items : List Override) : Draft :=
  { d with overrides := d.overrides ++ items }

def add (d : Draft) (items : List Token) : Draft := { d with tokens := d.tokens ++ items }

def addIf (d : Draft) (on : Bool) (item : Token) : Draft := if on then d.add [item] else d

def addEither (d : Draft) (on : Bool) (yes no : Token) : Draft :=
  if on then d.add [yes] else d.add [no]

/-- Adds a piece of text as it stands. -/
def raw (d : Draft) (value : String) : Draft := d.add [.raw value]

def rawIf (d : Draft) (on : Bool) (value : String) : Draft := if on then d.raw value else d

def rawEither (d : Draft) (on : Bool) (yes no : String) : Draft :=
  if on then d.raw yes else d.raw no

def raw? (d : Draft) (value : Option String) : Draft := d.add (value.toList.map .raw)

def raws (d : Draft) (values : List String) : Draft := d.add (values.map .raw)

def quoted (d : Draft) (value : String) : Draft := d.add [.quoted value]

def quoted? (d : Draft) (value : Option String) : Draft := d.add (value.toList.map .quoted)

def path (d : Draft) (value : String) : Draft := d.add [.path value]

def path? (d : Draft) (value : Option String) : Draft := d.add (value.toList.map .path)

def paths (d : Draft) (values : List String) : Draft := d.add (values.map .path)

def noLocksSwitch : String := "--no-optional-locks"

/-- The pieces of the argument text, in order. -/
def parts (d : Draft) : List String :=
  (if d.lockFree then [noLocksSwitch] else []) ++
    d.overrides.flatMap (fun o => ["-c", o.text]) ++
    d.command :: d.tokens.filterMap Token.text?

/-- The argument text: all parts, one space between any two. -/
def text (d : Draft) : String := " ".intercalate d.parts

/-- A count behind its flag, unless it is zero. -/
def countFlag? (flag : String) (count : UInt32) : Option String :=
  if count = 0 then none else some (flag ++ toString count)

/-- What may be asked of a draft, one thing at a time. -/
inductive Step where
  | noOptionalLocks (on : Bool)
  | configure (items : List Override)
  | add (items : List Token)
  | addIf (on : Bool) (item : Token)
  | addEither (on : Bool) (yes no : Token)
  | raw (value : String)
  | rawIf (on : Bool) (value : String)
  | rawEither (on : Bool) (yes no : String)
  | raw? (value : Option String)
  | raws (values : List String)
  | quoted (value : String)
  | quoted? (value : Option String)
  | path (value : String)
  | path? (value : Option String)
  | paths (values : List String)

def apply (d : Draft) : Step → Draft
  | .noOptionalLocks on => d.noOptionalLocks on
  | .configure items => d.configure items
  | .add items => d.add items
  | .addIf on item => d.addIf on item
  | .addEither on yes no => d.addEither on yes no
  | .raw value => d.raw value
  | .rawIf on value => d.rawIf on value
  | .rawEither on yes no => d.rawEither on yes no
  | .raw? value => d.raw? value
  | .raws values => d.raws values
  | .quoted value => d.quoted value
  | .quoted? value => d.quoted? value
  | .path value => d.path value
  | .path? value => d.path? value
  | .paths values => d.paths values

def run (d : Draft) (steps : List Step) : Draft := steps.foldl apply d

end Draft

end GitInvocation
