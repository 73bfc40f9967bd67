import GitInvocation.CommandLine.Argument
import GitInvocation.Text.Lines
/-!
# Reading a command line

Words are read from left to right. A value that follows its option as a word of its own is looked
at only when the next option is met or the words have ended, so a fault further right that is
seen at once may come first. A command hands the remaining words to its own level; what is
unsettled in front of it is settled after them.
-/
namespace GitInvocation.CommandLine

/-- What has been read at one level. `pending` is an argument that is not settled yet, with its
value unless that is still awaited; `bare` holds behind a lone pair of hyphens. -/
structure Reading where
  given : List (Argument × String)
  pending : Option (Argument × Option String)
  bare : Bool

namespace Reading

def start : Reading := ⟨[], none, false⟩

def has (r : Reading) (a : Argument) : Bool := r.given.any fun g => g.1 = a

def awaits (r : Reading) : Bool :=
  match r.pending with
  | some (_, none) => true
  | _ => false

/-- Accepts an argument with its value. -/
def give (r : Reading) (a : Argument) (value : String) : Except Fault Reading :=
  if r.has a && !a.repeatable then .error .conflict
  else
    match a.fault? value with
    | some e => .error e
    | none => .ok { r with given := r.given ++ [(a, value)] }

/-- Accepts the argument that is pending. -/
def settle (r : Reading) : Except Fault Reading :=
  match r.pending with
  | none => .ok r
  | some (_, none) => .error .invalidValue
  | some (a, some value) => give { r with pending := none } a value

def await (r : Reading) (a : Argument) (value : Option String) : Except Fault Reading :=
  r.settle.map fun r => { r with pending := some (a, value) }

/-- An argument without a value. -/
def switch (r : Reading) (a : Argument) : Except Fault Reading :=
  r.settle.bind fun r =>
    match a with
    | .help => .error .helpWanted
    | .version => .error .versionWanted
    | a => r.give a ""

/-- An option with the value that is attached to it, if any. -/
def option (r : Reading) (a : Argument) (attached : Option String) : Except Fault Reading :=
  match a.takesValue, attached with
  | true, some value => r.settle.bind fun r => r.give a value
  | true, none => r.await a none
  | false, some _ => .error .tooManyValues
  | false, none => r.switch a

/-- An option by its long name, from behind the hyphens. -/
def long (level : Level) (r : Reading) (s : List Char) : Except Fault Reading :=
  let (name, attached) :=
    match Text.cut? '=' s with
    | some (name, value) => (name, some (String.ofList value))
    | none => (s, none)
  match Argument.ofLong? level (String.ofList name) with
  | some a => r.option a attached
  | none => .error .unknownArgument

/-- The value attached to a short name; an equals sign in front of it does not count. -/
def attachedShort? : List Char → Option String
  | [] => none
  | '=' :: value => some (String.ofList value)
  | value => some (String.ofList value)

/-- An option by its short name. -/
def short (level : Level) (r : Reading) (name : Char) (rest : List Char) : Except Fault Reading :=
  match Argument.ofShort? level name with
  | some a => if a.takesValue then r.option a (attachedShort? rest) else r.switch a
  | none => .error .unknownArgument

/-- A word that is no option. -/
def plain (level : Level) (r : Reading) (word : String) : Except Fault Reading :=
  let taken := r.has .request || (r.pending.map Prod.fst == some .request)
  match level with
  | .render => if taken then .error .unknownArgument else r.await .request (some word)
  | .root =>
    if r.bare && namesCommand word then .error .unknownArgument else .error .invalidCommand
  | _ => .error .unknownArgument

/-- A word that names no command. -/
def word (level : Level) (r : Reading) (word : String) : Except Fault Reading :=
  if r.bare then r.plain level word
  else
    match word.toList with
    | ['-', '-'] => .ok { r with bare := true }
    | '-' :: '-' :: rest => r.long level rest
    | '-' :: c :: rest => r.short level c rest
    | _ =>
      match r.pending with
      | some (a, none) => .ok { r with pending := some (a, some word) }
      | _ => r.plain level word

/-- Reads the words behind a command. -/
def words (level : Level) (r : Reading) : List String → Except Fault Reading
  | [] => r.settle
  | w :: ws => (r.word level w).bind fun r => words level r ws

end Reading

/-- The arguments on both sides of the command. -/
structure Words where
  front : List (Argument × String)
  command : Option (Level × List (Argument × String))

/-- Help is wanted, on at most one command. -/
def helpFault : List String → Fault
  | [] => .helpWanted
  | [word] => if namesCommand word then .helpWanted else .invalidCommand
  | _ => .invalidCommand

/-- A request and its text cannot both be given. -/
def excluded (r : Reading) : Bool := r.has .request && r.has .json

/-- Reads the words behind a command, and after that settles those in front of it. -/
def readBehind (front : Reading) (level : Level) (ws : List String) : Except Fault Words := do
  let behind ← Reading.start.words level ws
  if excluded behind then throw .conflict
  let front ← front.settle
  return ⟨front.given, some (level, behind.given)⟩

/-- Reads words up to the command, and those behind it. -/
def readFrom (front : Reading) : List String → Except Fault Words
  | [] => front.settle.map fun r => ⟨r.given, none⟩
  | w :: ws =>
    if front.bare || front.awaits then (front.word .root w).bind fun r => readFrom r ws
    else if w = helpWord then .error (helpFault ws)
    else
      match commands.lookup w with
      | some level => readBehind front level ws
      | none => (front.word .root w).bind fun r => readFrom r ws

def read (words : List String) : Except Fault Words := readFrom .start words

end GitInvocation.CommandLine
