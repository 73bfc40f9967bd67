import GitInvocation.Json.Lexeme
/-!
# Reading JSON values

The reader takes one lexeme at a time and keeps the open brackets on a stack, so the nesting of a
text is never deeper than the stack says. Whoever decodes the value may make demands on the
way: a fault in the data is then reported before anything that follows it is looked at.
-/
namespace GitInvocation.Json.Reader

/-- An open bracket with what was read inside it, the latest first. -/
inductive Frame where
  | array (items : List Json)
  | object (members : List (String × Json)) (key : String)

/-- Demands on a text. `value` is asked about the first lexeme of a value, `key` about the name of
a member. Where `full` holds, a list takes no further item, and where `skipped` holds, values are
passed over and not looked at closely. -/
structure Demand where
  value : List Frame → Lexeme → Option DecodeError
  key : List (String × Json) → List Frame → String → Option DecodeError
  full : List Frame → Bool
  skipped : List Frame → Bool

/-- No demand at all. -/
def Demand.none : Demand :=
  ⟨fun _ _ => .none, fun _ _ _ => .none, fun _ => false, fun _ => false⟩

/-- The greatest number of brackets that may be open at a time. -/
def deepest : Nat := 127

/-- What is read next: a value, something behind a value, the name of a member, or the colon
behind a name. `first` marks the places where a bracket may be closed at once. -/
inductive State where
  | value (first : Bool) (stack : List Frame)
  | after (read : Json) (stack : List Frame)
  | key (first : Bool) (members : List (String × Json)) (stack : List Frame)
  | colon (name : String) (members : List (String × Json)) (stack : List Frame)

def broken (ended : Bool) : DecodeError := if ended then .ended else .malformed

/-- What is wrong with a lexeme at the place of a value. -/
def faultOf? (skipped : Bool) : Lexeme → Option DecodeError
  | .openObject | .openArray | .word _ => none
  | .text _ half => if half ∧ ¬ skipped then some .malformed else none
  | .hugeNumber => if skipped then none else some .malformed
  | .brokenText half ended => some (broken (ended && (skipped || !half)))
  | .brokenNumber ended => some (broken (ended && !skipped))
  | .brokenName ended => some (broken ended)
  | .closeObject | .closeArray | .colon | .comma | .stray => some .malformed

/-- Opens a bracket, unless too many are open. -/
def opening (d : Demand) (stack : List Frame) (next : State) : Except DecodeError State :=
  if deepest ≤ stack.length ∧ ¬ d.skipped stack then .error .malformed else .ok next

/-- The state behind the first lexeme of a value that has nothing wrong with it. -/
def begin (d : Demand) (stack : List Frame) : Lexeme → Except DecodeError State
  | .openObject => opening d stack (.key true [] stack)
  | .openArray => opening d stack (.value true (.array [] :: stack))
  | .word v => .ok (.after v stack)
  | .text s _ => .ok (.after (.string s) stack)
  | _ => .ok (.after .null stack)

def atValue (d : Demand) (stack : List Frame) (l : Lexeme) : Except DecodeError State :=
  match faultOf? (d.skipped stack) l with
  | some e => .error e
  | none =>
    match d.value stack l with
    | some e => .error e
    | none => begin d stack l

/-- A bracket may be closed, or a comma announces more. -/
def atAfter (d : Demand) (read : Json) : List Frame → Lexeme → Except DecodeError State
  | .array items :: below, .closeArray => .ok (.after (.array (read :: items).reverse) below)
  | .array items :: below, .comma =>
    if d.full (.array (read :: items) :: below) then .error .malformed
    else .ok (.value false (.array (read :: items) :: below))
  | .object members key :: below, .closeObject =>
    .ok (.after (.object ((key, read) :: members).reverse) below)
  | .object members key :: below, .comma => .ok (.key false ((key, read) :: members) below)
  | _, _ => .error .malformed

def atKey (d : Demand) (members : List (String × Json)) (stack : List Frame) :
    Lexeme → Except DecodeError State
  | .text name half =>
    if half ∧ ¬ d.skipped stack then .error .malformed
    else
      match d.key members stack name with
      | some e => .error e
      | none => .ok (.colon name members stack)
  | .brokenText half ended => .error (broken (ended && (d.skipped stack || !half)))
  | _ => .error .malformed

/-- What one lexeme does. -/
def step (d : Demand) (l : Lexeme) : State → Except DecodeError State
  | .value first stack =>
    match first, stack, l with
    | true, .array _ :: below, .closeArray => .ok (.after (.array []) below)
    | _, _, _ => atValue d stack l
  | .after read stack => atAfter d read stack l
  | .key first members stack =>
    match first, l with
    | true, .closeObject => .ok (.after (.object []) stack)
    | _, _ => atKey d members stack l
  | .colon name members stack =>
    match l with
    | .colon => .ok (.value false (.object members name :: stack))
    | _ => .error .malformed

/-- Reads one value. The lexemes behind it are returned. -/
def run (d : Demand) : State → List Lexeme → Except DecodeError (Json × List Lexeme)
  | .after v [], ls => .ok (v, ls)
  | _, [] => .error .ended
  | state, l :: ls =>
    match step d l state with
    | .ok next => run d next ls
    | .error e => .error e

/-- Decodes a text that is one value and nothing else. Faults in the data of the value come
before anything that follows it. -/
def decodeText {α : Type} (d : Demand) (decode : Json → Except DecodeError α) (text : String) :
    Except DecodeError α := do
  let (v, rest) ← run d (.value false []) (Lexeme.ofChars text.toList)
  let a ← decode v
  if rest.isEmpty then .ok a else .error .malformed

/-- The name of what a lexeme begins, for one that has nothing wrong with it. -/
def begun : Lexeme → String
  | .openObject => "map"
  | .openArray => "sequence"
  | .word v => v.described
  | .text s _ => (Json.string s).described
  | _ => ""

def isText : Lexeme → Bool
  | .text .. => true
  | _ => false

def isBracket : Lexeme → Bool
  | .openObject | .openArray => true
  | _ => false

end GitInvocation.Json.Reader
