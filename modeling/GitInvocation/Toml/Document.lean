import GitInvocation.Toml.Lexeme
import GitInvocation.Toml.Table
/-!
# TOML documents

A document is read lexeme by lexeme. The brackets that are open within a statement are kept on a
stack, and each statement takes effect as soon as it ends. A text that is no document has no
reading; what is wrong with it is not told.
-/
namespace GitInvocation.Toml.Document

/-- An open bracket within a statement. In an inline table, `path` is the key whose value is being
read. -/
inductive Frame where
  | array (items : List Value)
  | inline (members : Members) (path : List String)

/-- What a key belongs to. The stack is the one below an inline table. -/
inductive Owner where
  | header
  | item
  | statement
  | inline (members : Members) (stack : List Frame)

/-- A value in the making: the key of its statement and the brackets that are open. -/
structure Site where
  key : List String
  stack : List Frame

/-- What is read next. Keys are kept with their last part in front; `complete` tells that a part
has just been read. -/
inductive State where
  | start
  | bracket
  | key (owner : Owner) (statement : List String) (path : List String) (complete : Bool)
  | closing (path : List String)
  | lineEnd
  | value (site : Site)
  | run (site : Site) (text : List Char)
  | dateGap (site : Site) (text : List Char)
  | after (site : Site) (v : Value)

/-- The document so far and the path of the table that is open. -/
structure Reading where
  root : Members
  opened : List String
  state : State

def Reading.start : Reading := ⟨[], [], .start⟩

/-- The greatest number of brackets that may be open at a time. -/
def deepest : Nat := 80

def isBareKey (s : List Char) : Bool :=
  s.all fun c => c.isAlphanum || c = '_' || c = '-'

/-- A part of a key. -/
def keyPart? : Lexeme → Option String
  | .text false content => some (String.ofList content)
  | .run s => if isBareKey s then some (String.ofList s) else none
  | _ => none

namespace Reading

def goto (r : Reading) (s : State) : Reading := { r with state := s }

/-- Opens a bracket inside a value. -/
def push (r : Reading) (site : Site) (frame : Frame) (next : Site → State) : Option Reading :=
  if deepest ≤ site.stack.length then none
  else some (r.goto (next { site with stack := frame :: site.stack }))

/-- Behind a value, at a line end, a comma or a closing bracket. -/
def afterValue (r : Reading) (site : Site) (v : Value) (l : Lexeme) : Option Reading :=
  match site.stack, l with
  | _, .space _ => some (r.goto (.after site v))
  | [], .newline =>
    (Members.within (Members.assign false site.key v) r.opened r.root).map fun root =>
      ⟨root, r.opened, .start⟩
  | .array _ :: _, .newline => some (r.goto (.after site v))
  | .array items :: below, .comma =>
    some (r.goto (.value ⟨site.key, .array (v :: items) :: below⟩))
  | .array items :: below, .closeBracket =>
    some (r.goto (.after ⟨site.key, below⟩ (.array (v :: items).reverse)))
  | .inline _ _ :: _, .newline => some (r.goto (.after site v))
  | .inline members path :: below, .comma =>
    (Members.assign true path v members).map fun members =>
      r.goto (.key (.inline members below) site.key [] false)
  | .inline members path :: below, .closeBrace =>
    (Members.assign true path v members).map fun members =>
      r.goto (.after ⟨site.key, below⟩ (.table (memberValues members)))
  | _, _ => none

/-- Behind a run of characters that is a value. -/
def afterRun (r : Reading) (site : Site) (text : List Char) (l : Lexeme) : Option Reading :=
  (Scalar.parse? text).bind fun s => r.afterValue site (.scalar s) l

def atValue (r : Reading) (site : Site) (l : Lexeme) : Option Reading :=
  match l, site.stack with
  | .space _, _ => some (r.goto (.value site))
  | .newline, .array _ :: _ => some (r.goto (.value site))
  | .closeBracket, .array items :: below =>
    some (r.goto (.after ⟨site.key, below⟩ (.array items.reverse)))
  | .openBracket, _ => r.push site (.array []) .value
  | .openBrace, stack =>
    if deepest ≤ stack.length then none
    else some (r.goto (.key (.inline [] stack) site.key [] false))
  | .text _ content, _ => some (r.goto (.after site (.scalar (.text (String.ofList content)))))
  | .run s, _ => some (r.goto (.run site s))
  | _, _ => none

/-- In a run, whose parts may have points between them. -/
def atRun (r : Reading) (site : Site) (text : List Char) (l : Lexeme) : Option Reading :=
  match l with
  | .run s => some (r.goto (.run site (text ++ s)))
  | .dot => some (r.goto (.run site (text ++ ['.'])))
  | .space [' '] =>
    if isDate text then some (r.goto (.dateGap site text)) else r.afterRun site text l
  | l => r.afterRun site text l

/-- Behind a blank that follows a date. A digit begins a time. -/
def atDateGap (r : Reading) (site : Site) (text : List Char) (l : Lexeme) : Option Reading :=
  match l with
  | .run s => some (r.goto (.run site (text ++ ' ' :: s)))
  | l => r.afterRun site text l

/-- Behind a key that is complete. -/
def afterKey (r : Reading) (owner : Owner) (statement path : List String) (l : Lexeme) :
    Option Reading :=
  match owner, l with
  | owner, .space _ => some (r.goto (.key owner statement path true))
  | owner, .dot => some (r.goto (.key owner statement path false))
  | .header, .closeBracket =>
    (Members.along Members.openTable path.reverse r.root).map fun root =>
      ⟨root, path.reverse, .lineEnd⟩
  | .item, .closeBracket => some (r.goto (.closing path.reverse))
  | .statement, .equals => some (r.goto (.value ⟨path.reverse, []⟩))
  | .inline members stack, .equals =>
    some (r.goto (.value ⟨statement, .inline members path.reverse :: stack⟩))
  | _, _ => none

/-- Where a part of a key is wanted. In an inline table there may be none. -/
def atKey (r : Reading) (owner : Owner) (statement path : List String) (l : Lexeme) :
    Option Reading :=
  match l with
  | .space _ => some (r.goto (.key owner statement path false))
  | l =>
    match keyPart? l with
    | some part => some (r.goto (.key owner statement (part :: path) true))
    | none =>
      match owner, path, l with
      | .inline _ _, [], .newline => some (r.goto (.key owner statement path false))
      | .inline members stack, [], .closeBrace =>
        some (r.goto (.after ⟨statement, stack⟩ (.table (memberValues members))))
      | _, _, _ => none

/-- At the start of a line. -/
def atStart (r : Reading) (l : Lexeme) : Option Reading :=
  match l with
  | .space _ => some r
  | .newline => some r
  | .openBracket => some (r.goto .bracket)
  | l => r.atKey .statement [] [] l

/-- What one lexeme does. -/
def step (r : Reading) (l : Lexeme) : Option Reading :=
  match r.state with
  | .start => r.atStart l
  | .bracket =>
    if l = .openBracket then some (r.goto (.key .item [] [] false))
    else r.atKey .header [] [] l
  | .key owner statement path true => r.afterKey owner statement path l
  | .key owner statement path false => r.atKey owner statement path l
  | .closing path =>
    if l = .closeBracket then
      (Members.along Members.openItem path r.root).map fun root => ⟨root, path, .lineEnd⟩
    else none
  | .lineEnd =>
    match l with
    | .space _ => some r
    | .newline => some (r.goto .start)
    | _ => none
  | .value site => r.atValue site l
  | .run site text => r.atRun site text l
  | .dateGap site text => r.atDateGap site text l
  | .after site v => r.afterValue site v l

/-- The root table of a document, whose last line has been ended. -/
def finished (r : Reading) : Option Members :=
  match r.state with
  | .start => some r.root
  | _ => none

end Reading

/-- The mark that may stand in front of a text to tell its encoding. -/
def byteOrderMark : Char := '\ufeff'

def unmarked (s : List Char) : List Char := if s.head? = some byteOrderMark then s.tail else s

/-- The members of the root table of a document. -/
def parse? (text : String) : Option (List (String × Value)) := do
  let lexemes ← Lexeme.ofChars (unmarked text.toList)
  let r ← (lexemes ++ [Lexeme.newline]).foldlM Reading.step Reading.start
  let root ← r.finished
  return memberValues root

end GitInvocation.Toml.Document
