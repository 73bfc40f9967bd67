import GitInvocation.Json.Format
/-!
# Records

The fields of a record stand in a fixed order, in which they are written. They are read from an
object, where they may come in any order and fields with a default may be absent, or from an
array, where they come in their own order. Each member of an object is checked as it comes; what
is missing is reported only after that.
-/
namespace GitInvocation.Json

/-- The fields of a row of values. The second type is that of a row in which values may still be
missing. -/
inductive Layout : Type → Type → Type 1 where
  | done : Layout Unit Unit
  | field {α ρ σ : Type} (name : String) (format : Format α) (default? : Option α)
      (rest : Layout ρ σ) : Layout (α × ρ) (Option α × σ)

namespace Layout

/-- A field that must be given. -/
def needs {α ρ σ : Type} (name : String) (format : Format α) (rest : Layout ρ σ) :
    Layout (α × ρ) (Option α × σ) :=
  .field name format none rest

/-- A field that takes a default when it is not given. -/
def takes {α ρ σ : Type} (name : String) (format : Format α) (default : α) (rest : Layout ρ σ) :
    Layout (α × ρ) (Option α × σ) :=
  .field name format (some default) rest

def unfilled : {ρ σ : Type} → Layout ρ σ → σ
  | _, _, .done => ()
  | _, _, .field _ _ _ rest => (none, unfilled rest)

def size : {ρ σ : Type} → Layout ρ σ → Nat
  | _, _, .done => 0
  | _, _, .field _ _ _ rest => size rest + 1

/-- Puts the value of a member in its place. A name that is not a field's changes nothing. -/
def put (name : String) (v : Json) : {ρ σ : Type} → Layout ρ σ → σ → Except DecodeError σ
  | _, _, .done, _ => .ok ()
  | _, _, .field own format _ rest, (slot, slots) =>
    if name = own then
      match slot with
      | some _ => .error (.duplicateField name)
      | none => (format.decode v).map fun a => (some a, slots)
    else (put name v rest slots).map fun slots => (slot, slots)

def putAll {ρ σ : Type} (l : Layout ρ σ) : List (String × Json) → σ → Except DecodeError σ
  | [], slots => .ok slots
  | (name, v) :: members, slots => (put name v l slots).bind (putAll l members)

/-- Completes a row with the defaults. -/
def complete : {ρ σ : Type} → Layout ρ σ → σ → Except DecodeError ρ
  | _, _, .done, _ => .ok ()
  | _, _, .field name _ default? rest, (slot, slots) =>
    match slot.or default? with
    | none => .error (.missingField name)
    | some a => (complete rest slots).map fun row => (a, row)

/-- The row that an object gives. -/
def ofMembers {ρ σ : Type} (l : Layout ρ σ) (members : List (String × Json)) :
    Except DecodeError ρ :=
  (putAll l members (unfilled l)).bind (complete l)

/-- The row that the items of an array begin with, and the items left over. `short` is the fault
of an array with too few items. -/
def ofItems (short : DecodeError) :
    {ρ σ : Type} → Layout ρ σ → List Json → Except DecodeError (ρ × List Json)
  | _, _, .done, items => .ok ((), items)
  | _, _, .field _ _ default? rest, [] =>
    match default? with
    | none => .error short
    | some a => (ofItems short rest []).map fun (row, left) => ((a, row), left)
  | _, _, .field _ format _ rest, v :: items =>
    (format.decode v).bind fun a =>
      (ofItems short rest items).map fun (row, left) => ((a, row), left)

/-- The members that a row is written as. -/
def members : {ρ σ : Type} → Layout ρ σ → ρ → List (String × Json)
  | _, _, .done, _ => []
  | _, _, .field name format _ rest, (a, row) => (name, format.encode a) :: members rest row

end Layout

/-- What the value of a record is read from. -/
inductive Body where
  | members (members : List (String × Json))
  | items (items : List Json)

/-- `n` things in words. -/
def elements (n : Nat) : String := toString n ++ if n = 1 then " element" else " elements"

def tooMany (given wanted : Nat) : DecodeError :=
  .wrongLength given (elements wanted ++ " in sequence")

/-- A type whose values are rows in disguise. `title` is its name in diagnostics. -/
structure Record (α : Type) where
  title : String
  row : Type
  slots : Type
  layout : Layout row slots
  ofRow : row → α
  toRow : α → row
  ofRow_toRow : ∀ a, ofRow (toRow a) = a

namespace Record

variable {α : Type}

def of {ρ σ : Type} (title : String) (layout : Layout ρ σ) (ofRow : ρ → α) (toRow : α → ρ)
    (h : ∀ a, ofRow (toRow a) = a) : Record α :=
  ⟨title, ρ, σ, layout, ofRow, toRow, h⟩

def tooFew (r : Record α) (given : Nat) : DecodeError :=
  .wrongLength given ("struct " ++ r.title ++ " with " ++ elements r.layout.size)

def decode (r : Record α) : Body → Except DecodeError α
  | .members members => (r.layout.ofMembers members).map r.ofRow
  | .items items =>
    (r.layout.ofItems (r.tooFew items.length) items).bind fun (row, left) =>
      if left.isEmpty then .ok (r.ofRow row) else .error (tooMany items.length r.layout.size)

def members (r : Record α) (a : α) : List (String × Json) := r.layout.members (r.toRow a)

/-- A record inside a larger value. -/
def format (r : Record α) : Format α where
  decode
    | .object members => r.decode (.members members)
    | .array items => r.decode (.items items)
    | v => .error (v.mismatch ("struct " ++ r.title))
  encode a := .object (r.members a)

end Record

end GitInvocation.Json
