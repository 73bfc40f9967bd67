import GitInvocation.Json.Basic
/-!
# Formats

A format says how the values of a type stand in JSON: which JSON values are read, with the fault
reported for all others, and which one is written.
-/
namespace GitInvocation.Json

structure Format (α : Type) where
  decode : Json → Except DecodeError α
  encode : α → Json

namespace Format

def bool : Format Bool where
  decode
    | .bool b => .ok b
    | v => .error (v.mismatch "a boolean")
  encode := .bool

def string : Format String where
  decode
    | .string s => .ok s
    | v => .error (v.mismatch "a string")
  encode := .string

/-- A natural number below `2 ^ bits`. -/
def decodeNat (bits : Nat) : Json → Except DecodeError Nat
  | .integer n =>
    if 0 ≤ n ∧ n.toNat < Nat.pow 2 bits then .ok n.toNat
    else .error (.wrongValue (Json.integer n).described ("u" ++ toString bits))
  | v => .error (v.mismatch ("u" ++ toString bits))

def uint32 : Format UInt32 where
  decode v := (decodeNat 32 v).map UInt32.ofNat
  encode n := .integer n.toNat

/-- An absent value is written as null. -/
def optional {α : Type} (f : Format α) : Format (Option α) where
  decode
    | .null => .ok none
    | v => (f.decode v).map some
  encode
    | none => .null
    | some a => f.encode a

def list {α : Type} (f : Format α) : Format (List α) where
  decode
    | .array items => items.mapM f.decode
    | v => .error (v.mismatch "a sequence")
  encode as := .array (as.map f.encode)

end Format

/-- What a named variant holds. -/
inductive Variant (α : Type) where
  | plain (value : α)
  | text (make : String → α)

/-- A closed choice between named variants. A variant may have further names that are read and
listed but never written. -/
structure Choice (α : Type) where
  variants : List (String × Variant α)
  encode : α → Json

namespace Choice

variable {α : Type}

/-- A choice between variants without content. -/
def ofNames (all : List α) (name : α → String) : Choice α where
  variants := all.map fun a => (name a, .plain a)
  encode a := .string (name a)

/-- A further name for a variant without content, listed before all others. -/
def alsoNamed (c : Choice α) (name : String) (a : α) : Choice α :=
  { c with variants := (name, .plain a) :: c.variants }

def find (c : Choice α) (name : String) : Except DecodeError (Variant α) :=
  match c.variants.lookup name with
  | some v => .ok v
  | none => .error (.unknownVariant name (c.variants.map Prod.fst))

/-- A variant of which only the name is given. -/
def bare : Variant α → Except DecodeError α
  | .plain a => .ok a
  | .text _ => .error (.wrongType "unit variant" "newtype variant")

/-- A variant with its content. A variant without content takes null, and an empty object where
`lenient`. -/
def filled (lenient : Bool) (content : Json) : Variant α → Except DecodeError α
  | .plain a =>
    match content, lenient with
    | .null, _ => .ok a
    | .object [], true => .ok a
    | v, _ => .error (v.mismatch "unit")
  | .text make => (Format.string.decode content).map make

/-- A choice inside a larger value: a name, or an object whose one member is named for the
variant and holds its content. -/
def format (c : Choice α) : Format α where
  decode
    | .string name => (c.find name).bind bare
    | .object [(name, content)] => (c.find name).bind (filled true content)
    | .object _ => .error (.wrongValue "map" "map with a single key")
    | v => .error (v.mismatch "string or map")
  encode := c.encode

end Choice

end GitInvocation.Json
