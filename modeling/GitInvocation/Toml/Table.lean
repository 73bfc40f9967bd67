import GitInvocation.Toml.Scalar
/-!
# TOML tables

A table may be opened once by a header, and comes into being earlier when a header or a dotted key
leads through it. What has been written in one of these ways cannot be continued in another, and
no key is ever given twice. The values of a line are closed once they are read.
-/
namespace GitInvocation.Toml

inductive Value where
  | scalar (s : Scalar)
  | array (items : List Value)
  | table (members : List (String × Value))

/-- How a table came into being: opened by a header, passed through by one, or made by a key. -/
inductive Made where
  | opened
  | implied
  | dotted
  deriving DecidableEq

/-- A part of a document. An array of tables has its latest table in front. -/
inductive Node where
  | value (v : Value)
  | table (made : Made) (members : List (String × Node))
  | tables (items : List (List (String × Node)))

abbrev Members := List (String × Node)

namespace Members

/-- Replaces the node of a key, or adds one at the end. `none` refuses the change. -/
def alter (key : String) (f : Option Node → Option Node) : Members → Option Members
  | [] => (f none).map fun node => [(key, node)]
  | (k, node) :: rest =>
    if k = key then (f (some node)).map fun node => (k, node) :: rest
    else (alter key f rest).map fun rest => (k, node) :: rest

/-- Gives a key its value. A dotted key leads through tables that no header has opened, the last of
which a key has made; within an inline table, keys have made them all. -/
def assign (inline : Bool) : List String → Value → Members → Option Members
  | [], _, _ => none
  | [key], v, members =>
    alter key (fun
      | none => some (.value v)
      | some _ => none) members
  | key :: next :: path, v, members =>
    alter key (fun
      | none => (assign inline (next :: path) v []).map (.table .dotted)
      | some (.table made inner) =>
        if made = .dotted ∨ (made = .implied ∧ path ≠ [] ∧ ¬ inline) then
          (assign inline (next :: path) v inner).map (.table made)
        else none
      | some (.tables (last :: items)) =>
        if path ≠ [] ∧ ¬ inline then
          (assign inline (next :: path) v last).map fun last => .tables (last :: items)
        else none
      | some _ => none) members

/-- Follows a header up to the table that holds its last key. -/
def along (f : String → Members → Option Members) : List String → Members → Option Members
  | [], _ => none
  | [key], members => f key members
  | key :: next :: path, members =>
    alter key (fun
      | none => (along f (next :: path) []).map (.table .implied)
      | some (.table made inner) => (along f (next :: path) inner).map (.table made)
      | some (.tables (last :: items)) =>
        (along f (next :: path) last).map fun last => .tables (last :: items)
      | some _ => none) members

/-- Opens a table. -/
def openTable (key : String) : Members → Option Members :=
  alter key fun
    | none => some (.table .opened [])
    | some (.table .implied inner) => some (.table .opened inner)
    | some _ => none

/-- Opens a further table of an array. -/
def openItem (key : String) : Members → Option Members :=
  alter key fun
    | none => some (.tables [[]])
    | some (.tables items) => some (.tables ([] :: items))
    | some _ => none

/-- Changes the table that a header has opened last. -/
def within (f : Members → Option Members) : List String → Members → Option Members
  | [], members => f members
  | key :: path, members =>
    alter key (fun
      | some (.table made inner) => (within f path inner).map (.table made)
      | some (.tables (last :: items)) =>
        (within f path last).map fun last => .tables (last :: items)
      | _ => none) members

end Members

mutual

/-- The value of a part, once it is complete. -/
def Node.toValue : Node → Value
  | .value v => v
  | .table _ members => .table (memberValues members)
  | .tables items => .array (itemValues items).reverse

def memberValues : List (String × Node) → List (String × Value)
  | [] => []
  | (key, node) :: rest => (key, node.toValue) :: memberValues rest

def itemValues : List (List (String × Node)) → List Value
  | [] => []
  | members :: rest => .table (memberValues members) :: itemValues rest

end

end GitInvocation.Toml
