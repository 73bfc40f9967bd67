import GitInvocation.Binary64.Written
import GitInvocation.Toml.Document
/-!
# Trees of settings

Settings are gathered in a tree of tables and lists. Each part remembers where it came from, as far
as a message has to tell. A table that is merged over another one keeps the members it does not
mention; everything else takes the place of what was there.
-/
namespace GitInvocation

inductive Leaf where
  | nil
  | bool (value : Bool)
  | integer (value : Int)
  | float (value : Binary64)
  | text (value : String)
  deriving DecidableEq

inductive Setting where
  | leaf (origin : Option String) (value : Leaf)
  | list (origin : Option String) (items : List Setting)
  | table (origin : Option String) (members : List (String × Setting))

namespace Setting

def nil : Setting := .leaf none .nil

def origin : Setting → Option String
  | .leaf origin _ => origin
  | .list origin _ => origin
  | .table origin _ => origin

/-- Changes the setting of a key, which is nil when there is none. -/
def updateKey (key : String) (f : Setting → Setting) :
    List (String × Setting) → List (String × Setting)
  | [] => [(key, f nil)]
  | (k, s) :: rest => if k = key then (k, f s) :: rest else (k, s) :: updateKey key f rest

/-- Changes a member. What is no table is replaced by an empty one first. -/
def updateMember (key : String) (f : Setting → Setting) : Setting → Setting
  | .table origin members => .table origin (updateKey key f members)
  | _ => .table none (updateKey key f [])

/-- A list and a position in it, for an index that may count from the end and may lie outside. A
list is extended as far as the index needs. -/
def reach (items : List Setting) (index : Int) : List Setting × Nat :=
  if 0 ≤ index then (items ++ List.replicate (index.toNat + 1 - items.length) nil, index.toNat)
  else if index.natAbs ≤ items.length then (items, items.length - index.natAbs)
  else (List.replicate (index.natAbs - items.length) nil ++ items, 0)

/-- Changes an item. What is no list is replaced by an empty one first. -/
def updateItem (index : Int) (f : Setting → Setting) (s : Setting) : Setting :=
  let (origin, items) :=
    match s with
    | .list origin items => (origin, items)
    | _ => (none, [])
  let (items, position) := reach items index
  .list origin (items.modify position f)

mutual

/-- Lays a setting over another one. -/
def merge : Setting → Setting → Setting
  | .table _ members, old =>
    mergeMembers members (match old with
      | .leaf _ .nil => .table none []
      | old => old)
  | .leaf origin value, _ => .leaf origin value
  | .list origin items, _ => .list origin items

def mergeMembers : List (String × Setting) → Setting → Setting
  | [], old => old
  | (key, s) :: rest, old => mergeMembers rest (old.updateMember key (merge s))

end

mutual

/-- A value of a document as a setting. Dates and times are read as text. -/
def ofValue (origin : Option String) : Toml.Value → Setting
  | .scalar (.bool b) => .leaf origin (.bool b)
  | .scalar (.integer n) => .leaf origin (.integer n)
  | .scalar (.float x) => .leaf origin (.float x)
  | .scalar (.text s) => .leaf origin (.text s)
  | .scalar (.moment m) => .leaf origin (.text m.text)
  | .array items => .list origin (ofItems origin items)
  | .table members => .table origin (ofMembers origin members)

def ofItems (origin : Option String) : List Toml.Value → List Setting
  | [] => []
  | v :: rest => ofValue origin v :: ofItems origin rest

def ofMembers (origin : Option String) : List (String × Toml.Value) → List (String × Setting)
  | [] => []
  | (key, v) :: rest => (key, ofValue origin v) :: ofMembers origin rest

end

end Setting

end GitInvocation
