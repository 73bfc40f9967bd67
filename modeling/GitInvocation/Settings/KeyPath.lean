import GitInvocation.Settings.Tree
import GitInvocation.Text.Lines
import GitInvocation.Text.Number
/-!
# Paths to settings

A path names a setting from the root of the tree: a name, then further names behind dots and
positions in brackets. A key that is no path is taken as a single name.
-/
namespace GitInvocation

inductive KeyStep where
  | member (name : String)
  | item (index : Int)
  deriving DecidableEq

structure KeyPath where
  root : String
  steps : List KeyStep
  deriving DecidableEq

namespace KeyPath

def isNameChar (c : Char) : Bool := c.isAlphanum || c = '_' || c = '-'

def name? (s : List Char) : Option String :=
  if s = [] ∨ !s.all isNameChar then none else some (String.ofList s)

def isPadding (c : Char) : Bool := c = ' ' || c = '\t'

/-- An index without its opening bracket. -/
def item? (s : List Char) : Option KeyStep :=
  match s.reverse with
  | ']' :: body =>
    let digits := (body.dropWhile isPadding).reverse.dropWhile isPadding
    if digits.head? = some '+' then none else (Text.int64? digits).map .item
  | _ => none

/-- A name with the indexes behind it. -/
def segment? (s : List Char) : Option (String × List KeyStep) :=
  match Text.pieces '[' s with
  | [] => none
  | front :: indexes =>
    (name? front).bind fun name => (indexes.mapM item?).map fun steps => (name, steps)

def parse? (key : String) : Option KeyPath :=
  match (Text.pieces '.' key.toList).mapM segment? with
  | some ((root, steps) :: rest) =>
    some ⟨root, steps ++ rest.flatMap fun (name, steps) => .member name :: steps⟩
  | _ => none

/-- The path that a key stands for. -/
def ofKey (key : String) : KeyPath := (parse? key).getD ⟨key, []⟩

/-- Changes the setting at the end of a path. -/
def descend (f : Setting → Setting) : List KeyStep → Setting → Setting
  | [], s => f s
  | .member name :: steps, s => s.updateMember name (descend f steps)
  | .item index :: steps, s => s.updateItem index (descend f steps)

/-- Lays a setting over what is at the end of a path. -/
def set (p : KeyPath) (value tree : Setting) : Setting :=
  tree.updateMember p.root (descend value.merge p.steps)

end KeyPath

/-- Lays the members of a source over a tree. Each of its keys may be a path. -/
def Setting.layer (members : List (String × Setting)) (tree : Setting) : Setting :=
  members.foldl (fun tree m => (KeyPath.ofKey m.1).set m.2 tree) tree

end GitInvocation
