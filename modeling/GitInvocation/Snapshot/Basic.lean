import GitInvocation.Snapshot.Key
/-!
# Snapshots of the effective configuration

A snapshot holds the configuration that is in force when an invocation is assembled: values by
canonical key, in ascending order of the keys. Strings are ordered by code points, which is also
the order of their bytes.
-/
namespace GitInvocation

/-- Sets a key in an ascending list of entries. -/
def putEntry (key value : String) : List (String × String) → List (String × String)
  | [] => [(key, value)]
  | (k, v) :: rest =>
    if key = k then (key, value) :: rest
    else if key < k then (key, value) :: (k, v) :: rest
    else (k, v) :: putEntry key value rest

structure Snapshot where
  entries : List (String × String)
  deriving DecidableEq

namespace Snapshot

def empty : Snapshot := ⟨[]⟩

/-- Sets a key in any of its spellings. -/
def insert (s : Snapshot) (key value : String) : Snapshot :=
  ⟨putEntry (Key.canonical key) value s.entries⟩

/-- The value of a key in any of its spellings. -/
def get? (s : Snapshot) (key : String) : Option String := s.entries.lookup (Key.canonical key)

def size (s : Snapshot) : Nat := s.entries.length

def isEmpty (s : Snapshot) : Bool := s.entries.isEmpty

/-- Inserts entries in order, so the last one for a key counts. -/
def insertAll (s : Snapshot) (items : List (String × String)) : Snapshot :=
  items.foldl (fun s item => s.insert item.1 item.2) s

def ofList (items : List (String × String)) : Snapshot := empty.insertAll items

/-- Lays another snapshot on top. Its keys are canonical already and are taken as they are. -/
def merge (s other : Snapshot) : Snapshot :=
  ⟨other.entries.foldl (fun entries item => putEntry item.1 item.2 entries) s.entries⟩

/-- The snapshot of a table of raw keys. The members are sorted as they are written and the last
of equal keys is kept; only then are the keys inserted. -/
def ofTable (members : List (String × String)) : Snapshot :=
  ofList (members.foldl (fun entries item => putEntry item.1 item.2 entries) [])

end Snapshot

end GitInvocation
