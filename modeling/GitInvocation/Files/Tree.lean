import GitInvocation.Files.Path
import GitInvocation.Text.Decoding
/-!
# File trees

A file tree holds the files that a run may look at, by their places. A place is found from a path
by walking through directories; every directory on the way must exist, even when the next step
leads back out of it. There are no links, but the standard output of the run may have places of its
own among the files.
-/
namespace GitInvocation

/-- Why a file cannot be used. -/
inductive FileFault where
  | notFound
  | exists
  | notDirectory
  | isDirectory
  | nameTooLong
  | zeroByte
  | notText
  | denied
  deriving DecidableEq

def FileFault.message : FileFault → String
  | .notFound => "No such file or directory (os error 2)"
  | .exists => "File exists (os error 17)"
  | .notDirectory => "Not a directory (os error 20)"
  | .isDirectory => "Is a directory (os error 21)"
  | .nameTooLong => "File name too long (os error 36)"
  | .zeroByte => "file name contained an unexpected NUL byte"
  | .notText => "stream did not contain valid UTF-8"
  | .denied => "Permission denied (os error 13)"

/-- Where a walk starts: some levels above the working directory, or at the root. -/
inductive Base where
  | working (above : Nat)
  | root
  deriving DecidableEq

structure Place where
  base : Base
  names : List String
  deriving DecidableEq

/-- What is at a place, or where a link there leads. A file is kept as bytes when these are no text.
The standard output can be written to and not read. -/
inductive Entry where
  | text (content : String)
  | bytes (content : List UInt8)
  | directory
  | output
  deriving DecidableEq

/-- A file whose only byte is no text. -/
def Entry.binary : Entry := .bytes [0xFF]

namespace Place

def working : Place := ⟨.working 0, []⟩

def child (p : Place) (name : String) : Place := { p with names := p.names ++ [name] }

def parent (p : Place) : Place :=
  match p.names, p.base with
  | [], .working above => ⟨.working (above + 1), []⟩
  | [], .root => p
  | names, base => ⟨base, names.dropLast⟩

/-- True when `q` lies inside `p`, at any depth. -/
def holds (p q : Place) : Bool :=
  p.base = q.base && p.names.length < q.names.length && p.names.isPrefixOf q.names

end Place

structure FileTree where
  entries : List (Place × Entry)

namespace FileTree

/-- The names that a system has for the standard output. -/
def outputNames : List (List String) :=
  [["dev", "stdout"], ["dev", "fd", "1"], ["proc", "self", "fd", "1"]]

/-- A system without files. -/
def empty : FileTree := ⟨outputNames.map fun names => (⟨.root, names⟩, .output)⟩

def put (t : FileTree) (p : Place) (e : Entry) : FileTree :=
  ⟨(p, e) :: t.entries.filter fun entry => entry.1 ≠ p⟩

/-- What is at a place. A place with something inside is a directory, and so is every base. -/
def entry? (t : FileTree) (p : Place) : Option Entry :=
  match t.entries.lookup p with
  | some e => some e
  | none =>
    if p.names = [] ∨ t.entries.any (fun entry => p.holds entry.1) then some .directory else none

/-- The greatest length of a name, in bytes. -/
def longestName : Nat := 255

/-- Checks that a place is a directory. -/
def enter (t : FileTree) (p : Place) : Except FileFault Unit :=
  match t.entry? p with
  | none => .error .notFound
  | some .directory => .ok ()
  | some _ => .error .notDirectory

/-- One step of a walk. -/
def step (t : FileTree) (p : Place) (name : String) : Except FileFault Place :=
  (t.enter p).bind fun _ =>
    if name = "" ∨ name = "." then .ok p
    else if name = ".." then .ok p.parent
    else if longestName < name.utf8ByteSize then .error .nameTooLong
    else .ok (p.child name)

def walk (t : FileTree) (p : Place) : List String → Except FileFault Place
  | [] => .ok p
  | name :: names => (t.step p name).bind fun p => t.walk p names

/-- The start of the walk along a path, and its steps. -/
def route (path : String) : Place × List String :=
  let steps := (Text.pieces '/' path.toList).map String.ofList
  (if Path.isAbsolute path.toList then ⟨.root, []⟩ else Place.working, steps)

/-- The place that a path leads to. -/
def locate (t : FileTree) (path : String) : Except FileFault Place :=
  if path.toList.contains '\x00' then .error .zeroByte
  else if path = "" then .error .notFound
  else
    let (start, steps) := route path
    t.walk start steps

def isFile (t : FileTree) (path : String) : Bool :=
  match t.locate path with
  | .error _ => false
  | .ok p =>
    match t.entry? p with
    | some (.text _) => true
    | some (.bytes _) => true
    | _ => false

/-- The text of a file. -/
def read (t : FileTree) (path : String) : Except FileFault String :=
  (t.locate path).bind fun p =>
    match t.entry? p with
    | none => .error .notFound
    | some .directory => .error .isDirectory
    | some .output => .error .denied
    | some (.bytes _) => .error .notText
    | some (.text content) => .ok content

/-- The text of a file, with replacements for what is no text. -/
def readDecoded (t : FileTree) (path : String) : Except FileFault String :=
  (t.locate path).bind fun p =>
    match t.entry? p with
    | some (.bytes content) => .ok (Text.ofBytes content)
    | _ => t.read path

/-- Walks along names and creates the directories that are missing. -/
def makeAlong (t : FileTree) (p : Place) : List String → Except FileFault FileTree
  | [] => .ok t
  | name :: names =>
    (t.step p name).bind fun q =>
      match t.entry? q with
      | some .directory => t.makeAlong q names
      | some _ => .error (if names = [] then .exists else .notDirectory)
      | none => (t.put q .directory).makeAlong q names

/-- Creates a directory and those above it, as far as they are missing. -/
def makeDirectories (t : FileTree) (path : String) : Except FileFault FileTree :=
  if path.toList.contains '\x00' then .error .zeroByte
  else
    let (start, steps) := route path
    t.makeAlong start (steps.filter fun name => name ≠ "" ∧ name ≠ ".")

/-- Creates an empty file at the end of a walk, or empties the one that is there; the standard
output has nothing to be emptied of. A last step that is no name stands for a directory, and so
does a path that ends with a slash. -/
def createAt (t : FileTree) (p : Place) (last : String) : Except FileFault (Place × FileTree) :=
  if last = "" then (t.enter p).bind fun _ => .error .isDirectory
  else
    (t.step p last).bind fun q =>
      match t.entry? q with
      | some .directory => .error .isDirectory
      | some .output => .ok (q, t)
      | _ => .ok (q, t.put q (.text ""))

def create (t : FileTree) (path : String) : Except FileFault (Place × FileTree) :=
  if path.toList.contains '\x00' then .error .zeroByte
  else if path = "" then .error .notFound
  else
    let (start, steps) := route path
    (t.walk start (Path.trimSteps steps).dropLast).bind fun p =>
      t.createAt p (steps.getLast?.getD "")

end FileTree

end GitInvocation
