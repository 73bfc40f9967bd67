import GitInvocation.Program
/-!
# Running the program

The outer layer: it looks up the files that a command line and its settings mention, runs the
program on what it has found, and carries out what has become of the files.
-/
namespace GitInvocation.Main

/-- The code that the system gives for reading a directory. -/
def directoryCode : UInt32 := 21

/-- What is found at a path. -/
def probe (path : String) : IO (Option Entry) := do
  try
    let bytes ← IO.FS.readBinFile path
    return some ((String.fromUTF8? bytes).elim (.bytes bytes.toList) .text)
  catch
    | .inappropriateType _ code _ =>
      return if code = directoryCode then some .directory else none
    | _ => return none

/-- Enters a path and everything on the way to it in a tree. The standard output is not looked at,
as reading it might never end. -/
def survey (t : FileTree) (path : String) : IO FileTree := do
  let (start, steps) := FileTree.route path
  let mut tree := t
  let mut place := start
  let mut seen : List String := []
  for name in steps do
    match tree.step place name with
    | .error _ => return tree
    | .ok next =>
      seen := seen ++ [name]
      place := next
      unless tree.entry? place = some .output do
        match ← probe ("/".intercalate seen) with
        | some entry => tree := tree.put place entry
        | none => pure ()
  return tree

def surveyAll (t : FileTree) (paths : List String) : IO FileTree := paths.foldlM survey t

/-- The variables whose names and values are text. -/
def environment : IO (List (String × String)) := do
  let bytes ← IO.FS.readBinFile "/proc/self/environ"
  let text := (String.fromUTF8? bytes).getD ""
  return (Text.pieces '\x00' text.toList).filterMap fun piece =>
    (Text.cut? '=' piece).map fun (name, value) => (String.ofList name, String.ofList value)

def standardInput : IO (Except FileFault String) := do
  let bytes ← (← IO.getStdin).readBinToEnd
  return (String.fromUTF8? bytes).elim (.error .notText) .ok

def input (c : CommandLine) : IO (Except FileFault String) :=
  match c.command with
  | some (.render o) => if Rendering.readsInput o then standardInput else return .ok ""
  | _ => return .ok ""

/-- The path that leads to a place. -/
def pathOf (p : Place) : String :=
  let names := "/".intercalate p.names
  match p.base with
  | .root => "/" ++ names
  | .working above => String.join (List.replicate above "../") ++ names

/-- Carries out a change at one place. -/
def carryOut (before : FileTree) (change : Place × Entry) : IO Unit := do
  if before.entry? change.1 = some change.2 then return
  match change.2 with
  | .directory => IO.FS.createDirAll (pathOf change.1)
  | .text content => IO.FS.writeFile (pathOf change.1) content
  | .bytes _ | .output => return

/-- What a run on the given words finds. -/
def world (words : List String) : IO World := do
  let environment ← environment
  match CommandLine.parse words with
  | .error _ => return ⟨FileTree.empty, environment, .ok ""⟩
  | .ok c =>
    let files ← surveyAll FileTree.empty (Program.settingsPaths c.options)
    let files ← match (Program.loader c.options files).load files environment with
      | .ok settings => surveyAll files (Program.dataPaths c settings)
      | .error _ => pure files
    return ⟨files, environment, ← input c⟩

end GitInvocation.Main

def main (words : List String) : IO UInt32 := do
  let world ← GitInvocation.Main.world words
  let outcome := GitInvocation.Program.run words world
  outcome.files.entries.reverse.forM (GitInvocation.Main.carryOut world.files)
  IO.print outcome.stdout
  IO.eprint outcome.stderr
  return outcome.code.toUInt32
