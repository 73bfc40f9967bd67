import GitInvocation.Command.Draft
import GitInvocation.Json.Record
import GitInvocation.Operation.Rejection
import GitInvocation.Text.Blank
/-!
# The files of a working tree

Removing and cleaning, resetting, stashing and applying patches.
-/
namespace GitInvocation

def filledIn (files : List String) : List String := files.filter fun f => !Text.blank f

structure Remove where
  force : Bool
  recursive : Bool
  files : List String
  deriving DecidableEq

def Remove.record : Json.Record Remove :=
  .of "RemoveRequest"
    (.takes "force" .bool true <|
      .takes "recursive" .bool true <|
      .takes "files" (.list .string) [] <|
      .done)
    (fun (force, recursive, files, _) => ⟨force, recursive, files⟩)
    (fun r => (r.force, r.recursive, r.files, ()))
    fun _ => rfl

/-- With no file to remove, the whole directory is meant. -/
def Remove.target (r : Remove) : String :=
  match filledIn r.files with
  | [] => "."
  | files => " ".intercalate files

def Remove.draft (r : Remove) : Draft :=
  Draft.start "rm"
    |>.rawIf r.force "--force"
    |>.rawIf r.recursive "-r"
    |>.raw r.target

inductive ResetMode where
  | index
  | soft
  | mixed
  | hard
  | merge
  | keep
  deriving DecidableEq

def ResetMode.all : List ResetMode := [.index, .soft, .mixed, .hard, .merge, .keep]

def ResetMode.name : ResetMode → String
  | .index => "reset_index"
  | .soft => "soft"
  | .mixed => "mixed"
  | .hard => "hard"
  | .merge => "merge"
  | .keep => "keep"

def ResetMode.choice : Json.Choice ResetMode := .ofNames all name

def ResetMode.flag? : ResetMode → Option String
  | .index => none
  | .soft => some "--soft"
  | .mixed => some "--mixed"
  | .hard => some "--hard"
  | .merge => some "--merge"
  | .keep => some "--keep"

structure Reset where
  mode : ResetMode
  commit : Option String
  file : Option String
  deriving DecidableEq

def Reset.record : Json.Record Reset :=
  .of "ResetRequest"
    (.takes "mode" ResetMode.choice.format .mixed <|
      .takes "commit" (.optional .string) none <|
      .takes "file" (.optional .string) none <|
      .done)
    (fun (mode, commit, file, _) => ⟨mode, commit, file⟩)
    (fun r => (r.mode, r.commit, r.file, ()))
    fun _ => rfl

/-- A reset of the index alone needs a commit to take the index from. -/
def Reset.draft (r : Reset) : Except Rejection Draft :=
  let commit := Text.nonBlank? r.commit
  if r.mode = .index ∧ commit = none then .error (.missingTreeish "reset")
  else
    .ok (Draft.start "reset"
      |>.raw? r.mode.flag?
      |>.quoted? commit
      |>.raw "--"
      |>.path? (Text.nonBlank? r.file))

/-- Which of the files that are not tracked are removed. -/
inductive CleanMode where
  | onlyNonIgnored
  | onlyIgnored
  | everything
  deriving DecidableEq

def CleanMode.all : List CleanMode := [.onlyNonIgnored, .onlyIgnored, .everything]

def CleanMode.name : CleanMode → String
  | .onlyNonIgnored => "only_non_ignored"
  | .onlyIgnored => "only_ignored"
  | .everything => "all"

def CleanMode.choice : Json.Choice CleanMode := .ofNames all name

def CleanMode.flag? : CleanMode → Option String
  | .onlyNonIgnored => none
  | .onlyIgnored => some "-X"
  | .everything => some "-x"

structure Clean where
  mode : CleanMode
  dryRun : Bool
  directories : Bool
  paths : Option String
  excludes : Option String
  deriving DecidableEq

def Clean.record : Json.Record Clean :=
  .of "CleanRequest"
    (.takes "mode" CleanMode.choice.format .onlyNonIgnored <|
      .takes "dry_run" .bool false <|
      .takes "directories" .bool false <|
      .takes "paths" (.optional .string) none <|
      .takes "excludes" (.optional .string) none <|
      .done)
    (fun (mode, dryRun, directories, paths, excludes, _) =>
      ⟨mode, dryRun, directories, paths, excludes⟩)
    (fun r => (r.mode, r.dryRun, r.directories, r.paths, r.excludes, ()))
    fun _ => rfl

def Clean.draft (r : Clean) : Draft :=
  Draft.start "clean"
    |>.raw? r.mode.flag?
    |>.rawIf r.directories "-d"
    |>.rawEither r.dryRun "--dry-run" "-f"
    |>.raw? r.paths
    |>.raw? r.excludes

structure CleanSubmodules where
  mode : CleanMode
  dryRun : Bool
  directories : Bool
  paths : Option String
  deriving DecidableEq

def CleanSubmodules.record : Json.Record CleanSubmodules :=
  .of "CleanSubmodulesRequest"
    (.takes "mode" CleanMode.choice.format .onlyNonIgnored <|
      .takes "dry_run" .bool false <|
      .takes "directories" .bool false <|
      .takes "paths" (.optional .string) none <|
      .done)
    (fun (mode, dryRun, directories, paths, _) => ⟨mode, dryRun, directories, paths⟩)
    (fun r => (r.mode, r.dryRun, r.directories, r.paths, ()))
    fun _ => rfl

/-- What is run inside each submodule. -/
def CleanSubmodules.each (r : CleanSubmodules) : Clean :=
  ⟨r.mode, r.dryRun, r.directories, r.paths, none⟩

def CleanSubmodules.draft (r : CleanSubmodules) : Draft :=
  Draft.start "submodule"
    |>.raw "foreach"
    |>.raw "--recursive"
    |>.raw "git"
    |>.raw r.each.draft.text

/-- With `files`, even with none but blank ones, the stash is a partial one. -/
structure Stash where
  untracked : Bool
  keepIndex : Bool
  message : Option String
  files : List String
  deriving DecidableEq

def Stash.record : Json.Record Stash :=
  .of "StashSaveRequest"
    (.takes "untracked" .bool false <|
      .takes "keep_index" .bool false <|
      .takes "message" (.optional .string) none <|
      .takes "files" (.list .string) [] <|
      .done)
    (fun (untracked, keepIndex, message, files, _) => ⟨untracked, keepIndex, message, files⟩)
    (fun r => (r.untracked, r.keepIndex, r.message, r.files, ()))
    fun _ => rfl

def Stash.draft (r : Stash) : Draft :=
  let partly := !r.files.isEmpty
  let message := Text.nonBlank? r.message
  Draft.start "stash"
    |>.rawEither partly "push" "save"
    |>.rawIf r.untracked "-u"
    |>.rawIf r.keepIndex "--keep-index"
    |>.rawIf (partly && message.isSome) "-m"
    |>.quoted? message
    |>.rawIf partly "--"
    |>.paths (filledIn r.files)

structure ApplyDiff where
  patchFile : String
  ignoreWhitespace : Bool
  deriving DecidableEq

def ApplyDiff.record : Json.Record ApplyDiff :=
  .of "ApplyDiffPatchRequest"
    (.needs "patch_file" .string <|
      .takes "ignore_whitespace" .bool false <|
      .done)
    (fun (patchFile, ignoreWhitespace, _) => ⟨patchFile, ignoreWhitespace⟩)
    (fun r => (r.patchFile, r.ignoreWhitespace, ()))
    fun _ => rfl

def ApplyDiff.draft (r : ApplyDiff) : Draft :=
  Draft.start "apply"
    |>.rawIf r.ignoreWhitespace "--ignore-whitespace"
    |>.path r.patchFile

/-- Without a file the patches come from the standard input. -/
structure ApplyMailbox where
  signOff : Bool
  ignoreWhitespace : Bool
  patchFile : Option String
  deriving DecidableEq

def ApplyMailbox.record : Json.Record ApplyMailbox :=
  .of "ApplyMailboxPatchRequest"
    (.takes "sign_off" .bool false <|
      .takes "ignore_whitespace" .bool false <|
      .takes "patch_file" (.optional .string) none <|
      .done)
    (fun (signOff, ignoreWhitespace, patchFile, _) => ⟨signOff, ignoreWhitespace, patchFile⟩)
    (fun r => (r.signOff, r.ignoreWhitespace, r.patchFile, ()))
    fun _ => rfl

def ApplyMailbox.draft (r : ApplyMailbox) : Draft :=
  Draft.start "am"
    |>.raw "--3way"
    |>.rawIf r.signOff "--signoff"
    |>.rawIf r.ignoreWhitespace "--ignore-whitespace"
    |>.path? (Text.nonBlank? r.patchFile)

end GitInvocation
