import GitInvocation.Command.Draft
import GitInvocation.Json.Record
import GitInvocation.Operation.RefFilter
import GitInvocation.Text.Blank
/-!
# Queries

The state of the files, the differences in one of them, and the refs. The settings that would
change the form of an answer are overridden, so that it can be read by a program.
-/
namespace GitInvocation

inductive UntrackedFiles where
  | shown
  | no
  | normal
  | each
  deriving DecidableEq

def UntrackedFiles.all : List UntrackedFiles := [.shown, .no, .normal, .each]

def UntrackedFiles.name : UntrackedFiles → String
  | .shown => "default"
  | .no => "no"
  | .normal => "normal"
  | .each => "all"

def UntrackedFiles.choice : Json.Choice UntrackedFiles := .ofNames all name

def UntrackedFiles.flag : UntrackedFiles → String
  | .shown => "--untracked-files"
  | .no => "--untracked-files=no"
  | .normal => "--untracked-files=normal"
  | .each => "--untracked-files=all"

inductive IgnoredSubmodules where
  | unset
  | each
  | untracked
  | dirty
  | always
  deriving DecidableEq

def IgnoredSubmodules.all : List IgnoredSubmodules := [.unset, .each, .untracked, .dirty, .always]

def IgnoredSubmodules.name : IgnoredSubmodules → String
  | .unset => "unset"
  | .each => "default"
  | .untracked => "untracked"
  | .dirty => "dirty"
  | .always => "all"

def IgnoredSubmodules.choice : Json.Choice IgnoredSubmodules :=
  (Json.Choice.ofNames all name).alsoNamed "none" .unset

def IgnoredSubmodules.flag? : IgnoredSubmodules → Option String
  | .unset => none
  | .each => some "--ignore-submodules"
  | .untracked => some "--ignore-submodules=untracked"
  | .dirty => some "--ignore-submodules=dirty"
  | .always => some "--ignore-submodules=all"

structure ChangedFiles where
  excludeIgnoredFiles : Bool
  untrackedFiles : UntrackedFiles
  ignoreSubmodules : IgnoredSubmodules
  noLocks : Bool
  deriving DecidableEq

def ChangedFiles.record : Json.Record ChangedFiles :=
  .of "GetAllChangedFilesRequest"
    (.takes "exclude_ignored_files" .bool true <|
      .takes "untracked_files" UntrackedFiles.choice.format .shown <|
      .takes "ignore_submodules" IgnoredSubmodules.choice.format .unset <|
      .takes "no_locks" .bool false <|
      .done)
    (fun (excludeIgnoredFiles, untrackedFiles, ignoreSubmodules, noLocks, _) =>
      ⟨excludeIgnoredFiles, untrackedFiles, ignoreSubmodules, noLocks⟩)
    (fun r => (r.excludeIgnoredFiles, r.untrackedFiles, r.ignoreSubmodules, r.noLocks, ()))
    fun _ => rfl

def ChangedFiles.draft (r : ChangedFiles) : Draft :=
  Draft.start "status"
    |>.noOptionalLocks r.noLocks
    |>.configure [⟨"diff.ignoreSubmodules", "none"⟩]
    |>.raw "--porcelain=2"
    |>.raw "-z"
    |>.raw r.untrackedFiles.flag
    |>.rawIf (!r.excludeIgnoredFiles) "--ignored"
    |>.raw? r.ignoreSubmodules.flag?

/-- The old name of a file matters only among staged changes. -/
structure Changes where
  fileName : String
  oldFileName : Option String
  staged : Bool
  extraArguments : String
  noLocks : Bool
  deriving DecidableEq

def Changes.record : Json.Record Changes :=
  .of "GetCurrentChangesRequest"
    (.needs "file_name" .string <|
      .takes "old_file_name" (.optional .string) none <|
      .takes "staged" .bool false <|
      .takes "extra_diff_arguments" .string "" <|
      .takes "no_locks" .bool false <|
      .done)
    (fun (fileName, oldFileName, staged, extraArguments, noLocks, _) =>
      ⟨fileName, oldFileName, staged, extraArguments, noLocks⟩)
    (fun r => (r.fileName, r.oldFileName, r.staged, r.extraArguments, r.noLocks, ()))
    fun _ => rfl

def Changes.oldFile? (r : Changes) : Option String :=
  if r.staged then Text.nonBlank? r.oldFileName else none

/-- The settings that fix the form of a difference. -/
def Changes.settings : List Override :=
  [⟨"color.ui", "never"⟩, ⟨"diff.submodule", "short"⟩, ⟨"diff.noprefix", "false"⟩,
   ⟨"diff.mnemonicprefix", "false"⟩, ⟨"diff.ignoreSubmodules", "none"⟩,
   ⟨"core.safecrlf", "false"⟩]

def Changes.draft (r : Changes) : Draft :=
  Draft.start "diff"
    |>.noOptionalLocks r.noLocks
    |>.configure Changes.settings
    |>.raw "--find-renames"
    |>.raw "--find-copies"
    |>.raw r.extraArguments
    |>.rawIf r.staged "--cached"
    |>.raw "--"
    |>.path r.fileName
    |>.path? r.oldFile?

/-- What refs are sorted by. -/
inductive RefOrder where
  | unsorted
  | authorDate
  | committerDate
  | creatorDate
  | objectName
  | objectSize
  | objectType
  | refName
  | taggerDate
  | tracked
  | versionRefName
  deriving DecidableEq

def RefOrder.all : List RefOrder :=
  [.unsorted, .authorDate, .committerDate, .creatorDate, .objectName, .objectSize, .objectType,
   .refName, .taggerDate, .tracked, .versionRefName]

def RefOrder.name : RefOrder → String
  | .unsorted => "default"
  | .authorDate => "author_date"
  | .committerDate => "committer_date"
  | .creatorDate => "creator_date"
  | .objectName => "object_name"
  | .objectSize => "object_size"
  | .objectType => "object_type"
  | .refName => "ref_name"
  | .taggerDate => "tagger_date"
  | .tracked => "upstream"
  | .versionRefName => "version_ref_name"

def RefOrder.choice : Json.Choice RefOrder := .ofNames all name

/-- The key as it applies to the object that a tag points to. -/
def RefOrder.targetKey? : RefOrder → Option String
  | .unsorted => none
  | .authorDate => some "authordate"
  | .committerDate => some "committerdate"
  | .creatorDate => some "creatordate"
  | .objectName => some "objectname"
  | .objectSize => some "objectsize"
  | .objectType => some "objecttype"
  | .refName => some "refname"
  | .taggerDate => some "taggerdate"
  | .tracked => some "upstream"
  | .versionRefName => some "refname"

def RefOrder.key? : RefOrder → Option String
  | .versionRefName => some "version:refname"
  | order => order.targetKey?

inductive Direction where
  | ascending
  | descending
  deriving DecidableEq

def Direction.all : List Direction := [.ascending, .descending]

def Direction.name : Direction → String
  | .ascending => "ascending"
  | .descending => "descending"

def Direction.choice : Json.Choice Direction := .ofNames all name

/-- The sign in front of a sort key. -/
def Direction.sign : Direction → String
  | .ascending => ""
  | .descending => "-"

/-- The format in which a tag is shown as the object it points to. -/
def targetFormat : String :=
  "--format=\"%(if)%(authordate)%(then)%(objectname) %(refname)" ++
    "%(else)%(*objectname) %(*refname)%(end)\""

def flatFormat : String := "--format=\"%(objectname) %(refname)\""

def sortFlag (direction : Direction) (key : String) : String :=
  "--sort=" ++ quoted (direction.sign ++ key)

structure ListRefs where
  filter : RefFilter
  noLocks : Bool
  sortBy : RefOrder
  sortOrder : Direction
  count : Option UInt32
  deriving DecidableEq

def ListRefs.record : Json.Record ListRefs :=
  .of "GetRefsRequest"
    (.takes "filter" RefFilter.format .empty <|
      .takes "no_locks" .bool false <|
      .takes "sort_by" RefOrder.choice.format .unsorted <|
      .takes "sort_order" Direction.choice.format .ascending <|
      .takes "count" (.optional .uint32) none <|
      .done)
    (fun (filter, noLocks, sortBy, sortOrder, count, _) =>
      ⟨filter, noLocks, sortBy, sortOrder, count⟩)
    (fun r => (r.filter, r.noLocks, r.sortBy, r.sortOrder, r.count, ()))
    fun _ => rfl

/-- Sorting keys count from the last: the order of the targets of tags decides between refs that
are otherwise equal. -/
def ListRefs.draft (r : ListRefs) : Draft :=
  let tags := r.filter.includesTags
  Draft.start "for-each-ref"
    |>.noOptionalLocks r.noLocks
    |>.raw? ((r.sortBy.targetKey?.filter fun _ => tags).map fun key =>
      sortFlag r.sortOrder ("*" ++ key))
    |>.raw? (r.sortBy.key?.map (sortFlag r.sortOrder))
    |>.rawEither tags targetFormat flatFormat
    |>.raw? (r.count.bind (Draft.countFlag? "--count="))
    |>.raws r.filter.places

end GitInvocation
