import GitInvocation.Operation
import GitInvocation.Proofs.Command.Drafting

/-!
# The words an operation stands for

What a program receives when an operation is run: the overrides, the command, its flags and the
values of the fields, one list element each, without the detour over a text. Beside each list
stands the condition on free text under which the detour changes nothing. It speaks of values
that are passed on only; a value that is left out may be anything.
-/
namespace GitInvocation

open Draft (given settings)
open Text (nonBlank?)
open Words (Bare Plain Quotable Unquoted filled)

/-- The words that come with a count, unless it is zero. -/
def counted (n : UInt32) (words : List String) : List String := if n = 0 then [] else words

def Pruning.words : Pruning → List String
  | .off => []
  | .branches => ["--prune", "--force"]
  | .branchesAndTags => ["--prune", "--prune-tags", "--force"]

/-- Both names continue a word, which starts with a plus sign. -/
def LegibleRefspec (remoteBranch localBranch : Option String) : Prop :=
  ∀ branch ∈ nonBlank? remoteBranch, Bare branch ∧ ∀ name ∈ nonBlank? localBranch, Bare name

def Fetch.argv (r : Fetch) (s : Snapshot) : List String :=
  settings (s.missing Snapshot.sequentialFetching) ++ ["fetch"] ++ ["--progress"] ++
    filled (remoteText r.remote) ++ (refspec? r.remoteBranch r.localBranch).toList ++
    r.tags.flag?.toList ++ given r.unshallow "--unshallow" ++ r.prune.words

def Fetch.Legible (r : Fetch) : Prop :=
  Unquoted r.remote ∧ LegibleRefspec r.remoteBranch r.localBranch

def Pull.argv (r : Pull) (s : Snapshot) : List String :=
  settings (s.missing Snapshot.sequentialFetching) ++ ["pull"] ++ given r.rebase "--rebase" ++
    ["--progress"] ++ filled (remoteText r.remote) ++ (refspec? r.remoteBranch none).toList ++
    r.tags.flag?.toList ++ given r.unshallow "--unshallow" ++ r.prune.words

def Pull.Legible (r : Pull) : Prop := Unquoted r.remote ∧ LegibleRefspec r.remoteBranch none

def FirstCheckout.words : FirstCheckout → List String
  | .remoteHead => []
  | .branch name => if Text.blank name then [] else ["--branch", name]
  | .nothing => ["--no-checkout"]

def FirstCheckout.Legible : FirstCheckout → Prop
  | .branch name => Text.blank name = false → Plain name
  | _ => True

def Clone.argv (r : Clone) : List String :=
  ["clone"] ++ ["-v"] ++ given r.central "--bare" ++
    given r.initSubmodules "--recurse-submodules" ++
    r.depth.elim [] (fun n => counted n ["--depth", toString n]) ++
    r.singleBranch.elim [] (fun on => [if on then "--single-branch" else "--no-single-branch"]) ++
    ["--progress"] ++ r.checkout.words ++ filled (posixPath r.source) ++
    filled (posixPath r.target)

def Clone.Legible (r : Clone) : Prop :=
  r.checkout.Legible ∧ Unquoted r.source ∧ Unquoted r.target

def PushLocal.argv (r : PushLocal) : List String :=
  ["push"] ++ ["file://" ++ posixPath r.repository] ++ [r.objectId ++ ":" ++ r.targetRef] ++
    given r.force "--force"

def PushLocal.Legible (r : PushLocal) : Prop :=
  Unquoted r.repository ∧ Quotable r.objectId ∧ Quotable r.targetRef

def PushTag.argv (r : PushTag) : List String :=
  let start := ["push"] ++ r.force.flag?.toList ++ ["--progress"] ++ filled (remoteText r.remote)
  if r.all then start ++ ["--tags"]
  else if Text.trim r.tag = "" then []
  else start ++ ["tag"] ++ [Text.trim r.tag]

def PushTag.Legible (r : PushTag) : Prop :=
  Unquoted r.remote ∧ (r.all = false → Plain (Text.trim r.tag))

def Checkout.argv (r : Checkout) : List String :=
  ["checkout"] ++ r.localChanges.flag?.toList ++ filled r.revision

def Checkout.Legible (r : Checkout) : Prop := Quotable r.revision

def Branch.argv (r : Branch) : List String :=
  (if r.checkout then ["checkout", "-b"] else ["branch"]) ++ filled r.name ++
    (nonBlank? r.revision).toList

def Branch.Legible (r : Branch) : Prop :=
  Quotable r.name ∧ ∀ revision ∈ nonBlank? r.revision, Quotable revision

def MergedBranches.argv (r : MergedBranches) : List String :=
  ["branch"] ++ given r.fullRefname "--format=%(refname)" ++ given r.includeRemote "-a" ++
    ["--merged"] ++ (nonBlank? r.commit).toList

def MergedBranches.Legible (r : MergedBranches) : Prop :=
  ∀ commit ∈ nonBlank? r.commit, Plain commit

def Merge.argv (r : Merge) : List String :=
  ["merge"] ++ given (!r.allowFastForward) "--no-ff" ++
    ((nonBlank? r.strategy).map ("--strategy=" ++ ·)).toList ++ given r.squash "--squash" ++
    given r.noCommit "--no-commit" ++
    given r.allowUnrelatedHistories "--allow-unrelated-histories" ++
    (nonBlank? r.messageFile).elim [] (fun file => ["-F", file]) ++
    counted r.log ["--log=" ++ toString r.log] ++ filled r.branch

def Merge.Legible (r : Merge) : Prop :=
  (∀ strategy ∈ nonBlank? r.strategy, Bare strategy) ∧
    (∀ file ∈ nonBlank? r.messageFile, Quotable file) ∧ Plain r.branch

def Rebase.modeWords (r : Rebase) : List String :=
  if r.ignoreDate then ["--ignore-date"]
  else if r.committerDateIsAuthorDate then ["--committer-date-is-author-date"]
  else
    (if r.interactive then
        ["-i"] ++ if r.autosquash then ["--autosquash"] else ["--no-autosquash"]
      else []) ++
      given (r.preserveMerges && r.supportsRebaseMerges) "--rebase-merges"

def Rebase.rangeWords (r : Rebase) : List String :=
  match nonBlank? r.lower, nonBlank? r.onto with
  | some lower, some onto => [lower] ++ filled r.branch ++ ["--onto"] ++ [onto]
  | _, _ => filled r.branch

def Rebase.argv (r : Rebase) : List String :=
  ["-c", "rebase.autoSquash=false"] ++ ["rebase"] ++ r.modeWords ++
    given r.autostash "--autostash" ++ r.rangeWords

def Rebase.Legible (r : Rebase) : Prop :=
  (∀ lower ∈ nonBlank? r.lower, Quotable lower) ∧ Quotable r.branch ∧
    ∀ onto ∈ nonBlank? r.onto, Plain onto

def Revert.argv (r : Revert) : List String :=
  ["revert"] ++ given r.noCommit "--no-commit" ++
    counted r.parentIndex ["-m", toString r.parentIndex] ++ filled r.commit

def Revert.Legible (r : Revert) : Prop := Plain r.commit

def BisectStep.argv (r : BisectStep) : List String :=
  ["bisect"] ++ [r.outcome.name] ++ r.revisions.flatMap filled

def BisectStep.Legible (r : BisectStep) : Prop := ∀ revision ∈ r.revisions, Plain revision

def Remove.argv (r : Remove) : List String :=
  ["rm"] ++ given r.force "--force" ++ given r.recursive "-r" ++
    if filledIn r.files = [] then ["."] else filledIn r.files

def Remove.Legible (r : Remove) : Prop := ∀ file ∈ filledIn r.files, Plain file

def Reset.argv (r : Reset) : List String :=
  ["reset"] ++ r.mode.flag?.toList ++ (nonBlank? r.commit).toList ++ ["--"] ++
    (nonBlank? r.file).toList.map posixPath

def Reset.Legible (r : Reset) : Prop :=
  (∀ commit ∈ nonBlank? r.commit, Quotable commit) ∧ ∀ file ∈ nonBlank? r.file, Unquoted file

def Clean.argv (r : Clean) : List String :=
  ["clean"] ++ r.mode.flag?.toList ++ given r.directories "-d" ++
    (if r.dryRun then ["--dry-run"] else ["-f"]) ++ r.paths.elim [] filled ++
    r.excludes.elim [] filled

def Clean.Legible (r : Clean) : Prop :=
  (∀ paths ∈ r.paths, Plain paths) ∧ ∀ excludes ∈ r.excludes, Plain excludes

def CleanSubmodules.argv (r : CleanSubmodules) : List String :=
  ["submodule"] ++ ["foreach"] ++ ["--recursive"] ++ ["git"] ++ r.each.argv

def CleanSubmodules.Legible (r : CleanSubmodules) : Prop := ∀ paths ∈ r.paths, Plain paths

def Stash.argv (r : Stash) : List String :=
  let partly := !r.files.isEmpty
  ["stash"] ++ (if partly then ["push"] else ["save"]) ++ given r.untracked "-u" ++
    given r.keepIndex "--keep-index" ++ given (partly && (nonBlank? r.message).isSome) "-m" ++
    (nonBlank? r.message).toList ++ given partly "--" ++ (filledIn r.files).map posixPath

def Stash.Legible (r : Stash) : Prop :=
  (∀ message ∈ nonBlank? r.message, Quotable message) ∧ ∀ file ∈ filledIn r.files, Unquoted file

def ApplyDiff.argv (r : ApplyDiff) : List String :=
  ["apply"] ++ given r.ignoreWhitespace "--ignore-whitespace" ++ filled (posixPath r.patchFile)

def ApplyDiff.Legible (r : ApplyDiff) : Prop := Unquoted r.patchFile

def ApplyMailbox.argv (r : ApplyMailbox) : List String :=
  ["am"] ++ ["--3way"] ++ given r.signOff "--signoff" ++
    given r.ignoreWhitespace "--ignore-whitespace" ++ (nonBlank? r.patchFile).toList.map posixPath

def ApplyMailbox.Legible (r : ApplyMailbox) : Prop := ∀ file ∈ nonBlank? r.patchFile, Unquoted file

def ChangedFiles.argv (r : ChangedFiles) : List String :=
  given r.noLocks "--no-optional-locks" ++ ["-c", "diff.ignoreSubmodules=none"] ++ ["status"] ++
    ["--porcelain=2"] ++ ["-z"] ++ [r.untrackedFiles.flag] ++
    given (!r.excludeIgnoredFiles) "--ignored" ++ r.ignoreSubmodules.flag?.toList

def Changes.argv (r : Changes) : List String :=
  given r.noLocks "--no-optional-locks" ++ Draft.settings Changes.settings ++ ["diff"] ++
    ["--find-renames"] ++ ["--find-copies"] ++ filled r.extraArguments ++
    given r.staged "--cached" ++ ["--"] ++ filled (posixPath r.fileName) ++
    r.oldFile?.toList.map posixPath

def Changes.Legible (r : Changes) : Prop :=
  Plain r.extraArguments ∧ Unquoted r.fileName ∧ ∀ file ∈ r.oldFile?, Unquoted file

def sortWord (direction : Direction) (key : String) : String :=
  "--sort=" ++ (direction.sign ++ key)

/-- The words of the sorting keys, the one that decides last in front. -/
def ListRefs.sortWords (r : ListRefs) : List String :=
  ((r.sortBy.targetKey?.filter fun _ => r.filter.includesTags).map fun key =>
      sortWord r.sortOrder ("*" ++ key)).toList ++
    (r.sortBy.key?.map (sortWord r.sortOrder)).toList

def ListRefs.formatWords (r : ListRefs) : List String :=
  if r.filter.includesTags then
    ["--format=" ++ ("%(if)%(authordate)%(then)%(objectname) %(refname)" ++
      "%(else)%(*objectname) %(*refname)%(end)")]
  else ["--format=%(objectname) %(refname)"]

def ListRefs.argv (r : ListRefs) : List String :=
  given r.noLocks "--no-optional-locks" ++ ["for-each-ref"] ++ r.sortWords ++ r.formatWords ++
    r.count.elim [] (fun n => counted n ["--count=" ++ toString n]) ++ r.filter.places

def SyncSubmodule.argv (r : SyncSubmodule) : List String :=
  ["submodule"] ++ ["sync"] ++ (nonBlank? r.name).toList.map posixPath

def SyncSubmodule.Legible (r : SyncSubmodule) : Prop := ∀ name ∈ nonBlank? r.name, Unquoted name

def AddSubmodule.argv (r : AddSubmodule) : List String :=
  settings r.overrides ++ ["submodule"] ++ ["add"] ++ given r.force "-f" ++
    given (nonBlank? r.branch).isSome "-b" ++ (nonBlank? r.branch).toList ++
    filled (posixPath r.remotePath) ++ filled (posixPath r.localPath)

def AddSubmodule.Legible (r : AddSubmodule) : Prop :=
  (∀ o ∈ r.overrides, Plain o.key ∧ Bare o.value) ∧
    (∀ branch ∈ nonBlank? r.branch, Quotable branch) ∧ Unquoted r.remotePath ∧
    Unquoted r.localPath

/-- The value is passed on even when it is empty. -/
def SetConfig.argv (r : SetConfig) : List String :=
  ["config"] ++ given r.everywhere "--global" ++ filled r.key ++ [r.value]

def SetConfig.Legible (r : SetConfig) : Prop := Plain r.key ∧ Quotable r.value

def UnsetConfig.argv (r : UnsetConfig) : List String :=
  ["config"] ++ given r.everywhere "--global" ++ ["--unset"] ++ filled r.key

def UnsetConfig.Legible (r : UnsetConfig) : Prop := Plain r.key

namespace Operation

/-- The words of an operation under the configuration in force. -/
def argv (o : Operation) (s : Snapshot) : List String :=
  match o with
  | .fetch r => r.argv s
  | .pull r => r.argv s
  | .clone r => r.argv
  | .checkout r => r.argv
  | .branch r => r.argv
  | .mergedBranches r => r.argv
  | .pushLocal r => r.argv
  | .pushTag r => r.argv
  | .remove r => r.argv
  | .reset r => r.argv
  | .clean r => r.argv
  | .cleanSubmodules r => r.argv
  | .merge r => r.argv
  | .continueMerge => ["merge", "--continue"]
  | .abortMerge => ["merge", "--abort"]
  | .applyDiff r => r.argv
  | .applyMailbox r => r.argv
  | .revert r => r.argv
  | .rebase r => r.argv
  | .bisectStep r => r.argv
  | .changedFiles r => r.argv
  | .changes r => r.argv
  | .listRefs r => r.argv
  | .stash r => r.argv
  | .syncSubmodule r => r.argv
  | .addSubmodule r => r.argv
  | .setConfig r => r.argv
  | .unsetConfig r => r.argv

/-- No free text that is passed on means anything to the reader of words. -/
def Legible : Operation → Prop
  | .fetch r => r.Legible
  | .pull r => r.Legible
  | .clone r => r.Legible
  | .checkout r => r.Legible
  | .branch r => r.Legible
  | .mergedBranches r => r.Legible
  | .pushLocal r => r.Legible
  | .pushTag r => r.Legible
  | .remove r => r.Legible
  | .reset r => r.Legible
  | .clean r => r.Legible
  | .cleanSubmodules r => r.Legible
  | .merge r => r.Legible
  | .continueMerge | .abortMerge => True
  | .applyDiff r => r.Legible
  | .applyMailbox r => r.Legible
  | .revert r => r.Legible
  | .rebase r => r.Legible
  | .bisectStep r => r.Legible
  | .changedFiles _ => True
  | .changes r => r.Legible
  | .listRefs _ => True
  | .stash r => r.Legible
  | .syncSubmodule r => r.Legible
  | .addSubmodule r => r.Legible
  | .setConfig r => r.Legible
  | .unsetConfig r => r.Legible

end Operation

end GitInvocation
