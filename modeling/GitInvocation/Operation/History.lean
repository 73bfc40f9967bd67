import GitInvocation.Command.Draft
import GitInvocation.Json.Record
import GitInvocation.Operation.Rejection
import GitInvocation.Text.Blank
/-!
# Branches and history

Checking out, branching, merging, rebasing, reverting and searching for a fault by bisection.
-/
namespace GitInvocation

/-- What becomes of changes that are not committed. A stash is made beforehand, by no flag. -/
inductive LocalChanges where
  | keep
  | merge
  | reset
  | stash
  deriving DecidableEq

def LocalChanges.all : List LocalChanges := [.keep, .merge, .reset, .stash]

def LocalChanges.name : LocalChanges → String
  | .keep => "dont_change"
  | .merge => "merge"
  | .reset => "reset"
  | .stash => "stash"

def LocalChanges.choice : Json.Choice LocalChanges := .ofNames all name

def LocalChanges.flag? : LocalChanges → Option String
  | .merge => some "--merge"
  | .reset => some "--force"
  | .keep | .stash => none

structure Checkout where
  revision : String
  localChanges : LocalChanges
  deriving DecidableEq

def Checkout.record : Json.Record Checkout :=
  .of "CheckoutRequest"
    (.needs "revision" .string <|
      .takes "local_changes" LocalChanges.choice.format .keep <|
      .done)
    (fun (revision, localChanges, _) => ⟨revision, localChanges⟩)
    (fun r => (r.revision, r.localChanges, ()))
    fun _ => rfl

def Checkout.draft (r : Checkout) : Draft :=
  Draft.start "checkout" |>.raw? r.localChanges.flag? |>.quoted r.revision

/-- A new branch, made current when `checkout` says so. -/
structure Branch where
  name : String
  revision : Option String
  checkout : Bool
  deriving DecidableEq

def Branch.record : Json.Record Branch :=
  .of "BranchRequest"
    (.needs "name" .string <|
      .takes "revision" (.optional .string) none <|
      .takes "checkout" .bool false <|
      .done)
    (fun (name, revision, checkout, _) => ⟨name, revision, checkout⟩)
    (fun r => (r.name, r.revision, r.checkout, ()))
    fun _ => rfl

def Branch.draft (r : Branch) : Draft :=
  (if r.checkout then Draft.start "checkout" |>.raw "-b" else Draft.start "branch")
    |>.quoted r.name
    |>.quoted? (Text.nonBlank? r.revision)

structure MergedBranches where
  includeRemote : Bool
  fullRefname : Bool
  commit : Option String
  deriving DecidableEq

def MergedBranches.record : Json.Record MergedBranches :=
  .of "MergedBranchesRequest"
    (.takes "include_remote" .bool false <|
      .takes "full_refname" .bool false <|
      .takes "commit" (.optional .string) none <|
      .done)
    (fun (includeRemote, fullRefname, commit, _) => ⟨includeRemote, fullRefname, commit⟩)
    (fun r => (r.includeRemote, r.fullRefname, r.commit, ()))
    fun _ => rfl

def MergedBranches.draft (r : MergedBranches) : Draft :=
  Draft.start "branch"
    |>.rawIf r.fullRefname "--format=\"%(refname)\""
    |>.rawIf r.includeRemote "-a"
    |>.raw "--merged"
    |>.raw? (Text.nonBlank? r.commit)

/-- `log` counts the summaries that go into the message of the merge. -/
structure Merge where
  branch : String
  allowFastForward : Bool
  strategy : Option String
  squash : Bool
  noCommit : Bool
  allowUnrelatedHistories : Bool
  messageFile : Option String
  log : UInt32
  deriving DecidableEq

def Merge.record : Json.Record Merge :=
  .of "MergeRequest"
    (.needs "branch" .string <|
      .takes "allow_fast_forward" .bool true <|
      .takes "strategy" (.optional .string) none <|
      .takes "squash" .bool false <|
      .takes "no_commit" .bool false <|
      .takes "allow_unrelated_histories" .bool false <|
      .takes "message_file" (.optional .string) none <|
      .takes "log" .uint32 0 <|
      .done)
    (fun (branch, allowFastForward, strategy, squash, noCommit, allowUnrelatedHistories,
      messageFile, log, _) =>
      ⟨branch, allowFastForward, strategy, squash, noCommit, allowUnrelatedHistories,
      messageFile, log⟩)
    (fun r => (r.branch, r.allowFastForward, r.strategy, r.squash, r.noCommit,
      r.allowUnrelatedHistories, r.messageFile, r.log, ()))
    fun _ => rfl

def Merge.draft (r : Merge) : Draft :=
  Draft.start "merge"
    |>.rawIf (!r.allowFastForward) "--no-ff"
    |>.raw? ((Text.nonBlank? r.strategy).map ("--strategy=" ++ ·))
    |>.rawIf r.squash "--squash"
    |>.rawIf r.noCommit "--no-commit"
    |>.rawIf r.allowUnrelatedHistories "--allow-unrelated-histories"
    |>.raw? ((Text.nonBlank? r.messageFile).map fun file => "-F " ++ quoted file)
    |>.raw? (Draft.countFlag? "--log=" r.log)
    |>.raw r.branch

def continueMerge : Draft := Draft.start "merge" |>.raw "--continue"

def abortMerge : Draft := Draft.start "merge" |>.raw "--abort"

/-- `lower` and `onto` bound a range of commits and are given together or not at all. -/
structure Rebase where
  branch : String
  interactive : Bool
  preserveMerges : Bool
  autosquash : Bool
  autostash : Bool
  ignoreDate : Bool
  committerDateIsAuthorDate : Bool
  lower : Option String
  onto : Option String
  supportsRebaseMerges : Bool
  deriving DecidableEq

def Rebase.record : Json.Record Rebase :=
  .of "RebaseRequest"
    (.needs "branch" .string <|
      .takes "interactive" .bool false <|
      .takes "preserve_merges" .bool false <|
      .takes "autosquash" .bool false <|
      .takes "autostash" .bool false <|
      .takes "ignore_date" .bool false <|
      .takes "committer_date_is_author_date" .bool false <|
      .takes "from" (.optional .string) none <|
      .takes "onto" (.optional .string) none <|
      .takes "supports_rebase_merges" .bool false <|
      .done)
    (fun (branch, interactive, preserveMerges, autosquash, autostash, ignoreDate,
      committerDateIsAuthorDate, lower, onto, supportsRebaseMerges, _) =>
      ⟨branch, interactive, preserveMerges, autosquash, autostash, ignoreDate,
      committerDateIsAuthorDate, lower, onto, supportsRebaseMerges⟩)
    (fun r => (r.branch, r.interactive, r.preserveMerges, r.autosquash, r.autostash,
      r.ignoreDate, r.committerDateIsAuthorDate, r.lower, r.onto, r.supportsRebaseMerges, ()))
    fun _ => rfl

/-- The range to be rebased, if there is one. -/
def Rebase.range (r : Rebase) : Except Rejection (Option (String × String)) :=
  match Text.nonBlank? r.lower, Text.nonBlank? r.onto with
  | some lower, some onto => .ok (some (lower, onto))
  | none, none => .ok none
  | some _, none => .error (.incompleteRange "onto")
  | none, some _ => .error (.incompleteRange "from")

/-- Changing dates excludes the interactive form and the keeping of merges, and of two ways to
change them the first counts. -/
def Rebase.withMode (r : Rebase) (d : Draft) : Draft :=
  if r.ignoreDate then d.raw "--ignore-date"
  else if r.committerDateIsAuthorDate then d.raw "--committer-date-is-author-date"
  else
    (if r.interactive then d.raw "-i" |>.rawEither r.autosquash "--autosquash" "--no-autosquash"
      else d)
      |>.rawIf (r.preserveMerges && r.supportsRebaseMerges) "--rebase-merges"

def Rebase.withRange (r : Rebase) (d : Draft) : Option (String × String) → Draft
  | some (lower, onto) => d.quoted lower |>.quoted r.branch |>.raw "--onto" |>.raw onto
  | none => d.quoted r.branch

def Rebase.draft (r : Rebase) : Except Rejection Draft :=
  r.range.map fun range =>
    let start := Draft.start "rebase" |>.configure [⟨"rebase.autoSquash", "false"⟩]
    r.withRange (r.withMode start |>.rawIf r.autostash "--autostash") range

/-- A merge is reverted relative to the parent of the given number; zero is no merge. -/
structure Revert where
  commit : String
  noCommit : Bool
  parentIndex : UInt32
  deriving DecidableEq

def Revert.record : Json.Record Revert :=
  .of "RevertRequest"
    (.needs "commit" .string <|
      .takes "no_commit" .bool false <|
      .takes "parent_index" .uint32 0 <|
      .done)
    (fun (commit, noCommit, parentIndex, _) => ⟨commit, noCommit, parentIndex⟩)
    (fun r => (r.commit, r.noCommit, r.parentIndex, ()))
    fun _ => rfl

def Revert.draft (r : Revert) : Draft :=
  Draft.start "revert"
    |>.rawIf r.noCommit "--no-commit"
    |>.raw? (Draft.countFlag? "-m " r.parentIndex)
    |>.raw r.commit

inductive BisectOutcome where
  | good
  | bad
  | skip
  deriving DecidableEq

def BisectOutcome.all : List BisectOutcome := [.good, .bad, .skip]

def BisectOutcome.name : BisectOutcome → String
  | .good => "good"
  | .bad => "bad"
  | .skip => "skip"

def BisectOutcome.choice : Json.Choice BisectOutcome := .ofNames all name

/-- The verdict on some revisions, or on the current one. -/
structure BisectStep where
  outcome : BisectOutcome
  revisions : List String
  deriving DecidableEq

def BisectStep.record : Json.Record BisectStep :=
  .of "ContinueBisectRequest"
    (.needs "outcome" BisectOutcome.choice.format <|
      .takes "revisions" (.list .string) [] <|
      .done)
    (fun (outcome, revisions, _) => ⟨outcome, revisions⟩)
    (fun r => (r.outcome, r.revisions, ()))
    fun _ => rfl

def BisectStep.draft (r : BisectStep) : Draft :=
  Draft.start "bisect" |>.raw r.outcome.name |>.raws r.revisions

end GitInvocation
