import GitInvocation.Operation.History
import GitInvocation.Operation.Query
import GitInvocation.Operation.Repository
import GitInvocation.Operation.Transfer
import GitInvocation.Operation.Worktree
/-!
# Operations

The closed set of operations that arguments can be assembled for, and the argument text of each.
An operation has no argument text only by rejection; the text may well be empty.
-/
namespace GitInvocation

inductive Operation where
  | fetch (r : Fetch)
  | pull (r : Pull)
  | clone (r : Clone)
  | checkout (r : Checkout)
  | branch (r : Branch)
  | mergedBranches (r : MergedBranches)
  | pushLocal (r : PushLocal)
  | pushTag (r : PushTag)
  | remove (r : Remove)
  | reset (r : Reset)
  | clean (r : Clean)
  | cleanSubmodules (r : CleanSubmodules)
  | merge (r : Merge)
  | continueMerge
  | abortMerge
  | applyDiff (r : ApplyDiff)
  | applyMailbox (r : ApplyMailbox)
  | revert (r : Revert)
  | rebase (r : Rebase)
  | bisectStep (r : BisectStep)
  | changedFiles (r : ChangedFiles)
  | changes (r : Changes)
  | listRefs (r : ListRefs)
  | stash (r : Stash)
  | syncSubmodule (r : SyncSubmodule)
  | addSubmodule (r : AddSubmodule)
  | setConfig (r : SetConfig)
  | unsetConfig (r : UnsetConfig)

namespace Operation

/-- The name under which an operation is asked for. -/
def name : Operation → String
  | .fetch _ => "fetch"
  | .pull _ => "pull"
  | .clone _ => "clone"
  | .checkout _ => "checkout"
  | .branch _ => "branch"
  | .mergedBranches _ => "merged_branches"
  | .pushLocal _ => "push_local"
  | .pushTag _ => "push_tag"
  | .remove _ => "remove"
  | .reset _ => "reset"
  | .clean _ => "clean"
  | .cleanSubmodules _ => "clean_submodules"
  | .merge _ => "merge"
  | .continueMerge => "continue_merge"
  | .abortMerge => "abort_merge"
  | .applyDiff _ => "apply_diff_patch"
  | .applyMailbox _ => "apply_mailbox_patch"
  | .revert _ => "revert"
  | .rebase _ => "rebase"
  | .bisectStep _ => "continue_bisect"
  | .changedFiles _ => "get_all_changed_files"
  | .changes _ => "get_current_changes"
  | .listRefs _ => "get_refs"
  | .stash _ => "stash_save"
  | .syncSubmodule _ => "submodule_sync"
  | .addSubmodule _ => "add_submodule"
  | .setConfig _ => "set_config"
  | .unsetConfig _ => "unset_config"

/-- What a request holds besides the name of its operation. -/
def members : Operation → List (String × Json)
  | .fetch r => Fetch.record.members r
  | .pull r => Pull.record.members r
  | .clone r => Clone.record.members r
  | .checkout r => Checkout.record.members r
  | .branch r => Branch.record.members r
  | .mergedBranches r => MergedBranches.record.members r
  | .pushLocal r => PushLocal.record.members r
  | .pushTag r => PushTag.record.members r
  | .remove r => Remove.record.members r
  | .reset r => Reset.record.members r
  | .clean r => Clean.record.members r
  | .cleanSubmodules r => CleanSubmodules.record.members r
  | .merge r => Merge.record.members r
  | .continueMerge => []
  | .abortMerge => []
  | .applyDiff r => ApplyDiff.record.members r
  | .applyMailbox r => ApplyMailbox.record.members r
  | .revert r => Revert.record.members r
  | .rebase r => Rebase.record.members r
  | .bisectStep r => BisectStep.record.members r
  | .changedFiles r => ChangedFiles.record.members r
  | .changes r => Changes.record.members r
  | .listRefs r => ListRefs.record.members r
  | .stash r => Stash.record.members r
  | .syncSubmodule r => SyncSubmodule.record.members r
  | .addSubmodule r => AddSubmodule.record.members r
  | .setConfig r => SetConfig.record.members r
  | .unsetConfig r => UnsetConfig.record.members r

def read {α : Type} (r : Json.Record α) (make : α → Operation) (body : Json.Body) :
    Except DecodeError Operation :=
  (r.decode body).map make

/-- An operation without fields. -/
def readBare (o : Operation) : Json.Body → Except DecodeError Operation
  | .members _ => .ok o
  | .items [] => .ok o
  | .items items => .error (Json.tooMany items.length 0)

/-- All operations by name, with the way to read each. -/
def catalog : List (String × (Json.Body → Except DecodeError Operation)) :=
  [("fetch", read Fetch.record .fetch),
   ("pull", read Pull.record .pull),
   ("clone", read Clone.record .clone),
   ("checkout", read Checkout.record .checkout),
   ("branch", read Branch.record .branch),
   ("merged_branches", read MergedBranches.record .mergedBranches),
   ("push_local", read PushLocal.record .pushLocal),
   ("push_tag", read PushTag.record .pushTag),
   ("remove", read Remove.record .remove),
   ("reset", read Reset.record .reset),
   ("clean", read Clean.record .clean),
   ("clean_submodules", read CleanSubmodules.record .cleanSubmodules),
   ("merge", read Merge.record .merge),
   ("continue_merge", readBare .continueMerge),
   ("abort_merge", readBare .abortMerge),
   ("apply_diff_patch", read ApplyDiff.record .applyDiff),
   ("apply_mailbox_patch", read ApplyMailbox.record .applyMailbox),
   ("revert", read Revert.record .revert),
   ("rebase", read Rebase.record .rebase),
   ("continue_bisect", read BisectStep.record .bisectStep),
   ("get_all_changed_files", read ChangedFiles.record .changedFiles),
   ("get_current_changes", read Changes.record .changes),
   ("get_refs", read ListRefs.record .listRefs),
   ("stash_save", read Stash.record .stash),
   ("submodule_sync", read SyncSubmodule.record .syncSubmodule),
   ("add_submodule", read AddSubmodule.record .addSubmodule),
   ("set_config", read SetConfig.record .setConfig),
   ("unset_config", read UnsetConfig.record .unsetConfig)]

/-- The names of all operations. -/
def names : List String := catalog.map Prod.fst

/-- The draft of an operation. An operation with nothing to do has none. -/
def draft (o : Operation) (snapshot : Snapshot) : Except Rejection (Option Draft) :=
  match o with
  | .fetch r => .ok (r.draft snapshot)
  | .pull r => .ok (r.draft snapshot)
  | .clone r => .ok r.draft
  | .checkout r => .ok r.draft
  | .branch r => .ok r.draft
  | .mergedBranches r => .ok r.draft
  | .pushLocal r => .ok r.draft
  | .pushTag r => .ok r.draft?
  | .remove r => .ok r.draft
  | .reset r => r.draft.map some
  | .clean r => .ok r.draft
  | .cleanSubmodules r => .ok r.draft
  | .merge r => .ok r.draft
  | .continueMerge => .ok GitInvocation.continueMerge
  | .abortMerge => .ok GitInvocation.abortMerge
  | .applyDiff r => .ok r.draft
  | .applyMailbox r => .ok r.draft
  | .revert r => .ok r.draft
  | .rebase r => r.draft.map some
  | .bisectStep r => .ok r.draft
  | .changedFiles r => .ok r.draft
  | .changes r => .ok r.draft
  | .listRefs r => .ok r.draft
  | .stash r => .ok r.draft
  | .syncSubmodule r => .ok r.draft
  | .addSubmodule r => .ok r.draft
  | .setConfig r => .ok r.draft
  | .unsetConfig r => .ok r.draft

/-- The argument text of an operation under the configuration in force. -/
def arguments (o : Operation) (snapshot : Snapshot) : Except Rejection String :=
  (o.draft snapshot).map fun d => (d.map Draft.text).getD ""

end Operation

end GitInvocation
