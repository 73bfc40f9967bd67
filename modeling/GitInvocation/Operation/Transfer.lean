import GitInvocation.Command.Draft
import GitInvocation.Json.Record
import GitInvocation.Snapshot.Requirement
import GitInvocation.Text.Blank
/-!
# Exchange with other repositories

Fetching, pulling, cloning and pushing. A remote is named or given as a path or an address, and
its text loses the white space around it once its backslashes are slashes.
-/
namespace GitInvocation

/-- Which tags come along with the branches. -/
inductive TagFollowing where
  | include
  | exclude
  | fromConfig
  deriving DecidableEq

def TagFollowing.all : List TagFollowing := [.include, .exclude, .fromConfig]

def TagFollowing.name : TagFollowing → String
  | .include => "include"
  | .exclude => "exclude"
  | .fromConfig => "from_config"

def TagFollowing.choice : Json.Choice TagFollowing := .ofNames all name

def TagFollowing.flag? : TagFollowing → Option String
  | .include => some "--tags"
  | .exclude => some "--no-tags"
  | .fromConfig => none

/-- Which local copies of refs that are gone from the remote are removed. -/
inductive Pruning where
  | off
  | branches
  | branchesAndTags
  deriving DecidableEq

def Pruning.all : List Pruning := [.off, .branches, .branchesAndTags]

def Pruning.name : Pruning → String
  | .off => "off"
  | .branches => "branches"
  | .branchesAndTags => "branches_and_tags"

def Pruning.choice : Json.Choice Pruning := .ofNames all name

def Pruning.flag? : Pruning → Option String
  | .off => none
  | .branches => some "--prune --force"
  | .branchesAndTags => some "--prune --prune-tags --force"

/-- How far a tag on the remote may be overwritten. -/
inductive TagForce where
  | never
  | always
  | withLease
  deriving DecidableEq

def TagForce.all : List TagForce := [.never, .always, .withLease]

def TagForce.name : TagForce → String
  | .never => "do_not_force"
  | .always => "force"
  | .withLease => "force_with_lease"

def TagForce.choice : Json.Choice TagForce := .ofNames all name

def TagForce.flag? : TagForce → Option String
  | .never => none
  | .always => some "-f"
  | .withLease => some "--force-with-lease"

def remoteText (remote : String) : String := Text.trim (posixPath remote)

def startsWith (start text : String) : Bool :=
  (Text.afterStart? start.toList text.toList).isSome

/-- A local branch as the full name of a ref. A name that is one already stays. -/
def localRef (branch : String) : String :=
  if startsWith "refs/" branch then branch else "refs/heads/" ++ branch

/-- What is transferred and where it goes. The plus sign allows a transfer that does not build on
what is there; those already in front of the remote branch are not repeated. -/
def refspec? (remoteBranch localBranch : Option String) : Option String :=
  (Text.nonBlank? remoteBranch).map fun branch =>
    "+" ++ String.ofList (branch.toList.dropWhile (· = '+')) ++
      match Text.nonBlank? localBranch with
      | some name => ":" ++ localRef name
      | none => ""

structure Fetch where
  remote : String
  remoteBranch : Option String
  localBranch : Option String
  tags : TagFollowing
  unshallow : Bool
  prune : Pruning
  deriving DecidableEq

def Fetch.record : Json.Record Fetch :=
  .of "FetchRequest"
    (.needs "remote" .string <|
      .takes "remote_branch" (.optional .string) none <|
      .takes "local_branch" (.optional .string) none <|
      .takes "tags" TagFollowing.choice.format .exclude <|
      .takes "unshallow" .bool false <|
      .takes "prune" Pruning.choice.format .off <|
      .done)
    (fun (remote, remoteBranch, localBranch, tags, unshallow, prune, _) =>
      ⟨remote, remoteBranch, localBranch, tags, unshallow, prune⟩)
    (fun r => (r.remote, r.remoteBranch, r.localBranch, r.tags, r.unshallow, r.prune, ()))
    fun _ => rfl

def Fetch.draft (r : Fetch) (snapshot : Snapshot) : Draft :=
  Draft.start "fetch"
    |>.configure (snapshot.missing Snapshot.sequentialFetching)
    |>.raw "--progress"
    |>.quoted (remoteText r.remote)
    |>.raw? (refspec? r.remoteBranch r.localBranch)
    |>.raw? r.tags.flag?
    |>.rawIf r.unshallow "--unshallow"
    |>.raw? r.prune.flag?

/-- A fetch into the current branch. -/
structure Pull where
  remote : String
  remoteBranch : Option String
  rebase : Bool
  tags : TagFollowing
  unshallow : Bool
  prune : Pruning
  deriving DecidableEq

def Pull.record : Json.Record Pull :=
  .of "PullRequest"
    (.needs "remote" .string <|
      .takes "remote_branch" (.optional .string) none <|
      .takes "rebase" .bool false <|
      .takes "tags" TagFollowing.choice.format .exclude <|
      .takes "unshallow" .bool false <|
      .takes "prune" Pruning.choice.format .off <|
      .done)
    (fun (remote, remoteBranch, rebase, tags, unshallow, prune, _) =>
      ⟨remote, remoteBranch, rebase, tags, unshallow, prune⟩)
    (fun r => (r.remote, r.remoteBranch, r.rebase, r.tags, r.unshallow, r.prune, ()))
    fun _ => rfl

def Pull.draft (r : Pull) (snapshot : Snapshot) : Draft :=
  Draft.start "pull"
    |>.configure (snapshot.missing Snapshot.sequentialFetching)
    |>.rawIf r.rebase "--rebase"
    |>.raw "--progress"
    |>.quoted (remoteText r.remote)
    |>.raw? (refspec? r.remoteBranch none)
    |>.raw? r.tags.flag?
    |>.rawIf r.unshallow "--unshallow"
    |>.raw? r.prune.flag?

/-- What a new clone checks out. -/
inductive FirstCheckout where
  | remoteHead
  | branch (name : String)
  | nothing
  deriving DecidableEq

def FirstCheckout.choice : Json.Choice FirstCheckout where
  variants :=
    [("default", .plain .remoteHead), ("branch", .text .branch), ("no_checkout", .plain .nothing)]
  encode
    | .remoteHead => .string "default"
    | .branch name => .object [("branch", .string name)]
    | .nothing => .string "no_checkout"

def FirstCheckout.flag? : FirstCheckout → Option String
  | .remoteHead => none
  | .branch name => if Text.blank name then none else some ("--branch " ++ name)
  | .nothing => some "--no-checkout"

/-- A `central` clone has no files, and a `depth` of zero stands for the whole history. -/
structure Clone where
  source : String
  target : String
  central : Bool
  initSubmodules : Bool
  checkout : FirstCheckout
  depth : Option UInt32
  singleBranch : Option Bool
  deriving DecidableEq

def Clone.record : Json.Record Clone :=
  .of "CloneRequest"
    (.needs "from" .string <|
      .needs "to" .string <|
      .takes "central" .bool false <|
      .takes "init_submodules" .bool false <|
      .takes "checkout" FirstCheckout.choice.format .remoteHead <|
      .takes "depth" (.optional .uint32) none <|
      .takes "single_branch" (.optional .bool) none <|
      .done)
    (fun (source, target, central, initSubmodules, checkout, depth, singleBranch, _) =>
      ⟨source, target, central, initSubmodules, checkout, depth, singleBranch⟩)
    (fun r => (r.source, r.target, r.central, r.initSubmodules, r.checkout, r.depth,
      r.singleBranch, ()))
    fun _ => rfl

def Clone.draft (r : Clone) : Draft :=
  Draft.start "clone"
    |>.raw "-v"
    |>.rawIf r.central "--bare"
    |>.rawIf r.initSubmodules "--recurse-submodules"
    |>.raw? (r.depth.bind (Draft.countFlag? "--depth "))
    |>.raw? (r.singleBranch.map fun on => if on then "--single-branch" else "--no-single-branch")
    |>.raw "--progress"
    |>.raw? r.checkout.flag?
    |>.path r.source
    |>.path r.target

/-- An object is pushed into a repository on this machine. -/
structure PushLocal where
  objectId : String
  targetRef : String
  repository : String
  force : Bool
  deriving DecidableEq

def PushLocal.record : Json.Record PushLocal :=
  .of "PushLocalRequest"
    (.needs "object_id" .string <|
      .needs "target_ref" .string <|
      .needs "repo_dir" .string <|
      .takes "force" .bool false <|
      .done)
    (fun (objectId, targetRef, repository, force, _) => ⟨objectId, targetRef, repository, force⟩)
    (fun r => (r.objectId, r.targetRef, r.repository, r.force, ()))
    fun _ => rfl

def PushLocal.draft (r : PushLocal) : Draft :=
  Draft.start "push"
    |>.quoted ("file://" ++ posixPath r.repository)
    |>.quoted (r.objectId ++ ":" ++ r.targetRef)
    |>.rawIf r.force "--force"

structure PushTag where
  remote : String
  tag : String
  all : Bool
  force : TagForce
  deriving DecidableEq

def PushTag.record : Json.Record PushTag :=
  .of "PushTagRequest"
    (.needs "remote" .string <|
      .takes "tag" .string "" <|
      .takes "all" .bool false <|
      .takes "force" TagForce.choice.format .never <|
      .done)
    (fun (remote, tag, all, force, _) => ⟨remote, tag, all, force⟩)
    (fun r => (r.remote, r.tag, r.all, r.force, ()))
    fun _ => rfl

/-- With neither a tag nor all of them there is nothing to push, and no command. -/
def PushTag.draft? (r : PushTag) : Option Draft :=
  let tag := Text.trim r.tag
  let start :=
    Draft.start "push"
      |>.raw? r.force.flag?
      |>.raw "--progress"
      |>.quoted (remoteText r.remote)
  if r.all then some (start.raw "--tags")
  else if tag = "" then none
  else some (start.raw "tag" |>.raw tag)

end GitInvocation
