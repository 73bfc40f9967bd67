import GitInvocation.Proofs.Command.Opening
import GitInvocation.Proofs.Operation.ArgvFidelity

/-!
# The words in front of free text

The command of an operation and the flags in front of its first free text are fixed by the choices
in the request. They reach the program whatever the free text holds, legible or not: text that
closes a quote, opens a comment or breaks a line can only spoil what comes behind it. A text that
may be left out, and is, does not count as the first one; a text that must be given counts even
when it is empty.
-/
namespace GitInvocation

open Draft (given settings)
open Text (nonBlank?)
open Words

section Words

def Fetch.lead (s : Snapshot) : List String :=
  settings (s.missing Snapshot.sequentialFetching) ++ ["fetch"] ++ ["--progress"]

def Pull.lead (r : Pull) (s : Snapshot) : List String :=
  settings (s.missing Snapshot.sequentialFetching) ++ ["pull"] ++ given r.rebase "--rebase" ++
    ["--progress"]

/-- The flag of a branch stands in front of its name. -/
def FirstCheckout.lead : FirstCheckout → List String
  | .remoteHead => []
  | .branch name => if Text.blank name then [] else ["--branch"]
  | .nothing => ["--no-checkout"]

def Clone.lead (r : Clone) : List String :=
  ["clone"] ++ ["-v"] ++ given r.central "--bare" ++
    given r.initSubmodules "--recurse-submodules" ++
    r.depth.elim [] (fun n => counted n ["--depth", toString n]) ++
    r.singleBranch.elim [] (fun on => [if on then "--single-branch" else "--no-single-branch"]) ++
    ["--progress"] ++ r.checkout.lead

/-- With nothing to push there is no command. -/
def PushTag.lead (r : PushTag) : List String :=
  if !r.all ∧ Text.trim r.tag = "" then []
  else ["push"] ++ r.force.flag?.toList ++ ["--progress"]

def Checkout.lead (r : Checkout) : List String := ["checkout"] ++ r.localChanges.flag?.toList

def Branch.lead (r : Branch) : List String :=
  if r.checkout then ["checkout", "-b"] else ["branch"]

def MergedBranches.lead (r : MergedBranches) : List String :=
  ["branch"] ++ given r.fullRefname "--format=%(refname)" ++ given r.includeRemote "-a" ++
    ["--merged"]

/-- The strategy comes first, then the file of the message, then the branch. -/
def Merge.lead (r : Merge) : List String :=
  let opening := ["merge"] ++ given (!r.allowFastForward) "--no-ff"
  let switches := opening ++ given r.squash "--squash" ++ given r.noCommit "--no-commit" ++
    given r.allowUnrelatedHistories "--allow-unrelated-histories"
  match nonBlank? r.strategy, nonBlank? r.messageFile with
  | some _, _ => opening
  | none, some _ => switches ++ ["-F"]
  | none, none => switches ++ counted r.log ["--log=" ++ toString r.log]

def Rebase.lead (r : Rebase) : List String :=
  ["-c", "rebase.autoSquash=false"] ++ ["rebase"] ++ r.modeWords ++ given r.autostash "--autostash"

def Revert.lead (r : Revert) : List String :=
  ["revert"] ++ given r.noCommit "--no-commit" ++
    counted r.parentIndex ["-m", toString r.parentIndex]

def BisectStep.lead (r : BisectStep) : List String := ["bisect"] ++ [r.outcome.name]

def Remove.lead (r : Remove) : List String :=
  ["rm"] ++ given r.force "--force" ++ given r.recursive "-r" ++
    if filledIn r.files = [] then ["."] else []

def Reset.lead (r : Reset) : List String :=
  ["reset"] ++ r.mode.flag?.toList ++ if (nonBlank? r.commit).isSome then [] else ["--"]

def Clean.lead (r : Clean) : List String :=
  ["clean"] ++ r.mode.flag?.toList ++ given r.directories "-d" ++
    if r.dryRun then ["--dry-run"] else ["-f"]

def CleanSubmodules.lead (r : CleanSubmodules) : List String :=
  ["submodule"] ++ ["foreach"] ++ ["--recursive"] ++ ["git"] ++ r.each.lead

def Stash.lead (r : Stash) : List String :=
  let partly := !r.files.isEmpty
  ["stash"] ++ (if partly then ["push"] else ["save"]) ++ given r.untracked "-u" ++
    given r.keepIndex "--keep-index" ++
    given partly (if (nonBlank? r.message).isSome then "-m" else "--")

def ApplyDiff.lead (r : ApplyDiff) : List String :=
  ["apply"] ++ given r.ignoreWhitespace "--ignore-whitespace"

def ApplyMailbox.lead (r : ApplyMailbox) : List String :=
  ["am"] ++ ["--3way"] ++ given r.signOff "--signoff" ++
    given r.ignoreWhitespace "--ignore-whitespace"

def Changes.lead (r : Changes) : List String :=
  given r.noLocks "--no-optional-locks" ++ Draft.settings Changes.settings ++ ["diff"] ++
    ["--find-renames"] ++ ["--find-copies"]

/-- The text of an override is free and comes behind its flag. -/
def AddSubmodule.lead (r : AddSubmodule) : List String :=
  if r.overrides = [] then
    ["submodule"] ++ ["add"] ++ given r.force "-f" ++ given (nonBlank? r.branch).isSome "-b"
  else ["-c"]

def SetConfig.lead (r : SetConfig) : List String := ["config"] ++ given r.everywhere "--global"

def UnsetConfig.lead (r : UnsetConfig) : List String :=
  ["config"] ++ given r.everywhere "--global" ++ ["--unset"]

/-- The words of an operation in front of its first free text, and all of them when it has none. -/
def Operation.lead (o : Operation) (s : Snapshot) : List String :=
  match o with
  | .fetch _ => Fetch.lead s
  | .pull r => r.lead s
  | .clone r => r.lead
  | .checkout r => r.lead
  | .branch r => r.lead
  | .mergedBranches r => r.lead
  | .pushLocal _ => ["push"]
  | .pushTag r => r.lead
  | .remove r => r.lead
  | .reset r => r.lead
  | .clean r => r.lead
  | .cleanSubmodules r => r.lead
  | .merge r => r.lead
  | .continueMerge => ["merge", "--continue"]
  | .abortMerge => ["merge", "--abort"]
  | .applyDiff r => r.lead
  | .applyMailbox r => r.lead
  | .revert r => r.lead
  | .rebase r => r.lead
  | .bisectStep r => r.lead
  | .changedFiles r => r.argv
  | .changes r => r.lead
  | .listRefs r => r.argv
  | .stash r => r.lead
  | .syncSubmodule _ => ["submodule", "sync"]
  | .addSubmodule r => r.lead
  | .setConfig r => r.lead
  | .unsetConfig r => r.lead

end Words

section Transfer

theorem Fetch.leads_draft (r : Fetch) (s : Snapshot) : (r.draft s).Leads (Fetch.lead s) := by
  have hstart := Draft.reads_configure (settled_literal _ rfl : Word "fetch") (legible_missing s)
  have hfront := hstart.raw (settled_literal _ rfl : Word "--progress")
  exact hfront.leads.add _ |>.add _ |>.add _ |>.rawIf _ _ |>.add _

theorem Pull.leads_draft (r : Pull) (s : Snapshot) : (r.draft s).Leads (r.lead s) := by
  have hstart := Draft.reads_configure (settled_literal _ rfl : Word "pull") (legible_missing s)
  have hfront := hstart.rawIf r.rebase (settled_literal _ rfl : Word "--rebase")
    |>.raw (settled_literal _ rfl : Word "--progress")
  exact hfront.leads.add _ |>.add _ |>.add _ |>.rawIf _ _ |>.add _

/-- The name of a branch comes behind its flag, in one piece of text with it. -/
theorem leads_checkout {d : Draft} {ws : List String} (h : d.Reads ws) (c : FirstCheckout) :
    (d.raw? c.flag?).Leads (ws ++ c.lead) := by
  cases c with
  | remoteHead => simpa [FirstCheckout.flag?, FirstCheckout.lead] using h.leads
  | nothing => exact (h.raw (settled_literal _ rfl : Word "--no-checkout")).leads
  | branch name =>
    simp only [FirstCheckout.flag?, FirstCheckout.lead]
    split
    · simpa using h.leads
    · have hflag : Word "--branch" := settled_literal _ rfl
      exact h.leads_raw (hflag.begins.append_space name)

theorem Clone.leads_draft (r : Clone) : r.draft.Leads r.lead := by
  have hstart := Draft.reads_start (settled_literal _ rfl : Word "clone")
  have hfront := hstart.raw (settled_literal _ rfl : Word "-v")
    |>.rawIf r.central (settled_literal _ rfl : Word "--bare")
    |>.rawIf r.initSubmodules (settled_literal _ rfl : Word "--recurse-submodules")
    |>.raw? (settled_depth r.depth)
    |>.raw? (settled_singleBranch r.singleBranch)
    |>.raw (settled_literal _ rfl : Word "--progress")
  exact (leads_checkout hfront r.checkout).add _ |>.add _

theorem PushLocal.leads_draft (r : PushLocal) : r.draft.Leads ["push"] := by
  have hstart := Draft.reads_start (settled_literal _ rfl : Word "push")
  exact hstart.leads.add _ |>.add _ |>.rawIf _ _

theorem PushTag.begins_text (r : PushTag) : Begins ((r.draft?.map Draft.text).getD "") r.lead := by
  have hstart := Draft.reads_start (settled_literal _ rfl : Word "push")
  have hfront := hstart.raw? (settled_tagForce r.force)
    |>.raw (settled_literal _ rfl : Word "--progress")
  simp only [PushTag.draft?, PushTag.lead]
  cases r.all with
  | true => exact hfront.leads.add _ |>.add _
  | false =>
    by_cases htag : Text.trim r.tag = ""
    · simpa [htag] using settled_empty.begins
    · simp only [htag]
      exact hfront.leads.add _ |>.add _ |>.add _

end Transfer

section History

theorem Checkout.leads_draft (r : Checkout) : r.draft.Leads r.lead := by
  have hstart := Draft.reads_start (settled_literal _ rfl : Word "checkout")
  exact (hstart.raw? (settled_localChanges r.localChanges)).leads.add _

theorem Branch.leads_draft (r : Branch) : r.draft.Leads r.lead := by
  unfold Branch.draft Branch.lead
  cases r.checkout with
  | true =>
    have hstart := Draft.reads_start (settled_literal _ rfl : Word "checkout")
    have hfront := hstart.raw (settled_literal _ rfl : Word "-b")
    exact hfront.leads.add _ |>.add _
  | false =>
    have hstart := Draft.reads_start (settled_literal _ rfl : Word "branch")
    exact hstart.leads.add _ |>.add _

theorem MergedBranches.leads_draft (r : MergedBranches) : r.draft.Leads r.lead := by
  have hstart := Draft.reads_start (settled_literal _ rfl : Word "branch")
  have hfront := hstart.rawIf r.fullRefname settled_refnameFormat
    |>.rawIf r.includeRemote (settled_literal _ rfl : Word "-a")
    |>.raw (settled_literal _ rfl : Word "--merged")
  exact hfront.leads.add _

theorem Merge.leads_draft (r : Merge) : r.draft.Leads r.lead := by
  have hstart := Draft.reads_start (settled_literal _ rfl : Word "merge")
  have hopening := hstart.rawIf (!r.allowFastForward) (settled_literal _ rfl : Word "--no-ff")
  unfold Merge.draft Merge.lead
  cases nonBlank? r.strategy with
  | some strategy =>
    exact hopening.leads.add _ |>.rawIf _ _ |>.rawIf _ _ |>.rawIf _ _ |>.add _ |>.add _ |>.add _
  | none =>
    have hswitches := hopening.rawIf r.squash (settled_literal _ rfl : Word "--squash")
      |>.rawIf r.noCommit (settled_literal _ rfl : Word "--no-commit")
      |>.rawIf r.allowUnrelatedHistories
        (settled_literal _ rfl : Word "--allow-unrelated-histories")
    simp only [Option.map_none, Draft.raw?_none]
    cases nonBlank? r.messageFile with
    | some file =>
      have hflag : Word "-F" := settled_literal _ rfl
      exact (hswitches.leads_raw (hflag.begins.append_space (quoted file))).add _ |>.add _
    | none =>
      have hflag : Plain "--log=" := plain_literal _ rfl
      have hlog := hswitches.raw? (allSettled_countFlag? (settled_count hflag (by decide) r.log))
      simp only [Option.map_none, Draft.raw?_none]
      exact hlog.leads.add _

theorem Rebase.leads_draft {r : Rebase} {d : Draft} (hd : r.draft = .ok d) : d.Leads r.lead := by
  unfold Rebase.draft at hd
  cases hr : r.range with
  | error e => rw [hr] at hd; exact absurd hd (by simp [Except.map])
  | ok range =>
    rw [hr] at hd
    obtain rfl := Except.ok.inj hd
    have hstart := Draft.reads_configure (settled_literal _ rfl : Word "rebase")
      (legible_override (plain_literal _ rfl : Plain "rebase.autoSquash")
        (bare_literal _ rfl : Bare "false"))
    have hfront := (Rebase.reads_withMode (r := r) hstart).rawIf r.autostash
      (settled_literal _ rfl : Word "--autostash")
    cases range with
    | none => exact hfront.leads.add _
    | some bounds => exact hfront.leads.add _ |>.add _ |>.add _ |>.add _

theorem Revert.leads_draft (r : Revert) : r.draft.Leads r.lead := by
  have hstart := Draft.reads_start (settled_literal _ rfl : Word "revert")
  have hfront := hstart.rawIf r.noCommit (settled_literal _ rfl : Word "--no-commit")
    |>.raw? (allSettled_countFlag? (settled_parent r.parentIndex))
  exact hfront.leads.add _

theorem BisectStep.leads_draft (r : BisectStep) : r.draft.Leads r.lead := by
  have hstart := Draft.reads_start (settled_literal _ rfl : Word "bisect")
  exact (hstart.raw (settled_outcome r.outcome)).leads.add _

end History

section Worktree

theorem Remove.leads_draft (r : Remove) : r.draft.Leads r.lead := by
  have hstart := Draft.reads_start (settled_literal _ rfl : Word "rm")
  have hfront := hstart.rawIf r.force (settled_literal _ rfl : Word "--force")
    |>.rawIf r.recursive (settled_literal _ rfl : Word "-r")
  unfold Remove.draft Remove.lead Remove.target
  split
  · next he =>
    rw [if_pos he]
    exact (hfront.raw (settled_literal _ rfl : Word ".")).leads
  · next hne =>
    rw [if_neg hne, List.append_nil]
    exact hfront.leads.add _

theorem Reset.leads_draft {r : Reset} {d : Draft} (hd : r.draft = .ok d) : d.Leads r.lead := by
  have hstart := Draft.reads_start (settled_literal _ rfl : Word "reset")
  have hfront := hstart.raw? (settled_resetMode r.mode)
  simp only [Reset.draft] at hd
  split at hd
  · exact absurd hd (by simp)
  · obtain rfl := Except.ok.inj hd
    unfold Reset.lead
    cases nonBlank? r.commit with
    | some commit =>
      rw [if_pos Option.isSome_some, List.append_nil]
      exact hfront.leads.add _ |>.add _ |>.add _
    | none =>
      have hmark := hfront.raw (settled_literal _ rfl : Word "--")
      rw [Draft.quoted?_none]
      exact hmark.leads.add _

theorem Clean.leads_draft (r : Clean) : r.draft.Leads r.lead := by
  have hstart := Draft.reads_start (settled_literal _ rfl : Word "clean")
  have hfront := hstart.raw? (settled_cleanMode r.mode)
    |>.rawIf r.directories (settled_literal _ rfl : Word "-d")
    |>.rawEither r.dryRun (settled_literal _ rfl : Word "--dry-run")
      (settled_literal _ rfl : Word "-f")
  exact hfront.leads.add _ |>.add _

theorem CleanSubmodules.leads_draft (r : CleanSubmodules) : r.draft.Leads r.lead := by
  have hstart := Draft.reads_start (settled_literal _ rfl : Word "submodule")
  have hfront := hstart.raw (settled_literal _ rfl : Word "foreach")
    |>.raw (settled_literal _ rfl : Word "--recursive")
    |>.raw (settled_literal _ rfl : Word "git")
  exact hfront.leads_raw (Clean.leads_draft r.each)

theorem Stash.leads_draft (r : Stash) : r.draft.Leads r.lead := by
  have hstart := Draft.reads_start (settled_literal _ rfl : Word "stash")
  have hform := hstart.rawEither (!r.files.isEmpty) (settled_literal _ rfl : Word "push")
    (settled_literal _ rfl : Word "save")
  have hfront := hform.rawIf r.untracked (settled_literal _ rfl : Word "-u")
    |>.rawIf r.keepIndex (settled_literal _ rfl : Word "--keep-index")
  unfold Stash.draft Stash.lead
  cases nonBlank? r.message with
  | some message =>
    have hflag := hfront.rawIf (!r.files.isEmpty) (settled_literal _ rfl : Word "-m")
    simp only [Option.isSome_some, Bool.and_true, if_true]
    exact hflag.leads.add _ |>.rawIf _ _ |>.add _
  | none =>
    have hmark := hfront.rawIf (!r.files.isEmpty) (settled_literal _ rfl : Word "--")
    simp only [Option.isSome_none, Bool.and_false, Draft.quoted?_none]
    exact hmark.leads.add _

theorem ApplyDiff.leads_draft (r : ApplyDiff) : r.draft.Leads r.lead := by
  have hstart := Draft.reads_start (settled_literal _ rfl : Word "apply")
  have hfront := hstart.rawIf r.ignoreWhitespace
    (settled_literal _ rfl : Word "--ignore-whitespace")
  exact hfront.leads.add _

theorem ApplyMailbox.leads_draft (r : ApplyMailbox) : r.draft.Leads r.lead := by
  have hstart := Draft.reads_start (settled_literal _ rfl : Word "am")
  have hfront := hstart.raw (settled_literal _ rfl : Word "--3way")
    |>.rawIf r.signOff (settled_literal _ rfl : Word "--signoff")
    |>.rawIf r.ignoreWhitespace (settled_literal _ rfl : Word "--ignore-whitespace")
  exact hfront.leads.add _

end Worktree

section Repository

theorem Changes.leads_draft (r : Changes) : r.draft.Leads r.lead := by
  have hstart := Draft.reads_noOptionalLocks_configure (settled_literal _ rfl : Word "diff")
    legible_changesSettings r.noLocks
  have hfront := hstart.raw (settled_literal _ rfl : Word "--find-renames")
    |>.raw (settled_literal _ rfl : Word "--find-copies")
  exact hfront.leads.add _ |>.rawIf _ _ |>.add _ |>.add _ |>.add _

theorem SyncSubmodule.leads_draft (r : SyncSubmodule) : r.draft.Leads ["submodule", "sync"] := by
  have hstart := Draft.reads_start (settled_literal _ rfl : Word "submodule")
  exact (hstart.raw (settled_literal _ rfl : Word "sync")).leads.add _

/-- The flag of an override stands in front of its text. -/
theorem leads_override {d : Draft} (hl : d.lockFree = false) (ho : d.overrides ≠ []) :
    d.Leads ["-c"] := by
  obtain ⟨o, items, ho⟩ := List.exists_cons_of_ne_nil ho
  have hflag : Word "-c" := settled_literal _ rfl
  have ht : d.text = "-c" ++ " " ++ " ".intercalate (o.text :: (items.flatMap fun o =>
      ["-c", o.text]) ++ d.command :: d.tokens.filterMap Token.text?) := by
    rw [Draft.text, Draft.parts, hl, ho]
    exact String.intercalate_cons_cons
  unfold Draft.Leads
  rw [ht]
  exact hflag.begins.append_space _

theorem AddSubmodule.leads_draft (r : AddSubmodule) : r.draft.Leads r.lead := by
  unfold AddSubmodule.lead
  split
  · next he =>
    have hstart := Draft.reads_start (settled_literal _ rfl : Word "submodule")
    have hfront := hstart.raw (settled_literal _ rfl : Word "add")
      |>.rawIf r.force (settled_literal _ rfl : Word "-f")
      |>.rawIf (nonBlank? r.branch).isSome (settled_literal _ rfl : Word "-b")
    unfold AddSubmodule.draft
    rw [he]
    exact hfront.leads.add _ |>.add _ |>.add _
  · next hne =>
    have hlead : ((Draft.start "submodule").configure r.overrides).Leads ["-c"] :=
      leads_override rfl hne
    exact hlead.add _ |>.rawIf _ _ |>.rawIf _ _ |>.add _ |>.add _ |>.add _

theorem SetConfig.leads_draft (r : SetConfig) : r.draft.Leads r.lead := by
  have hstart := Draft.reads_start (settled_literal _ rfl : Word "config")
  have hfront := hstart.rawIf r.everywhere (settled_literal _ rfl : Word "--global")
  exact hfront.leads.add _ |>.add _

theorem UnsetConfig.leads_draft (r : UnsetConfig) : r.draft.Leads r.lead := by
  have hstart := Draft.reads_start (settled_literal _ rfl : Word "config")
  have hfront := hstart.rawIf r.everywhere (settled_literal _ rfl : Word "--global")
    |>.raw (settled_literal _ rfl : Word "--unset")
  exact hfront.leads.add _

end Repository

namespace Operation

theorem begins_text {d : Draft} {ws : List String} (h : d.Leads ws) {drafted : Option Draft}
    (hd : (.ok (some d) : Except Rejection (Option Draft)) = .ok drafted) :
    Begins ((drafted.map Draft.text).getD "") ws := by
  obtain rfl := Except.ok.inj hd
  exact h

theorem begins_checkedText {c : Except Rejection Draft} {ws : List String}
    (h : ∀ d, c = .ok d → d.Leads ws) {drafted : Option Draft}
    (hd : c.map some = .ok drafted) : Begins ((drafted.map Draft.text).getD "") ws := by
  cases c with
  | error e => exact absurd hd (by simp [Except.map])
  | ok d => exact begins_text (h d rfl) hd

theorem begins_draft {o : Operation} {s : Snapshot} {drafted : Option Draft}
    (hd : o.draft s = .ok drafted) : Begins ((drafted.map Draft.text).getD "") (o.lead s) := by
  cases o with
  | fetch r => exact begins_text (r.leads_draft s) hd
  | pull r => exact begins_text (r.leads_draft s) hd
  | clone r => exact begins_text r.leads_draft hd
  | checkout r => exact begins_text r.leads_draft hd
  | branch r => exact begins_text r.leads_draft hd
  | mergedBranches r => exact begins_text r.leads_draft hd
  | pushLocal r => exact begins_text r.leads_draft hd
  | pushTag r =>
    obtain rfl := Except.ok.inj hd
    exact r.begins_text
  | remove r => exact begins_text r.leads_draft hd
  | reset r => exact begins_checkedText (fun _ => Reset.leads_draft) hd
  | clean r => exact begins_text r.leads_draft hd
  | cleanSubmodules r => exact begins_text r.leads_draft hd
  | merge r => exact begins_text r.leads_draft hd
  | continueMerge => exact begins_text reads_continueMerge.leads hd
  | abortMerge => exact begins_text reads_abortMerge.leads hd
  | applyDiff r => exact begins_text r.leads_draft hd
  | applyMailbox r => exact begins_text r.leads_draft hd
  | revert r => exact begins_text r.leads_draft hd
  | rebase r => exact begins_checkedText (fun _ => Rebase.leads_draft) hd
  | bisectStep r => exact begins_text r.leads_draft hd
  | changedFiles r => exact begins_text r.reads_draft.leads hd
  | changes r => exact begins_text r.leads_draft hd
  | listRefs r => exact begins_text r.reads_draft.leads hd
  | stash r => exact begins_text r.leads_draft hd
  | syncSubmodule r => exact begins_text r.leads_draft hd
  | addSubmodule r => exact begins_text r.leads_draft hd
  | setConfig r => exact begins_text r.leads_draft hd
  | unsetConfig r => exact begins_text r.leads_draft hd

/-- Whatever the free text of an operation holds, the words in front of it reach the program. -/
theorem lead_reaches_program {o : Operation} {s : Snapshot} {text : String} {words : List String}
    (ht : o.arguments s = .ok text) (hw : words? text = some words) : o.lead s <+: words := by
  unfold arguments at ht
  cases hd : o.draft s with
  | error e => rw [hd] at ht; exact absurd ht (by simp [Except.map])
  | ok drafted =>
    rw [hd] at ht
    obtain rfl := Except.ok.inj ht
    exact (begins_draft hd).isPrefix hw

/-- The paths close a quote behind a line break and open a comment. The patterns end in the middle
of a quote, but within that comment. -/
def hostileClean : Operation :=
  .clean ⟨.onlyIgnored, true, true, some "'-f\n' #", some "\"\\"⟩

theorem lead_reaches_program_hostileClean :
    hostileClean.arguments .empty = .ok "clean -X -d --dry-run '-f\n' # \"\\" ∧
      words? "clean -X -d --dry-run '-f\n' # \"\\" =
        some ["clean", "-X", "-d", "--dry-run", "-f\n"] ∧
      ["clean", "-X", "-d", "--dry-run"] <+: ["clean", "-X", "-d", "--dry-run", "-f\n"] := by
  have ht : hostileClean.arguments .empty = .ok "clean -X -d --dry-run '-f\n' # \"\\" :=
    congrArg Except.ok (by decide +kernel)
  have hw : words? "clean -X -d --dry-run '-f\n' # \"\\" =
      some ["clean", "-X", "-d", "--dry-run", "-f\n"] := by decide +kernel
  exact ⟨ht, hw, lead_reaches_program ht hw⟩

def locklessChanges : Changes := ⟨"a", none, false, "", true⟩

/-- The settings of a difference do not come first when optional locks are renounced. -/
theorem settings_behind_switch :
    ∃ text words, arguments (.changes locklessChanges) .empty = .ok text ∧
      words? text = some words ∧
      ¬ (Draft.settings Changes.settings ++ ["diff", "--find-renames", "--find-copies"]) <+:
        words := by
  have hextra : Plain locklessChanges.extraArguments := ⟨bare_literal [] rfl, nofun⟩
  have hlegible : locklessChanges.Legible := ⟨hextra, by decide +kernel, fun _ hv => nomatch hv⟩
  have hw : words? locklessChanges.draft.text = some locklessChanges.argv :=
    (Changes.reads_draft hlegible).text.words?
  have ht : ∀ r : Changes, arguments (.changes r) .empty = .ok r.draft.text := fun _ => rfl
  refine ⟨locklessChanges.draft.text, locklessChanges.argv, ht locklessChanges, hw, ?_⟩
  decide +kernel

end Operation

end GitInvocation
