import GitInvocation.Proofs.Command.Alphabet
import GitInvocation.Proofs.Operation.BareOperands
import GitInvocation.Proofs.Operation.Rejecting

/-!
# The free text of a request

Some fields of a request are taken for paths, where backslashes and slashes mean the same, and the
others are passed on as they are. The argument text of an operation has no characters beyond those
of its free text and the literal ones.
-/
namespace GitInvocation

open Text (nonBlank?)
open Alphabet

/-- All values a caller is free to choose, those that are taken for paths and the rest. -/
structure FreeText where
  paths : List String
  others : List String

/-- The values are in the alphabet as they are passed on. -/
structure FreeText.SpelledIn (t : FreeText) (a : Alphabet) : Prop where
  paths : ∀ v ∈ t.paths, a.Spells (posixPath v)
  others : ∀ v ∈ t.others, a.Spells v

def Fetch.freeText (r : Fetch) : FreeText :=
  ⟨[r.remote], r.remoteBranch.toList ++ r.localBranch.toList⟩

def Pull.freeText (r : Pull) : FreeText := ⟨[r.remote], r.remoteBranch.toList⟩

def FirstCheckout.names : FirstCheckout → List String
  | .branch name => [name]
  | .remoteHead | .nothing => []

def Clone.freeText (r : Clone) : FreeText := ⟨[r.source, r.target], r.checkout.names⟩

def PushLocal.freeText (r : PushLocal) : FreeText := ⟨[r.repository], [r.objectId, r.targetRef]⟩

def PushTag.freeText (r : PushTag) : FreeText := ⟨[r.remote], [r.tag]⟩

def Checkout.freeText (r : Checkout) : FreeText := ⟨[], [r.revision]⟩

def Branch.freeText (r : Branch) : FreeText := ⟨[], r.name :: r.revision.toList⟩

def MergedBranches.freeText (r : MergedBranches) : FreeText := ⟨[], r.commit.toList⟩

/-- The file of the message is passed on as it is, unlike the paths of other operations. -/
def Merge.freeText (r : Merge) : FreeText :=
  ⟨[], r.branch :: (r.strategy.toList ++ r.messageFile.toList)⟩

def Rebase.freeText (r : Rebase) : FreeText :=
  ⟨[], r.branch :: (r.lower.toList ++ r.onto.toList)⟩

def Revert.freeText (r : Revert) : FreeText := ⟨[], [r.commit]⟩

def BisectStep.freeText (r : BisectStep) : FreeText := ⟨[], r.revisions⟩

def Remove.freeText (r : Remove) : FreeText := ⟨[], r.files⟩

def Reset.freeText (r : Reset) : FreeText := ⟨r.file.toList, r.commit.toList⟩

def Clean.freeText (r : Clean) : FreeText := ⟨[], r.paths.toList ++ r.excludes.toList⟩

def CleanSubmodules.freeText (r : CleanSubmodules) : FreeText := ⟨[], r.paths.toList⟩

def Stash.freeText (r : Stash) : FreeText := ⟨r.files, r.message.toList⟩

def ApplyDiff.freeText (r : ApplyDiff) : FreeText := ⟨[r.patchFile], []⟩

def ApplyMailbox.freeText (r : ApplyMailbox) : FreeText := ⟨r.patchFile.toList, []⟩

def Changes.freeText (r : Changes) : FreeText :=
  ⟨r.fileName :: r.oldFileName.toList, [r.extraArguments]⟩

def SyncSubmodule.freeText (r : SyncSubmodule) : FreeText := ⟨r.name.toList, []⟩

def AddSubmodule.freeText (r : AddSubmodule) : FreeText :=
  ⟨[r.remotePath, r.localPath], r.branch.toList ++ r.overrides.flatMap fun o => [o.key, o.value]⟩

def SetConfig.freeText (r : SetConfig) : FreeText := ⟨[], [r.key, r.value]⟩

def UnsetConfig.freeText (r : UnsetConfig) : FreeText := ⟨[], [r.key]⟩

def Operation.freeText : Operation → FreeText
  | .fetch r => r.freeText
  | .pull r => r.freeText
  | .clone r => r.freeText
  | .checkout r => r.freeText
  | .branch r => r.freeText
  | .mergedBranches r => r.freeText
  | .pushLocal r => r.freeText
  | .pushTag r => r.freeText
  | .remove r => r.freeText
  | .reset r => r.freeText
  | .clean r => r.freeText
  | .cleanSubmodules r => r.freeText
  | .merge r => r.freeText
  | .applyDiff r => r.freeText
  | .applyMailbox r => r.freeText
  | .revert r => r.freeText
  | .rebase r => r.freeText
  | .bisectStep r => r.freeText
  | .changes r => r.freeText
  | .stash r => r.freeText
  | .syncSubmodule r => r.freeText
  | .addSubmodule r => r.freeText
  | .setConfig r => r.freeText
  | .unsetConfig r => r.freeText
  | .continueMerge | .abortMerge | .changedFiles _ | .listRefs _ => ⟨[], []⟩

variable {a : Alphabet}

section Values

/-- A value that is not blank is one of those that were given. -/
theorem mem_toList_of_nonBlank? {o : Option String} {v : String} (h : v ∈ nonBlank? o) :
    v ∈ o.toList := Option.mem_toList.mpr (mem_of_mem_nonBlank? h)

theorem spells_override {o : Override} (hk : a.Spells o.key) (hv : a.Spells o.value) :
    a.Spells o.text :=
  have hmark : a.Spells "=" := spells_literal _ rfl
  spells_append (spells_append hk hmark) hv

theorem spells_setting {key value : String} (hk : a.Spells key) (hv : a.Spells value) :
    ∀ o ∈ [(⟨key, value⟩ : Override)], a.Spells o.text := by
  intro o ho
  rw [List.mem_singleton.mp ho]
  exact spells_override hk hv

theorem spells_missing (s : Snapshot) :
    ∀ o ∈ s.missing Snapshot.sequentialFetching, a.Spells o.text := by
  intro o ho
  have hm : o ∈ Snapshot.sequentialFetching := (List.mem_filter.mp ho).1
  simp only [Snapshot.sequentialFetching, List.mem_cons, List.not_mem_nil, or_false] at hm
  rcases hm with rfl | rfl <;> exact spells_override (spells_literal _ rfl) (spells_literal _ rfl)

theorem spells_remoteText {remote : String} (h : a.Spells (posixPath remote)) :
    a.Spells (remoteText remote) := spells_trim h

theorem spells_localRef {name : String} (h : a.Spells name) : a.Spells (localRef name) := by
  unfold localRef
  split
  · exact h
  · exact spells_append (spells_literal _ rfl) h

theorem spells_refspec? {remoteBranch localBranch : Option String}
    (hr : ∀ v ∈ remoteBranch.toList, a.Spells v) (hl : ∀ v ∈ localBranch.toList, a.Spells v) :
    ∀ v ∈ refspec? remoteBranch localBranch, a.Spells v := by
  intro v hv
  obtain ⟨branch, hb, rfl⟩ := Option.map_eq_some_iff.mp hv
  have hdrop : a.Spells (String.ofList (branch.toList.dropWhile (· = '+'))) := by
    intro c hc
    rw [String.toList_ofList] at hc
    exact hr branch (mem_toList_of_nonBlank? hb) c ((List.dropWhile_suffix _).mem hc)
  have hsource := spells_append (spells_literal _ rfl : a.Spells "+") hdrop
  cases hn : nonBlank? localBranch with
  | none => exact spells_append hsource (spells_literal _ rfl)
  | some name =>
    have hname := spells_localRef (hl name (mem_toList_of_nonBlank? hn))
    exact spells_append hsource (spells_append (spells_literal _ rfl : a.Spells ":") hname)

theorem spells_prune (p : Pruning) : ∀ flag ∈ p.flag?, a.Spells flag :=
  spells_flag? (by cases p <;> rfl)

theorem spells_tags (t : TagFollowing) : ∀ flag ∈ t.flag?, a.Spells flag :=
  spells_flag? (by cases t <;> rfl)

theorem spells_checkout {c : FirstCheckout} (h : ∀ v ∈ c.names, a.Spells v) :
    ∀ flag ∈ c.flag?, a.Spells flag := by
  intro flag hf
  cases c with
  | remoteHead => exact absurd hf (by simp [FirstCheckout.flag?])
  | nothing => exact Option.some.inj hf ▸ spells_literal _ rfl
  | branch name =>
    rw [FirstCheckout.flag?] at hf
    split at hf
    · exact absurd hf (by simp)
    · have hname := h name List.mem_cons_self
      exact Option.some.inj hf ▸ spells_append (spells_literal _ rfl) hname

theorem spells_depth (flag : String) (hf : a.Spells flag) (count : Option UInt32) :
    ∀ v ∈ count.bind (Draft.countFlag? flag), a.Spells v := by
  intro v hv
  obtain ⟨n, -, hn⟩ := Option.bind_eq_some_iff.mp hv
  exact spells_countFlag? hf n v hn

theorem spells_singleBranch (singleBranch : Option Bool) :
    ∀ v ∈ singleBranch.map fun on => if on then "--single-branch" else "--no-single-branch",
      a.Spells v := by
  intro v hv
  obtain ⟨on, -, rfl⟩ := Option.map_eq_some_iff.mp hv
  cases on <;> exact spells_literal _ rfl

theorem spells_sortFlag (direction : Direction) {key : String} (h : a.Spells key) :
    a.Spells (sortFlag direction key) := by
  have hsign : a.Spells direction.sign := by
    cases direction <;> exact spells_literal _ rfl
  exact spells_append (spells_literal _ rfl) (spells_quoted (spells_append hsign h))

theorem spells_sortKey (order : RefOrder) :
    (∀ key ∈ order.targetKey?, a.Spells key) ∧ ∀ key ∈ order.key?, a.Spells key := by
  constructor <;> refine spells_flag? ?_ <;> cases order <;> rfl

end Values

section Transfer

theorem Fetch.spelledIn_draft {r : Fetch} (h : r.freeText.SpelledIn a) (s : Snapshot) :
    (r.draft s).SpelledIn a := by
  have hspec : ∀ v ∈ refspec? r.remoteBranch r.localBranch, a.Spells v :=
    spells_refspec? (fun v hv => h.others v (List.mem_append_left _ hv))
      fun v hv => h.others v (List.mem_append_right _ hv)
  have hstart := Draft.spelledIn_configure (spells_literal _ rfl : a.Spells "fetch")
    (spells_missing s)
  exact hstart.raw (spells_literal _ rfl)
    |>.quoted (spells_remoteText (h.paths _ List.mem_cons_self))
    |>.raw? hspec
    |>.raw? (spells_tags r.tags)
    |>.rawIf _ (spells_literal _ rfl)
    |>.raw? (spells_prune r.prune)

theorem Pull.spelledIn_draft {r : Pull} (h : r.freeText.SpelledIn a) (s : Snapshot) :
    (r.draft s).SpelledIn a := by
  have hspec : ∀ v ∈ refspec? r.remoteBranch none, a.Spells v :=
    spells_refspec? h.others fun _ hv => absurd hv List.not_mem_nil
  have hstart := Draft.spelledIn_configure (spells_literal _ rfl : a.Spells "pull")
    (spells_missing s)
  exact hstart.rawIf _ (spells_literal _ rfl)
    |>.raw (spells_literal _ rfl)
    |>.quoted (spells_remoteText (h.paths _ List.mem_cons_self))
    |>.raw? hspec
    |>.raw? (spells_tags r.tags)
    |>.rawIf _ (spells_literal _ rfl)
    |>.raw? (spells_prune r.prune)

theorem Clone.spelledIn_draft {r : Clone} (h : r.freeText.SpelledIn a) : r.draft.SpelledIn a := by
  have hstart := Draft.spelledIn_start (spells_literal _ rfl : a.Spells "clone")
  exact hstart.raw (spells_literal _ rfl)
    |>.rawIf _ (spells_literal _ rfl)
    |>.rawIf _ (spells_literal _ rfl)
    |>.raw? (spells_depth _ (spells_literal _ rfl) r.depth)
    |>.raw? (spells_singleBranch r.singleBranch)
    |>.raw (spells_literal _ rfl)
    |>.raw? (spells_checkout h.others)
    |>.path (h.paths _ List.mem_cons_self)
    |>.path (h.paths _ (List.mem_cons_of_mem _ List.mem_cons_self))

theorem PushLocal.spelledIn_draft {r : PushLocal} (h : r.freeText.SpelledIn a) :
    r.draft.SpelledIn a := by
  have hstart := Draft.spelledIn_start (spells_literal _ rfl : a.Spells "push")
  have hrepository := spells_append (spells_literal _ rfl : a.Spells "file://")
    (h.paths _ List.mem_cons_self)
  have hobject := spells_append (h.others _ List.mem_cons_self)
    (spells_literal _ rfl : a.Spells ":")
  have htarget := h.others _ (List.mem_cons_of_mem _ List.mem_cons_self)
  exact hstart.quoted hrepository
    |>.quoted (spells_append hobject htarget)
    |>.rawIf _ (spells_literal _ rfl)

theorem PushTag.spelledIn_draft? {r : PushTag} (h : r.freeText.SpelledIn a) :
    ∀ d ∈ r.draft?, d.SpelledIn a := by
  intro d hd
  have hforce : ∀ flag ∈ r.force.flag?, a.Spells flag :=
    spells_flag? (by cases r.force <;> rfl)
  have hcommon := (Draft.spelledIn_start (spells_literal _ rfl : a.Spells "push")).raw? hforce
    |>.raw (spells_literal _ rfl : a.Spells "--progress")
    |>.quoted (spells_remoteText (h.paths _ List.mem_cons_self))
  simp only [PushTag.draft?] at hd
  split at hd
  · exact Option.some.inj hd ▸ hcommon.raw (spells_literal _ rfl)
  · split at hd
    · exact absurd hd (by simp)
    · have htag := spells_trim (h.others _ List.mem_cons_self)
      exact Option.some.inj hd ▸ (hcommon.raw (spells_literal _ rfl)).raw htag

end Transfer

section History

theorem Checkout.spelledIn_draft {r : Checkout} (h : r.freeText.SpelledIn a) :
    r.draft.SpelledIn a := by
  have hstart := Draft.spelledIn_start (spells_literal _ rfl : a.Spells "checkout")
  exact hstart.raw? (spells_flag? (by cases r.localChanges <;> rfl))
    |>.quoted (h.others _ List.mem_cons_self)

theorem Branch.spelledIn_draft {r : Branch} (h : r.freeText.SpelledIn a) :
    r.draft.SpelledIn a := by
  have hstart : Draft.SpelledIn
      (if r.checkout then Draft.start "checkout" |>.raw "-b" else Draft.start "branch") a := by
    cases r.checkout
    · exact Draft.spelledIn_start (spells_literal _ rfl)
    · have hcheckout := Draft.spelledIn_start (spells_literal _ rfl : a.Spells "checkout")
      exact hcheckout.raw (spells_literal _ rfl)
  exact hstart.quoted (h.others _ List.mem_cons_self)
    |>.quoted? fun v hv => h.others v (List.mem_cons_of_mem _ (mem_toList_of_nonBlank? hv))

theorem MergedBranches.spelledIn_draft {r : MergedBranches} (h : r.freeText.SpelledIn a) :
    r.draft.SpelledIn a := by
  have hstart := Draft.spelledIn_start (spells_literal _ rfl : a.Spells "branch")
  exact hstart.rawIf _ (spells_literal _ rfl)
    |>.rawIf _ (spells_literal _ rfl)
    |>.raw (spells_literal _ rfl)
    |>.raw? fun v hv => h.others v (mem_toList_of_nonBlank? hv)

theorem Merge.spelledIn_draft {r : Merge} (h : r.freeText.SpelledIn a) : r.draft.SpelledIn a := by
  have hstrategy : ∀ v ∈ (nonBlank? r.strategy).map ("--strategy=" ++ ·), a.Spells v := by
    intro v hv
    obtain ⟨strategy, hs, rfl⟩ := Option.map_eq_some_iff.mp hv
    have hmem := List.mem_append_left r.messageFile.toList (mem_toList_of_nonBlank? hs)
    exact spells_append (spells_literal _ rfl) (h.others _ (List.mem_cons_of_mem _ hmem))
  have hfile : ∀ v ∈ (nonBlank? r.messageFile).map fun file => "-F " ++ quoted file,
      a.Spells v := by
    intro v hv
    obtain ⟨file, hf, rfl⟩ := Option.map_eq_some_iff.mp hv
    have hmem := List.mem_append_right r.strategy.toList (mem_toList_of_nonBlank? hf)
    have hquoted := spells_quoted (h.others _ (List.mem_cons_of_mem _ hmem))
    exact spells_append (spells_literal _ rfl) hquoted
  have hstart := Draft.spelledIn_start (spells_literal _ rfl : a.Spells "merge")
  exact hstart.rawIf _ (spells_literal _ rfl)
    |>.raw? hstrategy
    |>.rawIf _ (spells_literal _ rfl)
    |>.rawIf _ (spells_literal _ rfl)
    |>.rawIf _ (spells_literal _ rfl)
    |>.raw? hfile
    |>.raw? (spells_countFlag? (spells_literal _ rfl) r.log)
    |>.raw (h.others _ List.mem_cons_self)

theorem spelledIn_continueMerge : continueMerge.SpelledIn a :=
  (Draft.spelledIn_start (spells_literal _ rfl)).raw (spells_literal _ rfl)

theorem spelledIn_abortMerge : abortMerge.SpelledIn a :=
  (Draft.spelledIn_start (spells_literal _ rfl)).raw (spells_literal _ rfl)

theorem Rebase.spelledIn_withMode {r : Rebase} {d : Draft} (h : d.SpelledIn a) :
    (r.withMode d).SpelledIn a := by
  unfold Rebase.withMode
  split
  · exact h.raw (spells_literal _ rfl)
  · split
    · exact h.raw (spells_literal _ rfl)
    · split
      · exact h.raw (spells_literal _ rfl)
          |>.rawEither _ (spells_literal _ rfl) (spells_literal _ rfl)
          |>.rawIf _ (spells_literal _ rfl)
      · exact h.rawIf _ (spells_literal _ rfl)

/-- A range holds what was given for its ends. -/
theorem Rebase.ends_of_range {r : Rebase} {lower onto : String}
    (h : r.range = .ok (some (lower, onto))) : lower ∈ r.lower.toList ∧ onto ∈ r.onto.toList := by
  unfold Rebase.range at h
  split at h
  · next hl ho =>
    obtain ⟨rfl, rfl⟩ := Prod.mk.inj (Option.some.inj (Except.ok.inj h))
    exact ⟨mem_toList_of_nonBlank? hl, mem_toList_of_nonBlank? ho⟩
  all_goals exact absurd h (by simp)

theorem Rebase.spelledIn_withRange {r : Rebase} (h : r.freeText.SpelledIn a) {d : Draft}
    (hd : d.SpelledIn a) {range : Option (String × String)} (hr : r.range = .ok range) :
    (r.withRange d range).SpelledIn a := by
  have hbranch := h.others r.branch List.mem_cons_self
  cases range with
  | none => exact hd.quoted hbranch
  | some ends =>
    obtain ⟨hl, ho⟩ := Rebase.ends_of_range hr
    have hlower := h.others _ (List.mem_cons_of_mem _ (List.mem_append_left _ hl))
    have honto := h.others _ (List.mem_cons_of_mem _ (List.mem_append_right _ ho))
    exact hd.quoted hlower |>.quoted hbranch |>.raw (spells_literal _ rfl) |>.raw honto

theorem Rebase.spelledIn_draft {r : Rebase} (h : r.freeText.SpelledIn a) {d : Draft}
    (hd : r.draft = .ok d) : d.SpelledIn a := by
  obtain ⟨range, hr, rfl⟩ := map_eq_ok_iff.mp hd
  have hstart := Draft.spelledIn_configure (spells_literal _ rfl : a.Spells "rebase")
    (spells_setting (spells_literal _ rfl : a.Spells "rebase.autoSquash")
      (spells_literal _ rfl : a.Spells "false"))
  have hmode := (Rebase.spelledIn_withMode (r := r) hstart).rawIf r.autostash
    (spells_literal _ rfl : a.Spells "--autostash")
  exact Rebase.spelledIn_withRange h hmode hr

theorem Revert.spelledIn_draft {r : Revert} (h : r.freeText.SpelledIn a) :
    r.draft.SpelledIn a := by
  have hstart := Draft.spelledIn_start (spells_literal _ rfl : a.Spells "revert")
  exact hstart.rawIf _ (spells_literal _ rfl)
    |>.raw? (spells_countFlag? (spells_literal _ rfl) r.parentIndex)
    |>.raw (h.others _ List.mem_cons_self)

theorem BisectStep.spelledIn_draft {r : BisectStep} (h : r.freeText.SpelledIn a) :
    r.draft.SpelledIn a := by
  have houtcome : a.Spells r.outcome.name := by
    cases r.outcome <;> exact spells_literal _ rfl
  have hstart := Draft.spelledIn_start (spells_literal _ rfl : a.Spells "bisect")
  exact hstart.raw houtcome |>.raws h.others

end History

section Worktree

theorem mem_of_filledIn {file : String} {files : List String} (h : file ∈ filledIn files) :
    file ∈ files := (List.mem_filter.mp h).1

theorem Remove.spelledIn_draft {r : Remove} (h : r.freeText.SpelledIn a) :
    r.draft.SpelledIn a := by
  have htarget : a.Spells r.target := by
    unfold Remove.target
    split
    · exact spells_literal _ rfl
    · exact spells_intercalate fun file hf => h.others file (mem_of_filledIn hf)
  have hstart := Draft.spelledIn_start (spells_literal _ rfl : a.Spells "rm")
  exact hstart.rawIf _ (spells_literal _ rfl) |>.rawIf _ (spells_literal _ rfl) |>.raw htarget

theorem Reset.spelledIn_draft {r : Reset} (h : r.freeText.SpelledIn a) {d : Draft}
    (hd : r.draft = .ok d) : d.SpelledIn a := by
  simp only [Reset.draft] at hd
  split at hd
  · exact absurd hd (by simp)
  · obtain rfl := Except.ok.inj hd
    have hstart := Draft.spelledIn_start (spells_literal _ rfl : a.Spells "reset")
    exact hstart.raw? (spells_flag? (by cases r.mode <;> rfl))
      |>.quoted? (fun v hv => h.others v (mem_toList_of_nonBlank? hv))
      |>.raw (spells_literal _ rfl)
      |>.path? fun v hv => h.paths v (mem_toList_of_nonBlank? hv)

theorem Clean.spelledIn_draft {r : Clean} (h : r.freeText.SpelledIn a) : r.draft.SpelledIn a := by
  have hstart := Draft.spelledIn_start (spells_literal _ rfl : a.Spells "clean")
  exact hstart.raw? (spells_flag? (by cases r.mode <;> rfl))
    |>.rawIf _ (spells_literal _ rfl)
    |>.rawEither _ (spells_literal _ rfl) (spells_literal _ rfl)
    |>.raw? (fun v hv => h.others v (List.mem_append_left _ (Option.mem_toList.mpr hv)))
    |>.raw? fun v hv => h.others v (List.mem_append_right _ (Option.mem_toList.mpr hv))

theorem CleanSubmodules.spelledIn_draft {r : CleanSubmodules} (h : r.freeText.SpelledIn a) :
    r.draft.SpelledIn a := by
  have heach : r.each.freeText.SpelledIn a := by
    refine ⟨h.paths, fun v hv => h.others v ?_⟩
    rwa [Clean.freeText, CleanSubmodules.each, Option.toList_none, List.append_nil] at hv
  have hstart := Draft.spelledIn_start (spells_literal _ rfl : a.Spells "submodule")
  exact hstart.raw (spells_literal _ rfl)
    |>.raw (spells_literal _ rfl)
    |>.raw (spells_literal _ rfl)
    |>.raw (Clean.spelledIn_draft heach).text

theorem Stash.spelledIn_draft {r : Stash} (h : r.freeText.SpelledIn a) : r.draft.SpelledIn a := by
  have hstart := Draft.spelledIn_start (spells_literal _ rfl : a.Spells "stash")
  exact hstart.rawEither _ (spells_literal _ rfl) (spells_literal _ rfl)
    |>.rawIf _ (spells_literal _ rfl)
    |>.rawIf _ (spells_literal _ rfl)
    |>.rawIf _ (spells_literal _ rfl)
    |>.quoted? (fun v hv => h.others v (mem_toList_of_nonBlank? hv))
    |>.rawIf _ (spells_literal _ rfl)
    |>.paths fun v hv => h.paths v (mem_of_filledIn hv)

theorem ApplyDiff.spelledIn_draft {r : ApplyDiff} (h : r.freeText.SpelledIn a) :
    r.draft.SpelledIn a := by
  have hstart := Draft.spelledIn_start (spells_literal _ rfl : a.Spells "apply")
  exact hstart.rawIf _ (spells_literal _ rfl) |>.path (h.paths _ List.mem_cons_self)

theorem ApplyMailbox.spelledIn_draft {r : ApplyMailbox} (h : r.freeText.SpelledIn a) :
    r.draft.SpelledIn a := by
  have hstart := Draft.spelledIn_start (spells_literal _ rfl : a.Spells "am")
  exact hstart.raw (spells_literal _ rfl)
    |>.rawIf _ (spells_literal _ rfl)
    |>.rawIf _ (spells_literal _ rfl)
    |>.path? fun v hv => h.paths v (mem_toList_of_nonBlank? hv)

end Worktree

section Query

theorem ChangedFiles.spelledIn_draft (r : ChangedFiles) : r.draft.SpelledIn a := by
  have hsettings := spells_setting (spells_literal _ rfl : a.Spells "diff.ignoreSubmodules")
    (spells_literal _ rfl : a.Spells "none")
  have huntracked : a.Spells r.untrackedFiles.flag := by
    cases r.untrackedFiles <;> exact spells_literal _ rfl
  have hstart := Draft.spelledIn_noOptionalLocks_configure
    (spells_literal _ rfl : a.Spells "status") hsettings r.noLocks
  exact hstart.raw (spells_literal _ rfl)
    |>.raw (spells_literal _ rfl)
    |>.raw huntracked
    |>.rawIf _ (spells_literal _ rfl)
    |>.raw? (spells_flag? (by cases r.ignoreSubmodules <;> rfl))

theorem Changes.spelledIn_draft {r : Changes} (h : r.freeText.SpelledIn a) :
    r.draft.SpelledIn a := by
  have hsettings : ∀ o ∈ Changes.settings, a.Spells o.text := by
    intro o ho
    simp only [Changes.settings, List.mem_cons, List.not_mem_nil, or_false] at ho
    rcases ho with rfl | rfl | rfl | rfl | rfl | rfl <;>
      exact spells_override (spells_literal _ rfl) (spells_literal _ rfl)
  have hold : ∀ v ∈ r.oldFile?, a.Spells (posixPath v) := by
    intro v hv
    rw [Changes.oldFile?] at hv
    split at hv
    · exact h.paths v (List.mem_cons_of_mem _ (mem_toList_of_nonBlank? hv))
    · exact absurd hv (by simp)
  have hstart := Draft.spelledIn_noOptionalLocks_configure
    (spells_literal _ rfl : a.Spells "diff") hsettings r.noLocks
  exact hstart.raw (spells_literal _ rfl)
    |>.raw (spells_literal _ rfl)
    |>.raw (h.others _ List.mem_cons_self)
    |>.rawIf _ (spells_literal _ rfl)
    |>.raw (spells_literal _ rfl)
    |>.path (h.paths _ List.mem_cons_self)
    |>.path? hold

theorem ListRefs.spelledIn_draft (r : ListRefs) : r.draft.SpelledIn a := by
  obtain ⟨htarget, hkey⟩ := spells_sortKey (a := a) r.sortBy
  have hfront : ∀ v ∈ (r.sortBy.targetKey?.filter fun _ => r.filter.includesTags).map fun key =>
      sortFlag r.sortOrder ("*" ++ key), a.Spells v := by
    intro v hv
    obtain ⟨key, hk, rfl⟩ := Option.map_eq_some_iff.mp hv
    have hk := htarget key (Option.filter_eq_some_iff.mp hk).1
    exact spells_sortFlag _ (spells_append (spells_literal _ rfl) hk)
  have hback : ∀ v ∈ r.sortBy.key?.map (sortFlag r.sortOrder), a.Spells v := by
    intro v hv
    obtain ⟨key, hk, rfl⟩ := Option.map_eq_some_iff.mp hv
    exact spells_sortFlag _ (hkey key hk)
  have hplaces : ∀ place ∈ r.filter.places, a.Spells place := by
    intro place hp
    obtain ⟨kind, hk, rfl⟩ := List.mem_map.mp hp
    have hm := (List.mem_filter.mp hk).1
    simp only [List.mem_cons, List.not_mem_nil, or_false] at hm
    rcases hm with rfl | rfl | rfl <;> exact spells_literal _ rfl
  have htags : a.Spells targetFormat :=
    spells_append (spells_literal _ rfl) (spells_literal _ rfl)
  have hstart := Draft.spelledIn_noOptionalLocks (spells_literal _ rfl : a.Spells "for-each-ref")
    r.noLocks
  exact hstart.raw? hfront
    |>.raw? hback
    |>.rawEither _ htags (spells_literal _ rfl)
    |>.raw? (spells_depth _ (spells_literal _ rfl) r.count)
    |>.raws hplaces

end Query

section Repository

theorem SyncSubmodule.spelledIn_draft {r : SyncSubmodule} (h : r.freeText.SpelledIn a) :
    r.draft.SpelledIn a := by
  have hstart := Draft.spelledIn_start (spells_literal _ rfl : a.Spells "submodule")
  exact hstart.raw (spells_literal _ rfl)
    |>.path? fun v hv => h.paths v (mem_toList_of_nonBlank? hv)

theorem AddSubmodule.spelledIn_draft {r : AddSubmodule} (h : r.freeText.SpelledIn a) :
    r.draft.SpelledIn a := by
  have hoverrides : ∀ o ∈ r.overrides, a.Spells o.text := by
    intro o ho
    have hmem : ∀ v ∈ [o.key, o.value], a.Spells v := fun v hv =>
      h.others v (List.mem_append_right _ (List.mem_flatMap.mpr ⟨o, ho, hv⟩))
    exact spells_override (hmem _ List.mem_cons_self)
      (hmem _ (List.mem_cons_of_mem _ List.mem_cons_self))
  have hstart := Draft.spelledIn_configure (spells_literal _ rfl : a.Spells "submodule") hoverrides
  exact hstart.raw (spells_literal _ rfl)
    |>.rawIf _ (spells_literal _ rfl)
    |>.rawIf _ (spells_literal _ rfl)
    |>.quoted? (fun v hv => h.others v (List.mem_append_left _ (mem_toList_of_nonBlank? hv)))
    |>.path (h.paths _ List.mem_cons_self)
    |>.path (h.paths _ (List.mem_cons_of_mem _ List.mem_cons_self))

theorem SetConfig.spelledIn_draft {r : SetConfig} (h : r.freeText.SpelledIn a) :
    r.draft.SpelledIn a := by
  have hstart := Draft.spelledIn_start (spells_literal _ rfl : a.Spells "config")
  have hvalue := spells_quoted (h.others _ (List.mem_cons_of_mem _ List.mem_cons_self))
  exact hstart.rawIf _ (spells_literal _ rfl)
    |>.raw (h.others _ List.mem_cons_self)
    |>.raw hvalue

theorem UnsetConfig.spelledIn_draft {r : UnsetConfig} (h : r.freeText.SpelledIn a) :
    r.draft.SpelledIn a := by
  have hstart := Draft.spelledIn_start (spells_literal _ rfl : a.Spells "config")
  exact hstart.rawIf _ (spells_literal _ rfl)
    |>.raw (spells_literal _ rfl)
    |>.raw (h.others _ List.mem_cons_self)

end Repository

namespace Operation

theorem spelledIn_of_map_some {c : Except Rejection Draft} (h : ∀ d, c = .ok d → d.SpelledIn a)
    {drafted : Option Draft} (hd : c.map some = .ok drafted) : ∀ d ∈ drafted, d.SpelledIn a := by
  obtain ⟨d, hc, rfl⟩ := map_eq_ok_iff.mp hd
  exact fun e he => Option.some.inj he ▸ h d hc

/-- Nothing gets into a draft that was not put into the request, the literal characters apart. -/
theorem spelledIn_draft {o : Operation} (h : o.freeText.SpelledIn a) {s : Snapshot}
    {drafted : Option Draft} (hd : o.draft s = .ok drafted) : ∀ d ∈ drafted, d.SpelledIn a := by
  have hone : ∀ {d : Draft}, d.SpelledIn a →
      (.ok (some d) : Except Rejection (Option Draft)) = .ok drafted →
        ∀ d ∈ drafted, d.SpelledIn a := by
    intro d hs he e hm
    obtain rfl := Except.ok.inj he
    exact Option.some.inj hm ▸ hs
  cases o with
  | fetch r => exact hone (Fetch.spelledIn_draft h s) hd
  | pull r => exact hone (Pull.spelledIn_draft h s) hd
  | clone r => exact hone (Clone.spelledIn_draft h) hd
  | checkout r => exact hone (Checkout.spelledIn_draft h) hd
  | branch r => exact hone (Branch.spelledIn_draft h) hd
  | mergedBranches r => exact hone (MergedBranches.spelledIn_draft h) hd
  | pushLocal r => exact hone (PushLocal.spelledIn_draft h) hd
  | pushTag r => exact Except.ok.inj hd ▸ PushTag.spelledIn_draft? h
  | remove r => exact hone (Remove.spelledIn_draft h) hd
  | reset r => exact spelledIn_of_map_some (fun _ => Reset.spelledIn_draft h) hd
  | clean r => exact hone (Clean.spelledIn_draft h) hd
  | cleanSubmodules r => exact hone (CleanSubmodules.spelledIn_draft h) hd
  | merge r => exact hone (Merge.spelledIn_draft h) hd
  | continueMerge => exact hone spelledIn_continueMerge hd
  | abortMerge => exact hone spelledIn_abortMerge hd
  | applyDiff r => exact hone (ApplyDiff.spelledIn_draft h) hd
  | applyMailbox r => exact hone (ApplyMailbox.spelledIn_draft h) hd
  | revert r => exact hone (Revert.spelledIn_draft h) hd
  | rebase r => exact spelledIn_of_map_some (fun _ => Rebase.spelledIn_draft h) hd
  | bisectStep r => exact hone (BisectStep.spelledIn_draft h) hd
  | changedFiles r => exact hone (ChangedFiles.spelledIn_draft r) hd
  | changes r => exact hone (Changes.spelledIn_draft h) hd
  | listRefs r => exact hone (ListRefs.spelledIn_draft r) hd
  | stash r => exact hone (Stash.spelledIn_draft h) hd
  | syncSubmodule r => exact hone (SyncSubmodule.spelledIn_draft h) hd
  | addSubmodule r => exact hone (AddSubmodule.spelledIn_draft h) hd
  | setConfig r => exact hone (SetConfig.spelledIn_draft h) hd
  | unsetConfig r => exact hone (UnsetConfig.spelledIn_draft h) hd

/-- The argument text is in every alphabet that the free text of the request is in. -/
theorem spells_arguments {o : Operation} (h : o.freeText.SpelledIn a) {s : Snapshot}
    {text : String} (ht : o.arguments s = .ok text) : a.Spells text := by
  obtain ⟨drafted, hd, rfl⟩ := map_eq_ok_iff.mp ht
  cases drafted with
  | none => exact spells_literal [] rfl
  | some d => exact (spelledIn_draft h hd d rfl).text

end Operation

end GitInvocation
