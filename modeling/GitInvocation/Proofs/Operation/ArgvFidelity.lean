import GitInvocation.Proofs.Operation.Argv

/-!
# The text of an operation splits into its words

Each draft is read from the front: the command with what stands before it, then one fact for
each thing asked of the draft. The text of an operation therefore splits into exactly the words
that the operation stands for, as long as its free text is legible.
-/
namespace GitInvocation

open Draft (given)
open Text (nonBlank?)
open Words

section Values

theorem allSettled_self {ws : List String} (h : ∀ w ∈ ws, Word w) : AllSettled ws ws := by
  induction ws with
  | nil => exact .nil
  | cons w ws ih =>
    exact .cons (h w List.mem_cons_self) (ih fun v hv => h v (List.mem_cons_of_mem w hv))

theorem allSettled_words {ws : List String} (h : ∀ w ∈ ws, Plain w ∧ w ≠ "") :
    AllSettled ws ws :=
  allSettled_self fun w hw => settled_word (h w hw).1 (h w hw).2

theorem allSettled_filled {ws : List String} (h : ∀ w ∈ ws, Plain w) :
    AllSettled ws (ws.flatMap filled) := by
  induction ws with
  | nil => exact .nil
  | cons w ws ih =>
    rw [List.flatMap_cons]
    exact .cons (settled_plain (h w List.mem_cons_self))
      (ih fun v hv => h v (List.mem_cons_of_mem w hv))

theorem allSettled_nonBlank {o : Option String} (h : ∀ v ∈ nonBlank? o, Plain v) :
    AllSettled (nonBlank? o).toList (nonBlank? o).toList :=
  allSettled_words fun v hv =>
    ⟨h v (Option.mem_toList.mp hv), ne_empty_of_nonBlank? (Option.mem_toList.mp hv)⟩

/-- A flag out of a fixed set is a word. -/
theorem allSettled_flag? {flag? : Option String} (h : flag?.all fun flag => isWord flag.toList) :
    AllSettled flag?.toList flag?.toList := by
  cases flag? with
  | none => exact .nil
  | some flag =>
    have := settled_literal flag.toList h
    rw [String.ofList_toList] at this
    exact .single this

/-- Values that are written in one way and read in another. -/
theorem allSettled_map {o : Option String} {f g : String → String}
    (h : ∀ v ∈ o, Settled (f v) [g v]) : AllSettled (o.map f).toList (o.map g).toList := by
  cases o with
  | none => exact .nil
  | some v => exact .single (h v rfl)

theorem settled_count {flag : String} (h : Plain flag) (hne : flag ≠ "") (n : UInt32) :
    Word (flag ++ toString n) :=
  settled_word (plain_append h hne (bare_toString n.toNat)) (by simp [hne])

theorem settled_number (n : UInt32) : Word (toString n) :=
  settled_word (plain_toString n.toNat) (toString_ne_empty n.toNat)

/-- A flag with a count behind it, as a word of its own or not. -/
theorem allSettled_countFlag? {flag : String} {n : UInt32} {ws : List String}
    (h : Settled (flag ++ toString n) ws) :
    AllSettled (Draft.countFlag? flag n).toList (counted n ws) := by
  unfold Draft.countFlag? counted
  split
  · exact .nil
  · exact .single h

theorem plain_refspec {remoteBranch localBranch : Option String} {spec : String}
    (h : LegibleRefspec remoteBranch localBranch) (hs : spec ∈ refspec? remoteBranch localBranch) :
    Plain spec ∧ spec ≠ "" := by
  obtain ⟨branch, hb, rfl⟩ := Option.map_eq_some_iff.mp hs
  obtain ⟨hbare, hlocal⟩ := h branch hb
  have hdrop : Bare (String.ofList (branch.toList.dropWhile (· = '+'))) := by
    intro c hc
    rw [String.toList_ofList] at hc
    exact hbare c ((List.dropWhile_suffix _).mem hc)
  have hsource := plain_append (plain_literal _ rfl : Plain "+") (by decide) hdrop
  have hne : "+" ++ String.ofList (branch.toList.dropWhile (· = '+')) ≠ "" := by simp
  cases hn : nonBlank? localBranch with
  | none => rw [String.append_empty]; exact ⟨hsource, hne⟩
  | some name =>
    have hname : Bare (localRef name) := by
      unfold localRef
      split
      · exact hlocal name hn
      · exact bare_append (bare_literal _ rfl) (hlocal name hn)
    refine ⟨plain_append hsource hne (bare_append (bare_literal _ rfl) hname), by simp⟩

theorem quotable_remoteText {remote : String} (h : Unquoted remote) :
    Quotable (remoteText remote) := quotable_trim (quotable_posixPath h)

theorem settled_prune (p : Pruning) : AllSettled p.flag?.toList p.words := by
  cases p with
  | off => exact .nil
  | branches =>
    have := (settled_literal _ rfl : Word "--prune").join
      (settled_literal _ rfl : Word "--force")
    exact .single this
  | branchesAndTags =>
    have := ((settled_literal _ rfl : Word "--prune").join
      (settled_literal _ rfl : Word "--prune-tags")).join
      (settled_literal _ rfl : Word "--force")
    exact .single this

theorem settled_checkout {c : FirstCheckout} (h : c.Legible) :
    AllSettled c.flag?.toList c.words := by
  cases c with
  | remoteHead => exact .nil
  | nothing => exact .single (settled_literal _ rfl)
  | branch name =>
    simp only [FirstCheckout.flag?, FirstCheckout.words]
    split
    · exact .nil
    · next hb =>
      have hp := h (by simpa using hb)
      have hne : name ≠ "" := by rintro rfl; exact hb rfl
      have := (settled_literal _ rfl : Word "--branch").join (settled_word hp hne)
      exact .single this

theorem settled_depth (depth : Option UInt32) :
    AllSettled (depth.bind (Draft.countFlag? "--depth ")).toList
      (depth.elim [] fun n => counted n ["--depth", toString n]) := by
  cases depth with
  | none => exact .nil
  | some n =>
    have hflag : Word "--depth" := settled_literal _ rfl
    exact allSettled_countFlag? (hflag.join (settled_number n))

theorem settled_singleBranch (singleBranch : Option Bool) :
    AllSettled
      (singleBranch.map fun on => if on then "--single-branch" else "--no-single-branch").toList
      (singleBranch.elim [] fun on =>
        [if on then "--single-branch" else "--no-single-branch"]) := by
  cases singleBranch with
  | none => exact .nil
  | some on => cases on <;> exact .single (settled_literal _ rfl)

theorem settled_tagForce (force : TagForce) : AllSettled force.flag?.toList force.flag?.toList :=
  allSettled_flag? (by cases force <;> rfl)

theorem settled_localChanges (changes : LocalChanges) :
    AllSettled changes.flag?.toList changes.flag?.toList :=
  allSettled_flag? (by cases changes <;> rfl)

theorem settled_resetMode (mode : ResetMode) : AllSettled mode.flag?.toList mode.flag?.toList :=
  allSettled_flag? (by cases mode <;> rfl)

theorem settled_cleanMode (mode : CleanMode) : AllSettled mode.flag?.toList mode.flag?.toList :=
  allSettled_flag? (by cases mode <;> rfl)

theorem settled_refnameFormat : Settled "--format=\"%(refname)\"" ["--format=%(refname)"] :=
  settled_quoted (plain_literal _ rfl : Plain "--format=")
    (quotable_literal _ rfl : Quotable "%(refname)")

theorem settled_outcome (outcome : BisectOutcome) : Word outcome.name := by
  cases outcome <;> exact settled_literal _ rfl

theorem settled_parent (n : UInt32) : Settled ("-m " ++ toString n) ["-m", toString n] :=
  (settled_literal _ rfl : Word "-m").join (settled_number n)

end Values

section Transfer

theorem legible_override {key value : String} (hk : Plain key) (hv : Bare value) :
    ∀ o ∈ [(⟨key, value⟩ : Override)], Plain o.key ∧ Bare o.value := by
  intro o ho
  rw [List.mem_singleton.mp ho]
  exact ⟨hk, hv⟩

theorem legible_missing (s : Snapshot) :
    ∀ o ∈ s.missing Snapshot.sequentialFetching, Plain o.key ∧ Bare o.value := by
  intro o ho
  have hm : o ∈ Snapshot.sequentialFetching := (List.mem_filter.mp ho).1
  simp only [Snapshot.sequentialFetching, List.mem_cons, List.not_mem_nil, or_false] at hm
  rcases hm with rfl | rfl <;> exact ⟨plain_literal _ rfl, bare_literal _ rfl⟩

theorem settled_tags (t : TagFollowing) : AllSettled t.flag?.toList t.flag?.toList :=
  allSettled_flag? (by cases t <;> rfl)

theorem allSettled_refspec {remoteBranch localBranch : Option String}
    (h : LegibleRefspec remoteBranch localBranch) :
    AllSettled (refspec? remoteBranch localBranch).toList
      (refspec? remoteBranch localBranch).toList :=
  allSettled_words fun _ hs => plain_refspec h (Option.mem_toList.mp hs)

theorem Fetch.reads_draft {r : Fetch} (h : r.Legible) (s : Snapshot) :
    (r.draft s).Reads (r.argv s) := by
  have hstart := Draft.reads_configure (settled_literal _ rfl : Word "fetch") (legible_missing s)
  exact hstart.raw (settled_literal _ rfl)
    |>.quoted (quotable_remoteText h.1)
    |>.raw? (allSettled_refspec h.2)
    |>.raw? (settled_tags r.tags)
    |>.rawIf _ (settled_literal _ rfl)
    |>.raw? (settled_prune r.prune)

theorem Pull.reads_draft {r : Pull} (h : r.Legible) (s : Snapshot) :
    (r.draft s).Reads (r.argv s) := by
  have hstart := Draft.reads_configure (settled_literal _ rfl : Word "pull") (legible_missing s)
  exact hstart.rawIf _ (settled_literal _ rfl)
    |>.raw (settled_literal _ rfl)
    |>.quoted (quotable_remoteText h.1)
    |>.raw? (allSettled_refspec h.2)
    |>.raw? (settled_tags r.tags)
    |>.rawIf _ (settled_literal _ rfl)
    |>.raw? (settled_prune r.prune)

theorem Clone.reads_draft {r : Clone} (h : r.Legible) : r.draft.Reads r.argv := by
  have hstart := Draft.reads_start (settled_literal _ rfl : Word "clone")
  exact hstart.raw (settled_literal _ rfl)
    |>.rawIf _ (settled_literal _ rfl)
    |>.rawIf _ (settled_literal _ rfl)
    |>.raw? (settled_depth r.depth)
    |>.raw? (settled_singleBranch r.singleBranch)
    |>.raw (settled_literal _ rfl)
    |>.raw? (settled_checkout h.1)
    |>.path h.2.1
    |>.path h.2.2

theorem PushLocal.reads_draft {r : PushLocal} (h : r.Legible) : r.draft.Reads r.argv := by
  have hstart := Draft.reads_start (settled_literal _ rfl : Word "push")
  have hscheme : Quotable "file://" := quotable_literal _ rfl
  have hcolon : Quotable ":" := quotable_literal _ rfl
  have hrepository := quotable_append hscheme (quotable_posixPath h.1)
  have hobject := quotable_append (quotable_append h.2.1 hcolon) h.2.2
  have htarget := hstart.quoted hrepository
  rw [filled, if_neg (by simp)] at htarget
  have hboth := htarget.quoted hobject
  rw [filled, if_neg (by simp)] at hboth
  exact hboth.rawIf _ (settled_literal _ rfl)

theorem PushTag.reads_start {r : PushTag} (h : Unquoted r.remote) :
    (Draft.start "push"
      |>.raw? r.force.flag?
      |>.raw "--progress"
      |>.quoted (remoteText r.remote)).Reads
      (["push"] ++ r.force.flag?.toList ++ ["--progress"] ++ filled (remoteText r.remote)) := by
  have hstart := Draft.reads_start (settled_literal _ rfl : Word "push")
  exact hstart.raw? (settled_tagForce r.force)
    |>.raw (settled_literal _ rfl : Word "--progress")
    |>.quoted (quotable_remoteText h)

/-- Where there is nothing to push there is no draft and there are no words. -/
theorem PushTag.reads_draft? {r : PushTag} (h : r.Legible) :
    match r.draft? with
    | some d => d.Reads r.argv
    | none => r.argv = [] := by
  have hcommon := PushTag.reads_start h.1
  simp only [PushTag.draft?, PushTag.argv]
  by_cases hall : r.all
  · rw [if_pos hall, if_pos hall]
    exact hcommon.raw (settled_literal _ rfl)
  · rw [if_neg hall, if_neg hall]
    by_cases htag : Text.trim r.tag = ""
    · rw [if_pos htag, if_pos htag]
    · rw [if_neg htag, if_neg htag]
      have hname : Word (Text.trim r.tag) := settled_word (h.2 (by simpa using hall)) htag
      exact hcommon.raw (settled_literal _ rfl) |>.raw hname

end Transfer

section History

theorem Checkout.reads_draft {r : Checkout} (h : r.Legible) : r.draft.Reads r.argv := by
  have hstart := Draft.reads_start (settled_literal _ rfl : Word "checkout")
  exact hstart.raw? (settled_localChanges r.localChanges) |>.quoted h

theorem Branch.reads_draft {r : Branch} (h : r.Legible) : r.draft.Reads r.argv := by
  have hstart : Draft.Reads
      (if r.checkout then Draft.start "checkout" |>.raw "-b" else Draft.start "branch")
      (if r.checkout then ["checkout", "-b"] else ["branch"]) := by
    cases r.checkout
    · exact Draft.reads_start (settled_literal _ rfl)
    · have hcheckout := Draft.reads_start (settled_literal _ rfl : Word "checkout")
      exact hcheckout.raw (settled_literal _ rfl)
  exact hstart.quoted h.1 |>.quoted? fun v hv => ⟨ne_empty_of_nonBlank? hv, h.2 v hv⟩

theorem MergedBranches.reads_draft {r : MergedBranches} (h : r.Legible) :
    r.draft.Reads r.argv := by
  have hstart := Draft.reads_start (settled_literal _ rfl : Word "branch")
  exact hstart.rawIf _ settled_refnameFormat
    |>.rawIf _ (settled_literal _ rfl)
    |>.raw (settled_literal _ rfl)
    |>.raw? (allSettled_nonBlank h)

theorem Merge.reads_draft {r : Merge} (h : r.Legible) : r.draft.Reads r.argv := by
  obtain ⟨hs, hf, hb⟩ := h
  have hstart := Draft.reads_start (settled_literal _ rfl : Word "merge")
  have hstrategy : AllSettled ((nonBlank? r.strategy).map ("--strategy=" ++ ·)).toList
      ((nonBlank? r.strategy).map ("--strategy=" ++ ·)).toList := by
    refine allSettled_words fun w hw => ?_
    obtain ⟨strategy, hm, rfl⟩ := Option.map_eq_some_iff.mp (Option.mem_toList.mp hw)
    exact ⟨plain_append (plain_literal _ rfl) (by decide) (hs strategy hm), by simp⟩
  have hfile : AllSettled ((nonBlank? r.messageFile).map fun file => "-F " ++ quoted file).toList
      ((nonBlank? r.messageFile).elim [] fun file => ["-F", file]) := by
    cases hm : nonBlank? r.messageFile with
    | none => exact .nil
    | some file =>
      have hflag : Word "-F" := settled_literal _ rfl
      have hquoted := settled_quoted plain_empty (hf file hm)
      rw [String.empty_append, String.empty_append] at hquoted
      exact .single (hflag.join hquoted)
  exact hstart.rawIf _ (settled_literal _ rfl)
    |>.raw? hstrategy
    |>.rawIf _ (settled_literal _ rfl)
    |>.rawIf _ (settled_literal _ rfl)
    |>.rawIf _ (settled_literal _ rfl)
    |>.raw? hfile
    |>.raw? (allSettled_countFlag? (settled_count (plain_literal _ rfl) (by decide) r.log))
    |>.raw (settled_plain hb)

theorem reads_continueMerge : continueMerge.Reads ["merge", "--continue"] :=
  (Draft.reads_start (settled_literal _ rfl : Word "merge")).raw (settled_literal _ rfl)

theorem reads_abortMerge : abortMerge.Reads ["merge", "--abort"] :=
  (Draft.reads_start (settled_literal _ rfl : Word "merge")).raw (settled_literal _ rfl)

theorem Rebase.reads_withMode {r : Rebase} {d : Draft} {ws : List String} (h : d.Reads ws) :
    (r.withMode d).Reads (ws ++ r.modeWords) := by
  unfold Rebase.withMode Rebase.modeWords
  split
  · exact h.raw (settled_literal _ rfl)
  · split
    · exact h.raw (settled_literal _ rfl)
    · split
      · rw [← List.append_assoc]
        have hauto := (h.raw (settled_literal _ rfl : Word "-i")).rawEither r.autosquash
          (settled_literal _ rfl : Word "--autosquash")
          (settled_literal _ rfl : Word "--no-autosquash")
        have hboth := hauto.rawIf (r.preserveMerges && r.supportsRebaseMerges)
          (settled_literal _ rfl : Word "--rebase-merges")
        rw [List.append_assoc ws] at hboth
        exact hboth
      · exact h.rawIf _ (settled_literal _ rfl)

/-- The settings and the flags of a rebase, in front of what is rebased. -/
theorem Rebase.reads_start (r : Rebase) :
    ((r.withMode (Draft.start "rebase" |>.configure [⟨"rebase.autoSquash", "false"⟩])).rawIf
      r.autostash "--autostash").Reads
      (["-c", "rebase.autoSquash=false"] ++ ["rebase"] ++ r.modeWords ++
        given r.autostash "--autostash") := by
  have hstart := Draft.reads_configure (settled_literal _ rfl : Word "rebase")
    (legible_override (plain_literal _ rfl : Plain "rebase.autoSquash")
      (bare_literal _ rfl : Bare "false"))
  exact (Rebase.reads_withMode (r := r) hstart).rawIf r.autostash
    (settled_literal _ rfl : Word "--autostash")

theorem Rebase.reads_onto {r : Rebase} {d : Draft} {ws : List String} {lower : String}
    (h : d.Reads ws) (hlower : lower ≠ "" ∧ Quotable lower) (hbranch : Quotable r.branch) :
    (d.quoted lower |>.quoted r.branch |>.raw "--onto").Reads
      (ws ++ [lower] ++ filled r.branch ++ ["--onto"]) := by
  have hq := h.quoted hlower.2
  rw [filled, if_neg hlower.1] at hq
  exact (hq.quoted hbranch).raw (settled_literal _ rfl : Word "--onto")

theorem Rebase.reads_withRange {r : Rebase} {d : Draft} {ws : List String} (h : d.Reads ws)
    (hl : r.Legible) {range : Option (String × String)} (hr : r.range = .ok range) :
    (r.withRange d range).Reads (ws ++ r.rangeWords) := by
  obtain ⟨hlower, hbranch, honto⟩ := hl
  unfold Rebase.range at hr
  unfold Rebase.rangeWords
  split at hr
  · next lower onto hlo hon =>
    obtain rfl := Except.ok.inj hr
    have hon' := settled_word (honto onto hon) (ne_empty_of_nonBlank? hon)
    have hall :=
      (Rebase.reads_onto h ⟨ne_empty_of_nonBlank? hlo, hlower lower hlo⟩ hbranch).raw hon'
    simpa [Rebase.withRange, hlo, hon] using hall
  · next hlo hon =>
    obtain rfl := Except.ok.inj hr
    simpa [Rebase.withRange, hlo, hon] using h.quoted hbranch
  · exact absurd hr (by simp)
  · exact absurd hr (by simp)

theorem Rebase.reads_draft {r : Rebase} (h : r.Legible) {d : Draft} (hd : r.draft = .ok d) :
    d.Reads r.argv := by
  unfold Rebase.draft at hd
  cases hr : r.range with
  | error e => rw [hr] at hd; exact absurd hd (by simp [Except.map])
  | ok range =>
    rw [hr] at hd
    obtain rfl := Except.ok.inj hd
    exact Rebase.reads_withRange r.reads_start h hr

theorem Revert.reads_draft {r : Revert} (h : r.Legible) : r.draft.Reads r.argv := by
  have hstart := Draft.reads_start (settled_literal _ rfl : Word "revert")
  exact hstart.rawIf _ (settled_literal _ rfl)
    |>.raw? (allSettled_countFlag? (settled_parent r.parentIndex))
    |>.raw (settled_plain h)

theorem BisectStep.reads_draft {r : BisectStep} (h : r.Legible) : r.draft.Reads r.argv := by
  have hstart := Draft.reads_start (settled_literal _ rfl : Word "bisect")
  exact hstart.raw (settled_outcome r.outcome) |>.raws (allSettled_filled h)

end History

section Worktree

theorem settled_target {files : List String} (h : ∀ file ∈ files, Plain file ∧ file ≠ "") :
    Settled (" ".intercalate files) files := (allSettled_words h).intercalate

theorem ne_empty_of_filledIn {file : String} {files : List String} (h : file ∈ filledIn files) :
    file ≠ "" := by
  rintro rfl
  exact absurd (List.mem_filter.mp h).2 (by decide)

theorem Remove.reads_draft {r : Remove} (h : r.Legible) : r.draft.Reads r.argv := by
  have hstart := Draft.reads_start (settled_literal _ rfl : Word "rm")
  have htarget : Settled r.target (if filledIn r.files = [] then ["."] else filledIn r.files) := by
    unfold Remove.target
    split
    · next he => rw [if_pos he]; exact settled_literal _ rfl
    · next hne =>
      rw [if_neg hne]
      exact settled_target fun file hf => ⟨h file hf, ne_empty_of_filledIn hf⟩
  exact hstart.rawIf _ (settled_literal _ rfl) |>.rawIf _ (settled_literal _ rfl) |>.raw htarget

theorem Reset.reads_draft {r : Reset} (h : r.Legible) {d : Draft} (hd : r.draft = .ok d) :
    d.Reads r.argv := by
  have hstart := Draft.reads_start (settled_literal _ rfl : Word "reset")
  simp only [Reset.draft] at hd
  split at hd
  · exact absurd hd (by simp)
  · obtain rfl := Except.ok.inj hd
    exact hstart.raw? (settled_resetMode r.mode)
      |>.quoted? (fun v hv => ⟨ne_empty_of_nonBlank? hv, h.1 v hv⟩)
      |>.raw (settled_literal _ rfl)
      |>.path? fun v hv => ⟨ne_empty_of_nonBlank? hv, h.2 v hv⟩

/-- A fragment that is absent or empty has no words. -/
theorem allSettled_fragment {value : Option String} (h : ∀ v ∈ value, Plain v) :
    AllSettled value.toList (value.elim [] filled) := by
  cases value with
  | none => exact .nil
  | some v => exact .single (settled_plain (h v rfl))

theorem Clean.reads_draft {r : Clean} (h : r.Legible) : r.draft.Reads r.argv := by
  have hstart := Draft.reads_start (settled_literal _ rfl : Word "clean")
  have hrun := hstart.raw? (settled_cleanMode r.mode)
    |>.rawIf r.directories (settled_literal _ rfl : Word "-d")
    |>.rawEither r.dryRun (settled_literal _ rfl : Word "--dry-run")
      (settled_literal _ rfl : Word "-f")
  exact hrun.raw? (allSettled_fragment h.1) |>.raw? (allSettled_fragment h.2)

/-- The text for each submodule is a settled part of the whole. -/
theorem CleanSubmodules.reads_draft {r : CleanSubmodules} (h : r.Legible) :
    r.draft.Reads r.argv := by
  have hstart := Draft.reads_start (settled_literal _ rfl : Word "submodule")
  have heach : r.each.Legible := ⟨h, fun _ hn => absurd hn (by simp [CleanSubmodules.each])⟩
  exact hstart.raw (settled_literal _ rfl)
    |>.raw (settled_literal _ rfl)
    |>.raw (settled_literal _ rfl)
    |>.raw (Clean.reads_draft heach).text

theorem Stash.reads_draft {r : Stash} (h : r.Legible) : r.draft.Reads r.argv := by
  have hstart := Draft.reads_start (settled_literal _ rfl : Word "stash")
  have hform := hstart.rawEither (!r.files.isEmpty) (settled_literal _ rfl : Word "push")
    (settled_literal _ rfl : Word "save")
  exact hform.rawIf r.untracked (settled_literal _ rfl : Word "-u")
    |>.rawIf r.keepIndex (settled_literal _ rfl : Word "--keep-index")
    |>.rawIf (!r.files.isEmpty && (nonBlank? r.message).isSome) (settled_literal _ rfl : Word "-m")
    |>.quoted? (fun v hv => ⟨ne_empty_of_nonBlank? hv, h.1 v hv⟩)
    |>.rawIf (!r.files.isEmpty) (settled_literal _ rfl : Word "--")
    |>.paths (fun v hv => ⟨ne_empty_of_filledIn hv, h.2 v hv⟩)

theorem ApplyDiff.reads_draft {r : ApplyDiff} (h : r.Legible) : r.draft.Reads r.argv := by
  have hstart := Draft.reads_start (settled_literal _ rfl : Word "apply")
  exact hstart.rawIf _ (settled_literal _ rfl) |>.path h

theorem ApplyMailbox.reads_draft {r : ApplyMailbox} (h : r.Legible) : r.draft.Reads r.argv := by
  have hstart := Draft.reads_start (settled_literal _ rfl : Word "am")
  exact hstart.raw (settled_literal _ rfl)
    |>.rawIf _ (settled_literal _ rfl)
    |>.rawIf _ (settled_literal _ rfl)
    |>.path? fun v hv => ⟨ne_empty_of_nonBlank? hv, h v hv⟩

end Worktree

section Query

theorem ChangedFiles.reads_draft (r : ChangedFiles) : r.draft.Reads r.argv := by
  have hstart := Draft.reads_noOptionalLocks_configure (settled_literal _ rfl : Word "status")
    (legible_override (plain_literal _ rfl : Plain "diff.ignoreSubmodules")
      (bare_literal _ rfl : Bare "none")) r.noLocks
  have huntracked : Settled r.untrackedFiles.flag [r.untrackedFiles.flag] := by
    cases r.untrackedFiles <;> exact settled_literal _ rfl
  have hsubmodules : AllSettled r.ignoreSubmodules.flag?.toList r.ignoreSubmodules.flag?.toList :=
    allSettled_flag? (by cases r.ignoreSubmodules <;> rfl)
  exact hstart.raw (settled_literal _ rfl)
    |>.raw (settled_literal _ rfl)
    |>.raw huntracked
    |>.rawIf _ (settled_literal _ rfl)
    |>.raw? hsubmodules

theorem ne_empty_of_oldFile? {r : Changes} {file : String} (h : file ∈ r.oldFile?) :
    file ≠ "" := by
  unfold Changes.oldFile? at h
  split at h
  · exact ne_empty_of_nonBlank? h
  · exact absurd h (by simp)

theorem legible_changesSettings : ∀ o ∈ Changes.settings, Plain o.key ∧ Bare o.value := by
  intro o ho
  simp only [Changes.settings, List.mem_cons, List.not_mem_nil, or_false] at ho
  rcases ho with rfl | rfl | rfl | rfl | rfl | rfl <;>
    exact ⟨plain_literal _ rfl, bare_literal _ rfl⟩

theorem Changes.reads_draft {r : Changes} (h : r.Legible) : r.draft.Reads r.argv := by
  have hstart := Draft.reads_noOptionalLocks_configure (settled_literal _ rfl : Word "diff")
    legible_changesSettings r.noLocks
  exact hstart.raw (settled_literal _ rfl)
    |>.raw (settled_literal _ rfl)
    |>.raw (settled_plain h.1)
    |>.rawIf _ (settled_literal _ rfl)
    |>.raw (settled_literal _ rfl)
    |>.path h.2.1
    |>.path? fun v hv => ⟨ne_empty_of_oldFile? hv, h.2.2 v hv⟩

theorem settled_sortFlag (direction : Direction) {key : String} (h : Quotable key) :
    Settled (sortFlag direction key) [sortWord direction key] := by
  have hsign : Quotable direction.sign := by
    cases direction <;> exact quotable_literal _ rfl
  exact settled_quoted (plain_literal _ rfl : Plain "--sort=") (quotable_append hsign h)

theorem quotable_sortKey (order : RefOrder) :
    (∀ key ∈ order.targetKey?, Quotable key) ∧ ∀ key ∈ order.key?, Quotable key := by
  cases order <;> constructor <;> intro key hk <;> cases hk <;> exact quotable_literal _ rfl

/-- The keys reach the command in front of the format, each as one word without its quotes. -/
theorem ListRefs.reads_sort (r : ListRefs) {d : Draft} {ws : List String} (h : d.Reads ws) :
    (d.raw? ((r.sortBy.targetKey?.filter fun _ => r.filter.includesTags).map fun key =>
      sortFlag r.sortOrder ("*" ++ key)) |>.raw? (r.sortBy.key?.map (sortFlag r.sortOrder))).Reads
      (ws ++ r.sortWords) := by
  obtain ⟨htarget, hkey⟩ := quotable_sortKey r.sortBy
  have hfront := allSettled_map (o := r.sortBy.targetKey?.filter fun _ => r.filter.includesTags)
    fun key hk => settled_sortFlag r.sortOrder
      (quotable_append (quotable_literal _ rfl : Quotable "*")
        (htarget key (Option.filter_eq_some_iff.mp hk).1))
  have hback := allSettled_map (o := r.sortBy.key?)
    fun key hk => settled_sortFlag r.sortOrder (hkey key hk)
  have := (h.raw? hfront).raw? hback
  rwa [List.append_assoc] at this

theorem settled_targetFormat : Settled targetFormat
    ["--format=" ++ ("%(if)%(authordate)%(then)%(objectname) %(refname)" ++
      "%(else)%(*objectname) %(*refname)%(end)")] := by
  have hsplit : targetFormat = "--format=" ++
      quoted ("%(if)%(authordate)%(then)%(objectname) %(refname)" ++
        "%(else)%(*objectname) %(*refname)%(end)") := by decide +kernel
  have hfront : Quotable "%(if)%(authordate)%(then)%(objectname) %(refname)" :=
    quotable_literal _ rfl
  have hback : Quotable "%(else)%(*objectname) %(*refname)%(end)" := quotable_literal _ rfl
  rw [hsplit]
  exact settled_quoted (plain_literal _ rfl : Plain "--format=") (quotable_append hfront hback)

theorem settled_flatFormat : Settled flatFormat ["--format=%(objectname) %(refname)"] :=
  settled_quoted (plain_literal _ rfl : Plain "--format=")
    (quotable_literal _ rfl : Quotable "%(objectname) %(refname)")

theorem settled_place {f : RefFilter} {place : String} (h : place ∈ f.places) : Word place := by
  obtain ⟨p, hp, rfl⟩ := List.mem_map.mp h
  have hm := (List.mem_filter.mp hp).1
  simp only [List.mem_cons, List.not_mem_nil, or_false] at hm
  rcases hm with rfl | rfl | rfl <;> exact settled_literal _ rfl

theorem ListRefs.reads_draft (r : ListRefs) : r.draft.Reads r.argv := by
  have hstart := Draft.reads_noOptionalLocks (settled_literal _ rfl : Word "for-each-ref") r.noLocks
  have hcount : AllSettled (r.count.bind (Draft.countFlag? "--count=")).toList
      (r.count.elim [] fun n => counted n ["--count=" ++ toString n]) := by
    cases r.count with
    | none => exact .nil
    | some n =>
      have hflag : Plain "--count=" := plain_literal _ rfl
      exact allSettled_countFlag? (settled_count hflag (by decide) n)
  exact (ListRefs.reads_sort r hstart).rawEither _ settled_targetFormat settled_flatFormat
    |>.raw? hcount
    |>.raws (allSettled_self fun _ hp => settled_place hp)

end Query

section Repository

theorem SyncSubmodule.reads_draft {r : SyncSubmodule} (h : r.Legible) : r.draft.Reads r.argv := by
  have hstart := Draft.reads_start (settled_literal _ rfl : Word "submodule")
  exact hstart.raw (settled_literal _ rfl)
    |>.path? fun v hv => ⟨ne_empty_of_nonBlank? hv, h v hv⟩

theorem AddSubmodule.reads_draft {r : AddSubmodule} (h : r.Legible) : r.draft.Reads r.argv := by
  obtain ⟨hoverrides, hbranch, hremote, hlocal⟩ := h
  have hstart := Draft.reads_configure (settled_literal _ rfl : Word "submodule") hoverrides
  exact hstart.raw (settled_literal _ rfl)
    |>.rawIf _ (settled_literal _ rfl)
    |>.rawIf _ (settled_literal _ rfl)
    |>.quoted? (fun v hv => ⟨ne_empty_of_nonBlank? hv, hbranch v hv⟩)
    |>.path hremote
    |>.path hlocal

theorem SetConfig.reads_draft {r : SetConfig} (h : r.Legible) : r.draft.Reads r.argv := by
  have hstart := Draft.reads_start (settled_literal _ rfl : Word "config")
  have hvalue := settled_quoted plain_empty h.2
  rw [String.empty_append, String.empty_append] at hvalue
  exact hstart.rawIf _ (settled_literal _ rfl) |>.raw (settled_plain h.1) |>.raw hvalue

theorem UnsetConfig.reads_draft {r : UnsetConfig} (h : r.Legible) : r.draft.Reads r.argv := by
  have hstart := Draft.reads_start (settled_literal _ rfl : Word "config")
  exact hstart.rawIf _ (settled_literal _ rfl)
    |>.raw (settled_literal _ rfl)
    |>.raw (settled_plain h)

end Repository

namespace Operation

theorem settled_text {d : Draft} {ws : List String} (h : d.Reads ws) {drafted : Option Draft}
    (hd : (.ok (some d) : Except Rejection (Option Draft)) = .ok drafted) :
    Settled ((drafted.map Draft.text).getD "") ws := by
  obtain rfl := Except.ok.inj hd
  exact h.text

theorem settled_checkedText {c : Except Rejection Draft} {ws : List String}
    (h : ∀ d, c = .ok d → d.Reads ws) {drafted : Option Draft}
    (hd : c.map some = .ok drafted) : Settled ((drafted.map Draft.text).getD "") ws := by
  cases c with
  | error e => exact absurd hd (by simp [Except.map])
  | ok d => exact settled_text (h d rfl) hd

theorem settled_draft {o : Operation} (ho : o.Legible) {s : Snapshot} {drafted : Option Draft}
    (hd : o.draft s = .ok drafted) : Settled ((drafted.map Draft.text).getD "") (o.argv s) := by
  cases o with
  | fetch r => exact settled_text (Fetch.reads_draft ho s) hd
  | pull r => exact settled_text (Pull.reads_draft ho s) hd
  | clone r => exact settled_text (Clone.reads_draft ho) hd
  | checkout r => exact settled_text (Checkout.reads_draft ho) hd
  | branch r => exact settled_text (Branch.reads_draft ho) hd
  | mergedBranches r => exact settled_text (MergedBranches.reads_draft ho) hd
  | pushLocal r => exact settled_text (PushLocal.reads_draft ho) hd
  | pushTag r =>
    obtain rfl := Except.ok.inj hd
    have h := PushTag.reads_draft? ho
    revert h
    rw [show argv (.pushTag r) s = r.argv from rfl]
    cases r.draft? with
    | none => intro h; rw [h]; exact settled_empty
    | some d => exact Draft.Reads.text
  | remove r => exact settled_text (Remove.reads_draft ho) hd
  | reset r => exact settled_checkedText (fun _ => Reset.reads_draft ho) hd
  | clean r => exact settled_text (Clean.reads_draft ho) hd
  | cleanSubmodules r => exact settled_text (CleanSubmodules.reads_draft ho) hd
  | merge r => exact settled_text (Merge.reads_draft ho) hd
  | continueMerge => exact settled_text reads_continueMerge hd
  | abortMerge => exact settled_text reads_abortMerge hd
  | applyDiff r => exact settled_text (ApplyDiff.reads_draft ho) hd
  | applyMailbox r => exact settled_text (ApplyMailbox.reads_draft ho) hd
  | revert r => exact settled_text (Revert.reads_draft ho) hd
  | rebase r => exact settled_checkedText (fun _ => Rebase.reads_draft ho) hd
  | bisectStep r => exact settled_text (BisectStep.reads_draft ho) hd
  | changedFiles r => exact settled_text (ChangedFiles.reads_draft r) hd
  | changes r => exact settled_text (Changes.reads_draft ho) hd
  | listRefs r => exact settled_text (ListRefs.reads_draft r) hd
  | stash r => exact settled_text (Stash.reads_draft ho) hd
  | syncSubmodule r => exact settled_text (SyncSubmodule.reads_draft ho) hd
  | addSubmodule r => exact settled_text (AddSubmodule.reads_draft ho) hd
  | setConfig r => exact settled_text (SetConfig.reads_draft ho) hd
  | unsetConfig r => exact settled_text (UnsetConfig.reads_draft ho) hd

/-- The argument text of an operation splits into the words that the operation stands for. -/
theorem arguments_split {o : Operation} (ho : o.Legible) {s : Snapshot} {text : String}
    (ht : o.arguments s = .ok text) : words? text = some (o.argv s) := by
  unfold arguments at ht
  cases hd : o.draft s with
  | error e => rw [hd] at ht; exact absurd ht (by simp [Except.map])
  | ok drafted =>
    rw [hd] at ht
    obtain rfl := Except.ok.inj ht
    exact (settled_draft ho hd).words?

def partialStash : Operation := .stash ⟨true, false, some "two words # here", ["dir\\a b", ""]⟩

/-- A message with blanks and a hash, and a path with backslashes and blanks, stay one word each;
the empty path is left out. -/
theorem arguments_split_partialStash :
    words? "stash push -u -m \"two words # here\" -- \"dir/a b\"" =
      some ["stash", "push", "-u", "-m", "two words # here", "--", "dir/a b"] := by
  have hlegible : partialStash.Legible :=
    ⟨by decide +kernel, by decide +kernel⟩
  have htext : partialStash.arguments .empty =
      .ok "stash push -u -m \"two words # here\" -- \"dir/a b\"" := by
    refine congrArg Except.ok ?_
    decide +kernel
  have hargv : partialStash.argv .empty =
      ["stash", "push", "-u", "-m", "two words # here", "--", "dir/a b"] := by decide +kernel
  rw [← hargv]
  exact arguments_split hlegible htext

end Operation

end GitInvocation
