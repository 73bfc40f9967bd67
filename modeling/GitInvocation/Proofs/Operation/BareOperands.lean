import GitInvocation.Proofs.Operation.ArgvFidelity
import GitInvocation.Proofs.Text.Cutting
import GitInvocation.Proofs.Words.Comment

/-!
# Operands without quotes

Some operations write an operand as it stands. Without white space, quotes and backslashes it is a
word of its own, and it reaches the program together with everything behind it, unless it starts
with a hash. The hash opens a comment, and then neither the operand nor anything behind it arrives.
-/
namespace GitInvocation

open Draft (given settings)
open Text (nonBlank?)
open Words

/-- Text without white space, quotes and backslashes, and not empty. -/
def Operand (s : String) : Prop :=
  s ≠ "" ∧ ∀ c ∈ s.toList, Text.isBlank c = false ∧ c ≠ '"' ∧ c ≠ '\x27' ∧ c ≠ '\\'

instance (s : String) : Decidable (Operand s) :=
  @instDecidableAnd _ _ inferInstance (List.decidableBAll _ s.toList)

/-- The operands that an operation writes without quotes, the words in front of them and behind
them, and the other text in the operation. -/
structure Exposure where
  front : List String
  operands : List String
  tail : List String
  others : List String

section Operands

variable {s : String}

theorem isBlank_of_isGap {c : Char} (h : isGap c) : Text.isBlank c := by
  simp only [isGap, Bool.or_eq_true, decide_eq_true_eq] at h
  rcases h with (rfl | rfl) | rfl <;> decide

theorem Operand.bare (h : Operand s) : Bare s := by
  intro c hc
  obtain ⟨hb, hd, hs, hback⟩ := h.2 c hc
  have hgap : isGap c = false := by
    cases hg : isGap c
    · rfl
    · exact absurd (isBlank_of_isGap hg) (by simp [hb])
  simp [isPlain, hgap, hd, hs, hback]

theorem Operand.bares {operands : List String} (h : ∀ x ∈ operands, Operand x) :
    ∀ x ∈ operands, Bare x ∧ x ≠ "" := fun x hx => ⟨(h x hx).bare, (h x hx).1⟩

theorem Operand.not_blank (h : Operand s) : Text.blank s = false := by
  obtain ⟨c, more, hs⟩ := List.exists_cons_of_ne_nil (mt String.toList_eq_nil_iff.mp h.1)
  have hc := (h.2 c (hs ▸ List.mem_cons_self)).1
  simp [Text.blank, hs, hc]

theorem Operand.nonBlank? (h : Operand s) : Text.nonBlank? (some s) = some s := by
  simp [Text.nonBlank?, h.not_blank]

theorem Operand.trim (h : Operand s) : Text.trim s = s := by
  have hchars : Text.trimChars s.toList = s.toList :=
    Text.trimChars_eq_self (fun c hc => (h.2 c (List.mem_of_mem_head? hc)).1)
      fun c hc => (h.2 c (List.mem_of_mem_getLast? hc)).1
  rw [Text.trim, hchars, String.ofList_toList]

theorem unquoted_of_bare (h : Bare s) : Unquoted s := fun hc => absurd (h _ hc) (by decide)

theorem quotable_of_bare (h : Bare s) : Quotable s :=
  ⟨unquoted_of_bare h, fun hc => absurd (h _ hc) (by decide)⟩

theorem flatMap_filled {ws : List String} (h : ∀ w ∈ ws, w ≠ "") : ws.flatMap filled = ws := by
  induction ws with
  | nil => rfl
  | cons w ws ih =>
    rw [List.flatMap_cons, filled, if_neg (h w List.mem_cons_self),
      ih fun v hv => h v (List.mem_cons_of_mem w hv), List.singleton_append]

theorem bare_filled (h : Bare s) : ∀ w ∈ filled s, Bare w := by
  intro w hw
  rw [filled] at hw
  split at hw
  · exact absurd hw List.not_mem_nil
  · rwa [List.mem_singleton.mp hw]

theorem bare_given {w : String} (h : Bare w) (on : Bool) : ∀ v ∈ given on w, Bare v := by
  intro v hv
  cases on
  · exact absurd hv List.not_mem_nil
  · rwa [List.mem_singleton.mp hv]

theorem mem_of_mem_nonBlank? {o : Option String} (h : s ∈ Text.nonBlank? o) : o = some s :=
  (Option.filter_eq_some_iff.mp h).1

end Operands

namespace Draft

variable {d : Draft} {ws vs : List String}

/-- An empty operand adds nothing. -/
theorem Reads.of_raw_empty (h : (d.raw "").Reads ws) : d.Reads ws := by
  rwa [Reads, Draft.raw, parts_add, show [Token.raw ""].filterMap Token.text? = [] by decide,
    List.append_nil] at h

theorem Reads.of_path_empty (h : (d.path "").Reads ws) : d.Reads ws := by
  have hnone : GitInvocation.quoted? (posixPath "") = none := if_pos (posixPath_eq_empty.mpr rfl)
  rwa [Reads, parts_path, hnone, Option.toList_none, List.append_nil] at h

theorem Reads.of_raw?_none (h : (d.raw? none).Reads ws) : d.Reads ws := by
  rwa [raw?_none] at h

theorem filterMap_raw {values : List String} (h : ∀ v ∈ values, v ≠ "") :
    (values.map Token.raw).filterMap Token.text? = values := by
  induction values with
  | nil => rfl
  | cons v values ih =>
    have hv : (Token.raw v).text? = some v := if_neg (h v List.mem_cons_self)
    rw [List.map_cons, List.filterMap_cons_some hv, ih fun w hw => h w (List.mem_cons_of_mem v hw)]

/-- Bare words at the end of a draft reach the program up to the first that starts with a hash. -/
theorem Reads.words?_raws (h : d.Reads ws) {values : List String}
    (hv : ∀ v ∈ values, Bare v ∧ v ≠ "") :
    words? (d.raws values).text = some (ws ++ uncovered values []) := by
  rw [Draft.text, Draft.raws, parts_add, filterMap_raw fun v hm => (hv v hm).2]
  have := words?_bares h hv .nil fun part hp => absurd hp List.not_mem_nil
  rwa [List.append_nil] at this

theorem Reads.words?_raw (h : d.Reads ws) {value : String} (hv : Bare value ∧ value ≠ "") :
    words? (d.raw value).text = some (ws ++ uncovered [value] []) := by
  have hvalues : ∀ v ∈ [value], Bare v ∧ v ≠ "" := by simpa using hv
  rw [show d.raw value = d.raws [value] from rfl]
  exact h.words?_raws hvalues

end Draft

theorem line_quoted? {value : String} (h : '\n' ∉ value.toList) :
    ∀ part ∈ quoted? value, '\n' ∉ part.toList := by
  intro part hp
  rw [quoted?] at hp
  split at hp
  · exact absurd hp (by simp)
  · obtain rfl := Option.some.inj hp
    simp [quoted, h]

theorem line_posixPath {s : String} (h : '\n' ∉ s.toList) : '\n' ∉ (posixPath s).toList := by
  rw [posixPath, String.toList_map, List.mem_map]
  rintro ⟨c, hc, he⟩
  split at he
  · exact absurd he (by decide)
  · exact h (he ▸ hc)

/-- A part of two words may be taken for two parts. -/
theorem intercalate_two (a b : String) (ps qs : List String) :
    " ".intercalate (ps ++ (a ++ " " ++ b) :: qs) = " ".intercalate (ps ++ a :: b :: qs) := by
  induction ps with
  | nil =>
    cases qs with
    | nil => simp
    | cons q qs => simp [String.append_assoc]
  | cons p ps ih =>
    rw [List.cons_append, List.cons_append, String.intercalate_cons_of_ne_nil (by simp), ih,
      String.intercalate_cons_of_ne_nil (by simp)]

section Exposed

theorem Merge.words?_text {r : Merge} (h : Bare r.branch ∧ r.branch ≠ "")
    (hs : ∀ strategy ∈ nonBlank? r.strategy, Bare strategy)
    (hf : ∀ file ∈ nonBlank? r.messageFile, Quotable file) :
    words? r.draft.text = some ({ r with branch := "" }.argv ++ uncovered [r.branch] []) := by
  have hall : ({ r with branch := "" } : Merge).draft.Reads { r with branch := "" }.argv :=
    Merge.reads_draft ⟨hs, hf, plain_empty⟩
  exact hall.of_raw_empty.words?_raw h

theorem Revert.words?_text {r : Revert} (h : Bare r.commit ∧ r.commit ≠ "") :
    words? r.draft.text = some ({ r with commit := "" }.argv ++ uncovered [r.commit] []) := by
  have hall : ({ r with commit := "" } : Revert).draft.Reads { r with commit := "" }.argv :=
    Revert.reads_draft plain_empty
  exact hall.of_raw_empty.words?_raw h

theorem MergedBranches.words?_text {r : MergedBranches} {commit : String}
    (hr : r.commit = some commit) (h : Operand commit) :
    words? r.draft.text = some ({ r with commit := none }.argv ++ uncovered [commit] []) := by
  have hall : ({ r with commit := none } : MergedBranches).draft.Reads
      { r with commit := none }.argv := MergedBranches.reads_draft fun _ hn => nomatch hn
  have hdraft : r.draft = ({ r with commit := none } : MergedBranches).draft.raw commit := by
    unfold MergedBranches.draft
    rw [hr, h.nonBlank?]
    simp [Text.nonBlank?]
    rfl
  rw [hdraft]
  exact hall.words?_raw ⟨h.bare, h.1⟩

theorem BisectStep.words?_text {r : BisectStep} (h : ∀ x ∈ r.revisions, Bare x ∧ x ≠ "") :
    words? r.draft.text = some ({ r with revisions := [] }.argv ++ uncovered r.revisions []) := by
  have hfront : (Draft.start "bisect" |>.raw r.outcome.name).Reads
      { r with revisions := [] }.argv :=
    BisectStep.reads_draft (r := { r with revisions := [] }) fun _ hn => absurd hn List.not_mem_nil
  exact hfront.words?_raws h

theorem Rebase.words?_text {r : Rebase} {lower onto : String} (hlo : nonBlank? r.lower = some lower)
    (hon : nonBlank? r.onto = some onto) (hlower : Quotable lower) (hbranch : Quotable r.branch)
    (honto : Bare onto) : ∃ d, r.draft = .ok d ∧ words? d.text =
      some (["-c", "rebase.autoSquash=false"] ++ ["rebase"] ++ r.modeWords ++
        given r.autostash "--autostash" ++ [lower] ++ filled r.branch ++ ["--onto"] ++
        uncovered [onto] []) := by
  have hrange : r.range = .ok (some (lower, onto)) := by rw [Rebase.range, hlo, hon]
  have hfront := Rebase.reads_onto r.reads_start ⟨ne_empty_of_nonBlank? hlo, hlower⟩ hbranch
  refine ⟨_, by rw [Rebase.draft, hrange]; rfl, ?_⟩
  exact hfront.words?_raw ⟨honto, ne_empty_of_nonBlank? hon⟩

theorem PushTag.words?_text {r : PushTag} (hall : r.all = false) (hremote : Unquoted r.remote)
    (htag : Operand r.tag) : ∃ d, r.draft? = some d ∧ words? d.text =
      some (["push"] ++ r.force.flag?.toList ++ ["--progress"] ++ filled (remoteText r.remote) ++
        ["tag"] ++ uncovered [r.tag] []) := by
  have hfront := (PushTag.reads_start hremote).raw (settled_literal _ rfl : Word "tag")
  refine ⟨_, ?_, hfront.words?_raw ⟨htag.bare, htag.1⟩⟩
  simp only [PushTag.draft?, hall, htag.trim, htag.1]
  rfl

theorem Clone.words?_text {r : Clone} {name : String} (hr : r.checkout = .branch name)
    (hname : Operand name) (hsource : Bare r.source) (htarget : Bare r.target) :
    words? r.draft.text =
      some ({ r with checkout := .remoteHead, source := "", target := "" }.argv ++ ["--branch"] ++
        uncovered [name] (filled (posixPath r.source) ++ filled (posixPath r.target))) := by
  obtain ⟨d, hd, hdraft⟩ : ∃ d : Draft,
      d.Reads { r with checkout := .remoteHead, source := "", target := "" }.argv ∧
      r.draft = ((d.raw? r.checkout.flag?).path r.source).path r.target := by
    have hall := Clone.reads_draft
      (r := { r with checkout := .remoteHead, source := "", target := "" })
      ⟨trivial, unquoted_of_bare plain_empty.1, unquoted_of_bare plain_empty.1⟩
    refine ⟨_, ?_, rfl⟩
    exact hall.of_path_empty.of_path_empty.of_raw?_none
  have hflag : r.checkout.flag? = some ("--branch" ++ " " ++ name) := by
    rw [hr, FirstCheckout.flag?, hname.not_blank]
    rfl
  have hparts : r.draft.parts = d.parts ++ ("--branch" ++ " " ++ name) ::
      ((GitInvocation.quoted? (posixPath r.source)).toList ++
        (GitInvocation.quoted? (posixPath r.target)).toList) := by
    rw [hdraft, Draft.parts_path, Draft.parts_path, hflag, Draft.raw?, Draft.parts_add]
    simp [Token.text?]
  have hbranch : Word "--branch" := settled_literal _ rfl
  have hbare : ∀ x ∈ [name], Bare x ∧ x ≠ "" := by simpa using ⟨hname.bare, hname.1⟩
  have hbehind := (Draft.allSettled_quoted? (quotable_posixPath (unquoted_of_bare hsource))).append
    (Draft.allSettled_quoted? (quotable_posixPath (unquoted_of_bare htarget)))
  have hline : ∀ part ∈ (GitInvocation.quoted? (posixPath r.source)).toList ++
      (GitInvocation.quoted? (posixPath r.target)).toList, '\n' ∉ part.toList := by
    intro part hp
    rcases List.mem_append.mp hp with hp | hp
    · exact line_quoted? (line_posixPath (line_of_bare hsource)) part (Option.mem_toList.mp hp)
    · exact line_quoted? (line_posixPath (line_of_bare htarget)) part (Option.mem_toList.mp hp)
  have hall := words?_bares (AllSettled.append hd (.single hbranch)) hbare hbehind hline
  rw [Draft.text, hparts, intercalate_two]
  rwa [List.append_assoc, List.append_assoc] at hall

end Exposed

section Exposures

def Merge.exposure (r : Merge) : Exposure where
  front := { r with branch := "" }.argv
  operands := [r.branch]
  tail := []
  others := r.strategy.toList ++ r.messageFile.toList

def Revert.exposure (r : Revert) : Exposure where
  front := { r with commit := "" }.argv
  operands := [r.commit]
  tail := []
  others := []

def MergedBranches.exposure? (r : MergedBranches) : Option Exposure :=
  r.commit.map fun commit => ⟨{ r with commit := none }.argv, [commit], [], []⟩

/-- Without a range nothing of a rebase is left without quotes. -/
def Rebase.exposure? (r : Rebase) : Option Exposure :=
  match nonBlank? r.lower, nonBlank? r.onto with
  | some lower, some onto =>
    some ⟨["-c", "rebase.autoSquash=false"] ++ ["rebase"] ++ r.modeWords ++
      given r.autostash "--autostash" ++ [lower] ++ filled r.branch ++ ["--onto"],
      [onto], [], [lower, r.branch]⟩
  | _, _ => none

def BisectStep.exposure (r : BisectStep) : Exposure where
  front := { r with revisions := [] }.argv
  operands := r.revisions
  tail := []
  others := []

def PushTag.exposure? (r : PushTag) : Option Exposure :=
  if r.all then none
  else
    some ⟨["push"] ++ r.force.flag?.toList ++ ["--progress"] ++ filled (remoteText r.remote) ++
      ["tag"], [r.tag], [], [r.remote]⟩

/-- The name of a branch stands behind its flag, and the two places come behind it. -/
def Clone.exposure? (r : Clone) : Option Exposure :=
  match r.checkout with
  | .branch name =>
    some ⟨{ r with checkout := .remoteHead, source := "", target := "" }.argv ++ ["--branch"],
      [name], filled (posixPath r.source) ++ filled (posixPath r.target), [r.source, r.target]⟩
  | _ => none

end Exposures

namespace Operation

/-- The branch, commit, revisions or tag that an operation names without quotes. -/
def exposure? : Operation → Option Exposure
  | .merge r => r.exposure
  | .revert r => r.exposure
  | .mergedBranches r => r.exposure?
  | .rebase r => r.exposure?
  | .bisectStep r => r.exposure
  | .pushTag r => r.exposure?
  | .clone r => r.exposure?
  | _ => none

variable {o : Operation} {e : Exposure}

theorem argv_eq_exposed (he : o.exposure? = some e) (hoperands : ∀ x ∈ e.operands, Operand x)
    (s : Snapshot) : o.argv s = e.front ++ e.operands ++ e.tail := by
  cases o with
  | merge r =>
    obtain rfl := Option.some.inj he
    have hb : r.branch ≠ "" := (hoperands r.branch List.mem_cons_self).1
    simp [argv, Merge.exposure, Merge.argv, filled, hb]
  | revert r =>
    obtain rfl := Option.some.inj he
    have hc : r.commit ≠ "" := (hoperands r.commit List.mem_cons_self).1
    simp [argv, Revert.exposure, Revert.argv, filled, hc]
  | mergedBranches r =>
    obtain ⟨commit, hc, rfl⟩ := Option.map_eq_some_iff.mp he
    have hcommit := (hoperands commit List.mem_cons_self).not_blank
    simp [argv, MergedBranches.argv, hc, nonBlank?, hcommit]
  | rebase r =>
    simp only [exposure?, Rebase.exposure?] at he
    split at he
    · next lower onto hlo hon =>
      obtain rfl := Option.some.inj he
      simp [argv, Rebase.argv, Rebase.rangeWords, hlo, hon]
    · exact absurd he (by simp)
  | bisectStep r =>
    obtain rfl := Option.some.inj he
    have hfilled := flatMap_filled fun x hx => (hoperands x hx).1
    simp only [BisectStep.exposure] at hfilled
    simp [argv, BisectStep.exposure, BisectStep.argv, hfilled]
  | pushTag r =>
    simp only [exposure?, PushTag.exposure?] at he
    split at he
    · exact absurd he (by simp)
    · next hall =>
      obtain rfl := Option.some.inj he
      have htag : Operand r.tag := hoperands r.tag List.mem_cons_self
      simp [argv, PushTag.argv, hall, htag.trim, htag.1]
  | clone r =>
    simp only [exposure?, Clone.exposure?] at he
    split at he
    · next name hr =>
      obtain rfl := Option.some.inj he
      have hname := (hoperands name List.mem_cons_self).not_blank
      have hempty : filled (posixPath "") = [] := if_pos (posixPath_eq_empty.mpr rfl)
      simp [argv, Clone.argv, hr, FirstCheckout.words, hname, hempty]
    · exact absurd he (by simp)
  | _ => exact absurd he (by simp [exposure?])

/-- The argument text of an operation with operands without quotes, as far as it is read. -/
theorem exposed_text (he : o.exposure? = some e) (hoperands : ∀ x ∈ e.operands, Operand x)
    (hothers : ∀ t ∈ e.others, Bare t) (s : Snapshot) : ∃ text, o.arguments s = .ok text ∧
      words? text = some (e.front ++ uncovered e.operands e.tail) := by
  have hbares := Operand.bares hoperands
  cases o with
  | merge r =>
    obtain rfl := Option.some.inj he
    have hs : ∀ strategy ∈ nonBlank? r.strategy, Bare strategy := fun t ht =>
      hothers t (by simp [Merge.exposure, mem_of_mem_nonBlank? ht])
    have hf : ∀ file ∈ nonBlank? r.messageFile, Quotable file := fun t ht =>
      quotable_of_bare (hothers t (by simp [Merge.exposure, mem_of_mem_nonBlank? ht]))
    exact ⟨_, rfl, Merge.words?_text (hbares r.branch List.mem_cons_self) hs hf⟩
  | revert r =>
    obtain rfl := Option.some.inj he
    exact ⟨_, rfl, Revert.words?_text (hbares r.commit List.mem_cons_self)⟩
  | mergedBranches r =>
    obtain ⟨commit, hc, rfl⟩ := Option.map_eq_some_iff.mp he
    exact ⟨_, rfl, MergedBranches.words?_text hc (hoperands commit List.mem_cons_self)⟩
  | rebase r =>
    simp only [exposure?, Rebase.exposure?] at he
    split at he
    · next lower onto hlo hon =>
      obtain rfl := Option.some.inj he
      have hlower := quotable_of_bare (hothers lower List.mem_cons_self)
      have hbranch := quotable_of_bare (hothers r.branch (by simp))
      have honto : Bare onto := (hbares onto List.mem_cons_self).1
      obtain ⟨d, hd, hw⟩ := Rebase.words?_text hlo hon hlower hbranch honto
      refine ⟨d.text, ?_, hw⟩
      rw [arguments, draft, hd]
      rfl
    · exact absurd he (by simp)
  | bisectStep r =>
    obtain rfl := Option.some.inj he
    exact ⟨_, rfl, BisectStep.words?_text hbares⟩
  | pushTag r =>
    simp only [exposure?, PushTag.exposure?] at he
    split at he
    · exact absurd he (by simp)
    · next hall =>
      obtain rfl := Option.some.inj he
      obtain ⟨d, hd, hw⟩ := PushTag.words?_text ((Bool.not_eq_true _).mp hall)
        (unquoted_of_bare (hothers r.remote List.mem_cons_self))
        (hoperands r.tag List.mem_cons_self)
      refine ⟨d.text, ?_, hw⟩
      rw [arguments, draft, hd]
      rfl
  | clone r =>
    simp only [exposure?, Clone.exposure?] at he
    split at he
    · next name hr =>
      obtain rfl := Option.some.inj he
      exact ⟨_, rfl, Clone.words?_text hr (hoperands name List.mem_cons_self)
        (hothers r.source List.mem_cons_self) (hothers r.target (by simp))⟩
    · exact absurd he (by simp)
  | _ => exact absurd he (by simp [exposure?])

/-- The law of bare operands. The words of the operation are its operands with what is in front of
them and behind them, and the program receives all of them exactly when no operand starts with a
hash. Otherwise it receives what is in front of the first such operand, and nothing else. -/
theorem operands_reach_until_hash (he : o.exposure? = some e)
    (hoperands : ∀ x ∈ e.operands, Operand x) (hothers : ∀ t ∈ e.others, Bare t) (s : Snapshot) :
    o.argv s = e.front ++ e.operands ++ e.tail ∧
    ∃ text, o.arguments s = .ok text ∧
      words? text = some (e.front ++ uncovered e.operands e.tail) ∧
      (words? text = some (o.argv s) ↔ ∀ x ∈ e.operands, isHashed x = false) := by
  have hargv := argv_eq_exposed he hoperands s
  obtain ⟨text, htext, hwords⟩ := exposed_text he hoperands hothers s
  refine ⟨hargv, text, htext, hwords, ?_⟩
  rw [hwords, hargv, List.append_assoc, Option.some_inj, List.append_cancel_left_eq,
    uncovered_eq_append_iff]

/-- A hash within a revision is harmless, the one that starts the second revision is not. -/
theorem operands_reach_until_hash_bisect :
    let o : Operation := .bisectStep ⟨.bad, ["v1#2", "#3", "HEAD~1"]⟩
    o.arguments .empty = .ok "bisect bad v1#2 #3 HEAD~1" ∧
      words? "bisect bad v1#2 #3 HEAD~1" = some ["bisect", "bad", "v1#2"] := by
  intro o
  have hoperands : ∀ x ∈ ["v1#2", "#3", "HEAD~1"], Operand x := by decide +kernel
  have hothers : ∀ t ∈ ([] : List String), Bare t := by decide +kernel
  obtain ⟨-, text, htext, hwords, -⟩ :=
    operands_reach_until_hash (o := o) rfl hoperands hothers .empty
  have hshown : o.arguments .empty = .ok "bisect bad v1#2 #3 HEAD~1" :=
    congrArg Except.ok (by decide +kernel)
  obtain rfl := Except.ok.inj (htext.symm.trans hshown)
  refine ⟨htext, hwords.trans ?_⟩
  decide +kernel

def hashedClone : Operation := .clone ⟨"from", "to", false, false, .branch "#7-fix", none, none⟩

/-- A branch whose name starts with a hash takes both places of a clone along. -/
theorem operands_lost_hashedClone : Operand "#7-fix" ∧ Plain "from" ∧ Plain "to" ∧
    ∃ text argv, hashedClone.arguments .empty = .ok text ∧ words? text = some argv ∧
      argv = ["clone", "-v", "--progress", "--branch"] ∧
      "#7-fix" ∉ argv ∧ "from" ∉ argv ∧ "to" ∉ argv := by
  refine ⟨by decide +kernel, by decide +kernel, by decide +kernel,
    "clone -v --progress --branch #7-fix \"from\" \"to\"",
    ["clone", "-v", "--progress", "--branch"], congrArg Except.ok ?_, ?_, rfl, ?_⟩
  · decide +kernel
  · decide +kernel
  · decide +kernel

end Operation

end GitInvocation
