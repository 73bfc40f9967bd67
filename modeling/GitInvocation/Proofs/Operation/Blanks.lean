import GitInvocation.Proofs.Operation.Rejecting
import Mathlib.Data.List.TakeWhile

/-!
# Values of white space alone

Where a value may be left out, one of white space alone counts as left out. A request keeps its
argument text, or the reason for its rejection, when any number of such values are given up at
once. Two kinds of values are given up in their own way: a branch to check out first, for which the
clone falls back to that of the remote, and the files to be removed, which are a list.
-/
namespace GitInvocation

open Text (Absent nonBlank? nonBlank?_eq_none_iff)

/-- The value is kept, or it is blank and given up. -/
inductive Waived (value : Option String) : Option String → Prop
  | kept : Waived value value
  | blank (h : Absent value) : Waived value none

/-- The name of a branch is kept, or it is blank and given up. -/
inductive FirstCheckout.Waived : FirstCheckout → FirstCheckout → Prop
  | kept (c : FirstCheckout) : Waived c c
  | blank {name : String} (h : Text.blank name) : Waived (.branch name) .remoteHead

/-- The name of a tag is kept, or it is blank and made empty. -/
inductive PushTag.Waived (tag : String) : String → Prop
  | kept : Waived tag tag
  | blank (h : Text.blank tag) : Waived tag ""

/-- Of the files some are given up, all of them blank. -/
inductive Remove.Waived : List String → List String → Prop
  | nil : Waived [] []
  | kept (file : String) {files rest : List String} (h : Waived files rest) :
      Waived (file :: files) (file :: rest)
  | blank {file : String} {files rest : List String} (hb : Text.blank file)
      (h : Waived files rest) : Waived (file :: files) rest

/-- The second request is the first with some blank values given up. -/
inductive Operation.Waived : Operation → Operation → Prop
  | same (o : Operation) : Waived o o
  | fetch {r : Fetch} {remoteBranch localBranch : Option String}
      (hr : GitInvocation.Waived r.remoteBranch remoteBranch)
      (hl : GitInvocation.Waived r.localBranch localBranch) :
      Waived (.fetch r) (.fetch { r with remoteBranch, localBranch })
  | pull {r : Pull} {remoteBranch : Option String}
      (h : GitInvocation.Waived r.remoteBranch remoteBranch) :
      Waived (.pull r) (.pull { r with remoteBranch })
  | clone {r : Clone} {checkout : FirstCheckout} (h : r.checkout.Waived checkout) :
      Waived (.clone r) (.clone { r with checkout })
  | branch {r : Branch} {revision : Option String}
      (h : GitInvocation.Waived r.revision revision) :
      Waived (.branch r) (.branch { r with revision })
  | mergedBranches {r : MergedBranches} {commit : Option String}
      (h : GitInvocation.Waived r.commit commit) :
      Waived (.mergedBranches r) (.mergedBranches { r with commit })
  | pushTag {r : PushTag} {tag : String} (h : PushTag.Waived r.tag tag) :
      Waived (.pushTag r) (.pushTag { r with tag })
  | remove {r : Remove} {files : List String} (h : Remove.Waived r.files files) :
      Waived (.remove r) (.remove { r with files })
  | reset {r : Reset} {commit file : Option String}
      (hc : GitInvocation.Waived r.commit commit) (hf : GitInvocation.Waived r.file file) :
      Waived (.reset r) (.reset { r with commit, file })
  | merge {r : Merge} {strategy messageFile : Option String}
      (hs : GitInvocation.Waived r.strategy strategy)
      (hm : GitInvocation.Waived r.messageFile messageFile) :
      Waived (.merge r) (.merge { r with strategy, messageFile })
  | rebase {r : Rebase} {lower onto : Option String}
      (hl : GitInvocation.Waived r.lower lower) (ho : GitInvocation.Waived r.onto onto) :
      Waived (.rebase r) (.rebase { r with lower, onto })
  | stash {r : Stash} {message : Option String} (h : GitInvocation.Waived r.message message) :
      Waived (.stash r) (.stash { r with message })
  | applyMailbox {r : ApplyMailbox} {patchFile : Option String}
      (h : GitInvocation.Waived r.patchFile patchFile) :
      Waived (.applyMailbox r) (.applyMailbox { r with patchFile })
  | changes {r : Changes} {oldFileName : Option String}
      (h : GitInvocation.Waived r.oldFileName oldFileName) :
      Waived (.changes r) (.changes { r with oldFileName })
  | syncSubmodule {r : SyncSubmodule} {name : Option String}
      (h : GitInvocation.Waived r.name name) :
      Waived (.syncSubmodule r) (.syncSubmodule { r with name })
  | addSubmodule {r : AddSubmodule} {branch : Option String}
      (h : GitInvocation.Waived r.branch branch) :
      Waived (.addSubmodule r) (.addSubmodule { r with branch })

section Values

theorem Waived.nonBlank?_eq {value value' : Option String} (h : Waived value value') :
    nonBlank? value' = nonBlank? value := by
  cases h with
  | kept => rfl
  | blank h => exact (nonBlank?_eq_none_iff.mpr h).symm

theorem FirstCheckout.Waived.flag?_eq {c c' : FirstCheckout} (h : c.Waived c') :
    c'.flag? = c.flag? := by
  cases h with
  | kept => rfl
  | blank h => exact (if_pos h).symm

theorem trim_of_blank {s : String} (h : Text.blank s) : Text.trim s = "" := by
  have hdrop : s.toList.dropWhile Text.isBlank = [] :=
    List.dropWhile_eq_nil_iff.mpr (List.all_eq_true.mp h)
  rw [Text.trim, Text.trimChars, hdrop]
  rfl

theorem PushTag.Waived.trim_eq {tag tag' : String} (h : Waived tag tag') :
    Text.trim tag' = Text.trim tag := by
  cases h with
  | kept => rfl
  | blank h => exact (trim_of_blank h).symm

theorem filledIn_cons (file : String) (files : List String) : filledIn (file :: files) =
    if Text.blank file then filledIn files else file :: filledIn files := by
  rw [filledIn, List.filter_cons]
  cases Text.blank file <;> rfl

theorem Remove.Waived.filledIn_eq {files files' : List String} (h : Waived files files') :
    filledIn files' = filledIn files := by
  induction h with
  | nil => rfl
  | kept file _ ih => rw [filledIn_cons, filledIn_cons, ih]
  | blank hb _ ih => rw [filledIn_cons, if_pos hb, ih]

theorem Waived.refspec?_eq {remoteBranch remoteBranch' localBranch localBranch' : Option String}
    (hr : Waived remoteBranch remoteBranch') (hl : Waived localBranch localBranch') :
    refspec? remoteBranch' localBranch' = refspec? remoteBranch localBranch := by
  simp only [refspec?, hr.nonBlank?_eq, hl.nonBlank?_eq]

end Values

namespace Operation

/-- A draft is made from what is not blank. -/
theorem Waived.draft_eq {o o' : Operation} (h : o.Waived o') (s : Snapshot) :
    o'.draft s = o.draft s := by
  cases h with
  | same => rfl
  | fetch hr hl => simp only [draft, Fetch.draft, hr.refspec?_eq hl]
  | pull h => simp only [draft, Pull.draft, h.refspec?_eq .kept]
  | clone h => simp only [draft, Clone.draft, h.flag?_eq]
  | branch h => simp only [draft, Branch.draft, h.nonBlank?_eq]
  | mergedBranches h => simp only [draft, MergedBranches.draft, h.nonBlank?_eq]
  | pushTag h => simp only [draft, PushTag.draft?, h.trim_eq]
  | remove h => simp only [draft, Remove.draft, Remove.target, h.filledIn_eq]
  | reset hc hf => simp only [draft, Reset.draft, hc.nonBlank?_eq, hf.nonBlank?_eq]
  | merge hs hm => simp only [draft, Merge.draft, hs.nonBlank?_eq, hm.nonBlank?_eq]
  | rebase hl ho =>
    simp only [draft, Rebase.draft, Rebase.range, hl.nonBlank?_eq, ho.nonBlank?_eq]
    rfl
  | stash h => simp only [draft, Stash.draft, h.nonBlank?_eq]
  | applyMailbox h => simp only [draft, ApplyMailbox.draft, h.nonBlank?_eq]
  | changes h => simp only [draft, Changes.draft, Changes.oldFile?, h.nonBlank?_eq]
  | syncSubmodule h => simp only [draft, SyncSubmodule.draft, h.nonBlank?_eq]
  | addSubmodule h => simp only [draft, AddSubmodule.draft, h.nonBlank?_eq]

/-- A blank value counts as one that is left out, in the text and in the rejection alike. -/
theorem blank_counts_as_absent {o o' : Operation} (h : o.Waived o') (s : Snapshot) :
    o'.arguments s = o.arguments s := by
  rw [arguments, arguments, h.draft_eq s]

/-- A merge that gives up a wide blank and a tab, a removal that keeps one of its blank files, and
a reset that is rejected with the blank and without it. -/
theorem blank_counts_as_absent_together :
    let m : Merge := ⟨"topic", true, some "\u3000", false, false, false, some "\t", 0⟩
    let d : Remove := ⟨true, false, ["", "a", " \n", "\u00a0"]⟩
    let r : Reset := ⟨.index, some "\u2003", none⟩
    (arguments (.merge { m with strategy := none, messageFile := none }) .empty =
        arguments (.merge m) .empty ∧ arguments (.merge m) .empty = .ok "merge topic") ∧
      (arguments (.remove { d with files := ["a", " \n"] }) .empty =
        arguments (.remove d) .empty ∧ arguments (.remove d) .empty = .ok "rm --force a") ∧
      arguments (.reset { r with commit := none }) .empty = arguments (.reset r) .empty ∧
        arguments (.reset r) .empty = .error (.missingTreeish "reset") := by
  intro m d r
  have hmerge : Waived (.merge m) (.merge { m with strategy := none, messageFile := none }) := by
    refine .merge (.blank ?_) (.blank ?_) <;> exact nonBlank?_eq_none_iff.mp (by decide +kernel)
  have hremove : Waived (.remove d) (.remove { d with files := ["a", " \n"] }) :=
    .remove (.blank (by decide) (.kept _ (.kept _ (.blank (by decide) .nil))))
  have hreset : Waived (.reset r) (.reset { r with commit := none }) :=
    .reset (.blank (nonBlank?_eq_none_iff.mp (by decide +kernel))) .kept
  refine ⟨⟨blank_counts_as_absent hmerge _, congrArg Except.ok ?_⟩,
    ⟨blank_counts_as_absent hremove _, congrArg Except.ok ?_⟩,
    blank_counts_as_absent hreset _, rfl⟩ <;> decide +kernel

end Operation

end GitInvocation
