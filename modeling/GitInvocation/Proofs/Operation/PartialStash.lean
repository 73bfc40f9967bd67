import GitInvocation.Proofs.Operation.ArgvFidelity

/-!
# Stashes of selected files

A stash of the whole work tree and one of selected files are written in two forms. A blank entry
among the files is never written, but the form is chosen before such entries are left out. The
choice fits the files that are written, unless there are entries and all of them are blank. Then
the form is the one for selected files, and no file is behind its mark.
-/
namespace GitInvocation

open Draft (given)
open Text (nonBlank?)
open Words

namespace Stash

variable {r : Stash}

/-- The command of a stash with the switches that both forms have. -/
def switched (r : Stash) (form : String) : List String :=
  ["stash", form] ++ given r.untracked "-u" ++ given r.keepIndex "--keep-index"

/-- The form for the whole work tree. -/
def saved (r : Stash) : List String :=
  r.switched "save" ++ (nonBlank? r.message).toList.map quoted

/-- The form for selected files, which stand behind a mark. -/
def pushed (r : Stash) (files : List String) : List String :=
  r.switched "push" ++ (nonBlank? r.message).elim [] (fun message => ["-m", quoted message]) ++
    "--" :: files.map fun file => quoted (posixPath file)

/-- The parts of a stash fit the files that are filled in: with such files they are in the form for
selected files and end with the files, without they are those of a stash that has no files. -/
structure Fitting (r : Stash) (parts : List String) : Prop where
  push : ["stash", "push"] <+: parts ↔ filledIn r.files ≠ []
  save : ["stash", "save"] <+: parts ↔ filledIn r.files = []
  mark : "--" ∈ parts ↔ filledIn r.files ≠ []
  flag : "-m" ∈ parts ↔ filledIn r.files ≠ [] ∧ (nonBlank? r.message).isSome
  files : filledIn r.files ≠ [] →
    ("--" :: (filledIn r.files).map fun file => quoted (posixPath file)) <:+ parts
  whole : filledIn r.files = [] → parts = { r with files := [] }.draft.parts

theorem parts_draft (r : Stash) :
    r.draft.parts = if r.files = [] then r.saved else r.pushed (filledIn r.files) := by
  have hmessage : ∀ message ∈ nonBlank? r.message, message ≠ "" := fun _ hm =>
    ne_empty_of_nonBlank? hm
  have hfiles : ∀ file ∈ filledIn r.files, file ≠ "" := fun _ hf => ne_empty_of_filledIn hf
  rw [Stash.draft, Draft.parts_paths _ hfiles, Draft.parts_rawIf _ _ (by decide),
    Draft.parts_quoted? _ hmessage, Draft.parts_rawIf _ _ (by decide),
    Draft.parts_rawIf _ _ (by decide), Draft.parts_rawIf _ _ (by decide),
    Draft.parts_rawEither _ _ (by decide) (by decide), Draft.parts_start]
  by_cases hnone : r.files = []
  · simp [hnone, saved, switched, given, filledIn]
  · cases hm : nonBlank? r.message <;> simp [hm, hnone, pushed, switched, given]

/-- What stands in quotes is neither a mark nor a flag. -/
theorem notMem_map_quoted {w : String} (h : w.toList.head? ≠ some '"') {α : Type}
    (values : List α) (f : α → String) : w ∉ values.map fun value => quoted (f value) := by
  intro hm
  obtain ⟨value, -, rfl⟩ := List.mem_map.mp hm
  exact h (by simp [quoted])

theorem notMem_switched {w form : String} (hw : w ≠ "stash" ∧ w ≠ form)
    (hu : w ≠ "-u") (hk : w ≠ "--keep-index") : w ∉ r.switched form := by
  simp [switched, Draft.mem_given_iff, hw, hu, hk]

/-- Neither the flag of the message nor the mark is in the form for the whole work tree. -/
theorem notMem_saved {w : String} (hw : w = "-m" ∨ w = "--") : w ∉ r.saved := by
  have hhead : w.toList.head? ≠ some '"' := by rcases hw with rfl | rfl <;> decide
  have hswitched : w ∉ r.switched "save" := by
    rcases hw with rfl | rfl <;> exact notMem_switched (by decide) (by decide) (by decide)
  rw [saved, List.mem_append, not_or]
  exact ⟨hswitched, notMem_map_quoted hhead _ id⟩

theorem flag_mem_pushed_iff (files : List String) :
    "-m" ∈ r.pushed files ↔ (nonBlank? r.message).isSome := by
  have hswitched : "-m" ∉ r.switched "push" :=
    notMem_switched (by decide) (by decide) (by decide)
  have hfiles := notMem_map_quoted (w := "-m") (by decide) files posixPath
  rw [pushed, List.mem_append, List.mem_append, List.mem_cons]
  cases nonBlank? r.message <;> simp [hswitched, hfiles]

theorem fitting_saved (h : filledIn r.files = []) : r.Fitting r.saved where
  push := by simp [h, saved, switched]
  save := by simp [h, saved, switched]
  mark := iff_of_false (notMem_saved (.inr rfl)) (by simp [h])
  flag := iff_of_false (notMem_saved (.inl rfl)) (by simp [h])
  files hf := absurd h hf
  whole _ := by
    rw [parts_draft, if_pos rfl]
    rfl

theorem fitting_pushed (h : filledIn r.files ≠ []) : r.Fitting (r.pushed (filledIn r.files)) where
  push := by simp [h, pushed, switched]
  save := by simp [h, pushed, switched]
  mark := by simp [h, pushed]
  flag := by simp [h, flag_mem_pushed_iff]
  files _ := List.suffix_append _ _
  whole hf := absurd hf h

end Stash

namespace Operation

/-- The law of the two forms. The parts of a stash are in the form for selected files whenever
there is any entry among the files, and the files behind the mark are those that are filled in.
They fit these files unless all entries are blank. -/
theorem partial_stash_fits_iff (r : Stash) (s : Snapshot) :
    (stash r).arguments s = .ok (" ".intercalate r.draft.parts) ∧
      r.draft.parts = (if r.files = [] then r.saved else r.pushed (filledIn r.files)) ∧
      (r.Fitting r.draft.parts ↔ (filledIn r.files = [] → r.files = [])) := by
  have hparts := r.parts_draft
  refine ⟨rfl, hparts, fun hfit hblank => ?_, fun hchoice => ?_⟩
  · refine Decidable.byContradiction fun hgiven => ?_
    have hpush : ["stash", "push"] <+: r.draft.parts := by
      rw [hparts, if_neg hgiven]
      simp [Stash.pushed, Stash.switched]
    exact hfit.push.mp hpush hblank
  · rw [hparts]
    split
    · next hnone => exact Stash.fitting_saved (by rw [hnone]; rfl)
    · next hgiven => exact Stash.fitting_pushed (mt hchoice hgiven)

def blankStash : Stash := ⟨false, false, none, [" "]⟩

/-- A single blank entry makes a stash of selected files of which none is named. -/
theorem partial_stash_of_blankFile : filledIn blankStash.files = [] ∧
    (stash blankStash).arguments .empty = .ok "stash push --" ∧
    (stash { blankStash with files := [] }).arguments .empty = .ok "stash save" ∧
    ¬ blankStash.Fitting blankStash.draft.parts := by
  refine ⟨by decide +kernel, congrArg Except.ok (by decide +kernel),
    congrArg Except.ok (by decide +kernel), fun hfit => ?_⟩
  have hsame := hfit.whole (by decide +kernel)
  exact absurd hsame (by decide +kernel)

end Operation

end GitInvocation
