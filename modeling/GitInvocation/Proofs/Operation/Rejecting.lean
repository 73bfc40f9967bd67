import GitInvocation.Operation
import GitInvocation.Proofs.Outcomes

/-!
# When an operation is rejected

Two demands are made of an operation and no others: a reset of the index names a commit, and the
two ends of the range of a rebase are given together. A text of white space alone counts as none.
Who meets the demands is accepted, under every configuration and whatever else the request holds.
-/
namespace GitInvocation

namespace Text

/-- There is no text, or none but white space. -/
def Absent (value : Option String) : Prop := ∀ text ∈ value, ∀ c ∈ text.toList, isBlank c

theorem nonBlank?_eq_none_iff {value : Option String} :
    nonBlank? value = none ↔ Absent value := by
  rw [nonBlank?, Option.filter_eq_none_iff]
  simp only [Absent, blank, List.all_eq_true, Bool.not_eq_true', Bool.not_eq_false]
  exact Iff.rfl

end Text

open Text (Absent nonBlank? nonBlank?_eq_none_iff)

theorem Reset.draft_eq_error_iff {r : Reset} {e : Rejection} :
    r.draft = .error e ↔ r.mode = .index ∧ Absent r.commit ∧ e = .missingTreeish "reset" := by
  rw [← nonBlank?_eq_none_iff, ← and_assoc]
  simp only [Reset.draft]
  split
  · next h =>
    rw [Except.error.injEq]
    exact ⟨fun he => ⟨h, he.symm⟩, fun he => he.2.symm⟩
  · next h => exact iff_of_false (by simp) fun he => h he.1

theorem Rebase.range_eq_error_iff {r : Rebase} {e : Rejection} :
    r.range = .error e ↔
      (¬ Absent r.lower ∧ Absent r.onto ∧ e = .incompleteRange "onto") ∨
        (Absent r.lower ∧ ¬ Absent r.onto ∧ e = .incompleteRange "from") := by
  simp only [← nonBlank?_eq_none_iff, Rebase.range]
  cases nonBlank? r.lower <;> cases nonBlank? r.onto <;> simp [eq_comm]

theorem Rebase.draft_eq_error_iff {r : Rebase} {e : Rejection} :
    r.draft = .error e ↔ r.range = .error e := map_eq_error_iff

namespace Operation

/-- The demand that an operation fails, as the reason of its rejection. -/
inductive Refused : Operation → Rejection → Prop
  | noCommit {r : Reset} (mode : r.mode = .index) (commit : Absent r.commit) :
      Refused (.reset r) (.missingTreeish "reset")
  | noOnto {r : Rebase} (lower : ¬ Absent r.lower) (onto : Absent r.onto) :
      Refused (.rebase r) (.incompleteRange "onto")
  | noLower {r : Rebase} (lower : Absent r.lower) (onto : ¬ Absent r.onto) :
      Refused (.rebase r) (.incompleteRange "from")

variable {o : Operation} {s t : Snapshot} {e : Rejection}

theorem refused_reset_iff {r : Reset} : Refused (.reset r) e ↔ r.draft = .error e := by
  rw [Reset.draft_eq_error_iff]
  constructor
  · rintro ⟨mode, commit⟩
    exact ⟨mode, commit, rfl⟩
  · rintro ⟨mode, commit, rfl⟩
    exact .noCommit mode commit

theorem refused_rebase_iff {r : Rebase} : Refused (.rebase r) e ↔ r.draft = .error e := by
  rw [Rebase.draft_eq_error_iff, Rebase.range_eq_error_iff]
  constructor
  · rintro (_ | ⟨lower, onto⟩ | ⟨lower, onto⟩)
    · exact .inl ⟨lower, onto, rfl⟩
    · exact .inr ⟨lower, onto, rfl⟩
  · rintro (⟨lower, onto, rfl⟩ | ⟨lower, onto, rfl⟩)
    · exact .noOnto lower onto
    · exact .noLower lower onto

theorem arguments_eq_error_iff : o.arguments s = .error e ↔ o.Refused e := by
  rw [arguments, map_eq_error_iff]
  cases o with
  | reset r => exact map_eq_error_iff.trans refused_reset_iff.symm
  | rebase r => exact map_eq_error_iff.trans refused_rebase_iff.symm
  | _ => exact iff_of_false nofun nofun

/-- Whether the operation is accepted, without the text. -/
def verdict (o : Operation) (s : Snapshot) : Except Rejection Unit :=
  (o.arguments s).map fun _ => ()

theorem verdict_eq_error_iff : o.verdict s = .error e ↔ o.Refused e := by
  rw [← arguments_eq_error_iff (s := s), verdict, map_eq_error_iff]

theorem verdict_congr {o' : Operation} (h : ∀ e, o'.Refused e ↔ o.Refused e) :
    o'.verdict t = o.verdict s := by
  cases hs : o.verdict s with
  | error e => exact verdict_eq_error_iff.mpr ((h e).mpr (verdict_eq_error_iff.mp hs))
  | ok u =>
    cases ht : o'.verdict t with
    | ok v => rfl
    | error e =>
      have := verdict_eq_error_iff (s := s) |>.mpr ((h e).mp (verdict_eq_error_iff.mp ht))
      rw [hs] at this
      exact absurd this nofun

/-- An operation is rejected exactly for the demand it fails, and has a text when it fails none.
The configuration does not count, of a reset only the mode and the commit, and of a rebase only
the ends of the range. -/
theorem rejected_exactly (s t : Snapshot) :
    (∀ o e, arguments o s = .error e ↔ Refused o e) ∧
    (∀ o, (∃ text, arguments o s = .ok text) ↔ ∀ e, ¬ Refused o e) ∧
    (∀ o, verdict o t = verdict o s) ∧
    (∀ (r : Reset) (file : Option String),
      verdict (.reset { r with file := file }) t = verdict (.reset r) s) ∧
    ∀ r other : Rebase,
      verdict (.rebase { other with lower := r.lower, onto := r.onto }) t =
        verdict (.rebase r) s := by
  refine ⟨fun o e => arguments_eq_error_iff, fun o => ?_, fun o => verdict_congr fun e => Iff.rfl,
    fun r file => verdict_congr fun e => ?_, fun r other => verdict_congr fun e => ?_⟩
  · simp only [← arguments_eq_error_iff (s := s)]
    cases arguments o s with
    | error e => exact iff_of_false nofun fun h => h e rfl
    | ok text => exact iff_of_true ⟨text, rfl⟩ nofun
  · rw [refused_reset_iff, refused_reset_iff, Reset.draft_eq_error_iff, Reset.draft_eq_error_iff]
  · rw [refused_rebase_iff, refused_rebase_iff, Rebase.draft_eq_error_iff,
      Rebase.draft_eq_error_iff, Rebase.range_eq_error_iff, Rebase.range_eq_error_iff]

end Operation

end GitInvocation
