import GitInvocation.Proofs.Lookup
import GitInvocation.Settings.Tree

/-!
# Changes to a tree of settings

A change to one key of a table shows at this key alone. A table that is laid over another one puts
its members in the place of those that were there, one by one, and everything else takes the place
of the whole. No change lets a key stand in a table twice.
-/
namespace GitInvocation.Setting

variable {key name : String} {f : Setting → Setting} {s old : Setting}
variable {l : List (String × Setting)}

def isTable : Setting → Bool
  | .table _ _ => true
  | _ => false

def members : Setting → List (String × Setting)
  | .table _ members => members
  | _ => []

/-- What a table has under a name. -/
def member? (name : String) (s : Setting) : Option Setting := s.members.lookup name

theorem updateMember_eq (key : String) (f : Setting → Setting) (s : Setting) :
    ∃ origin, s.updateMember key f = .table origin (updateKey key f s.members) := by
  cases s with
  | leaf => exact ⟨none, rfl⟩
  | list => exact ⟨none, rfl⟩
  | table origin => exact ⟨origin, rfl⟩

theorem isTable_updateMember (key : String) (f : Setting → Setting) (s : Setting) :
    (s.updateMember key f).isTable := by
  obtain ⟨origin, h⟩ := updateMember_eq key f s
  rw [h]
  rfl

theorem members_updateMember (key : String) (f : Setting → Setting) (s : Setting) :
    (s.updateMember key f).members = updateKey key f s.members := by
  obtain ⟨origin, h⟩ := updateMember_eq key f s
  rw [h]
  rfl

theorem updateKey_eq (key : String) (f : Setting → Setting) (l : List (String × Setting)) :
    updateKey key f l = alterEntry key (fun old => f (old.getD nil)) l := by
  induction l with
  | nil => rfl
  | cons entry rest ih =>
    obtain ⟨k, v⟩ := entry
    rw [updateKey, alterEntry, ih]
    rfl

theorem member?_updateMember (key name : String) (f : Setting → Setting) (s : Setting) :
    (s.updateMember key f).member? name =
      if key = name then some (f ((s.member? key).getD nil)) else s.member? name := by
  rw [member?, members_updateMember, updateKey_eq, lookup_alterEntry]
  rfl

theorem merge_of_not_table (h : s.isTable = false) (old : Setting) : merge s old = s := by
  cases s with
  | leaf => rw [merge]
  | list => rw [merge]
  | table => cases h

theorem mergeMembers_eq_foldl (l : List (String × Setting)) (s : Setting) :
    mergeMembers l s = l.foldl (fun s m => s.updateMember m.1 m.2.merge) s := by
  induction l generalizing s with
  | nil => rw [mergeMembers]; rfl
  | cons entry rest ih =>
    obtain ⟨key, v⟩ := entry
    rw [mergeMembers, ih]
    rfl

theorem member?_mergeMembers (h : ∀ m ∈ l, m.2.isTable = false) (name : String) (s : Setting) :
    (mergeMembers l s).member? name = (l.reverse.lookup name).or (s.member? name) := by
  rw [mergeMembers_eq_foldl, List.lookup_eq_findSome?]
  refine view_foldl (fun s m hm => ?_) s
  rw [member?_updateMember, merge_of_not_table (h m hm)]
  by_cases hn : m.1 = name
  · rw [if_pos hn, hn, beq_self_eq_true]
    rfl
  · rw [if_neg hn, beq_eq_false_iff_ne.mpr (Ne.symm hn)]
    rfl

/-- What the members of a table are laid over: a table in the place of nil, else what is there. -/
theorem merge_table (origin : Option String) (l : List (String × Setting)) (old : Setting) :
    ∃ base, merge (.table origin l) old = mergeMembers l base ∧ base.members = old.members ∧
      (old = nil ∨ old.isTable → base.isTable) := by
  cases old with
  | leaf _ value =>
    cases value with
    | nil => exact ⟨.table none [], by unfold merge; rfl, rfl, fun _ => rfl⟩
    | _ => exact ⟨_, by unfold merge; rfl, rfl, by simp [nil, isTable]⟩
  | list => exact ⟨_, by unfold merge; rfl, rfl, by simp [nil, isTable]⟩
  | table => exact ⟨_, by unfold merge; rfl, rfl, fun _ => rfl⟩

theorem isTable_merge_table (origin : Option String) (l : List (String × Setting))
    (h : old = nil ∨ old.isTable) : (merge (.table origin l) old).isTable := by
  obtain ⟨base, hmerge, -, htable⟩ := merge_table origin l old
  rw [hmerge, mergeMembers_eq_foldl]
  exact List.foldlRecOn (motive := fun s => s.isTable) l _ (htable h) fun s _ m _ =>
    isTable_updateMember m.1 m.2.merge s

theorem member?_merge_table (h : ∀ m ∈ l, m.2.isTable = false) (name : String)
    (origin : Option String) (old : Setting) :
    (merge (.table origin l) old).member? name = (l.reverse.lookup name).or (old.member? name) := by
  obtain ⟨base, hmerge, hbase, -⟩ := merge_table origin l old
  rw [hmerge, member?_mergeMembers h, member?, hbase]
  rfl

/-- Every key stands among the members once, and every member is as it should be. -/
structure Orderly (Fits : String → Setting → Prop) (s : Setting) : Prop where
  distinct : (s.members.map Prod.fst).Nodup
  every : ∀ m ∈ s.members, Fits m.1 m.2

namespace Orderly

variable {Fits : String → Setting → Prop}

theorem of_members_eq (hm : s.members = old.members) (h : Orderly Fits old) : Orderly Fits s :=
  ⟨hm ▸ h.distinct, hm ▸ h.every⟩

theorem of_no_members (h : s.members = []) : Orderly Fits s :=
  ⟨h ▸ List.nodup_nil, fun m hm => by rw [h] at hm; cases hm⟩

theorem fits (h : Orderly Fits s) {v : Setting} (hv : s.member? name = some v) : Fits name v :=
  h.every _ (mem_of_lookup hv)

theorem member?_of_mem (h : Orderly Fits s) {m : String × Setting} (hm : m ∈ s.members) :
    s.member? m.1 = some m.2 :=
  lookup_of_mem h.distinct hm

theorem updateMember (h : Orderly Fits s) (hf : Fits key (f ((s.member? key).getD nil))) :
    Orderly Fits (s.updateMember key f) := by
  refine ⟨?_, fun m hm => ?_⟩
  · rw [members_updateMember, updateKey_eq]
    exact nodup_alterEntry _ _ h.distinct
  · rw [members_updateMember, updateKey_eq] at hm
    rcases mem_alterEntry hm with rfl | hm
    · exact hf
    · exact h.every m hm

theorem mergeMembers (h : Orderly Fits s) (hl : ∀ m ∈ l, ∀ old, Fits m.1 (merge m.2 old)) :
    Orderly Fits (mergeMembers l s) := by
  rw [mergeMembers_eq_foldl]
  exact List.foldlRecOn l _ h fun s hs m hm => hs.updateMember (hl m hm _)

theorem merge_table (h : Orderly Fits old) (origin : Option String)
    (hl : ∀ m ∈ l, ∀ old, Fits m.1 (merge m.2 old)) :
    Orderly Fits (merge (.table origin l) old) := by
  obtain ⟨base, hmerge, hbase, -⟩ := Setting.merge_table origin l old
  rw [hmerge]
  exact (of_members_eq hbase h).mergeMembers hl

end Orderly

end GitInvocation.Setting
