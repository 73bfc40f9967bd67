import GitInvocation.Proofs.Operation.Records

/-!
# The spellings of a request

A request may be an object in which the name of the operation and its fields stand in any order
and among other members, or an array that begins with the name. Fields with the default value may
be left out. All texts that spell such a value are read as the same operation, and so is the text
that an operation is written as.
-/
namespace GitInvocation

namespace Operation

/-- The record that holds the fields of an operation, and the value that it has; there is none for
an operation without fields. -/
def fields? : Operation → Option ((α : Type) × Json.Record α × α)
  | .fetch r => some ⟨_, Fetch.record, r⟩
  | .pull r => some ⟨_, Pull.record, r⟩
  | .clone r => some ⟨_, Clone.record, r⟩
  | .checkout r => some ⟨_, Checkout.record, r⟩
  | .branch r => some ⟨_, Branch.record, r⟩
  | .mergedBranches r => some ⟨_, MergedBranches.record, r⟩
  | .pushLocal r => some ⟨_, PushLocal.record, r⟩
  | .pushTag r => some ⟨_, PushTag.record, r⟩
  | .remove r => some ⟨_, Remove.record, r⟩
  | .reset r => some ⟨_, Reset.record, r⟩
  | .clean r => some ⟨_, Clean.record, r⟩
  | .cleanSubmodules r => some ⟨_, CleanSubmodules.record, r⟩
  | .merge r => some ⟨_, Merge.record, r⟩
  | .continueMerge => none
  | .abortMerge => none
  | .applyDiff r => some ⟨_, ApplyDiff.record, r⟩
  | .applyMailbox r => some ⟨_, ApplyMailbox.record, r⟩
  | .revert r => some ⟨_, Revert.record, r⟩
  | .rebase r => some ⟨_, Rebase.record, r⟩
  | .bisectStep r => some ⟨_, BisectStep.record, r⟩
  | .changedFiles r => some ⟨_, ChangedFiles.record, r⟩
  | .changes r => some ⟨_, Changes.record, r⟩
  | .listRefs r => some ⟨_, ListRefs.record, r⟩
  | .stash r => some ⟨_, Stash.record, r⟩
  | .syncSubmodule r => some ⟨_, SyncSubmodule.record, r⟩
  | .addSubmodule r => some ⟨_, AddSubmodule.record, r⟩
  | .setConfig r => some ⟨_, SetConfig.record, r⟩
  | .unsetConfig r => some ⟨_, UnsetConfig.record, r⟩

/-- The members give the fields of the operation. An operation without fields takes any members. -/
def Gives (o : Operation) (members : List (String × Json)) : Prop :=
  match o.fields? with
  | some ⟨_, r, a⟩ => r.Gives a members
  | none => True

/-- The items are the fields of the operation. -/
def GivesItems (o : Operation) (items : List Json) : Prop :=
  match o.fields? with
  | some ⟨_, r, a⟩ => r.GivesItems a items
  | none => items = []

/-- The reader takes the operation from what gives it, and from what the operation is written as. -/
structure ReadBy (o : Operation) (read : Json.Body → Except DecodeError Operation) : Prop where
  ofMembers : ∀ members, o.Gives members →
    read (.members (members.filter fun m => m.1 ≠ Request.tag)) = .ok o
  ofItems : ∀ items, o.GivesItems items → read (.items items) = .ok o
  written : o.Gives ((Request.tag, .string o.name) :: o.members)
  untagged : ∀ m ∈ o.members, m.1 ≠ Request.tag
  bounded : ∀ m ∈ o.members, m.2.Writable ∧ m.2.depth ≤ 2

theorem readBy_record {α : Type} {r : Json.Record α} (hr : Fielded r) {make : α → Operation}
    {a : α} {o : Operation} (ho : o = make a) (hf : o.fields? = some ⟨α, r, a⟩)
    (hm : o.members = r.members a) : o.ReadBy (read r make) := by
  have hgives : ∀ members, o.Gives members = r.Gives a members := fun _ => by rw [Gives, hf]
  have hitems : ∀ items, o.GivesItems items = r.GivesItems a items :=
    fun _ => by rw [GivesItems, hf]
  refine ⟨fun members h => ?_, fun items h => ?_, ?_, fun m h => ?_, fun m h => ?_⟩
  · rw [hgives] at h
    have hothers : r.Gives a (members.filter fun m => m.1 ≠ Request.tag) :=
      Json.Layout.Gives.congr h fun name hn => Json.Layout.filter_other members
        fun he => hr.untagged (he ▸ hn)
    rw [read, Json.Record.decode_members hr.lawful hothers, ho]
    rfl
  · rw [hitems] at h
    rw [read, Json.Record.decode_items hr.lawful h, ho]
    rfl
  · rw [hgives, hm]
    refine Json.Layout.Gives.congr (Json.Record.gives_members hr.lawful a) fun name hn => ?_
    have hne : Request.tag ≠ name := fun he => hr.untagged (he ▸ hn)
    exact List.filter_cons_of_neg (by simpa using hne)
  · rw [hm] at h
    exact fun he => hr.untagged (he ▸ Json.Layout.mem_names h)
  · rw [hm] at h
    exact Json.Layout.writable_members hr.lawful.fields (r.toRow a) m h

theorem readBy_bare {o : Operation} (hf : o.fields? = none) (hm : o.members = []) :
    o.ReadBy (readBare o) := by
  refine ⟨fun _ _ => rfl, fun items h => ?_, ?_, fun m h => ?_, fun m h => ?_⟩
  · rw [GivesItems, hf] at h
    rw [h]
    rfl
  · rw [Gives, hf]
    trivial
  · rw [hm] at h
    exact absurd h List.not_mem_nil
  · rw [hm] at h
    exact absurd h List.not_mem_nil

/-- The catalog has a reader for every operation under its name. -/
theorem exists_readBy (o : Operation) :
    ∃ read, catalog.lookup o.name = some read ∧ o.ReadBy read := by
  cases o with
  | fetch r => exact ⟨_, rfl, readBy_record Fetch.fielded rfl rfl rfl⟩
  | pull r => exact ⟨_, rfl, readBy_record Pull.fielded rfl rfl rfl⟩
  | clone r => exact ⟨_, rfl, readBy_record Clone.fielded rfl rfl rfl⟩
  | checkout r => exact ⟨_, rfl, readBy_record Checkout.fielded rfl rfl rfl⟩
  | branch r => exact ⟨_, rfl, readBy_record Branch.fielded rfl rfl rfl⟩
  | mergedBranches r => exact ⟨_, rfl, readBy_record MergedBranches.fielded rfl rfl rfl⟩
  | pushLocal r => exact ⟨_, rfl, readBy_record PushLocal.fielded rfl rfl rfl⟩
  | pushTag r => exact ⟨_, rfl, readBy_record PushTag.fielded rfl rfl rfl⟩
  | remove r => exact ⟨_, rfl, readBy_record Remove.fielded rfl rfl rfl⟩
  | reset r => exact ⟨_, rfl, readBy_record Reset.fielded rfl rfl rfl⟩
  | clean r => exact ⟨_, rfl, readBy_record Clean.fielded rfl rfl rfl⟩
  | cleanSubmodules r => exact ⟨_, rfl, readBy_record CleanSubmodules.fielded rfl rfl rfl⟩
  | merge r => exact ⟨_, rfl, readBy_record Merge.fielded rfl rfl rfl⟩
  | continueMerge => exact ⟨_, rfl, readBy_bare rfl rfl⟩
  | abortMerge => exact ⟨_, rfl, readBy_bare rfl rfl⟩
  | applyDiff r => exact ⟨_, rfl, readBy_record ApplyDiff.fielded rfl rfl rfl⟩
  | applyMailbox r => exact ⟨_, rfl, readBy_record ApplyMailbox.fielded rfl rfl rfl⟩
  | revert r => exact ⟨_, rfl, readBy_record Revert.fielded rfl rfl rfl⟩
  | rebase r => exact ⟨_, rfl, readBy_record Rebase.fielded rfl rfl rfl⟩
  | bisectStep r => exact ⟨_, rfl, readBy_record BisectStep.fielded rfl rfl rfl⟩
  | changedFiles r => exact ⟨_, rfl, readBy_record ChangedFiles.fielded rfl rfl rfl⟩
  | changes r => exact ⟨_, rfl, readBy_record Changes.fielded rfl rfl rfl⟩
  | listRefs r => exact ⟨_, rfl, readBy_record ListRefs.fielded rfl rfl rfl⟩
  | stash r => exact ⟨_, rfl, readBy_record Stash.fielded rfl rfl rfl⟩
  | syncSubmodule r => exact ⟨_, rfl, readBy_record SyncSubmodule.fielded rfl rfl rfl⟩
  | addSubmodule r => exact ⟨_, rfl, readBy_record AddSubmodule.fielded rfl rfl rfl⟩
  | setConfig r => exact ⟨_, rfl, readBy_record SetConfig.fielded rfl rfl rfl⟩
  | unsetConfig r => exact ⟨_, rfl, readBy_record UnsetConfig.fielded rfl rfl rfl⟩

end Operation

end GitInvocation
