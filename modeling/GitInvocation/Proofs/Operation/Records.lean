import GitInvocation.Operation
import GitInvocation.Proofs.Json.Records
import GitInvocation.Proofs.Operation.FilterText
import GitInvocation.Request

/-!
# The records of the operations

Every format in use is lawful, and the fields of each operation have names of their own that are
different from the name of the member that holds the operation. What is left to say of a record
follows from these two facts.
-/
namespace GitInvocation

open Json (Format)
open Json.Format (lawful_bool lawful_choice lawful_list lawful_optional lawful_string
  lawful_uint32)

section Formats

variable {n : Nat}

theorem given_string : Format.string.Given := fun _ => Json.noConfusion

theorem given_bool : Format.bool.Given := fun _ => Json.noConfusion

theorem given_uint32 : Format.uint32.Given := fun _ => Json.noConfusion

theorem lawful_text? : Format.string.optional.Lawful n := lawful_optional lawful_string given_string

theorem lawful_tags : TagFollowing.choice.format.Lawful n :=
  lawful_choice TagFollowing.name (fun _ => rfl) fun t => by cases t <;> rfl

theorem lawful_pruning : Pruning.choice.format.Lawful n :=
  lawful_choice Pruning.name (fun _ => rfl) fun p => by cases p <;> rfl

theorem lawful_tagForce : TagForce.choice.format.Lawful n :=
  lawful_choice TagForce.name (fun _ => rfl) fun f => by cases f <;> rfl

theorem lawful_localChanges : LocalChanges.choice.format.Lawful n :=
  lawful_choice LocalChanges.name (fun _ => rfl) fun c => by cases c <;> rfl

theorem lawful_outcome : BisectOutcome.choice.format.Lawful n :=
  lawful_choice BisectOutcome.name (fun _ => rfl) fun o => by cases o <;> rfl

theorem lawful_resetMode : ResetMode.choice.format.Lawful n :=
  lawful_choice ResetMode.name (fun _ => rfl) fun m => by cases m <;> rfl

theorem lawful_cleanMode : CleanMode.choice.format.Lawful n :=
  lawful_choice CleanMode.name (fun _ => rfl) fun m => by cases m <;> rfl

theorem lawful_untracked : UntrackedFiles.choice.format.Lawful n :=
  lawful_choice UntrackedFiles.name (fun _ => rfl) fun u => by cases u <;> rfl

theorem lawful_ignored : IgnoredSubmodules.choice.format.Lawful n :=
  lawful_choice IgnoredSubmodules.name (fun _ => rfl) fun i => by cases i <;> rfl

theorem lawful_order : RefOrder.choice.format.Lawful n :=
  lawful_choice RefOrder.name (fun _ => rfl) fun o => by cases o <;> rfl

theorem lawful_direction : Direction.choice.format.Lawful n :=
  lawful_choice Direction.name (fun _ => rfl) fun d => by cases d <;> rfl

theorem lawful_filter : RefFilter.format.Lawful n :=
  ⟨RefFilter.parse_text, fun f => .string f.text, fun _ => Nat.zero_le n⟩

/-- The name of a branch is the content of its variant. -/
theorem lawful_checkout : FirstCheckout.choice.format.Lawful (n + 1) := by
  refine ⟨fun c => ?_, fun c => ?_, fun c => ?_⟩
  · cases c <;> rfl
  · cases c with
    | remoteHead => exact .string _
    | nothing => exact .string _
    | branch name =>
      refine .object fun m hm => ?_
      rw [List.mem_singleton.mp hm]
      exact .string name
  · cases c with
    | remoteHead => exact Nat.zero_le _
    | nothing => exact Nat.zero_le _
    | branch name => exact Nat.succ_le_succ (Nat.zero_le n)

theorem lawful_texts : Format.string.list.Lawful (n + 1) := lawful_list lawful_string

theorem lawful_bool? : Format.bool.optional.Lawful n := lawful_optional lawful_bool given_bool

theorem lawful_count? : Format.uint32.optional.Lawful n :=
  lawful_optional lawful_uint32 given_uint32

theorem lawful_overrides : Override.record.format.list.Lawful (n + 2) := by
  have hrecord : Override.record.Lawful n :=
    ⟨.needs lawful_string <| .needs lawful_string .done, by decide⟩
  exact lawful_list (Json.Record.lawful_format hrecord)

end Formats

section Records

/-- The record has lawful fields, none of them under the name that operations are told by. -/
structure Fielded {α : Type} (r : Json.Record α) : Prop where
  lawful : r.Lawful 2
  untagged : Request.tag ∉ r.layout.names

theorem Fetch.fielded : Fielded record where
  lawful :=
    ⟨.needs lawful_string <| .takes lawful_text? <| .takes lawful_text? <|
      .takes lawful_tags <| .takes lawful_bool <| .takes lawful_pruning <| .done, by decide⟩
  untagged := by decide

theorem Pull.fielded : Fielded record where
  lawful :=
    ⟨.needs lawful_string <| .takes lawful_text? <| .takes lawful_bool <|
      .takes lawful_tags <| .takes lawful_bool <| .takes lawful_pruning <| .done, by decide⟩
  untagged := by decide

theorem Clone.fielded : Fielded record where
  lawful :=
    ⟨.needs lawful_string <| .needs lawful_string <| .takes lawful_bool <|
      .takes lawful_bool <| .takes lawful_checkout <| .takes lawful_count? <|
      .takes lawful_bool? <| .done, by decide⟩
  untagged := by decide

theorem PushLocal.fielded : Fielded record where
  lawful :=
    ⟨.needs lawful_string <| .needs lawful_string <| .needs lawful_string <|
      .takes lawful_bool <| .done, by decide⟩
  untagged := by decide

theorem PushTag.fielded : Fielded record where
  lawful :=
    ⟨.needs lawful_string <| .takes lawful_string <| .takes lawful_bool <|
      .takes lawful_tagForce <| .done, by decide⟩
  untagged := by decide

theorem Checkout.fielded : Fielded record where
  lawful :=
    ⟨.needs lawful_string <| .takes lawful_localChanges <| .done, by decide⟩
  untagged := by decide

theorem Branch.fielded : Fielded record where
  lawful :=
    ⟨.needs lawful_string <| .takes lawful_text? <| .takes lawful_bool <| .done, by decide⟩
  untagged := by decide

theorem MergedBranches.fielded : Fielded record where
  lawful :=
    ⟨.takes lawful_bool <| .takes lawful_bool <| .takes lawful_text? <| .done, by decide⟩
  untagged := by decide

theorem Merge.fielded : Fielded record where
  lawful :=
    ⟨.needs lawful_string <| .takes lawful_bool <| .takes lawful_text? <|
      .takes lawful_bool <| .takes lawful_bool <| .takes lawful_bool <| .takes lawful_text? <|
      .takes lawful_uint32 <| .done, by decide⟩
  untagged := by decide

theorem Rebase.fielded : Fielded record where
  lawful :=
    ⟨.needs lawful_string <| .takes lawful_bool <| .takes lawful_bool <|
      .takes lawful_bool <| .takes lawful_bool <| .takes lawful_bool <| .takes lawful_bool <|
      .takes lawful_text? <| .takes lawful_text? <| .takes lawful_bool <| .done, by decide⟩
  untagged := by decide

theorem Revert.fielded : Fielded record where
  lawful :=
    ⟨.needs lawful_string <| .takes lawful_bool <| .takes lawful_uint32 <| .done, by decide⟩
  untagged := by decide

theorem BisectStep.fielded : Fielded record where
  lawful :=
    ⟨.needs lawful_outcome <| .takes lawful_texts <| .done, by decide⟩
  untagged := by decide

theorem Remove.fielded : Fielded record where
  lawful :=
    ⟨.takes lawful_bool <| .takes lawful_bool <| .takes lawful_texts <| .done, by decide⟩
  untagged := by decide

theorem Reset.fielded : Fielded record where
  lawful :=
    ⟨.takes lawful_resetMode <| .takes lawful_text? <| .takes lawful_text? <| .done, by decide⟩
  untagged := by decide

theorem Clean.fielded : Fielded record where
  lawful :=
    ⟨.takes lawful_cleanMode <| .takes lawful_bool <| .takes lawful_bool <|
      .takes lawful_text? <| .takes lawful_text? <| .done, by decide⟩
  untagged := by decide

theorem CleanSubmodules.fielded : Fielded record where
  lawful :=
    ⟨.takes lawful_cleanMode <| .takes lawful_bool <| .takes lawful_bool <|
      .takes lawful_text? <| .done, by decide⟩
  untagged := by decide

theorem Stash.fielded : Fielded record where
  lawful :=
    ⟨.takes lawful_bool <| .takes lawful_bool <| .takes lawful_text? <|
      .takes lawful_texts <| .done, by decide⟩
  untagged := by decide

theorem ApplyDiff.fielded : Fielded record where
  lawful :=
    ⟨.needs lawful_string <| .takes lawful_bool <| .done, by decide⟩
  untagged := by decide

theorem ApplyMailbox.fielded : Fielded record where
  lawful :=
    ⟨.takes lawful_bool <| .takes lawful_bool <| .takes lawful_text? <| .done, by decide⟩
  untagged := by decide

theorem ChangedFiles.fielded : Fielded record where
  lawful :=
    ⟨.takes lawful_bool <| .takes lawful_untracked <| .takes lawful_ignored <|
      .takes lawful_bool <| .done, by decide⟩
  untagged := by decide

theorem Changes.fielded : Fielded record where
  lawful :=
    ⟨.needs lawful_string <| .takes lawful_text? <| .takes lawful_bool <|
      .takes lawful_string <| .takes lawful_bool <| .done, by decide⟩
  untagged := by decide

theorem ListRefs.fielded : Fielded record where
  lawful :=
    ⟨.takes lawful_filter <| .takes lawful_bool <| .takes lawful_order <|
      .takes lawful_direction <| .takes lawful_count? <| .done, by decide⟩
  untagged := by decide

theorem SyncSubmodule.fielded : Fielded record where
  lawful :=
    ⟨.takes lawful_text? <| .done, by decide⟩
  untagged := by decide

theorem AddSubmodule.fielded : Fielded record where
  lawful :=
    ⟨.needs lawful_string <| .needs lawful_string <| .takes lawful_text? <|
      .takes lawful_bool <| .takes lawful_overrides <| .done, by decide⟩
  untagged := by decide

theorem SetConfig.fielded : Fielded record where
  lawful :=
    ⟨.needs lawful_string <| .takes lawful_string <| .takes lawful_bool <| .done, by decide⟩
  untagged := by decide

theorem UnsetConfig.fielded : Fielded record where
  lawful :=
    ⟨.needs lawful_string <| .takes lawful_bool <| .done, by decide⟩
  untagged := by decide

end Records

end GitInvocation
