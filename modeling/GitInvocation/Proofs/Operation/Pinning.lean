import GitInvocation.Operation

/-!
# What the configuration in force can change

The configuration is looked at in two places only: a transfer forces each of two settings to zero
unless it is pinned there already. The overrides stand in front of the command, so the text of a
transfer is that of one with both settings pinned, behind an override for each setting that is
not. All other operations have the same text under every configuration.
-/
namespace GitInvocation

namespace Draft

variable {d : Draft}

/-- Overrides are written in front of the command, each with a space behind it. -/
theorem text_overrides (hl : d.lockFree = false) :
    d.text = String.join (d.overrides.map fun o => "-c " ++ o.text ++ " ") ++
      { d with overrides := [] }.text := by
  obtain ⟨command, lockFree, overrides, tokens⟩ := d
  obtain rfl : lockFree = false := hl
  -- The first override is a flag and a part of its own, and the command always comes behind it.
  induction overrides with
  | nil => rw [List.map_nil, String.join_nil, String.empty_append]
  | cons o overrides ih =>
    have hne : (Draft.mk command false overrides tokens).parts ≠ [] := by simp [parts]
    have hflag : "-c " = "-c" ++ " " := by decide
    calc (Draft.mk command false (o :: overrides) tokens).text
        = "-c" ++ " " ++ (o.text ++ " " ++ (Draft.mk command false overrides tokens).text) := by
          rw [Draft.text, Draft.text, ← String.intercalate_cons_of_ne_nil hne]
          exact String.intercalate_cons_cons
      _ = _ := by
          rw [ih, hflag]
          simp only [List.map_cons, String.join_cons, String.append_assoc]

/-- Without overrides the command comes first, and a space behind it when anything follows. -/
theorem text_bare (hl : d.lockFree = false) (ho : d.overrides = [])
    (ht : d.tokens.filterMap Token.text? ≠ []) :
    d.text = d.command ++ " " ++ " ".intercalate (d.tokens.filterMap Token.text?) := by
  rw [Draft.text, parts, hl, ho]
  exact String.intercalate_cons_of_ne_nil ht

end Draft

namespace Snapshot

variable {s : Snapshot}

/-- The value in force is zero, whatever white space stands around it. -/
def Pinned (s : Snapshot) (key : String) : Prop := (s.get? key).map Text.trim = some "0"

instance (s : Snapshot) (key : String) : Decidable (s.Pinned key) :=
  inferInstanceAs (Decidable (_ = _))

/-- The text that forces a setting to zero, if it has to be forced. -/
def forced (s : Snapshot) (key : String) : String :=
  if s.Pinned key then "" else "-c " ++ key ++ "=0 "

/-- The settings that a transfer wants to be zero. -/
def fetchParallel : String := "fetch.parallel"
def submoduleJobs : String := "submodule.fetchJobs"

theorem missing_cons (s : Snapshot) (o : Override) (rest : List Override) :
    s.missing (o :: rest) = (if s.meets o then [] else [o]) ++ s.missing rest := by
  rw [missing, List.filter_cons]
  cases s.meets o <;> rfl

theorem meets_zero_iff {key : String} : s.meets ⟨key, "0"⟩ ↔ s.Pinned key := beq_iff_eq

/-- The overrides of a transfer as text, one for each setting that is not pinned. -/
theorem join_missing (s : Snapshot) :
    String.join ((s.missing sequentialFetching).map fun o => "-c " ++ o.text ++ " ") =
      s.forced fetchParallel ++ s.forced submoduleJobs := by
  have hone : ∀ key, String.join ((if s.meets ⟨key, "0"⟩ then [] else [⟨key, "0"⟩]).map
      fun o : Override => "-c " ++ o.text ++ " ") = s.forced key := by
    intro key
    simp only [meets_zero_iff, forced]
    split
    · rfl
    · have hvalue : "=0 " = "=" ++ "0" ++ " " := by decide
      rw [hvalue]
      simp [Override.text, String.append_assoc]
  have hnil : s.missing [] = [] := rfl
  rw [sequentialFetching, missing_cons, missing_cons, hnil, List.append_nil, List.map_append,
    String.join_append, ← hone, ← hone]
  rfl

end Snapshot

open Snapshot (fetchParallel submoduleJobs sequentialFetching)

/-- Drafts of one command, one for each configuration, that differ in their overrides alone. -/
structure ForcesOnly (command : String) (draft : Snapshot → Draft) : Prop where
  command_eq : ∀ s, (draft s).command = command
  overrides : ∀ s t, draft s = { draft t with overrides := s.missing sequentialFetching }
  lockFree : ∀ s, (draft s).lockFree = false
  tokens : ∀ s, (draft s).tokens.filterMap Token.text? ≠ []

/-- The text behind the overrides does not depend on the configuration. -/
theorem ForcesOnly.exists_text {command : String} {draft : Snapshot → Draft}
    (h : ForcesOnly command draft) :
    ∃ rest, ∀ s, (draft s).text =
      s.forced fetchParallel ++ s.forced submoduleJobs ++ (command ++ " " ++ rest) := by
  refine ⟨" ".intercalate ((draft .empty).tokens.filterMap Token.text?), fun s => ?_⟩
  have hbare : ({ draft .empty with overrides := [] } : Draft).text =
      command ++ " " ++ " ".intercalate ((draft .empty).tokens.filterMap Token.text?) := by
    rw [← h.command_eq .empty]
    exact Draft.text_bare (h.lockFree .empty) rfl (h.tokens .empty)
  rw [Draft.text_overrides (h.lockFree s), h.overrides s .empty, Snapshot.join_missing, ← hbare]

theorem Fetch.forcesOnly (r : Fetch) : ForcesOnly "fetch" r.draft where
  command_eq s := by
    unfold Fetch.draft
    cases r.unshallow <;> rfl
  overrides s t := by
    unfold Fetch.draft
    cases r.unshallow <;> rfl
  lockFree s := by
    unfold Fetch.draft
    cases r.unshallow <;> rfl
  tokens s := by
    unfold Fetch.draft
    cases r.unshallow <;> exact List.cons_ne_nil _ _

theorem Pull.forcesOnly (r : Pull) : ForcesOnly "pull" r.draft where
  command_eq s := by
    unfold Pull.draft
    cases r.rebase <;> cases r.unshallow <;> rfl
  overrides s t := by
    unfold Pull.draft
    cases r.rebase <;> cases r.unshallow <;> rfl
  lockFree s := by
    unfold Pull.draft
    cases r.rebase <;> cases r.unshallow <;> rfl
  tokens s := by
    unfold Pull.draft
    cases r.rebase <;> cases r.unshallow <;> exact List.cons_ne_nil _ _

namespace Operation

/-- The operations that fetch from another repository. -/
def Transfers : Operation → Prop
  | .fetch _ | .pull _ => True
  | _ => False

theorem arguments_of_transfers {o : Operation} (h : o.Transfers) :
    ∃ rest, ∀ s, o.arguments s =
      .ok (s.forced fetchParallel ++ s.forced submoduleJobs ++ (o.name ++ " " ++ rest)) := by
  cases o with
  | fetch r =>
    obtain ⟨rest, hrest⟩ := r.forcesOnly.exists_text
    exact ⟨rest, fun s => congrArg Except.ok (hrest s)⟩
  | pull r =>
    obtain ⟨rest, hrest⟩ := r.forcesOnly.exists_text
    exact ⟨rest, fun s => congrArg Except.ok (hrest s)⟩
  | _ => exact absurd h id

theorem arguments_of_not_transfers {o : Operation} (h : ¬ o.Transfers) (s t : Snapshot) :
    o.arguments s = o.arguments t := by
  cases o with
  | fetch r => exact absurd trivial h
  | pull r => exact absurd trivial h
  | _ => rfl

/-- The configuration counts only in that it pins the two settings of a transfer or not. Without
a transfer it does not count at all. A transfer has the text it has with both settings pinned,
which starts with the command, behind an override for each setting that is not pinned. -/
theorem configuration_counts_in_overrides (o : Operation) (s t : Snapshot) :
    ((s.Pinned fetchParallel ↔ t.Pinned fetchParallel) →
      (s.Pinned submoduleJobs ↔ t.Pinned submoduleJobs) → o.arguments s = o.arguments t) ∧
    (¬ o.Transfers → o.arguments s = o.arguments t) ∧
    (o.Transfers → t.Pinned fetchParallel → t.Pinned submoduleJobs →
      ∃ rest, o.arguments t = .ok (o.name ++ " " ++ rest) ∧
        o.arguments s =
          .ok (s.forced fetchParallel ++ s.forced submoduleJobs ++ (o.name ++ " " ++ rest))) := by
  refine ⟨fun hp hj => ?_, fun h => arguments_of_not_transfers h s t, fun h hp hj => ?_⟩
  · by_cases h : o.Transfers
    · obtain ⟨rest, hrest⟩ := arguments_of_transfers h
      simp only [hrest, Snapshot.forced, hp, hj]
    · exact arguments_of_not_transfers h s t
  · obtain ⟨rest, hrest⟩ := arguments_of_transfers h
    refine ⟨rest, ?_, hrest s⟩
    rw [hrest t, Snapshot.forced, Snapshot.forced, if_pos hp, if_pos hj, String.empty_append,
      String.empty_append]

/-- A fetch where one setting is pinned, in a spelling of its own, and the other is not. -/
theorem configuration_counts_in_overrides_halfPinned :
    let o := Operation.fetch ⟨"origin", none, none, .exclude, false, .off⟩
    let s := Snapshot.ofList [("Fetch.Parallel", " 0\t"), ("submodule.fetchjobs", "4")]
    let t := Snapshot.ofList [("fetch.parallel", "0"), ("SUBMODULE.fetchJobs", "0 ")]
    o.Transfers ∧ t.Pinned fetchParallel ∧ t.Pinned submoduleJobs ∧
      s.forced fetchParallel = "" ∧ s.forced submoduleJobs = "-c submodule.fetchJobs=0 " ∧
      ∃ rest, o.arguments t = .ok (o.name ++ " " ++ rest) ∧
        o.arguments s =
          .ok (s.forced fetchParallel ++ s.forced submoduleJobs ++ (o.name ++ " " ++ rest)) := by
  intro o s t
  have hp : t.Pinned fetchParallel := by decide +kernel
  have hj : t.Pinned submoduleJobs := by decide +kernel
  exact ⟨trivial, hp, hj, by decide +kernel, by decide +kernel,
    (configuration_counts_in_overrides o s t).2.2 trivial hp hj⟩

end Operation

end GitInvocation
