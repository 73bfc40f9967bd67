import GitInvocation.Proofs.Outcomes
import GitInvocation.Proofs.Rendering.Precedence
import GitInvocation.Proofs.Settings.Reading
import GitInvocation.Proofs.Snapshot.Lines

/-!
# Entries that have been checked

Loading checks the entries of the settings one by one, but the configuration in force is read from
all of them at once, as the lines of one listing. An entry that passes the check is one line with
one key, so the two agree: the entries take effect one after the other, each as it does alone, and
nothing but the listing in a file can still be at fault.
-/
namespace GitInvocation

open Snapshot

namespace Snapshot

/-- A text of one line that is not blank is at fault only when its key is missing. -/
theorem keyed_of_ofListing {e : String} {s : Snapshot} (hpresent : Text.blank e = false)
    (hline : '\n' ∉ e.toList) (h : ofListing e = .ok s) : SingleEntry e := by
  have hne : e ≠ "" := by
    rintro rfl
    exact absurd hpresent (by decide)
  rw [ofListing_eq, listingFaults, listingLines_single hne hline] at h
  obtain ⟨hfaults, -⟩ := judged_eq_ok.mp h
  refine ⟨hpresent, hline, ?_⟩
  by_contra hkey
  exact lineFaults_ne_nil.mpr ⟨_, List.mem_singleton_self _, eq_true_of_ne_false hkey⟩ hfaults

/-- The check passes exactly when every entry is a single one. -/
theorem checkEntries_eq_ok {n : Nat} {entries : List String} :
    checkEntries n entries = .ok () ↔ ∀ e ∈ entries, SingleEntry e := by
  induction entries generalizing n with
  | nil => simp [checkEntries]
  | cons e entries ih =>
    rw [checkEntries, List.forall_mem_cons]
    by_cases hshape : Text.blank e ∨ e.toList.contains '\n'
    · rw [if_pos hshape]
      refine iff_of_false nofun fun hall => ?_
      rcases hshape with hblank | hline
      · exact Bool.eq_false_iff.mp hall.1.present hblank
      · exact hall.1.oneLine (List.contains_iff_mem.mp hline)
    · rw [if_neg hshape]
      obtain ⟨hblank, hline⟩ := not_or.mp hshape
      cases hlist : ofListing e with
      | error fault =>
        refine iff_of_false nofun fun hall => ?_
        rw [ofListing_single hall.1] at hlist
        cases hlist
      | ok s =>
        have hsingle : SingleEntry e := keyed_of_ofListing (eq_false_of_ne_true hblank)
          (fun hm => hline (List.contains_iff_mem.mpr hm)) hlist
        exact ih.trans (and_iff_right hsingle).symm

end Snapshot

namespace Loader

/-- Settings are loaded only with entries that pass the check. -/
theorem singleEntries_of_load {l : Loader} {files : FileTree}
    {environment : List (String × String)} {settings : Settings}
    (h : l.load files environment = .ok settings) :
    ∀ e ∈ settings.snapshotValues, SingleEntry e := by
  rw [load_eq_bind] at h
  cases htree : l.tree files environment with
  | error fault => rw [htree] at h; cases h
  | ok tree =>
    rw [htree, Except.bind, Setting.settings] at h
    cases hmembers : Settings.ofMembers tree.members with
    | error fault => rw [hmembers] at h; cases h
    | ok read =>
      rw [hmembers, Except.mapError, Except.bind] at h
      cases hcheck : checkEntries 0 read.snapshotValues with
      | error fault => rw [hcheck] at h; cases h
      | ok =>
        rw [hcheck] at h
        cases h
        exact checkEntries_eq_ok.mp hcheck

end Loader

namespace Settings

/-- With single entries, the configuration in force is the listing with the entries set on top of
it, one after the other. -/
theorem loadSnapshot_singles {s : Settings} (h : ∀ e ∈ s.snapshotValues, SingleEntry e)
    (files : FileTree) : s.loadSnapshot files =
      ((s.listing files).bind ofListing).map fun base =>
        base.insertAll (s.snapshotValues.map entryItem) := by
  rw [loadSnapshot_eq_bind, valuesListing, ofListing_intercalate h]
  cases s.listing files with
  | error fault => rfl
  | ok text =>
    show (ofListing text).bind _ = (ofListing text).map _
    rw [ofListing_eq]
    cases listingFaults text with
    | cons fault rest => rfl
    | nil =>
      show Except.ok _ = Except.ok _
      rw [merge_ofList, ofList, ofList, insertAll_append]

end Settings

namespace Loader

/-- Settings that have been loaded hold entries of one key each. Whatever has become of the files,
the configuration in force has these entries set one after the other, on nothing, or on the listing
that the settings name; then it fails exactly when the listing cannot be read or has a keyless
line. -/
theorem loaded_entries_apply {l : Loader} {files : FileTree}
    {environment : List (String × String)} {settings : Settings}
    (h : l.load files environment = .ok settings) (later : FileTree) :
    ∃ items : List (String × String),
      List.Forall₂ (fun entry item => ofListing entry = .ok ⟨[item]⟩)
        settings.snapshotValues items ∧
      (settings.snapshotFile = none →
        settings.loadSnapshot later = .ok (Snapshot.empty.insertAll items)) ∧
      ∀ path, settings.snapshotFile = some path →
        (∀ fault, settings.loadSnapshot later = .error fault ↔
          (∃ reason, later.read path = .error reason ∧
            fault = .unreadable path reason.message) ∨
          ∃ text, later.read path = .ok text ∧ (listingFaults text).head? = some fault) ∧
        ∀ text base, later.read path = .ok text → ofListing text = .ok base →
          settings.loadSnapshot later = .ok (base.insertAll items) := by
  have hsingle := singleEntries_of_load h
  have hload := Settings.loadSnapshot_singles hsingle later
  refine ⟨settings.snapshotValues.map entryItem, ?_, fun hnone => ?_, fun path hpath => ?_⟩
  · rw [List.forall₂_map_right_iff, List.forall₂_same]
    exact fun e he => ofListing_single (hsingle e he)
  · rw [hload, Settings.listing, hnone]
    rfl
  · have hlisting : settings.listing later =
        (later.read path).mapError fun fault => .unreadable path fault.message := by
      rw [Settings.listing, hpath]
    rw [hload, hlisting]
    cases hread : later.read path with
    | error reason =>
      refine ⟨fun fault => ?_, fun text base htext => nomatch htext⟩
      simp [Except.mapError, Except.bind, Except.map, eq_comm]
    | ok text =>
      have hbind : ((Except.ok text).mapError fun fault : FileFault =>
          SnapshotError.unreadable path fault.message).bind ofListing = ofListing text := rfl
      rw [hbind]
      refine ⟨fun fault => ?_, fun other base htext hbase => ?_⟩
      · rw [ofListing_eq, map_judged, judged_eq_error]
        simp
      · cases htext
        rw [hbase]
        rfl

/-- A carriage return, a key alone with blanks around it and a key in two spellings, on top of a
listing that has come about since. -/
theorem loaded_entries_apply_overListing :
    let l := empty.addText
      "[snapshot]\nfile = \"list\"\nvalues = [\"core.pager=less\\r\", \" A.b \", \"core.Pager= more \"]"
    let later : FileTree := ⟨[(Place.working.child "list", .text "a.B=1\nc.d=\r\n")]⟩
    ∃ settings, l.load FileTree.empty [] = .ok settings ∧ settings.snapshotFile = some "list" ∧
      settings.loadSnapshot later =
        .ok ⟨[("a.b", "true"), ("c.d", ""), ("core.pager", " more ")]⟩ := by
  intro l later
  let settings : Settings := ⟨.console, .file, none, some "list",
    ["core.pager=less\r", " A.b ", "core.Pager= more "]⟩
  have hload : l.load FileTree.empty [] = .ok settings := ok_of_toOption (by decide +kernel)
  have hlist : ofListing "a.B=1\nc.d=\r\n" = .ok ⟨[("a.b", "1"), ("c.d", "")]⟩ :=
    ok_of_toOption (by decide +kernel)
  obtain ⟨items, hitems, -, hover⟩ := loaded_entries_apply hload later
  have hexpected : List.Forall₂ (fun entry item => ofListing entry = .ok ⟨[item]⟩)
      settings.snapshotValues [("core.pager", "less"), ("a.b", "true"), ("core.pager", " more ")] :=
    .cons (ok_of_toOption (by decide +kernel)) (.cons (ok_of_toOption (by decide +kernel))
      (.cons (ok_of_toOption (by decide +kernel)) .nil))
  have hunique : Relator.RightUnique fun (entry : String) (item : String × String) =>
      ofListing entry = .ok ⟨[item]⟩ := by
    intro entry item other hitem hother
    have heq := hitem.symm.trans hother
    simpa using heq
  have hall := hunique.forall₂ hitems hexpected
  refine ⟨settings, hload, rfl, ?_⟩
  rw [(hover "list" rfl).2 _ _ (by decide +kernel) hlist, hall]
  exact congrArg Except.ok (by decide +kernel)

end Loader

end GitInvocation
