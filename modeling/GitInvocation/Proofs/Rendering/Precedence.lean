import GitInvocation.Proofs.Snapshot.Listing
import GitInvocation.Rendering

/-!
# The order of precedence

The configuration in force comes from three places: a listing in a file, the entries in the
settings, which are read as the lines of another listing, and single assignments. They are laid on
top of one another in this order, so that a key has the value of the last entry that matches it.
Everything at fault in them is listed here in the same order, and the first of it is reported.
-/
namespace GitInvocation

open Snapshot

namespace Settings

/-- The text of the listing that the settings name. There is nothing in the text of no listing. -/
def listing (s : Settings) (files : FileTree) : Except SnapshotError String :=
  match s.snapshotFile with
  | none => .ok ""
  | some path => (files.read path).mapError fun fault => .unreadable path fault.message

/-- The entries in the settings, a line for each. -/
def valuesListing (s : Settings) : String := "\n".intercalate s.snapshotValues

/-- All that is at fault in the listing and then in the entries. -/
def snapshotFaults (s : Settings) (files : FileTree) : List SnapshotError :=
  match s.listing files with
  | .error fault => fault :: listingFaults s.valuesListing
  | .ok text => listingFaults text ++ listingFaults s.valuesListing

/-- The entries of a listing that can be read and then those in the settings. -/
def snapshotEntries (s : Settings) (files : FileTree) : List (String × String) :=
  match s.listing files with
  | .error _ => listingEntries s.valuesListing
  | .ok text => listingEntries text ++ listingEntries s.valuesListing

variable (s : Settings) (files : FileTree)

theorem loadSnapshot_eq_bind :
    s.loadSnapshot files = ((s.listing files).bind ofListing).bind fun base =>
      (ofListing s.valuesListing).map base.merge := by
  unfold loadSnapshot listing
  cases s.snapshotFile with
  | none => rfl
  | some path =>
    dsimp only
    cases files.read path <;> rfl

theorem loadSnapshot_eq :
    s.loadSnapshot files = judged (s.snapshotFaults files) (ofList (s.snapshotEntries files)) := by
  rw [loadSnapshot_eq_bind, snapshotFaults, snapshotEntries]
  cases s.listing files with
  | error fault => rfl
  | ok text =>
    have hvalues : ∀ base : Snapshot, (ofListing s.valuesListing).map base.merge =
        judged (listingFaults s.valuesListing)
          (base.merge (ofList (listingEntries s.valuesListing))) := by
      intro base
      rw [ofListing_eq, map_judged]
    show ((ofListing text).bind _) = _
    rw [funext hvalues, ofListing_eq, judged_bind, merge_ofList]

theorem snapshotFaults_ne_nil : s.snapshotFaults files ≠ [] ↔
    (∃ path fault, s.snapshotFile = some path ∧ files.read path = .error fault) ∨
    (∃ text, s.listing files = .ok text ∧ ∃ line ∈ listingLines text.toList, keyless line) ∨
    ∃ line ∈ listingLines s.valuesListing.toList, keyless line := by
  have hread : (∃ path fault, s.snapshotFile = some path ∧ files.read path = .error fault) ↔
      ∃ fault, s.listing files = .error fault := by
    unfold listing
    cases s.snapshotFile with
    | none => simp
    | some path => cases hr : files.read path <;> simp [hr, Except.mapError]
  rw [hread, snapshotFaults]
  cases s.listing files with
  | error fault => exact iff_of_true (List.cons_ne_nil _ _) (.inl ⟨fault, rfl⟩)
  | ok text =>
    rw [ne_eq, List.append_eq_nil_iff, not_and_or, listingFaults, listingFaults]
    simp [lineFaults_ne_nil]

end Settings

namespace Rendering

/-- There is an equals sign and a key in front of it. -/
def assigns (entry : String) : Bool :=
  (lineValue? entry.toList).isSome && !(lineKey entry.toList).all Text.isBlank

/-- The settings with the listing that is given, if any, in the place of theirs. -/
def inForce (o : RenderOptions) (settings : Settings) : Settings :=
  { settings with snapshotFile := o.gitConfig.or settings.snapshotFile }

/-- The single assignments that assign nothing. -/
def assignmentFaults (entries : List String) : List Fault :=
  (entries.filter fun entry => !assigns entry).map fun entry => .assignment (.invalidOverride entry)

/-- All that is at fault, in the order in which it counts. -/
def faults (o : RenderOptions) (settings : Settings) (files : FileTree) : List Fault :=
  ((inForce o settings).snapshotFaults files).map .snapshot ++ assignmentFaults o.configValues

/-- All entries, in the order in which they count. -/
def entries (o : RenderOptions) (settings : Settings) (files : FileTree) :
    List (String × String) :=
  (inForce o settings).snapshotEntries files ++
    o.configValues.map fun entry => lineEntry entry.toList

theorem assignment_of_assigns {entry : String} (h : assigns entry) : ∃ key value,
    assignment entry = .ok (String.ofList (Text.trimChars key), value) ∧
      lineEntry entry.toList = (String.ofList key, value) := by
  obtain ⟨hvalue, hkey⟩ := Bool.and_eq_true_iff.mp h
  obtain ⟨value, hv⟩ := Option.isSome_iff_exists.mp hvalue
  refine ⟨lineKey entry.toList, String.ofList value, ?_, ?_⟩
  · rw [assignment, cut?_line, hv]
    exact if_neg (by simpa using hkey)
  · rw [lineEntry, hv, Option.getD_some]

theorem assignment_of_not_assigns {entry : String} (h : ¬assigns entry) :
    assignment entry = .error (.invalidOverride entry) := by
  rw [assignment, cut?_line]
  cases hv : lineValue? entry.toList with
  | none => rfl
  | some value =>
    refine if_pos ?_
    by_contra hkey
    exact h (by rw [assigns, hv]; simpa using hkey)

theorem insertAssignments_eq (s : Snapshot) (entries : List String) :
    insertAssignments s entries = judged (assignmentFaults entries)
      (s.insertAll (entries.map fun entry => lineEntry entry.toList)) := by
  induction entries generalizing s with
  | nil => rfl
  | cons entry entries ih =>
    rw [insertAssignments, assignmentFaults, List.filter_cons]
    by_cases h : assigns entry
    · obtain ⟨key, value, hok, hentry⟩ := assignment_of_assigns h
      rw [hok, h, List.map_cons, hentry]
      dsimp only
      rw [insert_trimmed]
      exact ih _
    · rw [assignment_of_not_assigns h, Bool.eq_false_of_not_eq_true h]
      rfl

theorem snapshot_eq (o : RenderOptions) (settings : Settings) (files : FileTree) :
    snapshot o settings files =
      judged (faults o settings files) (ofList (entries o settings files)) := by
  have hload : snapshot o settings files =
      (((inForce o settings).loadSnapshot files).mapError .snapshot).bind fun s =>
        insertAssignments s o.configValues := rfl
  rw [hload, Settings.loadSnapshot_eq, mapError_judged, funext fun s => insertAssignments_eq s _,
    judged_bind, faults, entries, ofList, ofList, insertAll_append]

theorem assignmentFaults_ne_nil {entries : List String} :
    assignmentFaults entries ≠ [] ↔ ∃ entry ∈ entries, ¬assigns entry := by
  simp [assignmentFaults]

/-- The law of precedence. There is no configuration when the listing that counts cannot be read
or has a keyless line, when the entries in the settings have one, or when a single assignment
assigns nothing, and the first of this is the fault. Otherwise every key has the value of the last
entry that matches it. A listing that is given leaves nothing of the one in the settings. -/
theorem last_source_wins (o : RenderOptions) (settings : Settings) (files : FileTree) :
    ((∃ fault, snapshot o settings files = .error fault) ↔
      (∃ path fault, o.gitConfig.or settings.snapshotFile = some path ∧
        files.read path = .error fault) ∨
      (∃ text, (inForce o settings).listing files = .ok text ∧
        ∃ line ∈ listingLines text.toList, keyless line) ∨
      (∃ line ∈ listingLines settings.valuesListing.toList, keyless line) ∨
      ∃ entry ∈ o.configValues, ¬assigns entry) ∧
    (∀ fault, snapshot o settings files = .error fault ↔
      (faults o settings files).head? = some fault) ∧
    (∀ s, snapshot o settings files = .ok s →
      ∀ k, s.get? k = lastValue? (fun key => Key.Matches key k) (entries o settings files)) ∧
    ∀ path file, o.gitConfig = some path →
      snapshot o { settings with snapshotFile := file } files = snapshot o settings files := by
  refine ⟨?_, fun fault => ?_, fun s hs k => ?_, fun path file hpath => ?_⟩
  · rw [snapshot_eq, exists_judged_eq_error, faults, ne_eq, List.append_eq_nil_iff, not_and_or,
      List.map_eq_nil_iff, ← ne_eq, ← ne_eq, Settings.snapshotFaults_ne_nil,
      assignmentFaults_ne_nil, or_assoc, or_assoc]
    rfl
  · rw [snapshot_eq, judged_eq_error]
  · rw [snapshot_eq] at hs
    obtain ⟨-, rfl⟩ := judged_eq_ok.mp hs
    exact get?_ofList (entries o settings files) k
  · have hgiven : ∀ base, o.gitConfig.or base = some path := by
      intro base
      rw [hpath, Option.some_or]
    unfold snapshot
    simp only [hgiven]

/-- One key in three spellings, and settings that name a listing which does not exist. -/
theorem last_source_wins_threeSpellings :
    let o : RenderOptions := ⟨none, none, some "listing", ["FETCH.PARALLEL=0"], false⟩
    let settings := { Settings.default with
      snapshotFile := some "missing", snapshotValues := ["fetch.parallel=8", "core.pager"] }
    let files : FileTree :=
      ⟨[(Place.working.child "listing", .text "Fetch.Parallel=4\r\n\ncore.Pager = less")]⟩
    ∃ s, snapshot o settings files = .ok s ∧
      s.get? "fetch.Parallel" = some "0" ∧ s.get? "core.pager" = some "true" ∧
      snapshot o { settings with snapshotFile := none } files = .ok s := by
  intro o settings files
  have hfaults : faults o settings files = [] := List.isEmpty_iff.mp (by decide +kernel)
  have hs : snapshot o settings files = .ok (ofList (entries o settings files)) := by
    rw [snapshot_eq]
    exact judged_eq_ok.mpr ⟨hfaults, rfl⟩
  obtain ⟨-, -, hget, hgiven⟩ := last_source_wins o settings files
  refine ⟨_, hs, ?_, ?_, ?_⟩
  · rw [hget _ hs]
    decide +kernel
  · rw [hget _ hs]
    decide +kernel
  · rw [hgiven "listing" none rfl]
    exact hs

end Rendering

end GitInvocation
