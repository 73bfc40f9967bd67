import GitInvocation.Proofs.Snapshot.Listing

/-!
# Listings made of single lines

A line feed ends a line wherever the text in front of it has none, so a listing that is put
together from texts of one line each is read text by text. Such a text holds a single entry, or its
key is missing; in both cases it is read alone as it is read in the listing.
-/
namespace GitInvocation.Snapshot

open Text (dropTrailing isBlank)

/-- A text of one line, as a listing has it. -/
def entryLine (e : String) : List Char := dropTrailing (· = '\r') e.toList

theorem listingLines_append {line : List Char} (h : '\n' ∉ line) (rest : List Char) :
    listingLines (line ++ '\n' :: rest) =
      dropTrailing (· = '\r') line :: listingLines rest := by
  rw [listingLines, Text.lines_append h, List.map_cons, listingLines]

theorem listingLines_single {e : String} (hne : e ≠ "") (h : '\n' ∉ e.toList) :
    listingLines e.toList = [entryLine e] := by
  rw [listingLines, Text.lines_of_notMem (by simpa using hne) h]
  rfl

theorem listingLines_intercalate {entries : List String}
    (h : ∀ e ∈ entries, e ≠ "" ∧ '\n' ∉ e.toList) :
    listingLines ("\n".intercalate entries).toList = entries.map entryLine := by
  induction entries with
  | nil => rfl
  | cons e entries ih =>
    obtain ⟨hne, hline⟩ := h e List.mem_cons_self
    by_cases hrest : entries = []
    · rw [hrest, String.intercalate_singleton, listingLines_single hne hline]
      rfl
    · have hl : (e ++ "\n" ++ "\n".intercalate entries).toList =
          e.toList ++ '\n' :: ("\n".intercalate entries).toList := by simp
      rw [String.intercalate_cons_of_ne_nil hrest, hl, listingLines_append hline,
        ih fun e he => h e (List.mem_cons_of_mem _ he)]
      rfl

/-- A text of one line with something in it, and not at fault. -/
structure SingleEntry (e : String) : Prop where
  present : Text.blank e = false
  oneLine : '\n' ∉ e.toList
  keyed : keyless (entryLine e) = false

namespace SingleEntry

variable {e : String}

theorem ne_empty (h : SingleEntry e) : e ≠ "" := by
  rintro rfl
  exact absurd h.present (by decide)

/-- The carriage returns that a line loses are blank, so it does not become blank by that. -/
theorem line_present (h : SingleEntry e) : (entryLine e).all isBlank = false := by
  rw [entryLine, Text.all_dropTrailing fun c hc => ?_]
  · exact h.present
  · rw [of_decide_eq_true hc]
    decide

end SingleEntry

/-- The key and the value that an entry gives a snapshot. -/
def entryItem (e : String) : String × String :=
  (Key.canonical (lineEntry (entryLine e)).1, (lineEntry (entryLine e)).2)

theorem lineEntries_map {entries : List String} (h : ∀ e ∈ entries, SingleEntry e) :
    lineEntries (entries.map entryLine) = entries.map fun e => lineEntry (entryLine e) := by
  have hpresent : ∀ line ∈ entries.map entryLine, (!line.all isBlank) = true := by
    intro line hl
    obtain ⟨e, he, rfl⟩ := List.mem_map.mp hl
    rw [(h e he).line_present]
    rfl
  rw [lineEntries, List.filter_eq_self.mpr hpresent, List.map_map]
  rfl

theorem lineFaults_map {entries : List String} (h : ∀ e ∈ entries, SingleEntry e) (n : Nat) :
    lineFaults n (entries.map entryLine) = [] := by
  by_contra hfaults
  obtain ⟨line, hl, hkey⟩ := lineFaults_ne_nil.mp hfaults
  obtain ⟨e, he, rfl⟩ := List.mem_map.mp hl
  rw [(h e he).keyed] at hkey
  exact absurd hkey (by decide)

theorem insertAll_entryItems (s : Snapshot) (entries : List String) :
    s.insertAll (entries.map entryItem) =
      s.insertAll (entries.map fun e => lineEntry (entryLine e)) := by
  have hitems : canonicalItems (entries.map entryItem) =
      canonicalItems (entries.map fun e => lineEntry (entryLine e)) := by
    rw [canonicalItems, canonicalItems, List.map_map, List.map_map]
    exact List.map_congr_left fun e _ => Prod.ext (Key.canonical_canonical _) rfl
  have hentries : (s.insertAll (entries.map entryItem)).entries =
      (s.insertAll (entries.map fun e => lineEntry (entryLine e))).entries := by
    rw [entries_insertAll, entries_insertAll, hitems]
  exact congrArg Snapshot.mk hentries

/-- Single entries are read in a listing as they stand in it. -/
theorem ofListing_intercalate {entries : List String} (h : ∀ e ∈ entries, SingleEntry e) :
    ofListing ("\n".intercalate entries) = .ok (ofList (entries.map entryItem)) := by
  have hlines := listingLines_intercalate fun e he => ⟨(h e he).ne_empty, (h e he).oneLine⟩
  rw [ofListing_eq, listingFaults, listingEntries, hlines, lineFaults_map h, lineEntries_map h,
    ofList, ofList, insertAll_entryItems]
  rfl

/-- Read alone, a single entry is one key with its value. -/
theorem ofListing_single {e : String} (h : SingleEntry e) : ofListing e = .ok ⟨[entryItem e]⟩ := by
  have hall : ∀ d ∈ [e], SingleEntry d := fun d hd => List.mem_singleton.mp hd ▸ h
  have hlist := ofListing_intercalate hall
  rw [String.intercalate_singleton] at hlist
  rw [hlist]
  refine congrArg (fun k => Except.ok (Snapshot.mk [(k, (entryItem e).2)])) ?_
  exact Key.canonical_canonical _

end GitInvocation.Snapshot
