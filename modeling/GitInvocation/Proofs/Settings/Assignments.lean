import GitInvocation.Proofs.Settings.Entries

/-!
# Assignments and entries

An assignment of its own and an entry of the settings are written alike, but by different rules:
an assignment is cut at its first equals sign, an entry is a listing of one line. Where there is an
equals sign and no line feed, both rules and the check of the entries accept the same texts. What is
accepted has the same effect on every snapshot, unless it ends with a carriage return, which an
assignment keeps and a listing drops.
-/
namespace GitInvocation

open Snapshot
open Rendering (assigns)
open Text (dropTrailing)

section Notation

variable {e : String} {key value : List Char}

theorem assignment_isOk_iff : (assignment e).isOk ↔ assigns e := by
  by_cases h : assigns e
  · obtain ⟨key, value, hok, -⟩ := Rendering.assignment_of_assigns h
    rw [hok]
    exact iff_of_true rfl h
  · rw [Rendering.assignment_of_not_assigns h]
    exact iff_of_false Bool.false_ne_true h

/-- Only the value of an assignment loses the carriage returns at its end. -/
theorem entryLine_eq (he : e.toList = key ++ '=' :: value) :
    entryLine e = key ++ '=' :: dropTrailing (· = '\r') value := by
  rw [entryLine, he, Text.dropTrailing_append_cons (by decide)]

theorem assigns_eq (he : e.toList = key ++ '=' :: value) (hkey : '=' ∉ key) :
    assigns e = !key.all Text.isBlank := by
  obtain ⟨hk, hv⟩ := cut_assigned hkey value
  rw [assigns, he, hk, hv]
  rfl

theorem keyless_entryLine (he : e.toList = key ++ '=' :: value) (hkey : '=' ∉ key) :
    keyless (entryLine e) = key.all Text.isBlank := by
  obtain ⟨hk, hv⟩ := cut_assigned hkey (dropTrailing (· = '\r') value)
  rw [keyless, entryLine_eq he, hk, hv]
  rfl

/-- A text of one line with an equals sign is an entry when it assigns something. -/
theorem singleEntry_iff (hsign : '=' ∈ e.toList) (hline : '\n' ∉ e.toList) :
    SingleEntry e ↔ assigns e := by
  obtain ⟨key, value, he, hkey⟩ := List.eq_append_cons_of_mem hsign
  rw [assigns_eq he hkey, ← keyless_entryLine he hkey, Bool.not_eq_true']
  exact ⟨fun h => h.keyed, fun h => ⟨not_blank_of_sign hsign, hline, h⟩⟩

theorem ofListing_isOk_iff (hsign : '=' ∈ e.toList) (hline : '\n' ∉ e.toList) :
    (ofListing e).isOk ↔ SingleEntry e := by
  constructor
  · intro h
    cases hlist : ofListing e with
    | error fault =>
      rw [hlist] at h
      cases h
    | ok t => exact keyed_of_ofListing (not_blank_of_sign hsign) hline hlist
  · intro h
    rw [ofListing_single h]
    rfl

/-- The value of a key tells two insertions apart. -/
theorem insert_eq_iff (s : Snapshot) (key value other : String) :
    s.insert key value = s.insert key other ↔ value = other := by
  refine ⟨fun h => ?_, fun h => by rw [h]⟩
  have hget := congrArg (Snapshot.get? · key) h
  have hkey := Key.canonical_eq_iff.mp (rfl : Key.canonical key = _)
  simpa only [get?_insert, if_pos hkey, Option.some.injEq] using hget

/-- An entry is inserted with its key as it is written and its value without the carriage returns
at its end. -/
theorem merge_entry (s : Snapshot) (he : e.toList = key ++ '=' :: value) (hkey : '=' ∉ key) :
    s.merge ⟨[entryItem e]⟩ =
      s.insert (String.ofList key) (String.ofList (dropTrailing (· = '\r') value)) := by
  obtain ⟨hk, hv⟩ := cut_assigned hkey (dropTrailing (· = '\r') value)
  have hline : lineEntry (entryLine e) =
      (String.ofList key, String.ofList (dropTrailing (· = '\r') value)) := by
    rw [entryLine_eq he, lineEntry, hk, hv, Option.getD_some]
  show s.insert (lineEntry (entryLine e)).1 (lineEntry (entryLine e)).2 = _
  rw [hline]

theorem assignment_eq (he : e.toList = key ++ '=' :: value) (hkey : '=' ∉ key)
    (h : assigns e) :
    assignment e = .ok (String.ofList (Text.trimChars key), String.ofList value) := by
  rw [assigns_eq he hkey, Bool.not_eq_true'] at h
  rw [assignment, he, Text.cut?_append hkey]
  exact if_neg (by simp [h])

/-- The value loses nothing unless the text ends with a carriage return. -/
theorem dropTrailing_value_iff (he : e.toList = key ++ '=' :: value) :
    dropTrailing (· = '\r') value = value ↔ e.toList.getLast? ≠ some '\r' := by
  rw [Text.dropTrailing_eq_self_iff, he, List.getLast?_append, List.getLast?_cons]
  cases value.getLast? <;> simp

end Notation

/-- Assignments and entries mean the same. A text with an equals sign and no line feed is accepted
as one exactly when it is accepted as the other, and then it has the same effect on a snapshot,
whatever that holds, exactly when it does not end with a carriage return. -/
theorem assignment_counts_as_entry (e : String) (hsign : '=' ∈ e.toList)
    (hline : '\n' ∉ e.toList) :
    ((assignment e).isOk ↔ (ofListing e).isOk) ∧
    ((ofListing e).isOk ↔ checkEntries 0 [e] = .ok ()) ∧
    ∀ key value, assignment e = .ok (key, value) → ∃ t, ofListing e = .ok t ∧
      ∀ s : Snapshot, s.insert key value = s.merge t ↔ e.toList.getLast? ≠ some '\r' := by
  have hentry := singleEntry_iff hsign hline
  have hlisting := ofListing_isOk_iff hsign hline
  refine ⟨?_, ?_, fun k v hok => ?_⟩
  · rw [assignment_isOk_iff, hlisting, hentry]
  · rw [hlisting, checkEntries_eq_ok]
    simp
  · have hassigns : assigns e := assignment_isOk_iff.mp (by rw [hok]; rfl)
    obtain ⟨key, value, he, hkey⟩ := List.eq_append_cons_of_mem hsign
    have hread := hok.symm.trans (assignment_eq he hkey hassigns)
    obtain ⟨rfl, rfl⟩ := Prod.mk.inj (Except.ok.inj hread)
    refine ⟨⟨[entryItem e]⟩, ofListing_single (hentry.mpr hassigns), fun s => ?_⟩
    rw [merge_entry s he hkey, insert_trimmed, insert_eq_iff, String.ofList_inj, eq_comm,
      dropTrailing_value_iff he]

/-- White space on both sides of the key, a second equals sign and a carriage return that does not
end the text. -/
theorem assignment_counts_as_entry_innerReturn :
    let e := "\u00a0Core.Pager\t= less=a\rb "
    '=' ∈ e.toList ∧ '\n' ∉ e.toList ∧ assignment e = .ok ("Core.Pager", " less=a\rb ") ∧
      checkEntries 0 [e] = .ok () ∧
      ∃ t, ofListing e = .ok t ∧
        ∀ s : Snapshot, s.insert "Core.Pager" " less=a\rb " = s.merge t := by
  intro e
  have hsign : '=' ∈ e.toList := by decide +kernel
  have hline : '\n' ∉ e.toList := by decide +kernel
  have hok : assignment e = .ok ("Core.Pager", " less=a\rb ") := ok_of_toOption (by decide +kernel)
  have hlast : e.toList.getLast? ≠ some '\r' := by decide +kernel
  obtain ⟨hlisting, hcheck, heffect⟩ := assignment_counts_as_entry e hsign hline
  obtain ⟨t, ht, hsame⟩ := heffect _ _ hok
  refine ⟨hsign, hline, hok, hcheck.mp (hlisting.mp (by rw [hok]; rfl)), t, ht, fun s => ?_⟩
  exact (hsame s).mpr hlast

end GitInvocation
