import GitInvocation.Program
import GitInvocation.Proofs.Outcomes
import GitInvocation.Proofs.Rendering.Precedence
import GitInvocation.Proofs.Snapshot.Lines

/-!
# The printed configuration as a listing

The configuration in force is printed with a line for each entry, indented and not escaped. What
has once been read from a listing can be printed like this: its keys have no equals sign and its
values do not end in a carriage return, and neither has a line feed. Reading the printed lines
therefore gives the same configuration again.
-/
namespace GitInvocation

open Snapshot
open Text (isBlank trimChars)

namespace Snapshot

/-- An entry that can stand on a line of its own. -/
structure Listable (e : String × String) : Prop where
  present : Text.blank e.1 = false
  keyMarks : '=' ∉ e.1.toList ∧ '\n' ∉ e.1.toList
  valueMark : '\n' ∉ e.2.toList
  valueEnd : e.2.toList.getLast? ≠ some '\r'

def printedEntry (e : String × String) : String := "  " ++ e.1 ++ "=" ++ e.2

/-- The entries as they are printed. -/
def printed (s : Snapshot) : String := Program.unlines (s.entries.map printedEntry)

/-- An entry as its printed line is read. -/
def indented (e : String × String) : String × String := ("  " ++ e.1, e.2)

section Printing

variable {e : String × String}

theorem toList_printedEntry (e : String × String) :
    (printedEntry e).toList = ("  " ++ e.1).toList ++ '=' :: e.2.toList := by
  rw [printedEntry, String.toList_append, String.toList_append, List.append_assoc]
  rfl

theorem Listable.oneLine (h : Listable e) : '\n' ∉ (printedEntry e).toList := by
  rw [toList_printedEntry]
  simp [h.keyMarks.2, h.valueMark]

/-- A value is empty, and then the line ends with the equals sign, or the line ends as it does. -/
theorem Listable.entryLine_eq (h : Listable e) :
    entryLine (printedEntry e) = (printedEntry e).toList := by
  refine Text.dropTrailing_eq_self fun c hc => ?_
  rw [toList_printedEntry, Option.mem_def, List.getLast?_append, List.getLast?_cons,
    Option.some_or, Option.some_inj] at hc
  rw [decide_eq_false_iff_not, ← hc]
  intro hend
  cases hlast : e.2.toList.getLast? with
  | none => rw [hlast] at hend; exact absurd hend (by decide)
  | some d =>
    rw [hlast, Option.getD_some] at hend
    exact h.valueEnd (hlast.trans (congrArg some hend))

theorem Listable.cut (h : Listable e) :
    lineKey (printedEntry e).toList = ("  " ++ e.1).toList ∧
      lineValue? (printedEntry e).toList = some e.2.toList := by
  have hkey : '=' ∉ ("  " ++ e.1).toList := by simp [h.keyMarks.1]
  rw [toList_printedEntry]
  exact cut_assigned hkey e.2.toList

theorem Listable.single (h : Listable e) : SingleEntry (printedEntry e) := by
  obtain ⟨hkey, hvalue⟩ := h.cut
  have hpresent : ("  " ++ e.1).toList.all isBlank = false := by
    rw [String.toList_append, List.all_append, show e.1.toList.all isBlank = false from h.present,
      Bool.and_false]
  refine ⟨?_, h.oneLine, ?_⟩
  · rw [Text.blank, toList_printedEntry, List.all_append, hpresent, Bool.false_and]
  · rw [h.entryLine_eq, keyless, hkey, hvalue, hpresent, Bool.and_false]

theorem Listable.lineEntry_eq (h : Listable e) :
    lineEntry (entryLine (printedEntry e)) = indented e := by
  obtain ⟨hkey, hvalue⟩ := h.cut
  rw [h.entryLine_eq, lineEntry, hkey, hvalue, Option.getD_some, String.ofList_toList,
    String.ofList_toList, indented]

theorem listingLines_unlines {lines : List String} (h : ∀ l ∈ lines, '\n' ∉ l.toList) :
    listingLines (Program.unlines lines).toList = lines.map entryLine := by
  induction lines with
  | nil => rfl
  | cons line lines ih =>
    have hl : (Program.unlines (line :: lines)).toList =
        line.toList ++ '\n' :: (Program.unlines lines).toList := by
      simp [Program.unlines]
    rw [hl, listingLines_append (h line List.mem_cons_self),
      ih fun l hl => h l (List.mem_cons_of_mem _ hl)]
    rfl

/-- Blanks in front of a key do not count, so nothing is moved when the entries are read again. -/
theorem ofListing_printed {s : Snapshot} (hs : s.Lawful) (h : ∀ e ∈ s.entries, Listable e) :
    ofListing s.printed = .ok s := by
  have hsingle : ∀ line ∈ s.entries.map printedEntry, SingleEntry line := by
    intro line hl
    obtain ⟨e, he, rfl⟩ := List.mem_map.mp hl
    exact (h e he).single
  have hitems : (s.entries.map printedEntry).map (fun line => lineEntry (entryLine line)) =
      s.entries.map indented := by
    rw [List.map_map]
    exact List.map_congr_left fun e he => (h e he).lineEntry_eq
  have hcanonical : canonicalItems (s.entries.map indented) = s.entries := by
    rw [canonicalItems, List.map_map]
    refine (List.map_congr_left fun e he => ?_).trans (List.map_id _)
    have htrim : Text.trimChars ("  " ++ e.1).toList = Text.trimChars e.1.toList := by
      rw [String.toList_append]
      exact (Text.trimChars_cons (by decide) _).trans (Text.trimChars_cons (by decide) _)
    have hkey : Key.canonical ("  " ++ e.1) = e.1 := by
      rw [Key.canonical, htrim]
      exact hs.canonical e he
    exact Prod.ext hkey rfl
  have hentries : (ofList (s.entries.map indented)).entries = s.entries := by
    rw [ofList, entries_insertAll, hcanonical]
    exact hs.ascending.putAll_eq
  rw [ofListing_eq, listingFaults, listingEntries, printed,
    listingLines_unlines fun line hl => (hsingle line hl).oneLine, lineFaults_map hsingle,
    lineEntries_map hsingle, hitems]
  exact congrArg (fun entries => Except.ok (Snapshot.mk entries)) hentries

end Printing

section Origin

variable {line : List Char}

/-- A key has the characters of its line that are no letters, and is not blank. -/
theorem listable_key (hpresent : line.all isBlank = false) (hkeyed : keyless line = false)
    (hline : '\n' ∉ line) :
    Text.blank (lineEntry line).1 = false ∧ '=' ∉ (lineEntry line).1.toList ∧
      '\n' ∉ (lineEntry line).1.toList := by
  rw [Text.blank, lineEntry, String.toList_ofList]
  refine ⟨?_, sign_notMem_lineKey line, fun hm => hline ?_⟩
  · cases hvalue : lineValue? line with
    | none => rwa [lineKey_of_lineValue?_eq_none hvalue]
    | some value => rwa [keyless, hvalue, Option.isSome_some, Bool.true_and] at hkeyed
  · exact (List.takeWhile_prefix _).mem hm

/-- A value ends where its line does. -/
theorem listable_value (hline : '\n' ∉ line) (hend : line.getLast? ≠ some '\r') :
    '\n' ∉ (lineEntry line).2.toList ∧ (lineEntry line).2.toList.getLast? ≠ some '\r' := by
  rw [lineEntry, String.toList_ofList]
  cases hvalue : lineValue? line with
  | none => decide
  | some value =>
    have hl := line_of_lineValue? hvalue
    rw [Option.getD_some]
    refine ⟨fun hm => hline ?_, fun hlast => hend ?_⟩
    · rw [hl]
      exact List.mem_append_right _ (List.mem_cons_of_mem _ hm)
    · rw [hl, List.getLast?_append, List.getLast?_cons, hlast]
      rfl

/-- What a line says can be printed on a line. -/
theorem listable_of_line (hpresent : line.all isBlank = false) (hkeyed : keyless line = false)
    (hline : '\n' ∉ line) (hend : line.getLast? ≠ some '\r') :
    Listable (Key.canonical (lineEntry line).1, (lineEntry line).2) := by
  obtain ⟨hblank, hsign, hfeed⟩ := listable_key hpresent hkeyed hline
  obtain ⟨hvalue, hlast⟩ := listable_value hline hend
  have hmark : ∀ {mark : Char}, mark.toNat < 65 → mark ∉ (lineEntry line).1.toList →
      mark ∉ (Key.canonical (lineEntry line).1).toList := fun hlow hkey hm =>
    hkey (Key.mem_canonical (Text.lowerAscii_eq_mark (.inl hlow)) hm)
  exact ⟨(Key.blank_canonical _).trans hblank,
    ⟨hmark (by decide) hsign, hmark (by decide) hfeed⟩, hvalue, hlast⟩

theorem listable_of_listing {text : String} (hfaults : listingFaults text = [])
    {item : String × String} (h : item ∈ listingEntries text) :
    Listable (Key.canonical item.1, item.2) := by
  obtain ⟨line, hl, rfl⟩ := List.mem_map.mp h
  obtain ⟨hmem, hpresent⟩ := List.mem_filter.mp hl
  obtain ⟨raw, hraw, rfl⟩ := List.mem_map.mp hmem
  refine listable_of_line (by simpa using hpresent) ?_ ?_ ?_
  · by_contra hkey
    exact lineFaults_ne_nil.mpr ⟨_, hmem, eq_true_of_ne_false hkey⟩ hfaults
  · exact fun hm => Text.notMem_of_mem_lines hraw (Text.mem_of_mem_dropTrailing hm)
  · intro hlast
    have hkept := Text.last_dropTrailing (p := (· = '\r')) hlast
    exact absurd hkept (by decide)

end Origin

end Snapshot

namespace Settings

variable {settings : Settings} {files : FileTree} {s : Snapshot}

/-- Whatever is in force by the settings came out of listings. -/
theorem listable_of_loadSnapshot (h : settings.loadSnapshot files = .ok s) :
    s.Lawful ∧ ∀ e ∈ s.entries, Listable e := by
  rw [loadSnapshot_eq] at h
  obtain ⟨hfaults, rfl⟩ := judged_eq_ok.mp h
  refine ⟨lawful_ofList _, fun e he => ?_⟩
  rw [ofList, entries_insertAll] at he
  rcases mem_putAll he with hm | hm
  · obtain ⟨item, hi, rfl⟩ := List.mem_map.mp hm
    rw [snapshotFaults] at hfaults
    rw [snapshotEntries] at hi
    cases hlisting : settings.listing files with
    | error fault => rw [hlisting] at hfaults; cases hfaults
    | ok text =>
      rw [hlisting] at hfaults hi
      obtain ⟨hfile, hvalues⟩ := List.append_eq_nil_iff.mp hfaults
      rcases List.mem_append.mp hi with hi | hi
      · exact listable_of_listing hfile hi
      · exact listable_of_listing hvalues hi
  · exact absurd hm List.not_mem_nil

end Settings

namespace Program

theorem unlines_append (lines more : List String) :
    unlines (lines ++ more) = unlines lines ++ unlines more := by
  simp [unlines]

/-- The configuration that is printed with the settings can be read back from the lines of its
entries, and is the same then. -/
theorem printed_entries_read_back {settings : Settings} {files : FileTree} {s : Snapshot}
    (h : settings.loadSnapshot files = .ok s) :
    optionsReport settings files =
        ⟨unlines (settings.optionLines ++
            ["", "effective git config (" ++ toString s.size ++ " entries)"]) ++ s.printed, [], none⟩ ∧
      ofListing s.printed = .ok s := by
  obtain ⟨hlawful, hlistable⟩ := Settings.listable_of_loadSnapshot h
  refine ⟨?_, ofListing_printed hlawful hlistable⟩
  have hlines : ∀ heading : String,
      unlines settings.optionLines ++
          unlines ("" :: heading :: s.entries.map fun e => "  " ++ e.1 ++ "=" ++ e.2) =
        unlines (settings.optionLines ++ ["", heading]) ++ s.printed := by
    intro heading
    rw [unlines_append, String.append_assoc]
    exact congrArg _ (unlines_append ["", heading] _)
  rw [optionsReport, h]
  exact congrArg (Report.mk · [] none) (hlines _)

/-- Values with an equals sign and with blanks at their ends, and a key alone. -/
theorem printed_entries_read_back_blankEnds :
    let settings := { Settings.default with
      snapshotFile := some "list", snapshotValues := ["alias.X=!f = g ", "remote.A=B.Url"] }
    let files : FileTree :=
      ⟨[(Place.working.child "list", .text "Core.Pager= less\r\n\nfetch.parallel\r\n")]⟩
    ∃ s, settings.loadSnapshot files = .ok s ∧
      s.printed = "  alias.x=!f = g \n  core.pager= less\n  fetch.parallel=true\n  remote.a=B.Url\n" ∧
      ofListing s.printed = .ok s := by
  intro settings files
  let s : Snapshot := ⟨[("alias.x", "!f = g "), ("core.pager", " less"), ("fetch.parallel", "true"),
    ("remote.a", "B.Url")]⟩
  have hs : settings.loadSnapshot files = .ok s := ok_of_toOption (by decide +kernel)
  exact ⟨s, hs, by decide +kernel, (printed_entries_read_back hs).2⟩

end Program

end GitInvocation
