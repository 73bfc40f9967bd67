import GitInvocation.Proofs.Snapshot.Writing
import GitInvocation.Snapshot.Listing

/-!
# What a listing says

A line is cut at its first equals sign. It is at fault when there is nothing but white space in
front of the sign; blank lines say nothing, and every other line is an entry. Reading a listing
reports the first line at fault, and a listing without fault is the snapshot of its entries.
Snapshots of entries are laid on top of one another by putting the entries one after the other.
-/
namespace GitInvocation

/-- The first of the faults, and the value when there is none. -/
def judged {ε α : Type} (faults : List ε) (value : α) : Except ε α :=
  match faults with
  | [] => .ok value
  | fault :: _ => .error fault

section Judged

variable {ε δ α β : Type} {faults : List ε} {value : α}

/-- What comes after is judged only where nothing before it is at fault. -/
theorem judged_bind (faults more : List ε) (value : α) (f : α → β) :
    ((judged faults value).bind fun a => judged more (f a)) =
      judged (faults ++ more) (f value) := by
  cases faults <;> rfl

theorem map_judged (faults : List ε) (value : α) (f : α → β) :
    (judged faults value).map f = judged faults (f value) := by
  cases faults <;> rfl

theorem mapError_judged (faults : List ε) (value : α) (f : ε → δ) :
    (judged faults value).mapError f = judged (faults.map f) value := by
  cases faults <;> rfl

theorem judged_eq_error {fault : ε} : judged faults value = .error fault ↔
    faults.head? = some fault := by
  cases faults with
  | nil => exact iff_of_false nofun nofun
  | cons first rest => simp [judged]

theorem judged_eq_ok {result : α} : judged faults value = .ok result ↔
    faults = [] ∧ value = result := by
  cases faults with
  | nil => simp [judged]
  | cons first rest => exact iff_of_false nofun nofun

theorem exists_judged_eq_error : (∃ fault, judged faults value = .error fault) ↔ faults ≠ [] := by
  cases faults with
  | nil => exact iff_of_false nofun fun h => h rfl
  | cons first rest => exact iff_of_true ⟨first, rfl⟩ (List.cons_ne_nil first rest)

end Judged

namespace Snapshot

open Text (isBlank trimChars)

/-- The text in front of the first equals sign, and all of it without one. -/
def lineKey (line : List Char) : List Char := line.takeWhile (· ≠ '=')

def lineValue? (line : List Char) : Option (List Char) := (line.dropWhile (· ≠ '=')).tail?

/-- There is an equals sign and nothing but white space in front of it. -/
def keyless (line : List Char) : Bool := (lineValue? line).isSome && (lineKey line).all isBlank

/-- A key and its value. A key alone stands for the value `true`. -/
def lineEntry (line : List Char) : String × String :=
  (String.ofList (lineKey line), String.ofList ((lineValue? line).getD "true".toList))

def lineEntries (lines : List (List Char)) : List (String × String) :=
  (lines.filter fun line => !line.all isBlank).map lineEntry

/-- The keyless lines, with their numbers. -/
def lineFaults (n : Nat) (lines : List (List Char)) : List SnapshotError :=
  ((lines.zipIdx n).filter fun line => keyless line.1).map fun line =>
    .keyless line.2 (String.ofList line.1)

def listingFaults (text : String) : List SnapshotError :=
  lineFaults 1 (listingLines text.toList)

def listingEntries (text : String) : List (String × String) :=
  lineEntries (listingLines text.toList)

theorem lineKey_of_lineValue?_eq_none {line : List Char} (h : lineValue? line = none) :
    lineKey line = line := by
  have hnil : line.dropWhile (· ≠ '=') = [] := by
    cases hrest : line.dropWhile (· ≠ '=') with
    | nil => rfl
    | cons sign value => rw [lineValue?, hrest] at h; exact nomatch h
  have happend := List.takeWhile_append_dropWhile (p := (· ≠ '=')) (l := line)
  rwa [hnil, List.append_nil] at happend

theorem cut?_line (line : List Char) :
    Text.cut? '=' line = (lineValue? line).map fun value => (lineKey line, value) :=
  Text.cut?_eq_span '=' line

theorem sign_notMem_lineKey (line : List Char) : '=' ∉ lineKey line := fun hm => by
  have hall := List.all_eq_true.mp (List.all_takeWhile (p := (· ≠ '=')) (l := line)) '=' hm
  exact absurd hall (by decide)

theorem line_of_lineValue? {line value : List Char} (h : lineValue? line = some value) :
    line = lineKey line ++ '=' :: value := by
  have hcut := cut?_line line
  rw [h, Option.map_some] at hcut
  exact (Text.cut?_eq_some hcut).1

/-- A key and a value with an equals sign between them. -/
theorem cut_assigned {key : List Char} (h : '=' ∉ key) (value : List Char) :
    lineKey (key ++ '=' :: value) = key ∧ lineValue? (key ++ '=' :: value) = some value := by
  have hcut := cut?_line (key ++ '=' :: value)
  rw [Text.cut?_append h] at hcut
  obtain ⟨found, hfound, hpair⟩ := Option.map_eq_some_iff.mp hcut.symm
  obtain ⟨hk, rfl⟩ := Prod.mk.inj hpair
  exact ⟨hk, hfound⟩

theorem lineValue?_eq_none_iff {line : List Char} : lineValue? line = none ↔ '=' ∉ line := by
  rw [← Text.cut?_eq_none_iff, cut?_line, Option.map_eq_none_iff]

theorem ofChars_eq (line : List Char) :
    Line.ofChars line =
      if line.all isBlank then .skipped
      else if keyless line then .keyless
      else .entry (trimChars (lineKey line)) ((lineValue? line).getD "true".toList) := by
  rw [Line.ofChars, cut?_line, keyless]
  by_cases hblank : line.all isBlank
  · rw [if_pos hblank, if_pos hblank]
  rw [if_neg hblank, if_neg hblank]
  cases hvalue : lineValue? line with
  | none =>
    rw [lineKey_of_lineValue?_eq_none hvalue]
    exact if_neg hblank
  | some value => simp

theorem insert_trimmed (s : Snapshot) (key : List Char) (value : String) :
    s.insert (String.ofList (trimChars key)) value = s.insert (String.ofList key) value := by
  rw [insert, insert, Key.canonical_trimmed]

theorem not_blank_of_sign {line : List Char} (h : '=' ∈ line) : line.all isBlank = false :=
  List.all_eq_false.mpr ⟨'=', h, by decide⟩

/-- A keyless line is not blank, for it has an equals sign. -/
theorem not_blank_of_keyless {line : List Char} (h : keyless line) : line.all isBlank = false := by
  obtain ⟨hs, -⟩ := Bool.and_eq_true_iff.mp h
  obtain ⟨value, hvalue⟩ := Option.isSome_iff_exists.mp hs
  apply not_blank_of_sign
  rw [line_of_lineValue? hvalue]
  exact List.mem_append_right _ List.mem_cons_self

theorem lineEntries_cons_blank {line : List Char} (lines : List (List Char))
    (h : line.all isBlank) : lineEntries (line :: lines) = lineEntries lines := by
  rw [lineEntries, List.filter_cons_of_neg (by simpa using h), lineEntries]

theorem lineEntries_cons {line : List Char} (lines : List (List Char)) (h : ¬line.all isBlank) :
    lineEntries (line :: lines) = lineEntry line :: lineEntries lines := by
  rw [lineEntries, List.filter_cons_of_pos (by simpa using h), List.map_cons, lineEntries]

theorem lineFaults_cons (n : Nat) (line : List Char) (lines : List (List Char)) :
    lineFaults n (line :: lines) =
      if keyless line then .keyless n (String.ofList line) :: lineFaults (n + 1) lines
      else lineFaults (n + 1) lines := by
  rw [lineFaults, List.zipIdx_cons, List.filter_cons]
  cases keyless line <;> rfl

theorem lineFaults_ne_nil {n : Nat} {lines : List (List Char)} :
    lineFaults n lines ≠ [] ↔ ∃ line ∈ lines, keyless line := by
  induction lines generalizing n with
  | nil => simp [lineFaults]
  | cons line lines ih =>
    rw [lineFaults_cons, List.exists_mem_cons_iff]
    cases hkey : keyless line with
    | true => simp
    | false => simpa using ih

theorem readLines_eq (s : Snapshot) (n : Nat) (lines : List (List Char)) :
    readLines s n lines = judged (lineFaults n lines) (s.insertAll (lineEntries lines)) := by
  induction lines generalizing s n with
  | nil => rfl
  | cons line lines ih =>
    rw [readLines, ofChars_eq, lineFaults_cons]
    by_cases hblank : line.all isBlank
    · -- A blank line is skipped before its key is looked at, so it must not count as keyless.
      have hkey : keyless line = false := by
        by_contra h
        rw [not_blank_of_keyless (Bool.eq_true_of_not_eq_false h)] at hblank
        exact absurd hblank (by decide)
      rw [if_pos hblank, lineEntries_cons_blank lines hblank, hkey]
      exact ih s (n + 1)
    · rw [if_neg hblank, lineEntries_cons lines hblank]
      cases hkey : keyless line with
      | true => rfl
      | false =>
        simp only [Bool.false_eq_true, if_false, insert_trimmed]
        exact ih _ (n + 1)

theorem ofListing_eq (text : String) :
    ofListing text = judged (listingFaults text) (ofList (listingEntries text)) :=
  readLines_eq empty 1 (listingLines text.toList)

/-- Snapshots are laid on top of one another like the items they came from. -/
theorem merge_ofList (items more : List (String × String)) :
    (ofList items).merge (ofList more) = ofList (items ++ more) := by
  have hbottom := (lawful_ofList items).ascending
  have htop := (lawful_ofList more).ascending
  have hmore : (ofList more).entries = putAll (canonicalItems more) [] := entries_insertAll _ _
  have happend : (ofList (items ++ more)).entries =
      putAll (canonicalItems more) (ofList items).entries := by
    rw [ofList, insertAll_append, entries_insertAll]
    rfl
  have hlaid : putAll (ofList more).entries (ofList items).entries =
      (ofList (items ++ more)).entries := by
    rw [happend]
    -- The entries on top are sorted and come once a key, so only their values can be compared.
    refine Ascending.ext (ascending_putAll hbottom) (ascending_putAll hbottom) fun j => ?_
    rw [lookup_putAll, lookup_putAll, htop.lastValue?_eq, hmore, lookup_putAll, List.lookup_nil,
      Option.or_none]
  exact congrArg Snapshot.mk hlaid

end Snapshot

end GitInvocation
