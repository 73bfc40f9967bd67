import GitInvocation.Proofs.Snapshot.Grammar

/-!
# Listings put together

A line feed between two listings parts their lines whatever stands at the seam: the first listing
may end within a line, with carriage returns or with a line feed, and either may be empty. So the
whole has the lines of both, and what it says follows from what they say. A fault of the second
listing is reported as many lines further down as the first one has. Carriage returns in front of
the line feeds do not count.
-/
namespace GitInvocation

/-- The same fault in a listing with `n` lines in front. -/
def SnapshotError.moved (n : Nat) : SnapshotError → SnapshotError
  | .keyless line content => .keyless (line + n) content
  | .unreadable path reason => .unreadable path reason

namespace Snapshot

def lineFeeds (text : String) : Nat := text.toList.count '\n'

def returned (c : Char) : List Char := if c = '\n' then ['\r', '\n'] else [c]

/-- The text with a carriage return in front of every line feed. -/
def withReturns (text : String) : String := String.ofList (text.toList.flatMap returned)

section Lines

variable (lines more : List (List Char))

theorem lineEntries_append :
    lineEntries (lines ++ more) = lineEntries lines ++ lineEntries more := by
  rw [lineEntries, List.filter_append, List.map_append, lineEntries, lineEntries]

theorem lineFaults_append (n : Nat) :
    lineFaults n (lines ++ more) = lineFaults n lines ++ lineFaults (n + lines.length) more := by
  rw [lineFaults, List.zipIdx_append, List.filter_append, List.map_append, lineFaults, lineFaults]

/-- Lines that are numbered from a later one on have their faults further down. -/
theorem lineFaults_moved (n k : Nat) :
    lineFaults (n + k) lines = (lineFaults n lines).map (SnapshotError.moved k) := by
  induction lines generalizing n with
  | nil => rfl
  | cons line lines ih =>
    have hrest : lineFaults (n + k + 1) lines =
        (lineFaults (n + 1) lines).map (SnapshotError.moved k) := by
      rw [← ih (n + 1), Nat.add_right_comm]
    rw [lineFaults_cons, lineFaults_cons, hrest]
    cases keyless line <;> rfl

end Lines

section Seam

variable (s t : String)

theorem textLines_append : textLines (s ++ "\n" ++ t) = textLines s ++ textLines t := by
  have hl : (s ++ "\n" ++ t).toList = s.toList ++ '\n' :: t.toList := by simp
  rw [textLines, hl, List.splitOn_append_cons_self, List.map_append, textLines, textLines]

theorem length_textLines : (textLines s).length = lineFeeds s + 1 := by
  rw [textLines, List.length_map, lineFeeds]
  induction s.toList with
  | nil => rfl
  | cons c cs ih =>
    rw [List.splitOn_cons_eq_if_modifyHead, List.count_cons]
    by_cases hc : c = '\n' <;> simp [hc, ih]

/-- The lines of two listings are judged in one go, and their entries come one after the other. -/
theorem ofListing_append :
    ofListing (s ++ "\n" ++ t) =
      judged (lineFaults 1 (textLines s) ++
          (lineFaults 1 (textLines t)).map (SnapshotError.moved (lineFeeds s + 1)))
        ((ofList (lineEntries (textLines s))).merge (ofList (lineEntries (textLines t)))) := by
  rw [ofListing_textLines, textLines_append, lineFaults_append, lineEntries_append,
    length_textLines, lineFaults_moved, merge_ofList]

end Seam

section Returns

/-- A carriage return in front of a line feed is one of those at the end of its line. -/
theorem lines_returned {line : List Char} (h : '\n' ∉ line) (s : List Char) :
    ((line ++ s.flatMap returned).splitOn '\n').map (List.rdropWhile (· = '\r')) =
      ((line ++ s).splitOn '\n').map (List.rdropWhile (· = '\r')) := by
  -- The induction is on the text that is left, behind any line that has begun.
  induction s generalizing line with
  | nil => rfl
  | cons c s ih =>
    rw [List.flatMap_cons, returned]
    by_cases hc : c = '\n'
    · have hreturn : '\n' ∉ line ++ ['\r'] := by simpa using h
      have hrest := @ih [] List.not_mem_nil
      rw [List.nil_append, List.nil_append] at hrest
      rw [if_pos hc, hc, List.cons_append, List.singleton_append, List.append_cons,
        List.splitOn_append_cons_self_of_not_mem hreturn,
        List.splitOn_append_cons_self_of_not_mem h, List.map_cons, List.map_cons, hrest,
        List.rdropWhile_concat_pos _ _ _ (by decide)]
    · have hmore : '\n' ∉ line ++ [c] := by
        rw [List.mem_append, List.mem_singleton, not_or]
        exact ⟨h, Ne.symm hc⟩
      rw [if_neg hc, List.append_cons line c, ← List.append_assoc]
      exact ih hmore

theorem textLines_withReturns (text : String) : textLines (withReturns text) = textLines text := by
  rw [textLines, withReturns, String.toList_ofList]
  exact lines_returned List.not_mem_nil text.toList

end Returns

/-- The law of composition. A listing of two parts fails as the first part does, else as the second
does, with the lines of the first counted in, and otherwise is the second part laid on top of the
first. Line feeds with carriage returns in front are read like line feeds. -/
theorem listings_compose (first second text : String) :
    ofListing (first ++ "\n" ++ second) = (do
      let bottom ← ofListing first
      let top ← (ofListing second).mapError (SnapshotError.moved (lineFeeds first + 1))
      return bottom.merge top) ∧
    ofListing (withReturns text) = ofListing text := by
  constructor
  · rw [ofListing_append, ofListing_textLines first, ofListing_textLines second, mapError_judged]
    -- Each of the two faults lists is empty or not, and the first fault that is there decides.
    cases lineFaults 1 (textLines first) with
    | cons fault rest => rfl
    | nil =>
      cases lineFaults 1 (textLines second) with
      | cons fault rest => rfl
      | nil => rfl
  · rw [ofListing_textLines, textLines_withReturns, ← ofListing_textLines]

/-- A first listing that ends with a line feed has an empty line at the seam. -/
example : ofListing ("a=1\r\n" ++ "\n" ++ "b\n=x\r") = .error (.keyless 4 "=x") := by cbv

end Snapshot

end GitInvocation
