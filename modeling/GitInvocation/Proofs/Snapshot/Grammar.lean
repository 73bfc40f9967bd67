import GitInvocation.Proofs.Snapshot.History
import Mathlib.Data.List.DropRight
import Mathlib.Data.Set.Card

/-!
# The grammar of listings

What a listing is, stated by the text alone. A line ends at a line feed, and carriage returns in
front of it do not belong to it. A line with an equals sign gives the key in front of the first
sign the text behind it, and a line without one is a key with the value `true`, unless it is blank.
Only a line with a sign and nothing but white space in front of it is at fault.

A listing is refused for its first line at fault, and for nothing else. Otherwise a key has the
value that the last line for it gives, and keys are counted by kind.
-/
namespace GitInvocation.Snapshot

open Text (isBlank)
open Key (Matches)

/-- The lines of a text. Behind a line feed at the end stands one more, which is empty. -/
def textLines (text : String) : List (List Char) :=
  (text.toList.splitOn '\n').map (List.rdropWhile (· = '\r'))

/-- There is nothing but white space in front of the first equals sign. -/
def LacksKey (line : List Char) : Prop :=
  ∃ before after, line = before ++ '=' :: after ∧ ∀ c ∈ before, isBlank c

/-- The key and the value in a line. -/
inductive Says : List Char → String → String → Prop
  | assigned {key : List Char} (h : '=' ∉ key) (value : List Char) :
      Says (key ++ '=' :: value) (String.ofList key) (String.ofList value)
  | alone {key : List Char} (h : '=' ∉ key) (hb : key.all isBlank = false) :
      Says key (String.ofList key) "true"

/-- The line gives the key, in any of its spellings, the value. -/
def Sets (line : List Char) (k value : String) : Prop :=
  ∃ key, Says line key value ∧ Matches key k

section Lines

variable {line before after : List Char} {lines : List (List Char)} {k key value : String}

theorem lacksKey_iff : LacksKey line ↔ keyless line := by
  constructor
  · rintro ⟨before, after, rfl, hblank⟩
    have hkey : '=' ∉ before := fun hm => absurd (hblank '=' hm) (by decide)
    obtain ⟨hk, hv⟩ := cut_assigned hkey after
    rw [keyless, hk, hv, Option.isSome_some, Bool.true_and]
    exact List.all_eq_true.mpr hblank
  · intro h
    obtain ⟨hs, hblank⟩ := Bool.and_eq_true_iff.mp h
    obtain ⟨value, hvalue⟩ := Option.isSome_iff_exists.mp hs
    exact ⟨lineKey line, value, line_of_lineValue? hvalue, List.all_eq_true.mp hblank⟩

instance (line : List Char) : Decidable (LacksKey line) := decidable_of_iff _ lacksKey_iff.symm

theorem says_iff :
    Says line key value ↔ line.all isBlank = false ∧ lineEntry line = (key, value) := by
  constructor
  · intro h
    cases h with
    | assigned h value =>
      obtain ⟨hk, hv⟩ := cut_assigned h value
      refine ⟨not_blank_of_sign (List.mem_append_right _ List.mem_cons_self), ?_⟩
      rw [lineEntry, hk, hv, Option.getD_some]
    | alone h hb =>
      have hv := lineValue?_eq_none_iff.mpr h
      refine ⟨hb, ?_⟩
      rw [lineEntry, lineKey_of_lineValue?_eq_none hv, hv, Option.getD_none, String.ofList_toList]
  · rintro ⟨hb, hentry⟩
    obtain ⟨rfl, rfl⟩ := Prod.mk.inj hentry
    cases hv : lineValue? line with
    | none =>
      rw [lineKey_of_lineValue?_eq_none hv, Option.getD_none, String.ofList_toList]
      exact .alone (lineValue?_eq_none_iff.mp hv) hb
    | some value =>
      have hsays := Says.assigned (sign_notMem_lineKey line) value
      rwa [← line_of_lineValue? hv] at hsays

/-- What a line gives a key, if anything. -/
def given? (k : String) (line : List Char) : Option String :=
  if line.all isBlank then none
  else if Matches (lineEntry line).1 k then some (lineEntry line).2 else none

theorem given?_eq_some_iff : given? k line = some value ↔ Sets line k value := by
  unfold given?
  constructor
  · intro h
    split at h
    · exact nomatch h
    · next hb =>
      split at h
      · next hm =>
        obtain rfl := Option.some.inj h
        exact ⟨_, says_iff.mpr ⟨Bool.eq_false_of_not_eq_true hb, rfl⟩, hm⟩
      · exact nomatch h
  · rintro ⟨key, hsays, hm⟩
    obtain ⟨hb, hentry⟩ := says_iff.mp hsays
    rw [hentry, hb, if_neg (by decide), if_pos hm]

theorem given?_eq_none_iff : given? k line = none ↔ ∀ value, ¬ Sets line k value := by
  rw [Option.eq_none_iff_forall_ne_some]
  simp only [ne_eq, given?_eq_some_iff]

/-- The last line that gives the key anything decides. -/
theorem lastValue?_lineEntries (k : String) (lines : List (List Char)) :
    lastValue? (fun key => Matches key k) (lineEntries lines) =
      lines.reverse.findSome? (given? k) := by
  induction lines with
  | nil => rfl
  | cons line lines ih =>
    rw [List.reverse_cons, List.findSome?_append, List.findSome?_singleton, ← ih, given?]
    by_cases hb : line.all isBlank
    · rw [lineEntries_cons_blank lines hb, if_pos hb, Option.or_none]
    · rw [lineEntries_cons lines hb, if_neg hb, ← Prod.mk.eta (p := lineEntry line),
        lastValue?_cons]
      simp only [decide_eq_true_eq]

theorem lastValue?_eq_some_iff :
    lastValue? (fun key => Matches key k) (lineEntries lines) = some value ↔
      ∃ before line after, lines = before ++ line :: after ∧ Sets line k value ∧
        ∀ l ∈ after, ∀ w, ¬ Sets l k w := by
  rw [lastValue?_lineEntries, List.findSome?_eq_some_iff]
  constructor
  · rintro ⟨after, line, before, hlines, hset, hnone⟩
    refine ⟨before.reverse, line, after.reverse, ?_, given?_eq_some_iff.mp hset, fun l hl => ?_⟩
    · rw [← List.reverse_reverse lines, hlines]
      simp
    · exact given?_eq_none_iff.mp (hnone l (List.mem_reverse.mp hl))
  · rintro ⟨before, line, after, rfl, hset, hnone⟩
    refine ⟨after.reverse, line, before.reverse, ?_, given?_eq_some_iff.mpr hset, fun l hl => ?_⟩
    · simp
    · exact given?_eq_none_iff.mpr (hnone l (List.mem_reverse.mp hl))

theorem lastValue?_eq_none_iff :
    lastValue? (fun key => Matches key k) (lineEntries lines) = none ↔
      ∀ line ∈ lines, ∀ value, ¬ Sets line k value := by
  rw [lastValue?_lineEntries, List.findSome?_eq_none_iff]
  simp only [List.mem_reverse, given?_eq_none_iff]

/-- The first line at fault is the first fault. -/
theorem head?_lineFaults {before after : List (List Char)} (hline : LacksKey line)
    (hbefore : ∀ l ∈ before, ¬ LacksKey l) (n : Nat) :
    (lineFaults n (before ++ line :: after)).head? =
      some (.keyless (n + before.length) (String.ofList line)) := by
  induction before generalizing n with
  | nil =>
    rw [List.nil_append, lineFaults_cons, if_pos (lacksKey_iff.mp hline)]
    rfl
  | cons l before ih =>
    have hl : ¬ keyless l := mt lacksKey_iff.mpr (hbefore l List.mem_cons_self)
    have hrest := ih (fun m hm => hbefore m (List.mem_cons_of_mem l hm)) (n + 1)
    rw [List.cons_append, lineFaults_cons, if_neg hl, hrest, List.length_cons]
    congr 2
    omega

/-- A last line that is empty says nothing. -/
theorem lineEntries_concat_nil (lines : List (List Char)) :
    lineEntries (lines ++ [[]]) = lineEntries lines := by
  rw [lineEntries, List.filter_append]
  simp [lineEntries]

theorem lineFaults_concat_nil (n : Nat) (lines : List (List Char)) :
    lineFaults n (lines ++ [[]]) = lineFaults n lines := by
  rw [lineFaults, List.zipIdx_append, List.filter_append]
  simp [lineFaults, keyless, lineValue?]

end Lines

section Texts

variable {text : String}

theorem splitOn_eq_lines (s : List Char) :
    s.splitOn '\n' = Text.lines s ∨ s.splitOn '\n' = Text.lines s ++ [[]] := by
  induction s with
  | nil => exact .inr rfl
  | cons c s ih =>
    rw [List.splitOn_eq_splitOnP] at ih ⊢
    rw [List.splitOnP_cons_eq_if_modifyHead, Text.lines]
    by_cases hc : c = '\n'
    · rw [if_pos (beq_iff_eq.mpr hc), if_pos hc]
      exact ih.imp (congrArg _) (congrArg _)
    · rw [if_neg (mt beq_iff_eq.mp hc), if_neg hc]
      cases hl : Text.lines s with
      | nil =>
        -- Without a line there is no text behind the character, so its line ends here.
        rw [hl] at ih
        rcases ih with ih | ih
        · exact absurd ih (List.splitOnP_ne_nil _ s)
        · rw [ih]
          exact .inl rfl
      | cons line more =>
        rw [hl] at ih
        rcases ih with ih | ih
        · rw [ih]
          exact .inl rfl
        · rw [ih]
          exact .inr rfl

theorem textLines_eq (text : String) :
    textLines text = listingLines text.toList ∨
      textLines text = listingLines text.toList ++ [[]] := by
  rcases splitOn_eq_lines text.toList with h | h
  · left
    rw [textLines, h]
    rfl
  · right
    rw [textLines, h, List.map_append]
    rfl

theorem ofListing_textLines (text : String) :
    ofListing text =
      judged (lineFaults 1 (textLines text)) (ofList (lineEntries (textLines text))) := by
  rw [ofListing_eq, listingFaults, listingEntries]
  rcases textLines_eq text with h | h
  · rw [h]
  · rw [h, lineFaults_concat_nil, lineEntries_concat_nil]

/-- The kinds of the keys in the lines. -/
def keyKinds (lines : List (List Char)) : Set (Quotient Key.matching) :=
  {kind | ∃ line ∈ lines, ∃ key value, Says line key value ∧ Quotient.mk Key.matching key = kind}

theorem size_lineEntries (lines : List (List Char)) :
    (ofList (lineEntries lines)).size = (keyKinds lines).ncard := by
  have hkinds : keyKinds lines = ↑(History.collect (lineEntries lines)).kinds := by
    ext kind
    rw [Finset.mem_coe, History.kinds, List.mem_toFinset, List.mem_map]
    constructor
    · rintro ⟨line, hline, key, value, hsays, rfl⟩
      obtain ⟨hb, hentry⟩ := says_iff.mp hsays
      refine ⟨(key, value), ?_, rfl⟩
      rw [← hentry]
      exact List.mem_map_of_mem (List.mem_filter.mpr ⟨hline, by rw [hb]; rfl⟩)
    · rintro ⟨item, hitem, rfl⟩
      obtain ⟨line, hline, rfl⟩ := List.mem_map.mp hitem
      obtain ⟨hmem, hb⟩ := List.mem_filter.mp hline
      exact ⟨line, hmem, _, _, says_iff.mpr ⟨by simpa using hb, rfl⟩, rfl⟩
  rw [hkinds, Set.ncard_coe_finset]
  exact (History.collect (lineEntries lines)).size_ofList

/-- A listing is refused exactly when one of its lines lacks a key, and for the first such line.
Otherwise a key has what the last line for it gives, and nothing without such a line; there are as
many entries as the lines have kinds of keys. -/
theorem listing_grammar (text : String) :
    ((∃ e, ofListing text = .error e) ↔ ∃ line ∈ textLines text, LacksKey line) ∧
    (∀ before line after, textLines text = before ++ line :: after → LacksKey line →
      (∀ l ∈ before, ¬ LacksKey l) →
      ofListing text = .error (.keyless (before.length + 1) (String.ofList line))) ∧
    ((∀ line ∈ textLines text, ¬ LacksKey line) → ∃ s, ofListing text = .ok s ∧
      (∀ k value, s.get? k = some value ↔
        ∃ before line after, textLines text = before ++ line :: after ∧ Sets line k value ∧
          ∀ l ∈ after, ∀ w, ¬ Sets l k w) ∧
      (∀ k, s.get? k = none ↔ ∀ line ∈ textLines text, ∀ value, ¬ Sets line k value) ∧
      s.size = (keyKinds (textLines text)).ncard) := by
  rw [ofListing_textLines]
  refine ⟨?_, fun before line after hlines hline hbefore => ?_, fun hnone => ?_⟩
  · rw [exists_judged_eq_error, lineFaults_ne_nil]
    simp only [lacksKey_iff]
  · rw [judged_eq_error, hlines, head?_lineFaults hline hbefore, Nat.add_comm]
  · have hfaults : lineFaults 1 (textLines text) = [] := by
      by_contra h
      obtain ⟨line, hline, hkey⟩ := lineFaults_ne_nil.mp h
      exact hnone line hline (lacksKey_iff.mpr hkey)
    refine ⟨_, judged_eq_ok.mpr ⟨hfaults, rfl⟩, fun k value => ?_, fun k => ?_, size_lineEntries _⟩
    · rw [get?_ofList, lastValue?_eq_some_iff]
    · rw [get?_ofList, lastValue?_eq_none_iff]

/-- Blank lines are counted in front of a fault, and a key is found in both of its spellings. -/
theorem listing_grammar_blankLines :
    let broken := "a=1\n\n \u00a0=x\r\n=y"
    let text := "Core.Pager= a=b \r\r\n\u3000\nFETCH.Parallel\ncore.PAGER= = less\n"
    ofListing broken = .error (.keyless 3 " \u00a0=x") ∧
      ∃ s, ofListing text = .ok s ∧ s.get? "core.pager" = some " = less" ∧
        s.get? "Fetch.parallel" = some "true" ∧ s.get? "core.editor" = none := by
  intro broken text
  obtain ⟨-, hfault, -⟩ := listing_grammar broken
  obtain ⟨-, -, hread⟩ := listing_grammar text
  obtain ⟨s, hs, hget, hnone, -⟩ := hread (by decide +kernel)
  have hsilent : ∀ {k : String} {lines : List (List Char)}, (∀ l ∈ lines, given? k l = none) →
      ∀ l ∈ lines, ∀ value, ¬ Sets l k value :=
    fun h l hl => given?_eq_none_iff.mp (h l hl)
  refine ⟨?_, s, hs, ?_, ?_, ?_⟩
  · exact hfault [['a', '=', '1'], []] " \u00a0=x".toList [['=', 'y']] (by decide +kernel)
      (by decide +kernel) (by decide +kernel)
  · refine (hget _ _).mpr ⟨["Core.Pager= a=b ".toList, ['\u3000'], "FETCH.Parallel".toList],
      "core.PAGER= = less".toList, [[]], by decide +kernel, ?_, hsilent (by decide +kernel)⟩
    exact given?_eq_some_iff.mp (by decide +kernel)
  · refine (hget _ _).mpr ⟨["Core.Pager= a=b ".toList, ['\u3000']], "FETCH.Parallel".toList,
      ["core.PAGER= = less".toList, []], by decide +kernel, ?_, hsilent (by decide +kernel)⟩
    exact given?_eq_some_iff.mp (by decide +kernel)
  · exact (hnone _).mpr (hsilent (by decide +kernel))

end Texts

end GitInvocation.Snapshot
