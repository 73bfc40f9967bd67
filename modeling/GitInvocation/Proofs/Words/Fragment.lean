import GitInvocation.Command.Token
import GitInvocation.Proofs.Text.Cutting
import GitInvocation.Proofs.Words.Joining
import GitInvocation.Text.Blank

/-!
# Fragments that are words

A fragment without blanks, quotes and backslashes is read as it stands, unless a hash at the
start of the word makes it a comment. A fragment between double quotes is read as it stands when
it has no double quote and no backslash inside. The two may be written next to each other and
are then one word.
-/
namespace GitInvocation.Words

/-- True of the characters without a meaning of their own within a word. -/
def isPlain (c : Char) : Bool := !isGap c && c ≠ '"' && c ≠ '\x27' && c ≠ '\\'

/-- Text that continues a word. -/
def Bare (s : String) : Prop := ∀ c ∈ s.toList, isPlain c

/-- Text that is a word, or is empty. -/
def Plain (s : String) : Prop := Bare s ∧ s.toList.head? ≠ some '#'

/-- Text without a double quote. -/
def Unquoted (s : String) : Prop := '"' ∉ s.toList

/-- Text that stands for itself between double quotes. -/
def Quotable (s : String) : Prop := Unquoted s ∧ '\\' ∉ s.toList

-- The list is named because instance search may find an instance that tries all characters.
instance (s : String) : Decidable (Bare s) := List.decidableBAll _ s.toList
instance (s : String) : Decidable (Plain s) := inferInstanceAs (Decidable (_ ∧ _))
instance (s : String) : Decidable (Unquoted s) := inferInstanceAs (Decidable (¬ _))
instance (s : String) : Decidable (Quotable s) := inferInstanceAs (Decidable (_ ∧ _))

section Reading

variable {p : Place} {s t : List Char}

theorem map_extend_nil (hp : p.inside) (t : List Char) :
    (scan p t).map (extend []) = scan p t := by
  cases h : scan p t with
  | none => rfl
  | some ws =>
    obtain ⟨w, ws, rfl⟩ := List.exists_cons_of_ne_nil (scan_ne_nil hp h)
    rfl

theorem step_bare {c : Char} (hc : isPlain c) :
    next .bare c = .bare ∧ emit .bare c = extend [c] := by
  simp only [isPlain, Bool.and_eq_true, Bool.not_eq_true', decide_eq_true_eq] at hc
  simp [next, emit, hc]

theorem step_gap {c : Char} (hc : isPlain c) (hh : c ≠ '#') :
    next .gap c = .bare ∧ emit .gap c = extend [c] := by
  simp only [isPlain, Bool.and_eq_true, Bool.not_eq_true', decide_eq_true_eq] at hc
  simp [next, emit, hc, hh]

theorem step_double {c : Char} (hq : c ≠ '"') (hb : c ≠ '\\') :
    next .double c = .double ∧ emit .double c = extend [c] := by
  simp [next, emit, hq, hb]

theorem after_bare (hs : ∀ c ∈ s, isPlain c) : after .bare s = .bare := by
  induction s with
  | nil => rfl
  | cons c s ih =>
    rw [after_cons, (step_bare (hs c List.mem_cons_self)).1]
    exact ih fun d hd => hs d (List.mem_cons_of_mem c hd)

theorem scan_bare_append (hs : ∀ c ∈ s, isPlain c) :
    scan .bare (s ++ t) = (scan .bare t).map (extend s) := by
  induction s with
  | nil => exact (map_extend_nil rfl t).symm
  | cons c s ih =>
    obtain ⟨hn, he⟩ := step_bare (hs c List.mem_cons_self)
    rw [List.cons_append, scan_cons, hn, he, ih fun d hd => hs d (List.mem_cons_of_mem c hd),
      Option.map_map]
    congr 1
    funext ws
    exact extend_extend [c] s ws

theorem after_double (hq : '"' ∉ s) (hb : '\\' ∉ s) : after .double s = .double := by
  induction s with
  | nil => rfl
  | cons c s ih =>
    rw [List.mem_cons, not_or] at hq hb
    rw [after_cons, (step_double (Ne.symm hq.1) (Ne.symm hb.1)).1]
    exact ih hq.2 hb.2

theorem scan_double_append (hq : '"' ∉ s) (hb : '\\' ∉ s) :
    scan .double (s ++ t) = (scan .double t).map (extend s) := by
  induction s with
  | nil => exact (map_extend_nil rfl t).symm
  | cons c s ih =>
    rw [List.mem_cons, not_or] at hq hb
    obtain ⟨hn, he⟩ := step_double (Ne.symm hq.1) (Ne.symm hb.1)
    rw [List.cons_append, scan_cons, hn, he, ih hq.2 hb.2, Option.map_map]
    congr 1
    funext ws
    exact extend_extend [c] s ws

/-- A word begins at its first character, which must not be a hash. -/
theorem scan_gap_append (hs : ∀ c ∈ s, isPlain c) (hh : s.head? ≠ some '#') (hne : s ≠ []) :
    scan .gap (s ++ t) = (scan .bare t).map (extend s) ∧ after .gap s = .bare := by
  obtain ⟨c, s, rfl⟩ := List.exists_cons_of_ne_nil hne
  have hc : c ≠ '#' := by simpa using hh
  obtain ⟨hn, he⟩ := step_gap (hs c List.mem_cons_self) hc
  have htail : ∀ d ∈ s, isPlain d := fun d hd => hs d (List.mem_cons_of_mem c hd)
  constructor
  · rw [List.cons_append, scan_cons, hn, he, scan_bare_append htail, Option.map_map]
    congr 1
    funext ws
    exact extend_extend [c] s ws
  · rw [after_cons, hn, after_bare htail]

/-- What stands between double quotes belongs to the word around it. -/
theorem scan_quoted (hp : p = .gap ∨ p = .bare) (hq : '"' ∉ s) (hb : '\\' ∉ s) :
    scan p ('"' :: s ++ ['"']) = some [s] ∧ after p ('"' :: s ++ ['"']) = .bare := by
  have hn : next p '"' = .double := by rcases hp with rfl | rfl <;> rfl
  have he : emit p '"' = id := by rcases hp with rfl | rfl <;> rfl
  constructor
  · rw [List.cons_append, scan_cons, hn, he, scan_double_append hq hb]
    simp [scan, extend]
  · rw [List.cons_append, after_cons, hn, after_append, after_double hq hb]
    rfl

end Reading

/-- A word, or nothing for the empty text. -/
def filled (s : String) : List String := if s = "" then [] else [s]

theorem settled_plain {s : String} (h : Plain s) : Settled s (filled s) := by
  unfold filled
  split
  · next he => rw [he]; exact settled_empty
  · next hne =>
    have hl : s.toList ≠ [] := fun he => hne (String.toList_eq_nil_iff.mp he)
    have hs := scan_gap_append (t := []) h.1 h.2 hl
    rw [List.append_nil] at hs
    constructor
    · rw [hs.1]; simp [scan, extend]
    · rw [hs.2]; exact Place.noConfusion

theorem settled_word {s : String} (h : Plain s) (hne : s ≠ "") : Word s := by
  have := settled_plain h
  rwa [filled, if_neg hne] at this

theorem plain_empty : Plain "" := ⟨fun _ h => absurd h List.not_mem_nil, by simp⟩

/-- True of characters that make a word on their own. -/
def isWord (l : List Char) : Bool := l.all isPlain && l.head?.any (· ≠ '#')

theorem bare_literal (l : List Char) (h : l.all isPlain) :
    Bare (String.ofList l) := by
  rw [Bare, String.toList_ofList]
  exact List.all_eq_true.mp h

theorem plain_literal (l : List Char) (h : isWord l) : Plain (String.ofList l) := by
  rw [isWord, Bool.and_eq_true] at h
  refine ⟨bare_literal l h.1, fun hh => ?_⟩
  rw [String.toList_ofList] at hh
  rw [hh] at h
  exact absurd h.2 (by decide)

theorem quotable_literal (l : List Char) (h : l.all (fun c => c ≠ '"' && c ≠ '\\')) :
    Quotable (String.ofList l) := by
  rw [Quotable, Unquoted, String.toList_ofList]
  rw [List.all_eq_true] at h
  exact ⟨fun hc => absurd (h _ hc) (by decide), fun hc => absurd (h _ hc) (by decide)⟩

/-- A word that is written out, by the characters of its literal. -/
theorem settled_literal (l : List Char) (h : isWord l) :
    Word (String.ofList l) := by
  refine settled_word (plain_literal l h) fun he => ?_
  have hl := congrArg String.toList he
  rw [String.toList_ofList] at hl
  rw [hl] at h
  exact absurd h (by decide)

/-- A quoted text with a plain one in front of it is a single word. -/
theorem settled_quoted {a b : String} (ha : Plain a) (hb : Quotable b) :
    Settled (a ++ quoted b) [a ++ b] := by
  have hl : (a ++ quoted b).toList = a.toList ++ ('"' :: b.toList ++ ['"']) := by
    simp [quoted]
  by_cases he : a.toList = []
  · have hs := scan_quoted (p := .gap) (.inl rfl) hb.1 hb.2
    rw [Settled, hl, he, List.nil_append, hs.1, hs.2]
    simp [he]
  · have hs := scan_quoted (p := .bare) (.inr rfl) hb.1 hb.2
    have hg := scan_gap_append (t := '"' :: b.toList ++ ['"']) ha.1 ha.2 he
    rw [Settled, hl, hg.1, after_append, hg.2, hs.1, hs.2]
    simp [extend]

section Building

variable {a b s : String}

theorem bare_append (ha : Bare a) (hb : Bare b) : Bare (a ++ b) := by
  intro c hc
  rw [String.toList_append, List.mem_append] at hc
  exact hc.elim (ha c) (hb c)

/-- Only the first of two fragments can make a comment. -/
theorem plain_append (ha : Plain a) (hne : a ≠ "") (hb : Bare b) : Plain (a ++ b) := by
  refine ⟨bare_append ha.1 hb, ?_⟩
  have hl : a.toList ≠ [] := fun he => hne (String.toList_eq_nil_iff.mp he)
  obtain ⟨c, cs, hc⟩ := List.exists_cons_of_ne_nil hl
  have hh := ha.2
  rw [String.toList_append, hc] at *
  exact hh

theorem isDigit_of_mem_toString {n : Nat} {c : Char} (hc : c ∈ (toString n).toList) :
    c.isDigit := by
  rw [Nat.toString_eq_ofList_toDigits, String.toList_ofList] at hc
  exact Nat.isDigit_of_mem_toDigits (by decide) (by decide) hc

theorem bare_toString (n : Nat) : Bare (toString n) := by
  intro c hc
  have hd := isDigit_of_mem_toString hc
  simp only [isPlain, isGap, Bool.and_eq_true, Bool.not_eq_true', Bool.or_eq_false_iff,
    decide_eq_true_eq, decide_eq_false_iff_not]
  refine ⟨⟨⟨⟨⟨?_, ?_⟩, ?_⟩, ?_⟩, ?_⟩, ?_⟩ <;> (rintro rfl; exact absurd hd (by decide))

theorem plain_toString (n : Nat) : Plain (toString n) := by
  refine ⟨bare_toString n, fun hh => ?_⟩
  have hd := isDigit_of_mem_toString (List.mem_of_mem_head? hh)
  exact absurd hd (by decide)

theorem toString_ne_empty (n : Nat) : toString n ≠ "" := by
  intro he
  have := congrArg String.toList he
  rw [Nat.toString_eq_ofList_toDigits, String.toList_ofList] at this
  exact Nat.toDigits_ne_nil this

theorem quotable_append (ha : Quotable a) (hb : Quotable b) : Quotable (a ++ b) := by
  simp only [Quotable, Unquoted, String.toList_append, List.mem_append, not_or] at ha hb ⊢
  exact ⟨⟨ha.1, hb.1⟩, ha.2, hb.2⟩

/-- A path has no backslash left. -/
theorem quotable_posixPath (h : Unquoted s) : Quotable (posixPath s) := by
  simp only [Quotable, Unquoted, posixPath, String.toList_map, List.mem_map, not_exists, not_and]
  constructor
  · intro c hc he
    split at he
    · exact absurd he (by decide)
    · exact h (he ▸ hc)
  · intro c hc he
    split at he
    · exact absurd he (by decide)
    · next hb => exact hb he

theorem posixPath_eq_empty : posixPath s = "" ↔ s = "" := by
  rw [← String.toList_eq_nil_iff, posixPath, String.toList_map, List.map_eq_nil_iff,
    String.toList_eq_nil_iff]

theorem quotable_trim (h : Quotable s) : Quotable (Text.trim s) := by
  rw [Quotable, Unquoted, Text.trim, String.toList_ofList]
  exact ⟨fun hc => h.1 (Text.mem_trimChars hc), fun hc => h.2 (Text.mem_trimChars hc)⟩

theorem ne_empty_of_nonBlank? {o : Option String} (h : s ∈ Text.nonBlank? o) : s ≠ "" := by
  rw [Option.mem_def, Text.nonBlank?, Option.filter_eq_some_iff] at h
  rintro rfl
  exact absurd h.2 (by decide)

end Building

end GitInvocation.Words
