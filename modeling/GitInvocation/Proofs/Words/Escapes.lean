import GitInvocation.Proofs.Words.Comment

/-!
# Backslashes between double quotes

Between double quotes a backslash escapes some characters only and stands for itself in front of
all others. Text without a double quote is therefore read as it stands exactly when no backslash in
it escapes anything. A backslash at its end escapes the closing quote, and then nothing of the text
is read unless another quote comes.
-/
namespace GitInvocation.Words

/-- What a backslash and the character behind it stand for between double quotes. -/
def unescaped (c : Char) : List Char :=
  if escapable c then [c] else if c = '\n' then [] else ['\\', c]

/-- What text stands for between double quotes; `none` when its last backslash is left over. -/
def content? : List Char → Option (List Char)
  | [] => some []
  | ['\\'] => none
  | '\\' :: c :: s => (content? s).map (unescaped c ++ ·)
  | c :: s => (content? s).map (c :: ·)

/-- Behind every backslash stands a character that it does not escape. -/
def Inert (s : List Char) : Prop :=
  ∀ i, s[i]? = some '\\' → ∃ c, s[i + 1]? = some c ∧ escapable c = false ∧ c ≠ '\n'

variable {s t : List Char}

/-- A character that is left alone, with text behind it or without, is no backslash. -/
theorem ne_backslash {c : Char} (hlast : c = '\\' → s = [] → False)
    (hmore : ∀ d r, c = '\\' → s = d :: r → False) : c ≠ '\\' := by
  intro hc
  cases s with
  | nil => exact hlast hc rfl
  | cons d r => exact hmore d r hc rfl

/-- Quotes that are not closed have no words. -/
theorem scan_unclosed {p : Place} (hp : p = .double ∨ p = .doubleEscape) (h : '"' ∉ t) :
    scan p t = none := by
  induction t generalizing p with
  | nil => rcases hp with rfl | rfl <;> rfl
  | cons c t ih =>
    rw [List.mem_cons, not_or] at h
    have hnext : next p c = .double ∨ next p c = .doubleEscape := by
      rcases hp with rfl | rfl
      · rw [next, if_neg (Ne.symm h.1)]
        split
        · exact .inr rfl
        · exact .inl rfl
      · exact .inl rfl
    rw [scan_cons, ih hnext h.2, Option.map_none]

theorem scan_escaped (c : Char) (t : List Char) :
    scan .double ('\\' :: c :: t) = (scan .double t).map (extend (unescaped c)) := by
  have hopen : scan .double ('\\' :: c :: t) = scan .doubleEscape (c :: t) := by
    rw [scan_cons]
    exact Option.map_id_apply
  rw [hopen, scan, unescaped]
  split
  · rfl
  · split
    · exact (map_extend_nil rfl t).symm
    · rfl

/-- Text between double quotes is read as what it stands for, and not at all when the closing quote
is taken for an escaped one and no other follows. -/
theorem scan_content (hs : '"' ∉ s) (ht : '"' ∉ t) :
    scan .double (s ++ '"' :: t) =
      (content? s).bind fun w => (scan .bare t).map (extend w) := by
  fun_induction content? s with
  | case1 => exact (map_extend_nil rfl t).symm
  | case2 =>
    rw [List.cons_append, List.nil_append, scan_escaped, scan_unclosed (.inl rfl) ht]
    rfl
  | case3 c s ih =>
    simp only [List.mem_cons, not_or] at hs
    rw [List.cons_append, List.cons_append, scan_escaped, ih hs.2.2]
    cases content? s with
    | none => rfl
    | some w => simp [Function.comp_def, extend_extend]
  | case4 c s hlast hmore ih =>
    rw [List.mem_cons, not_or] at hs
    have hc := ne_backslash hlast hmore
    obtain ⟨hn, he⟩ := step_double (Ne.symm hs.1) hc
    rw [List.cons_append, scan_cons, hn, he, ih hs.2]
    cases content? s with
    | none => rfl
    | some w => simp [Function.comp_def, extend_extend]

/-- A part between double quotes is a word, whatever settled parts come behind it. -/
theorem scan_quoted_parts {value : String} {behind tail : List String} (hvalue : Unquoted value)
    (hbehind : AllSettled behind tail) (hquote : ∀ part ∈ behind, Unquoted part) :
    scan .gap (" ".intercalate (quoted value :: behind)).toList =
      (content? value.toList).map fun w => w :: tail.map String.toList := by
  have hopen : ∀ rest, scan .gap ('"' :: rest) = scan .double rest := fun rest => by
    rw [scan_cons]
    exact Option.map_id_apply
  by_cases hne : behind = []
  · subst hne
    cases hbehind
    have hl : (quoted value).toList = '"' :: (value.toList ++ ['"']) := by simp [quoted]
    rw [String.intercalate_singleton, hl, hopen, scan_content hvalue List.not_mem_nil]
    cases content? value.toList with
    | none => rfl
    | some w => simp [scan, extend]
  · have hrest : '"' ∉ (" ".intercalate behind).toList :=
      fun hm => forall_intercalate (P := (· ≠ '"')) (by decide)
        (fun part hp c hc he => hquote part hp (he ▸ hc)) '"' hm rfl
    have hl : (" ".intercalate (quoted value :: behind)).toList =
        '"' :: (value.toList ++ '"' :: ' ' :: (" ".intercalate behind).toList) := by
      rw [String.intercalate_cons_of_ne_nil hne]
      simp [quoted]
    have hgap : '"' ∉ ' ' :: (" ".intercalate behind).toList := by simpa using hrest
    have hspace := scan_append_space (p := .bare) (s := []) rfl (by simp)
      (" ".intercalate behind).toList
    rw [hl, hopen, scan_content hvalue hgap, ← List.nil_append (' ' :: _), hspace,
      hbehind.intercalate.1]
    cases content? value.toList with
    | none => rfl
    | some w => simp [extend]

/-- A part between double quotes among settled parts is one word of the whole, and the whole does
not split when the last backslash of the part is left over. -/
theorem words?_between {value : String} {before behind front tail : List String}
    (hbefore : AllSettled before front) (hvalue : Unquoted value)
    (hbehind : AllSettled behind tail) (hquote : ∀ part ∈ behind, Unquoted part) :
    words? (" ".intercalate (before ++ quoted value :: behind)) =
      (content? value.toList).map fun w => front ++ String.ofList w :: tail := by
  have hscan := scan_quoted_parts hvalue hbehind hquote
  by_cases hne : before = []
  · subst hne
    cases hbefore
    rw [words?, List.nil_append, hscan, Option.map_map]
    simp [Function.comp_def]
  · have hfront := hbefore.intercalate
    have hl : (" ".intercalate (before ++ quoted value :: behind)).toList =
        (" ".intercalate before).toList ++
          ' ' :: (" ".intercalate (quoted value :: behind)).toList := by
      rw [String.intercalate_append_of_ne_nil hne (List.cons_ne_nil _ _)]
      simp
    rw [words?, hl, scan_append_space hfront.1 hfront.2, hscan]
    simp [Function.comp_def]

theorem length_unescaped (c : Char) : (unescaped c).length ≤ 2 := by
  unfold unescaped
  split
  · simp
  · split <;> simp

theorem length_content {w : List Char} (h : content? s = some w) : w.length ≤ s.length := by
  fun_induction content? s generalizing w with
  | case1 => exact Nat.le_of_eq (congrArg List.length (Option.some.inj h).symm)
  | case2 => exact nomatch h
  | case3 c s ih =>
    obtain ⟨v, hv, rfl⟩ := Option.map_eq_some_iff.mp h
    have hle := ih hv
    have hc := length_unescaped c
    rw [List.length_append, List.length_cons, List.length_cons]
    omega
  | case4 c s _ _ ih =>
    obtain ⟨v, hv, rfl⟩ := Option.map_eq_some_iff.mp h
    exact Nat.succ_le_succ (ih hv)

theorem inert_cons {c : Char} :
    Inert (c :: s) ↔
      (c = '\\' → ∃ d, s.head? = some d ∧ escapable d = false ∧ d ≠ '\n') ∧ Inert s := by
  constructor
  · intro h
    refine ⟨fun hc => ?_, fun i => h (i + 1)⟩
    rw [List.head?_eq_getElem?]
    exact h 0 (congrArg some hc)
  · rintro ⟨hfirst, hrest⟩ i hi
    cases i with
    | zero =>
      obtain ⟨d, hd, hkept⟩ := hfirst (Option.some.inj hi)
      rw [List.head?_eq_getElem?] at hd
      exact ⟨d, hd, hkept⟩
    | succ i => exact hrest i hi

/-- A backslash and the character behind it stay as they are only if nothing is escaped. -/
theorem unescaped_append_eq_iff {c : Char} {w : List Char} (hw : w.length ≤ s.length) :
    unescaped c ++ w = '\\' :: c :: s ↔ (escapable c = false ∧ c ≠ '\n') ∧ w = s := by
  unfold unescaped
  by_cases he : escapable c
  · rw [if_pos he]
    refine iff_of_false (fun h => ?_) fun h => absurd (h.1.1.symm.trans he) (by decide)
    have hl := congrArg List.length h
    simp only [List.length_append, List.length_cons, List.length_nil] at hl
    omega
  · rw [if_neg he]
    by_cases hn : c = '\n'
    · rw [if_pos hn]
      refine iff_of_false (fun h => ?_) fun h => h.1.2 hn
      have hl := congrArg List.length h
      simp only [List.length_append, List.length_cons, List.length_nil] at hl
      omega
    · simp [hn, he]

/-- Text stands for itself between double quotes exactly when it is inert. -/
theorem content?_eq_self_iff : content? s = some s ↔ Inert s := by
  fun_induction content? s with
  | case1 => exact iff_of_true rfl fun i hi => absurd hi (by simp)
  | case2 =>
    refine iff_of_false nofun fun h => ?_
    obtain ⟨d, hd, -⟩ := (inert_cons.mp h).1 rfl
    exact nomatch hd
  | case3 c s ih =>
    have hmiddle : escapable c = false → c ≠ '\\' := by
      rintro he rfl
      exact absurd he (by decide)
    rw [Option.map_eq_some_iff, inert_cons, inert_cons, ← ih]
    constructor
    · rintro ⟨w, hw, heq⟩
      obtain ⟨hkept, rfl⟩ := (unescaped_append_eq_iff (length_content hw)).mp heq
      exact ⟨fun _ => ⟨c, rfl, hkept⟩, fun hc => absurd hc (hmiddle hkept.1), hw⟩
    · rintro ⟨hfirst, -, hs⟩
      obtain ⟨d, hd, hkept⟩ := hfirst rfl
      obtain rfl := Option.some.inj hd
      exact ⟨s, hs, (unescaped_append_eq_iff (Nat.le_refl _)).mpr ⟨hkept, rfl⟩⟩
  | case4 c s hlast hmore ih =>
    have hc := ne_backslash hlast hmore
    rw [Option.map_eq_some_iff, inert_cons, ← ih]
    simp [hc]

instance (s : List Char) : Decidable (Inert s) := decidable_of_iff _ content?_eq_self_iff

/-- Only a backslash can be read as something else. -/
theorem inert_of_notMem (h : '\\' ∉ s) : Inert s := fun _ hi => absurd (List.mem_of_getElem? hi) h

end GitInvocation.Words
