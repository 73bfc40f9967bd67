import GitInvocation.Proofs.Words.Escapes

/-!
# What quoting loses

A text between double quotes has more characters than its words. Each quote that opens must close,
a quote that is kept needs a backslash, and no place gives more characters than it takes. So a text
with a double quote in it never comes back from between double quotes, wherever its quotes, blanks
and comments may fall, and without one it comes back exactly when no backslash escapes anything.
-/
namespace GitInvocation.Words

variable {p : Place} {s : List Char} {ws : List (List Char)}

/-- How many characters the words have together. -/
def size (ws : List (List Char)) : Nat := ws.flatten.length

/-- What is certain to be lost from a place on: quotes have yet to be closed. -/
def Place.owed : Place → Nat
  | .single | .double => 1
  | _ => 0

@[simp] theorem size_nil_cons (ws : List (List Char)) : size ([] :: ws) = size ws := rfl

@[simp] theorem size_extend (a : List Char) (ws : List (List Char)) :
    size (extend a ws) = a.length + size ws := by
  cases ws <;> simp [size, extend]

/-- One character makes the words longer by one at most, and what is lost is owed before. -/
theorem size_emit (p : Place) (c : Char) (ws : List (List Char)) :
    size (emit p c ws) + p.owed ≤ size ws + (next p c).owed + 1 := by
  cases p with
  | gap | comment | bare | bareEscape =>
    -- Nothing is owed before, and the character is kept once at most.
    simp only [emit, Place.owed]
    repeat' split
    all_goals
      simp only [id_eq, size_nil_cons, size_extend, List.length_singleton]
      omega
  | single =>
    by_cases hc : c = '\x27'
    · simp [emit, Place.owed, hc]
    · -- The quote is still to be closed.
      simp only [emit, next, Place.owed, if_neg hc, size_extend, List.length_singleton]
      omega
  | double =>
    by_cases hc : c = '"' ∨ c = '\\'
    · simp [emit, Place.owed, hc]
    · have hopen : next .double c = .double := by
        rw [next, if_neg fun h => hc (.inl h), if_neg fun h => hc (.inr h)]
      rw [hopen, emit, if_neg hc, size_extend, List.length_singleton]
      omega
  | doubleEscape =>
    -- The backslash may be kept too, and the quote is open again.
    simp only [emit, next, Place.owed]
    repeat' split
    all_goals
      simp only [id_eq, size_extend, List.length_cons, List.length_nil]
      omega

theorem size_scan (h : scan p s = some ws) : size ws + p.owed ≤ s.length := by
  induction s generalizing p ws with
  | nil =>
    cases p with
    | gap | comment | bare => obtain rfl := Option.some.inj h; exact Nat.le_refl _
    | _ => cases h
  | cons c s ih =>
    rw [scan_cons] at h
    obtain ⟨vs, hv, rfl⟩ := Option.map_eq_some_iff.mp h
    have hstep := size_emit p c vs
    have hrest := ih hv
    rw [List.length_cons]
    omega

/-- A character with a meaning of its own is not part of the word. -/
theorem size_emit_bare {c : Char} (hc : isPlain c = false) (ws : List (List Char)) :
    size (emit .bare c ws) = size ws := by
  simp only [emit]
  split
  · rfl
  · next hgap =>
    split
    · rfl
    · next hmark => simp_all [isPlain]

/-- In front of the closing quote of a word nothing can be kept that makes up for it. -/
theorem size_bare_lt (h : scan .bare s = some ws) (hq : '"' ∈ s) : size ws < s.length := by
  induction s generalizing ws with
  | nil => cases hq
  | cons c s ih =>
    rw [scan_cons] at h
    obtain ⟨vs, hv, rfl⟩ := Option.map_eq_some_iff.mp h
    rw [List.length_cons]
    by_cases hc : isPlain c
    · obtain ⟨hn, he⟩ := step_bare hc
      have hne : '"' ≠ c := by
        rintro rfl
        exact absurd hc (by decide)
      rw [hn] at hv
      have hrest := ih hv ((List.mem_cons.mp hq).resolve_left hne)
      rw [he, size_extend, List.length_singleton]
      omega
    · have hrest := size_scan hv
      rw [size_emit_bare ((Bool.not_eq_true _).mp hc)]
      omega

/-- A second quote costs a character more, be it escaped, opened or within other quotes. -/
theorem size_double_lt (hp : p = .double ∨ p = .doubleEscape) (h : scan p s = some ws)
    (hq : 2 ≤ s.count '"') : size ws + p.owed < s.length := by
  induction s generalizing p ws with
  | nil => simp at hq
  | cons c s ih =>
    rw [scan_cons] at h
    obtain ⟨vs, hv, rfl⟩ := Option.map_eq_some_iff.mp h
    rw [List.count_cons] at hq
    have hstep := size_emit p c vs
    rw [List.length_cons]
    by_cases hc : c = '"'
    · subst hc
      have hmore : 1 ≤ s.count '"' := by simpa using hq
      rcases hp with rfl | rfl
      · -- The quote closes, and the next one stands outside.
        have hrest : size vs < s.length := size_bare_lt hv (List.one_le_count_iff.mp hmore)
        have hkept : size (emit .double '"' vs) = size vs := rfl
        rw [hkept, Place.owed]
        omega
      · -- The quote is kept, and its backslash is not.
        have hrest : size vs + 1 ≤ s.length := size_scan hv
        have hkept : size (emit .doubleEscape '"' vs) = 1 + size vs := size_extend ['"'] vs
        rw [hkept, Place.owed]
        · omega
        · exact nofun
        · exact nofun
    · have hmore : 2 ≤ s.count '"' := by simpa [hc] using hq
      have hnext : next p c = .double ∨ next p c = .doubleEscape := by
        rcases hp with rfl | rfl
        · rw [next, if_neg hc]
          split
          · exact .inr rfl
          · exact .inl rfl
        · exact .inl rfl
      have hrest := ih hnext hv hmore
      omega

theorem unescaped_shorter (c : Char) :
    unescaped c = ['\\', c] ∨ (unescaped c).length < 2 := by
  unfold unescaped
  split
  · exact .inr (by simp)
  · split
    · exact .inr (by simp)
    · exact .inl rfl

/-- What text stands for between double quotes is that text, or shorter. -/
theorem content?_shorter {w : List Char} (h : content? s = some w) :
    w = s ∨ w.length < s.length := by
  fun_induction content? s generalizing w with
  | case1 => exact .inl (Option.some.inj h).symm
  | case2 => cases h
  | case3 c s ih =>
    obtain ⟨v, hv, rfl⟩ := Option.map_eq_some_iff.mp h
    rw [List.length_append, List.length_cons, List.length_cons]
    rcases unescaped_shorter c with hkept | hlost
    · rw [hkept]
      rcases ih hv with rfl | hlt
      · exact .inl rfl
      · exact .inr (by simp only [List.length_cons, List.length_nil]; omega)
    · have hle := length_content hv
      exact .inr (by omega)
  | case4 c s _ _ ih =>
    obtain ⟨v, hv, rfl⟩ := Option.map_eq_some_iff.mp h
    rcases ih hv with rfl | hlt
    · exact .inl rfl
    · exact .inr (Nat.succ_lt_succ hlt)

section Quoted

variable {value : String} {argv : List String}

/-- How many characters the words of a program have together. -/
def total (argv : List String) : Nat := (argv.flatMap String.toList).length

theorem exists_scan (h : words? value = some argv) :
    ∃ ws, scan .gap value.toList = some ws ∧ size ws = total argv := by
  obtain ⟨ws, hs, rfl⟩ := Option.map_eq_some_iff.mp h
  refine ⟨ws, hs, ?_⟩
  simp [size, total, Function.comp_def]

/-- A double quote in a text is too much between double quotes. -/
theorem total_lt_of_quote (hq : '"' ∈ value.toList) (h : words? (quoted value) = some argv) :
    total argv < value.length := by
  obtain ⟨ws, hs, htotal⟩ := exists_scan h
  have hl : (quoted value).toList = '"' :: (value.toList ++ ['"']) := by simp [quoted]
  rw [hl, scan_cons] at hs
  obtain ⟨vs, hv, rfl⟩ := Option.map_eq_some_iff.mp hs
  have hopen : size (emit .gap '"' vs) = size vs := rfl
  have hcount : 2 ≤ (value.toList ++ ['"']).count '"' := by
    have := List.one_le_count_iff.mpr hq
    rw [List.count_append, List.count_singleton_self]
    omega
  have hlost : size vs + 1 < (value.toList ++ ['"']).length := size_double_lt (.inl rfl) hv hcount
  rw [List.length_append, List.length_singleton, String.length_toList] at hlost
  omega

theorem words?_quoted (hq : Unquoted value) :
    words? (quoted value) = (content? value.toList).map fun w => [String.ofList w] := by
  have h := words?_between .nil hq .nil fun _ hp => absurd hp List.not_mem_nil
  simpa using h

/-- A quoted text without a double quote is one word, and a shorter one if it is another. -/
theorem total_lt_of_unquoted (hq : Unquoted value) (h : words? (quoted value) = some argv)
    (hne : argv ≠ [value]) : total argv < value.length := by
  rw [words?_quoted hq] at h
  obtain ⟨w, hw, rfl⟩ := Option.map_eq_some_iff.mp h
  rcases content?_shorter hw with rfl | hlt
  · exact absurd (congrArg (fun t => [t]) String.ofList_toList) hne
  · rw [← String.length_toList]
    simpa [total] using hlt

/-- Where there is no double quote, four characters are left that a backslash can escape. -/
theorem inert_iff {s : List Char} (hq : '"' ∉ s) :
    Inert s ↔ ∀ i, s[i]? = some '\\' →
      ∃ c, s[i + 1]? = some c ∧ c ∉ ['$', '\x60', '\\', '\n'] := by
  refine forall_congr' fun i => imp_congr_right fun _ => exists_congr fun c => ?_
  refine and_congr_right fun hc => ?_
  have hne : c ≠ '"' := by
    rintro rfl
    exact hq (List.mem_of_getElem? hc)
  simp [escapable, hne, and_assoc]

/-- The exact limit of quoting. A text comes back from between double quotes as the only word
exactly when it has no double quote and each backslash in it stands in front of a character of the
text that it does not escape. All other texts do not split, or come back with fewer characters. -/
theorem quoted_comes_back_iff (value : String) :
    (words? (quoted value) = some [value] ↔
      '"' ∉ value.toList ∧ ∀ i, value.toList[i]? = some '\\' →
        ∃ c, value.toList[i + 1]? = some c ∧ c ∉ ['$', '\x60', '\\', '\n']) ∧
    ∀ argv, words? (quoted value) = some argv → argv ≠ [value] → total argv < value.length := by
  by_cases hq : '"' ∈ value.toList
  · refine ⟨iff_of_false (fun h => ?_) fun h => h.1 hq, fun argv h _ => total_lt_of_quote hq h⟩
    have hlost := total_lt_of_quote hq h
    rw [total, List.flatMap_singleton, String.length_toList] at hlost
    exact Nat.lt_irrefl _ hlost
  · refine ⟨?_, fun argv h hne => total_lt_of_unquoted hq h hne⟩
    rw [← inert_iff hq, ← content?_eq_self_iff, words?_quoted hq, Option.map_eq_some_iff]
    constructor
    · rintro ⟨w, hw, hword⟩
      have hsame : String.ofList w = value := List.singleton_inj.mp hword
      rw [← hsame, String.toList_ofList] at hw ⊢
      exact ⟨by rwa [← hsame, String.toList_ofList] at hq, hw⟩
    · rintro ⟨-, hw⟩
      exact ⟨value.toList, hw, by rw [String.ofList_toList]⟩

/-- Quotes of the text close its quoting and open it again, in three words. -/
theorem quoted_comes_back_iff_reopened :
    words? (quoted "a\" b\\\"c \"d") = some ["a", "b\"c", "d"] ∧
    words? (quoted "a\" b\\\"c \"d") ≠ some ["a\" b\\\"c \"d"] ∧
    total ["a", "b\"c", "d"] < ("a\" b\\\"c \"d").length := by
  have hwords : words? (quoted "a\" b\\\"c \"d") = some ["a", "b\"c", "d"] := by decide +kernel
  obtain ⟨hback, hlost⟩ := quoted_comes_back_iff "a\" b\\\"c \"d"
  refine ⟨hwords, fun h => ?_, hlost _ hwords (by decide)⟩
  exact (hback.mp h).1 (by decide +kernel)

end Quoted

end GitInvocation.Words
