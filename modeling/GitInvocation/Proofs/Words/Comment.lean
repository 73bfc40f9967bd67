import GitInvocation.Proofs.Words.Fragment

/-!
# Comments in argument text

A hash opens a comment where a word would start, and the comment lasts to the end of the line. A
text without comments that splits on its own is settled. Settled text keeps its words in front of
a comment, but nothing of the line behind the hash reaches a program.
-/
namespace GitInvocation

/-- The words of a text, none where it does not split. -/
def wordsOf (text : String) : List String := (words? text).getD []

namespace Words

/-- No hash stands where a word would start. Within a word and within quotes there may be some. -/
def Uncommented (text : String) : Prop :=
  ∀ n < text.toList.length, text.toList[n]? = some '#' → after .gap (text.toList.take n) ≠ .gap

instance (text : String) : Decidable (Uncommented text) :=
  inferInstanceAs (Decidable (∀ n < text.toList.length, _ → _))

/-- The text splits on its own and has no comment. -/
def Apart (text : String) : Prop := (words? text).isSome ∧ Uncommented text

instance (text : String) : Decidable (Apart text) := inferInstanceAs (Decidable (_ ∧ _))

theorem next_eq_comment {p : Place} {c : Char} (h : next p c = .comment) :
    p = .comment ∨ p = .gap ∧ c = '#' := by
  cases p <;> simp only [next] at h <;> (repeat' split at h) <;> simp_all

/-- Whoever ends up in a comment has passed a hash in a gap. -/
theorem after_eq_comment {p : Place} {s : List Char} (h : after p s = .comment)
    (hp : p ≠ .comment) :
    ∃ n < s.length, s[n]? = some '#' ∧ after p (s.take n) = .gap := by
  induction s generalizing p with
  | nil => exact absurd h hp
  | cons c s ih =>
    by_cases hn : next p c = .comment
    · obtain ⟨rfl, rfl⟩ := (next_eq_comment hn).resolve_left hp
      exact ⟨0, Nat.succ_pos _, rfl, rfl⟩
    · obtain ⟨n, hlt, hc, ha⟩ := ih h hn
      exact ⟨n + 1, Nat.succ_lt_succ hlt, hc, ha⟩

theorem Apart.settled {text : String} (h : Apart text) : Settled text (wordsOf text) := by
  obtain ⟨ls, hs⟩ : ∃ ls, scan .gap text.toList = some ls := by
    have := h.1
    rwa [words?, Option.isSome_map, Option.isSome_iff_exists] at this
  constructor
  · rw [wordsOf, words?, hs]
    simp [Function.comp_def]
  · intro hc
    obtain ⟨n, hlt, hn, hg⟩ := after_eq_comment hc (by simp)
    exact h.2 n hlt hn hg

theorem scan_comment {s : List Char} (h : '\n' ∉ s) : scan .comment s = some [] := by
  induction s with
  | nil => rfl
  | cons c s ih =>
    rw [List.mem_cons, not_or] at h
    rw [scan, if_neg (Ne.symm h.1)]
    exact ih h.2

/-- The text is a comment if it stands where a word would start. -/
def isHashed (text : String) : Bool := text.toList.head? = some '#'

theorem scan_hashed {text : String} (hh : isHashed text) (hline : '\n' ∉ text.toList) :
    scan .gap text.toList = some [] := by
  obtain ⟨s, hs⟩ := List.head?_eq_some_iff.mp (of_decide_eq_true hh)
  rw [hs, List.mem_cons, not_or] at hline
  rw [hs]
  exact scan_comment hline.2

/-- A comment behind settled text swallows the rest of the line. -/
theorem words?_comment {text rest : String} {ws : List String} (h : Settled text ws)
    (hh : isHashed rest) (hline : '\n' ∉ rest.toList) :
    words? (text ++ " " ++ rest) = some ws := by
  have hl : (text ++ " " ++ rest).toList = text.toList ++ ' ' :: rest.toList := by simp
  rw [words?, hl, scan_append_space h.1 h.2, scan_hashed hh hline]
  simp [Function.comp_def]

/-- Joining by spaces brings no other characters in. -/
theorem forall_intercalate {P : Char → Prop} (hspace : P ' ') {parts : List String}
    (h : ∀ part ∈ parts, ∀ c ∈ part.toList, P c) : ∀ c ∈ (" ".intercalate parts).toList, P c := by
  induction parts with
  | nil => simp
  | cons part parts ih =>
    have hpart := h part List.mem_cons_self
    have hrest := ih fun p hp => h p (List.mem_cons_of_mem part hp)
    by_cases hne : parts = []
    · rw [hne, String.intercalate_singleton]
      exact hpart
    · rw [String.intercalate_cons_of_ne_nil hne]
      simp only [String.toList_append, List.mem_append]
      rintro c ((hc | hc) | hc)
      · exact hpart c hc
      · obtain rfl := List.mem_singleton.mp hc
        exact hspace
      · exact hrest c hc

theorem line_intercalate {parts : List String} (h : ∀ part ∈ parts, '\n' ∉ part.toList) :
    '\n' ∉ (" ".intercalate parts).toList := by
  have hall : ∀ c ∈ (" ".intercalate parts).toList, c ≠ '\n' :=
    forall_intercalate (by decide) fun part hp c hc he => h part hp (he ▸ hc)
  exact fun hc => hall _ hc rfl

theorem isHashed_intercalate {part : String} (h : isHashed part) (parts : List String) :
    isHashed (" ".intercalate (part :: parts)) := by
  obtain ⟨s, hs⟩ := List.head?_eq_some_iff.mp (of_decide_eq_true h)
  by_cases hne : parts = []
  · rwa [hne, String.intercalate_singleton]
  · rw [String.intercalate_cons_of_ne_nil hne, isHashed]
    simp [hs]

theorem line_of_bare {s : String} (h : Bare s) : '\n' ∉ s.toList :=
  fun hc => absurd (h _ hc) (by decide)

/-- Words without quotes around them, up to the first that starts with a hash, and what comes
behind them if there is no such word. -/
def uncovered (bares behind : List String) : List String :=
  bares.takeWhile (fun w => !isHashed w) ++ if bares.any isHashed then [] else behind

theorem uncovered_cons_hashed {w : String} (h : isHashed w) (bares behind : List String) :
    uncovered (w :: bares) behind = [] := by
  simp [uncovered, h]

theorem uncovered_cons {w : String} (h : isHashed w = false) (bares behind : List String) :
    uncovered (w :: bares) behind = w :: uncovered bares behind := by
  simp [uncovered, h]

theorem uncovered_eq_append_iff {bares behind : List String} :
    uncovered bares behind = bares ++ behind ↔ ∀ w ∈ bares, isHashed w = false := by
  induction bares with
  | nil => simp [uncovered]
  | cons w bares ih =>
    by_cases h : isHashed w
    · simp [uncovered_cons_hashed h, h]
    · have h := (Bool.not_eq_true _).mp h
      simp [uncovered_cons h, ih, h]

/-- Words that are joined to others without quotes around them all reach a program, unless one
starts with a hash: it and everything behind it is lost. -/
theorem words?_bares {before bares behind front tail : List String}
    (hbefore : AllSettled before front) (hbares : ∀ w ∈ bares, Bare w ∧ w ≠ "")
    (hbehind : AllSettled behind tail) (hline : ∀ part ∈ behind, '\n' ∉ part.toList) :
    words? (" ".intercalate (before ++ bares ++ behind)) =
      some (front ++ uncovered bares tail) := by
  induction bares generalizing before front with
  | nil =>
    rw [List.append_nil]
    exact (hbefore.append hbehind).intercalate.words?
  | cons w bares ih =>
    obtain ⟨hb, hne⟩ := hbares w List.mem_cons_self
    have hmore : ∀ v ∈ bares, Bare v ∧ v ≠ "" := fun v hv => hbares v (List.mem_cons_of_mem w hv)
    by_cases hh : isHashed w
    · -- The comment takes the rest of the line along, and there is no other line.
      have hrest : ∀ part ∈ w :: (bares ++ behind), '\n' ∉ part.toList := by
        intro part hp
        rcases List.mem_cons.mp hp with rfl | hp
        · exact line_of_bare hb
        · rcases List.mem_append.mp hp with hp | hp
          · exact line_of_bare (hmore part hp).1
          · exact hline part hp
      have hhash := isHashed_intercalate hh (bares ++ behind)
      have hend := line_intercalate hrest
      rw [uncovered_cons_hashed hh, List.append_nil, List.append_assoc, List.cons_append]
      by_cases hnil : before = []
      · subst hnil
        cases hbefore
        rw [List.nil_append, words?, scan_hashed hhash hend]
        rfl
      · rw [String.intercalate_append_of_ne_nil hnil (List.cons_ne_nil _ _)]
        exact words?_comment hbefore.intercalate hhash hend
    · have hh := (Bool.not_eq_true _).mp hh
      have hw : Word w := settled_word ⟨hb, of_decide_eq_false hh⟩ hne
      have := ih (hbefore.append (.single hw)) hmore
      rw [uncovered_cons hh]
      simpa only [List.append_assoc, List.singleton_append] using this

end Words

end GitInvocation
