import GitInvocation.Text.Blank
import GitInvocation.Text.Lines
import GitInvocation.Text.LowerCase

/-!
# Cutting and trimming

Cutting a text at a mark gives back the parts that it was put together from, and trimming leaves a
text alone whose ends are not blank. Both look at the characters one by one, so they commute with
a change of letters that keeps the mark, or the white space, where it is.
-/
namespace GitInvocation.Text

section Cut

variable {mark : Char} {s before after : List Char}

theorem cut?_append (h : mark ∉ before) (after : List Char) :
    cut? mark (before ++ mark :: after) = some (before, after) := by
  induction before with
  | nil => simp [cut?]
  | cons c before ih =>
    rw [List.mem_cons, not_or] at h
    rw [List.cons_append, cut?, if_neg (Ne.symm h.1), ih h.2]
    rfl

theorem cut?_eq_some (h : cut? mark s = some (before, after)) :
    s = before ++ mark :: after ∧ mark ∉ before := by
  induction s generalizing before with
  | nil => exact absurd h (by simp [cut?])
  | cons c s ih =>
    rw [cut?] at h
    split at h
    · next he =>
      obtain ⟨rfl, rfl⟩ := Prod.mk.inj (Option.some.inj h)
      exact ⟨by rw [he]; rfl, List.not_mem_nil⟩
    · next hne =>
      obtain ⟨⟨b, a⟩, hc, he⟩ := Option.map_eq_some_iff.mp h
      obtain ⟨rfl, rfl⟩ := Prod.mk.inj he
      obtain ⟨rfl, hm⟩ := ih hc
      refine ⟨rfl, ?_⟩
      rw [List.mem_cons, not_or]
      exact ⟨Ne.symm hne, hm⟩

theorem cut?_eq_none_iff : cut? mark s = none ↔ mark ∉ s := by
  constructor
  · intro h hm
    obtain ⟨before, after, rfl, hbefore⟩ := List.eq_append_cons_of_mem hm
    rw [cut?_append hbefore] at h
    exact nomatch h
  · intro h
    cases hc : cut? mark s with
    | none => rfl
    | some p =>
      obtain ⟨rfl, -⟩ := cut?_eq_some hc
      exact absurd (List.mem_append_right p.1 List.mem_cons_self) h

/-- A text is cut at the end of its longest run without the mark. -/
theorem cut?_eq_span (mark : Char) (s : List Char) :
    cut? mark s =
      (s.dropWhile (· ≠ mark)).tail?.map fun after => (s.takeWhile (· ≠ mark), after) := by
  induction s with
  | nil => rfl
  | cons c s ih =>
    rw [cut?]
    by_cases h : c = mark
    · rw [if_pos h, List.dropWhile_cons_of_neg (by simp [h]),
        List.takeWhile_cons_of_neg (by simp [h])]
      rfl
    · rw [if_neg h, ih, List.dropWhile_cons_of_pos (by simp [h]),
        List.takeWhile_cons_of_pos (by simp [h]), Option.map_map]
      rfl

/-- A change of characters that keeps the marks keeps the cut. -/
theorem cut?_map {f : Char → Char} (hf : ∀ c, f c = mark ↔ c = mark) (s : List Char) :
    cut? mark (s.map f) = (cut? mark s).map fun p => (p.1.map f, p.2.map f) := by
  induction s with
  | nil => rfl
  | cons c s ih =>
    rw [List.map_cons, cut?, cut?]
    by_cases h : c = mark
    · rw [if_pos h, if_pos ((hf c).mpr h)]
      rfl
    · rw [if_neg h, if_neg (mt (hf c).mp h), ih]
      cases cut? mark s <;> rfl

end Cut

section Start

variable {start text rest : List Char}

theorem afterStart?_append (start rest : List Char) :
    afterStart? start (start ++ rest) = some rest := by
  induction start with
  | nil => rfl
  | cons c start ih => rw [List.cons_append, afterStart?, if_pos rfl, ih]

theorem afterStart?_eq_some_iff : afterStart? start text = some rest ↔ text = start ++ rest := by
  refine ⟨fun h => ?_, fun h => by rw [h, afterStart?_append]⟩
  induction start generalizing text with
  | nil => exact Option.some.inj h
  | cons c start ih =>
    cases text with
    | nil => exact absurd h.symm (Option.some_ne_none rest)
    | cons d text =>
      rw [afterStart?] at h
      split at h
      · next he => rw [he, ih h, List.cons_append]
      · contradiction

end Start

section Trailing

variable {p : Char → Bool} {s : List Char}

theorem dropWhile_eq_self (h : ∀ c ∈ s.head?, p c = false) : s.dropWhile p = s := by
  cases s with
  | nil => rfl
  | cons c s => rw [List.dropWhile_cons_of_neg (by simp [h c rfl])]

theorem head_dropWhile {c : Char} (h : c ∈ (s.dropWhile p).head?) : p c = false := by
  have hnot := List.head?_dropWhile_not p s
  rw [Option.mem_def.mp h] at hnot
  simpa using hnot

theorem dropTrailing_eq_self (h : ∀ c ∈ s.getLast?, p c = false) : dropTrailing p s = s := by
  rw [dropTrailing, dropWhile_eq_self, List.reverse_reverse]
  intro c hc
  exact h c (by rwa [List.head?_reverse] at hc)

theorem last_dropTrailing {c : Char} (h : c ∈ (dropTrailing p s).getLast?) : p c = false := by
  rw [dropTrailing, List.getLast?_reverse] at h
  exact head_dropWhile h

/-- What is dropped at the end has the property. -/
theorem dropTrailing_append (p : Char → Bool) (s : List Char) :
    ∃ trail, s = dropTrailing p s ++ trail ∧ ∀ c ∈ trail, p c := by
  refine ⟨(s.reverse.takeWhile p).reverse, ?_, fun c hc => ?_⟩
  · rw [dropTrailing, ← List.reverse_append, List.takeWhile_append_dropWhile, List.reverse_reverse]
  · exact List.all_eq_true.mp List.all_takeWhile c (List.mem_reverse.mp hc)

/-- Nothing is dropped in front of a character that stays. -/
theorem dropTrailing_append_cons {c : Char} (hc : p c = false) (before after : List Char) :
    dropTrailing p (before ++ c :: after) = before ++ c :: dropTrailing p after := by
  have hstop : (c :: before.reverse).dropWhile p = c :: before.reverse :=
    List.dropWhile_cons_of_neg (by simp [hc])
  have hkeep : (after.reverse ++ c :: before.reverse).dropWhile p =
      after.reverse.dropWhile p ++ c :: before.reverse := by
    rw [List.dropWhile_append, hstop]
    split
    · next he => rw [List.isEmpty_iff.mp he, List.nil_append]
    · rfl
  rw [dropTrailing, dropTrailing, List.reverse_append, List.reverse_cons, List.append_assoc,
    List.singleton_append, hkeep, List.reverse_append, List.reverse_cons, List.reverse_reverse,
    List.append_assoc, List.singleton_append]

theorem dropTrailing_eq_self_iff :
    dropTrailing p s = s ↔ ∀ c ∈ s.getLast?, p c = false := by
  refine ⟨fun h c hc => ?_, dropTrailing_eq_self⟩
  rw [← h] at hc
  exact last_dropTrailing hc

theorem mem_of_mem_dropTrailing {c : Char} (h : c ∈ dropTrailing p s) : c ∈ s := by
  obtain ⟨trail, hs, -⟩ := dropTrailing_append p s
  rw [hs]
  exact List.mem_append_left trail h

/-- Dropping some of the characters that a text may consist of does not change whether it does. -/
theorem all_dropTrailing {q : Char → Bool} (h : ∀ c, p c → q c) (s : List Char) :
    (dropTrailing p s).all q = s.all q := by
  obtain ⟨trail, hs, htrail⟩ := dropTrailing_append p s
  have hall : trail.all q := List.all_eq_true.mpr fun c hc => h c (htrail c hc)
  calc
    (dropTrailing p s).all q = (dropTrailing p s ++ trail).all q := by
      rw [List.all_append, hall, Bool.and_true]
    _ = s.all q := by rw [← hs]

end Trailing

section Trim

theorem trimChars_eq_self {s : List Char} (hf : ∀ c ∈ s.head?, isBlank c = false)
    (hl : ∀ c ∈ s.getLast?, isBlank c = false) : trimChars s = s := by
  rw [trimChars, dropWhile_eq_self hf, dropTrailing_eq_self hl]

/-- The ends of what is left after trimming are not blank. -/
theorem ends_trimChars (s : List Char) :
    (∀ c ∈ (trimChars s).head?, isBlank c = false) ∧
      ∀ c ∈ (trimChars s).getLast?, isBlank c = false := by
  constructor
  · intro c hc
    obtain ⟨trail, hs, -⟩ := dropTrailing_append isBlank (s.dropWhile isBlank)
    have hh : c ∈ (s.dropWhile isBlank).head? := by
      rw [hs, Option.mem_def, List.head?_append, show (dropTrailing isBlank _).head? = some c from hc]
      rfl
    exact head_dropWhile hh
  · intro c hc
    exact last_dropTrailing hc

theorem mem_trimChars {s : List Char} {c : Char} (h : c ∈ trimChars s) : c ∈ s :=
  (List.dropWhile_suffix isBlank).mem (mem_of_mem_dropTrailing h)

/-- Trimming leaves something of every text that is not blank. -/
theorem all_trimChars (s : List Char) : (trimChars s).all isBlank = s.all isBlank := by
  have hdropped : (s.takeWhile isBlank).all isBlank = true := List.all_takeWhile
  rw [trimChars, all_dropTrailing fun _ h => h]
  calc
    (s.dropWhile isBlank).all isBlank =
        (s.takeWhile isBlank ++ s.dropWhile isBlank).all isBlank := by
      rw [List.all_append, hdropped, Bool.true_and]
    _ = s.all isBlank := by rw [List.takeWhile_append_dropWhile]

theorem trimChars_trimChars (s : List Char) : trimChars (trimChars s) = trimChars s :=
  trimChars_eq_self (ends_trimChars s).1 (ends_trimChars s).2

/-- A text with its white space in the same places as a trimmed one is trimmed. -/
theorem trimChars_of_map {s t : List Char} (h : s.map isBlank = (trimChars t).map isBlank) :
    trimChars s = s := by
  have hf := congrArg List.head? h
  have hl := congrArg List.getLast? h
  rw [List.head?_map, List.head?_map] at hf
  rw [List.getLast?_map, List.getLast?_map] at hl
  obtain ⟨hfirst, hlast⟩ := ends_trimChars t
  refine trimChars_eq_self (fun c hc => ?_) fun c hc => ?_
  · rw [Option.mem_def.mp hc] at hf
    obtain ⟨d, hd, he⟩ := Option.map_eq_some_iff.mp hf.symm
    rw [← he]
    exact hfirst d hd
  · rw [Option.mem_def.mp hc] at hl
    obtain ⟨d, hd, he⟩ := Option.map_eq_some_iff.mp hl.symm
    rw [← he]
    exact hlast d hd

theorem trimChars_cons {c : Char} (h : isBlank c) (s : List Char) :
    trimChars (c :: s) = trimChars s := by
  rw [trimChars, List.dropWhile_cons_of_pos h]
  rfl

theorem trimChars_concat {c : Char} (h : isBlank c) (s : List Char) :
    trimChars (s ++ [c]) = trimChars s := by
  have hsingle : [c].dropWhile isBlank = [] := List.dropWhile_cons_of_pos h
  rw [trimChars, trimChars, List.dropWhile_append, hsingle]
  split
  · next he => rw [List.isEmpty_iff.mp he]
  · rw [dropTrailing, List.reverse_append, List.reverse_singleton, List.singleton_append,
      List.dropWhile_cons_of_pos h]
    rfl

end Trim

section Lines

variable {line : List Char}

theorem lines_of_notMem (hne : line ≠ []) (h : '\n' ∉ line) : lines line = [line] := by
  induction line with
  | nil => exact absurd rfl hne
  | cons c rest ih =>
    rw [List.mem_cons, not_or] at h
    rw [lines, if_neg (Ne.symm h.1)]
    by_cases hrest : rest = []
    · rw [hrest, lines]
    · rw [ih hrest h.2]

theorem lines_append (h : '\n' ∉ line) (rest : List Char) :
    lines (line ++ '\n' :: rest) = line :: lines rest := by
  induction line with
  | nil => rw [List.nil_append, lines, if_pos rfl]
  | cons c line ih =>
    rw [List.mem_cons, not_or] at h
    rw [List.cons_append, lines, if_neg (Ne.symm h.1), ih h.2]

theorem notMem_of_mem_lines {s : List Char} (h : line ∈ lines s) : '\n' ∉ line := by
  induction s generalizing line with
  | nil => exact absurd h List.not_mem_nil
  | cons c s ih =>
    rw [lines] at h
    split at h
    · rcases List.mem_cons.mp h with rfl | h
      · exact List.not_mem_nil
      · exact ih h
    · next hc =>
      split at h
      · rw [List.mem_singleton.mp h, List.mem_singleton]
        exact Ne.symm hc
      · next first more hl =>
        rcases List.mem_cons.mp h with rfl | h
        · rw [List.mem_cons, not_or]
          exact ⟨Ne.symm hc, ih (hl ▸ List.mem_cons_self)⟩
        · exact ih (hl ▸ List.mem_cons_of_mem first h)

end Lines

section Pieces

variable {mark : Char} {s : List Char}

theorem pieces_of_notMem (h : mark ∉ s) : pieces mark s = [s] := by
  induction s with
  | nil => rfl
  | cons c s ih =>
    rw [List.mem_cons, not_or] at h
    rw [pieces, if_neg (Ne.symm h.1), ih h.2]

theorem pieces_append (h : mark ∉ s) (rest : List Char) :
    pieces mark (s ++ mark :: rest) = s :: pieces mark rest := by
  induction s with
  | nil => rw [List.nil_append, pieces, if_pos rfl]
  | cons c s ih =>
    rw [List.mem_cons, not_or] at h
    rw [List.cons_append, pieces, if_neg (Ne.symm h.1), ih h.2]

theorem notMem_of_mem_pieces {piece : List Char} (h : piece ∈ pieces mark s) : mark ∉ piece := by
  induction s generalizing piece with
  | nil => simp_all [pieces]
  | cons c s ih =>
    rw [pieces] at h
    split at h
    · rcases List.mem_cons.mp h with rfl | h
      · exact List.not_mem_nil
      · exact ih h
    · next hc =>
      split at h
      · rw [List.mem_singleton.mp h, List.mem_singleton]
        exact Ne.symm hc
      · next first more hp =>
        rcases List.mem_cons.mp h with rfl | h
        · rw [List.mem_cons, not_or]
          exact ⟨Ne.symm hc, ih (hp ▸ List.mem_cons_self)⟩
        · exact ih (hp ▸ List.mem_cons_of_mem first h)

/-- White space at the front belongs to the first piece and is trimmed. -/
theorem map_trimChars_pieces_cons {c : Char} (h : isBlank c) (hc : c ≠ mark) (s : List Char) :
    (pieces mark (c :: s)).map trimChars = (pieces mark s).map trimChars := by
  rw [pieces, if_neg hc]
  cases hp : pieces mark s with
  | nil =>
    cases s with
    | nil => exact absurd hp (by simp [pieces])
    | cons d s =>
      rw [pieces] at hp
      split at hp
      · exact absurd hp (by simp)
      · split at hp <;> exact absurd hp (by simp)
  | cons piece more =>
    rw [List.map_cons, List.map_cons, trimChars_cons h]

end Pieces

section Letters

/-- A capital is moved to the small letter, and anything else stays. -/
theorem lowerAscii_cases (c : Char) :
    (65 ≤ c.toNat ∧ c.toNat ≤ 90) ∧ (lowerAscii c).toNat = c.toNat + 32 ∨
      ¬ (65 ≤ c.toNat ∧ c.toNat ≤ 90) ∧ lowerAscii c = c := by
  unfold lowerAscii
  split
  · next h =>
    have hr : 65 ≤ c.toNat ∧ c.toNat ≤ 90 := h
    have hv : (c.toNat + 32).isValidChar := .inl (by omega)
    refine .inl ⟨hr, ?_⟩
    rw [Char.ofNat, dif_pos hv]
    rfl
  · next h => exact .inr ⟨h, rfl⟩

theorem lowerAscii_lowerAscii (c : Char) : lowerAscii (lowerAscii c) = lowerAscii c := by
  rcases lowerAscii_cases c with ⟨hr, hl⟩ | ⟨-, hl⟩
  · rcases lowerAscii_cases (lowerAscii c) with ⟨hr', -⟩ | ⟨-, hl'⟩
    · omega
    · exact hl'
  · rw [hl, hl]

theorem lowerAscii_eq_toLower (c : Char) : lowerAscii c = c.toLower := by
  by_cases h : 'A' ≤ c ∧ c ≤ 'Z'
  · have hl : (lowerAscii c).toNat = c.toNat + 32 := by
      rcases lowerAscii_cases c with ⟨-, hl⟩ | ⟨hn, -⟩
      · exact hl
      · exact absurd h hn
    have hr : 65 ≤ c.toNat ∧ c.toNat ≤ 90 := h
    refine Char.toNat_inj.mp (hl.trans ?_)
    rw [show c.toLower = ⟨c.val + 32, _⟩ from dif_pos h]
    show c.val.toNat + 32 = (c.val.toNat + 32) % 2 ^ 32
    have : c.val.toNat = c.toNat := rfl
    omega
  · rw [lowerAscii, if_neg h]
    exact (show c.toLower = c from dif_neg h).symm

/-- A property that no letter has is not touched by a change of letter case. -/
theorem apply_lowerAscii {p : Char → Bool} (hp : ∀ c, 65 ≤ c.toNat → c.toNat ≤ 122 → p c = false)
    (c : Char) : p (lowerAscii c) = p c := by
  rcases lowerAscii_cases c with ⟨hr, hl⟩ | ⟨-, hl⟩
  · rw [hp c (by omega) (by omega), hp (lowerAscii c) (by omega) (by omega)]
  · rw [hl]

theorem isBlank_lowerAscii (c : Char) : isBlank (lowerAscii c) = isBlank c := by
  refine apply_lowerAscii (fun c hlow hhigh => ?_) c
  simp only [isBlank, inRanges, blankRanges, List.any_cons, List.any_nil, Bool.or_eq_false_iff,
    Bool.and_eq_false_iff, decide_eq_false_iff_not, and_true]
  refine ⟨?_, ?_, ?_, ?_, ?_, ?_, ?_, ?_, ?_, ?_⟩ <;> omega

/-- What is no letter stays what it is, and nothing else becomes it. -/
theorem lowerAscii_eq_mark {mark : Char} (h : mark.toNat < 65 ∨ 122 < mark.toNat) (c : Char) :
    lowerAscii c = mark ↔ c = mark := by
  have := apply_lowerAscii (p := (· = mark)) (fun c hlow hhigh => ?_) c
  · simpa using this
  · rw [decide_eq_false_iff_not]
    rintro rfl
    omega

theorem lowerAscii_eq_dot (c : Char) : lowerAscii c = '.' ↔ c = '.' :=
  lowerAscii_eq_mark (.inl (by decide)) c

end Letters

end GitInvocation.Text
