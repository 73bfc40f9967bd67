import GitInvocation.Proofs.Operation.FreeText
import GitInvocation.Proofs.Text.Cutting
import GitInvocation.Rendering

/-!
# Reading the words back line by line

The words are printed with a line feed between them, and a line feed within a word is printed as it
is. The lines are therefore the words exactly when no word has a line feed in it. A word has no
characters but those of the argument text, where a line feed comes from the free text of the
request alone.
-/
namespace GitInvocation

open Text (pieces)

namespace Words

/-- The backslash that a place holds back until the next character decides about it. -/
def Place.pending : Place → List Char
  | .doubleEscape => ['\\']
  | _ => []

theorem eq_of_mem_pending_next {p : Place} {c d : Char} (h : d ∈ (next p c).pending) : d = c := by
  cases p <;> simp only [next] at h <;> (repeat' split at h) <;> simp_all [Place.pending]

theorem mem_flatten_extend {s : List Char} {ws : List (List Char)} {d : Char}
    (h : d ∈ (extend s ws).flatten) : d ∈ s ∨ d ∈ ws.flatten := by
  cases ws with
  | nil => exact .inl (by simpa [extend] using h)
  | cons w ws => simpa [extend, or_assoc] using h

/-- A character adds nothing, ends a word, or adds itself and perhaps what was held back. -/
theorem emit_cases (p : Place) (c : Char) :
    emit p c = id ∨ emit p c = ([] :: ·) ∨ ∃ s, emit p c = extend s ∧ s ⊆ p.pending ++ [c] := by
  cases p with
  | comment => exact .inl rfl
  | gap | bare | bareEscape | single | double | doubleEscape =>
    simp only [emit]
    repeat' split
    all_goals
      first
      | exact .inl rfl
      | exact .inr (.inl rfl)
      | exact .inr (.inr ⟨_, rfl, by simp [Place.pending]⟩)

theorem mem_flatten_emit {p : Place} {c : Char} {ws : List (List Char)} {d : Char}
    (h : d ∈ (emit p c ws).flatten) : d ∈ p.pending ∨ d = c ∨ d ∈ ws.flatten := by
  obtain he | he | ⟨s, he, hs⟩ := emit_cases p c <;> rw [he] at h
  · exact .inr (.inr h)
  · exact .inr (.inr (by simpa using h))
  · rcases mem_flatten_extend h with hd | hd
    · rcases List.mem_append.mp (hs hd) with hp | hc
      · exact .inl hp
      · exact .inr (.inl (List.mem_singleton.mp hc))
    · exact .inr (.inr hd)

theorem mem_flatten_scan {p : Place} {s : List Char} {ws : List (List Char)} {d : Char}
    (h : scan p s = some ws) (hd : d ∈ ws.flatten) : d ∈ p.pending ++ s := by
  induction s generalizing p ws with
  | nil =>
    cases p with
    | gap | comment => simp_all [scan]
    | bare =>
      obtain rfl := Option.some.inj h
      exact absurd hd (by simp)
    | bareEscape | single | double | doubleEscape => exact absurd h (by simp [scan])
  | cons c s ih =>
    rw [scan_cons] at h
    obtain ⟨vs, hvs, rfl⟩ := Option.map_eq_some_iff.mp h
    rw [List.mem_append, List.mem_cons]
    rcases mem_flatten_emit hd with hd | hd | hd
    · exact .inl hd
    · exact .inr (.inl hd)
    · rcases List.mem_append.mp (ih hvs hd) with hd | hd
      · exact .inr (.inl (eq_of_mem_pending_next hd))
      · exact .inr (.inr hd)

/-- The words have no characters that are not in the text. -/
theorem mem_of_mem_words? {text : String} {words : List String} (h : words? text = some words)
    {w : String} (hw : w ∈ words) {c : Char} (hc : c ∈ w.toList) : c ∈ text.toList := by
  obtain ⟨ws, hscan, rfl⟩ := Option.map_eq_some_iff.mp h
  obtain ⟨v, hv, rfl⟩ := List.mem_map.mp hw
  rw [String.toList_ofList] at hc
  exact mem_flatten_scan hscan (List.mem_flatten_of_mem hv hc)

end Words

namespace Rendering

/-- What a reader takes from a printed text that takes a word from each line. -/
def lines (printed : String) : List String := (pieces '\n' printed.toList).map String.ofList

theorem lines_intercalate {words : List String} (hne : words ≠ [])
    (h : ∀ w ∈ words, '\n' ∉ w.toList) : lines ("\n".intercalate words) = words := by
  induction words with
  | nil => exact absurd rfl hne
  | cons w words ih =>
    have hw := h w List.mem_cons_self
    by_cases hrest : words = []
    · rw [hrest, String.intercalate_singleton, lines, Text.pieces_of_notMem hw]
      simp
    · have hlines := ih hrest fun v hv => h v (List.mem_cons_of_mem w hv)
      have hl : (w ++ "\n" ++ "\n".intercalate words).toList =
          w.toList ++ '\n' :: ("\n".intercalate words).toList := by simp
      rw [String.intercalate_cons_of_ne_nil hrest, lines, hl, Text.pieces_append hw, List.map_cons,
        String.ofList_toList]
      exact congrArg _ hlines

theorem notMem_of_mem_lines {printed line : String} (h : line ∈ lines printed) :
    '\n' ∉ line.toList := by
  obtain ⟨piece, hp, rfl⟩ := List.mem_map.mp h
  rw [String.toList_ofList]
  exact Text.notMem_of_mem_pieces hp

theorem lines_intercalate_iff {words : List String} (hne : words ≠ []) :
    lines ("\n".intercalate words) = words ↔ ∀ w ∈ words, '\n' ∉ w.toList :=
  ⟨fun h _ hw => notMem_of_mem_lines (h ▸ hw), lines_intercalate hne⟩

theorem output_eq_error_iff {text : String} {fault : Fault} :
    output true text = .error fault ↔ words? text = none ∧ fault = .unsplit text := by
  rw [output, if_pos rfl]
  cases words? text <;> simp [eq_comm]

theorem output_eq_ok {text : String} {words : List String} (h : words? text = some words) :
    output true text = .ok ("\n".intercalate words) := by
  rw [output, if_pos rfl, h]

/-- Whoever takes a word from each printed line gets the words exactly when none has a line feed in
it, as when the free text of the request has none. Text that does not split is not printed. -/
theorem lines_give_words_iff {o : Operation} {s : Snapshot} {text : String}
    (ht : o.arguments s = .ok text) :
    (∀ fault, output true text = .error fault ↔ words? text = none ∧ fault = .unsplit text) ∧
    ∀ words, words? text = some words → words ≠ [] →
      ∃ printed, output true text = .ok printed ∧
        (lines printed = words ↔ ∀ w ∈ words, '\n' ∉ w.toList) ∧
        ((∀ v ∈ o.freeText.paths ++ o.freeText.others, '\n' ∉ v.toList) →
          lines printed = words) := by
  refine ⟨fun fault => output_eq_error_iff, fun words hwords hne =>
    ⟨_, output_eq_ok hwords, lines_intercalate_iff hne, fun hfree => ?_⟩⟩
  let a := Alphabet.without '\n' rfl
  have hspells : ∀ v ∈ o.freeText.paths ++ o.freeText.others, a.Spells v := fun v hv =>
    Alphabet.spells_without.mpr (hfree v hv)
  have hspelled : o.freeText.SpelledIn a :=
    ⟨fun v hv => Alphabet.spells_posixPath fun c hc _ => hspells v (List.mem_append_left _ hv) c hc,
      fun v hv => hspells v (List.mem_append_right _ hv)⟩
  have htext : '\n' ∉ text.toList :=
    Alphabet.spells_without.mp (Operation.spells_arguments hspelled ht)
  exact lines_intercalate hne fun w hw hc => htext (Words.mem_of_mem_words? hwords hw hc)

/-- An empty value is a line of its own. -/
theorem lines_give_words_iff_emptyValue :
    ∃ printed, output true "config alias.x \"\"" = .ok printed ∧
      lines printed = ["config", "alias.x", ""] := by
  let o : Operation := .setConfig ⟨"alias.x", "", false⟩
  have ht : o.arguments .empty = .ok "config alias.x \"\"" := by
    refine congrArg Except.ok ?_
    decide +kernel
  have hwords : words? "config alias.x \"\"" = some ["config", "alias.x", ""] := by decide +kernel
  obtain ⟨printed, hprinted, -, hfree⟩ :=
    (lines_give_words_iff ht).2 _ hwords (List.cons_ne_nil _ _)
  exact ⟨printed, hprinted, hfree (by decide +kernel)⟩

/-- A value of two lines is printed like two words. -/
theorem lines_misread_longValue :
    let o : Operation := .setConfig ⟨"alias.x", "a\nb", false⟩
    ∃ text printed, o.arguments .empty = .ok text ∧ output true text = .ok printed ∧
      words? text = some ["config", "alias.x", "a\nb"] ∧
      lines printed = ["config", "alias.x", "a", "b"] := by
  intro o
  have hwords : words? "config alias.x \"a\nb\"" = some ["config", "alias.x", "a\nb"] := by
    decide +kernel
  refine ⟨"config alias.x \"a\nb\"", _, congrArg Except.ok ?_, output_eq_ok hwords, hwords, ?_⟩
  · decide +kernel
  · decide +kernel

end Rendering

end GitInvocation
