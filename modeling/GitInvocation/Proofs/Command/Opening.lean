import GitInvocation.Proofs.Command.Drafting

/-!
# The words at the front of a text

A text begins with words when they are settled and a space parts them from what comes next. What
comes next may be any text at all, with quotes that are never closed and comments that swallow the
rest: as long as the whole splits, its words start with these. Whatever is added to a draft comes
behind what is there and leaves the words in front alone.
-/
namespace GitInvocation

namespace Words

variable {s text : String} {ws vs : List String}

/-- The text is these words, or has them in front of a space. -/
def Begins (text : String) (words : List String) : Prop :=
  ∃ front, Settled front words ∧ (text = front ∨ ∃ rest, text = front ++ " " ++ rest)

theorem Settled.begins (h : Settled text ws) : Begins text ws := ⟨text, h, .inl rfl⟩

theorem Begins.append_space (h : Begins text ws) (rest : String) :
    Begins (text ++ " " ++ rest) ws := by
  obtain ⟨front, hf, rfl | ⟨more, rfl⟩⟩ := h
  · exact ⟨text, hf, .inr ⟨rest, rfl⟩⟩
  · refine ⟨front, hf, .inr ⟨more ++ " " ++ rest, ?_⟩⟩
    simp only [String.append_assoc]

theorem Settled.begins_append (hs : Settled s ws) (ht : Begins text vs) :
    Begins (s ++ " " ++ text) (ws ++ vs) := by
  obtain ⟨front, hf, rfl | ⟨rest, rfl⟩⟩ := ht
  · exact (hs.join hf).begins
  · refine ⟨s ++ " " ++ front, hs.join hf, .inr ⟨rest, ?_⟩⟩
    simp only [String.append_assoc]

theorem Begins.eq_nil (h : Begins "" ws) : ws = [] := by
  obtain ⟨front, hf, hfront | ⟨rest, hrest⟩⟩ := h
  · exact (hfront ▸ hf).eq_nil
  · have hl := congrArg String.toList hrest
    exact absurd hl (by simp)

/-- Nothing that stands behind the words in front can change them. -/
theorem Begins.isPrefix (h : Begins text ws) (hv : words? text = some vs) : ws <+: vs := by
  obtain ⟨front, hf, rfl | ⟨rest, rfl⟩⟩ := h
  · rw [hf.words?] at hv
    obtain rfl := Option.some.inj hv
    exact List.prefix_rfl
  · -- The space ends the last word of the front, and the reader starts afresh behind it.
    have hl : (front ++ " " ++ rest).toList = front.toList ++ ' ' :: rest.toList := by simp
    rw [GitInvocation.words?, hl, scan_append_space hf.1 hf.2, Option.map_map] at hv
    obtain ⟨more, -, rfl⟩ := Option.map_eq_some_iff.mp hv
    refine ⟨more.map String.ofList, ?_⟩
    simp [Function.comp_def]

end Words

namespace Draft

open Words

variable {d : Draft} {ws vs : List String}

theorem parts_ne_nil (d : Draft) : d.parts ≠ [] := by simp [parts]

/-- What is added stands behind a space, unless it has no content. -/
theorem text_add (d : Draft) (items : List Token) :
    (d.add items).text = d.text ∨ ∃ more, (d.add items).text = d.text ++ " " ++ more := by
  unfold Draft.text
  rw [parts_add]
  by_cases hn : items.filterMap Token.text? = []
  · rw [hn, List.append_nil]
    exact .inl rfl
  · rw [String.intercalate_append_of_ne_nil d.parts_ne_nil hn]
    exact .inr ⟨_, rfl⟩

/-- The text of the draft begins with these words. -/
def Leads (d : Draft) (words : List String) : Prop := Begins d.text words

theorem Reads.leads (h : d.Reads ws) : d.Leads ws := h.text.begins

theorem Leads.add (h : d.Leads ws) (items : List Token) : (d.add items).Leads ws := by
  unfold Leads
  rcases text_add d items with he | ⟨more, he⟩
  · rw [he]
    exact h
  · rw [he]
    exact h.append_space more

theorem Leads.rawIf (h : d.Leads ws) (on : Bool) (value : String) :
    (d.rawIf on value).Leads ws := by
  cases on
  · exact h
  · exact h.add [.raw value]

/-- A piece of text that begins with words continues the words in front. -/
theorem Reads.leads_raw (h : d.Reads ws) {value : String} (hv : Begins value vs) :
    (d.raw value).Leads (ws ++ vs) := by
  by_cases hne : value = ""
  · subst hne
    rw [hv.eq_nil, List.append_nil]
    exact h.leads.add [.raw ""]
  · have hp : (d.raw value).parts = d.parts ++ [value] := by
      rw [Draft.raw, parts_add]
      simp [Token.text?, hne]
    unfold Leads Draft.text
    rw [hp, String.intercalate_append_of_ne_nil d.parts_ne_nil (List.cons_ne_nil _ _),
      String.intercalate_singleton]
    exact h.text.begins_append hv

end Draft

end GitInvocation
