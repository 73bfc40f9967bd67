import GitInvocation.Text.LowerCase

/-!
# Lower case of joined texts

A text that starts with neither a letter nor a mark ends the word in front of it, so both parts are
lowered by themselves. Characters of ASCII that are no capitals stay what they are.
-/
namespace GitInvocation.Text

variable {c : Char} {s t : List Char}

/-- What no cased letter follows at once does not change how a capital sigma in front is lowered. -/
theorem meetsCased_append (h : meetsCased t = false) (s : List Char) :
    meetsCased (s ++ t) = meetsCased s := by
  rw [meetsCased, meetsCased, List.find?_append]
  cases s.find? fun c => !inRanges caseIgnorableRanges c with
  | none => exact h
  | some c => rfl

theorem lowerFrom_append (h : meetsCased t = false) (before s : List Char) :
    lowerFrom before (s ++ t) = lowerFrom before s ++ lowerFrom (s.reverse ++ before) t := by
  induction s generalizing before with
  | nil => rfl
  | cons c s ih =>
    rw [List.cons_append, lowerFrom, lowerFrom, meetsCased_append h, ih, List.append_assoc,
      List.reverse_cons, List.append_assoc]
    rfl

theorem lowerFrom_cons_ascii (h : c.toNat < 0x80) (before s : List Char) :
    lowerFrom before (c :: s) = lowerAscii c :: lowerFrom (c :: before) s := by
  have hne : c ≠ 'Σ' := by
    rintro rfl
    exact absurd h (by decide)
  rw [lowerFrom, if_neg hne, lowerChar, if_pos h]
  rfl

theorem lowerFrom_ascii (h : ∀ c ∈ s, c.toNat < 0x80) (before : List Char) :
    lowerFrom before s = s.map lowerAscii := by
  induction s generalizing before with
  | nil => rfl
  | cons c s ih =>
    obtain ⟨hc, hs⟩ := List.forall_mem_cons.mp h
    rw [lowerFrom_cons_ascii hc, ih hs, List.map_cons]

theorem mem_lowerFrom (hc : c.toNat < 0x80) (hlow : lowerAscii c = c) (h : c ∈ s)
    (before : List Char) : c ∈ lowerFrom before s := by
  induction s generalizing before with
  | nil => cases h
  | cons d s ih =>
    rcases List.mem_cons.mp h with rfl | h
    · rw [lowerFrom_cons_ascii hc, hlow]
      exact List.mem_cons_self
    · exact List.mem_append_right _ (ih h _)

/-- A name behind a prefix. -/
theorem toList_lower_append {name : String} (hname : ∀ c ∈ name.toList, c.toNat < 0x80)
    (h : meetsCased name.toList = false) (start : String) :
    (lower (start ++ name)).toList = (lower start).toList ++ name.toList.map lowerAscii := by
  rw [lower, lower, String.toList_ofList, String.toList_ofList, String.toList_append,
    lowerFrom_append h, lowerFrom_ascii hname]

theorem mem_lower {s : String} (hc : c.toNat < 0x80) (hlow : lowerAscii c = c)
    (h : c ∈ s.toList) : c ∈ (lower s).toList := by
  rw [lower, String.toList_ofList]
  exact mem_lowerFrom hc hlow h []

end GitInvocation.Text
