import GitInvocation.Binary64.Reading
import GitInvocation.Binary64.Written
import GitInvocation.Proofs.Text.Cutting
import GitInvocation.Proofs.Text.Number

/-!
# Characters of numbers

Whatever is read as a number has letters, digits, signs and points alone. The plain notation has no
plus sign and no exponent.
-/
namespace GitInvocation

namespace Text

variable {c : Char} {s : List Char} {m : Nat}

/-- A character that may stand in a number. -/
def isNumeral (c : Char) : Bool := c.isAlphanum || c ∈ ['+', '-', '.']

theorem isNumeral_of_isDigit (h : c.isDigit) : isNumeral c := by
  simp [isNumeral, Char.isAlphanum, h]

theorem isNumeral_of_capital (h : 65 ≤ c.toNat ∧ c.toNat ≤ 90) : isNumeral c := by
  have hupper : c.isUpper := decide_eq_true h
  have halpha : c.isAlpha := Bool.or_eq_true_iff.mpr (.inl hupper)
  simp [isNumeral, Char.isAlphanum, halpha]

theorem isNumeral_of_lowerAscii (h : (lowerAscii c).isAlpha) : isNumeral c := by
  rcases lowerAscii_cases c with ⟨hr, -⟩ | ⟨-, hl⟩
  · exact isNumeral_of_capital hr
  · rw [hl] at h
    simp [isNumeral, Char.isAlphanum, h]

theorem isNumeral_of_digits? (h : digits? 10 s = some m) : ∀ c ∈ s, isNumeral c := fun c hc =>
  isNumeral_of_isDigit (isDigit_of_digits? h c hc)

theorem isNumeral_of_unsigned? (h : unsigned? 10 s = some m) : ∀ c ∈ s, isNumeral c := by
  rw [unsigned?.eq_def] at h
  split at h
  · exact List.forall_mem_cons.mpr ⟨rfl, isNumeral_of_digits? h⟩
  · exact isNumeral_of_digits? h

theorem isNumeral_of_int64? {n : Int} (h : int64? s = some n) : ∀ c ∈ s, isNumeral c := by
  rcases int64?_cases h with ⟨digits, m, rfl, hm, -⟩ | ⟨digits, m, rfl, hm, -⟩ | ⟨m, hm, -⟩
  · exact List.forall_mem_cons.mpr ⟨rfl, isNumeral_of_digits? hm⟩
  · exact List.forall_mem_cons.mpr ⟨rfl, isNumeral_of_digits? hm⟩
  · exact isNumeral_of_digits? hm

end Text

namespace Binary64

open Text (isNumeral)

variable {s : List Char} {x : Binary64} {negative : Bool}

theorem isNumeral_of_power? {n : Int} (h : power? s = some n) : ∀ c ∈ s, isNumeral c := by
  rw [power?.eq_def] at h
  split at h
  · next digits =>
    obtain ⟨n, hn, -⟩ := Option.map_eq_some_iff.mp h
    obtain ⟨m, hm, -⟩ := Option.bind_eq_some_iff.mp hn
    exact List.forall_mem_cons.mpr ⟨rfl, Text.isNumeral_of_digits? hm⟩
  · obtain ⟨n, hn, -⟩ := Option.map_eq_some_iff.mp h
    obtain ⟨m, hm, -⟩ := Option.bind_eq_some_iff.mp hn
    exact Text.isNumeral_of_unsigned? hm

theorem isNumeral_of_mantissa? {p : Nat × Nat} (h : mantissa? s = some p) :
    ∀ c ∈ s, isNumeral c := by
  obtain ⟨m, hm, -⟩ := Option.map_eq_some_iff.mp h
  cases hcut : Text.cut? '.' s with
  | none =>
    rw [hcut] at hm
    have hs : Text.digits? 10 (s ++ []) = some m := hm
    rw [List.append_nil] at hs
    exact Text.isNumeral_of_digits? hs
  | some q =>
    rw [hcut] at hm
    obtain ⟨rfl, -⟩ := Text.cut?_eq_some hcut
    intro c hc
    have hall := Text.isNumeral_of_digits? hm c
    rw [List.mem_append, List.mem_cons] at hc
    rw [List.mem_append] at hall
    rcases hc with hc | rfl | hc
    · exact hall (.inl hc)
    · rfl
    · exact hall (.inr hc)

theorem isNumeral_of_word {word : String} (h : String.ofList (s.map Text.lowerAscii) = word)
    (hword : word.toList.all Char.isAlpha) : ∀ c ∈ s, isNumeral c := by
  intro c hc
  refine Text.isNumeral_of_lowerAscii (List.all_eq_true.mp hword _ ?_)
  rw [← h, String.toList_ofList]
  exact List.mem_map_of_mem hc

theorem isNumeral_of_unsigned? (h : unsigned? negative s = some x) : ∀ c ∈ s, isNumeral c := by
  rw [unsigned?] at h
  split at h
  · next hword =>
    rcases hword with hword | hword <;> exact isNumeral_of_word hword (by decide)
  · split at h
    · next hword => exact isNumeral_of_word hword (by decide)
    · let p := fun c => decide (c ≠ 'e' ∧ c ≠ 'E')
      have hsplit : s.takeWhile p ++ s.dropWhile p = s := List.takeWhile_append_dropWhile
      have hdrop : s.drop (s.takeWhile p).length = s.dropWhile p := by
        have hleft := congrArg (List.drop (s.takeWhile p).length) hsplit
        rw [List.drop_left] at hleft
        exact hleft.symm
      obtain ⟨q, hq, hrest⟩ := Option.bind_eq_some_iff.mp h
      have hfront := isNumeral_of_mantissa? hq
      have hbehind : ∀ c ∈ s.dropWhile p, isNumeral c := by
        rw [← hdrop]
        cases hl : s.drop (s.takeWhile p).length with
        | nil => exact fun c hc => absurd hc List.not_mem_nil
        | cons e rest =>
          have he : p e = false := Text.head_dropWhile (s := s) (by rw [← hdrop, hl]; rfl)
          simp only [p, hl] at hrest
          obtain ⟨n, hn, -⟩ := Option.bind_eq_some_iff.mp hrest
          refine List.forall_mem_cons.mpr ⟨?_, isNumeral_of_power? hn⟩
          have hletter : e = 'e' ∨ e = 'E' := by
            simpa [p, Decidable.or_iff_not_imp_left] using he
          rcases hletter with rfl | rfl <;> rfl
      intro c hc
      rw [← hsplit, List.mem_append] at hc
      exact hc.elim (hfront c) (hbehind c)

theorem isNumeral_of_parse? (h : parse? s = some x) : ∀ c ∈ s, isNumeral c := by
  rw [parse?.eq_def] at h
  split at h
  · exact List.forall_mem_cons.mpr ⟨rfl, isNumeral_of_unsigned? h⟩
  · exact List.forall_mem_cons.mpr ⟨rfl, isNumeral_of_unsigned? h⟩
  · exact isNumeral_of_unsigned? h

/-- Digits and points alone. -/
def Positional (s : String) : Prop := ∀ c ∈ s.toList, c.isDigit ∨ c = '.'

theorem Positional.append {s t : String} (hs : Positional s) (ht : Positional t) :
    Positional (s ++ t) := by
  intro c hc
  rw [String.toList_append, List.mem_append] at hc
  exact hc.elim (hs c) (ht c)

theorem Positional.digits (h : ∀ c ∈ s, c.isDigit) : Positional (String.ofList s) := by
  intro c hc
  rw [String.toList_ofList] at hc
  exact .inl (h c hc)

theorem positional_positional (x : Decimal) : Positional (positional x) := by
  have hdigits : ∀ c ∈ Nat.toDigits 10 x.digits, c.isDigit := Text.isDigit_of_mem_toDigits
  have hzeros (n : Nat) : Positional (String.ofList (List.replicate n '0')) :=
    .digits fun c hc => by
      rw [List.eq_of_mem_replicate hc]
      rfl
  rw [positional]
  split
  · refine .append (.digits hdigits) ?_
    split
    · exact fun c hc => absurd hc List.not_mem_nil
    · exact hzeros _
  · dsimp only
    split
    · have hpoint : Positional "." := by simp [Positional]
      exact .append (.append (.digits fun c hc => hdigits c (List.mem_of_mem_take hc)) hpoint)
        (.digits fun c hc => hdigits c (List.mem_of_mem_drop hc))
    · have hpoint : Positional "0." := by simp [Positional]
      exact .append (.append hpoint (hzeros _)) (.digits hdigits)

/-- The plain notation has neither a plus sign nor an exponent. -/
theorem plain_chars (x : Binary64) : ∀ c ∈ x.plain.toList, c ≠ '+' ∧ c ≠ 'e' ∧ c ≠ 'E' := by
  cases x with
  | finite negative m e =>
    have hpositional (c : Char) (hc : c ∈ (positional (shortest .upper m e)).toList) :
        c ≠ '+' ∧ c ≠ 'e' ∧ c ≠ 'E' := by
      rcases positional_positional _ c hc with hd | rfl
      · refine ⟨?_, ?_, ?_⟩ <;> rintro rfl <;> cases hd
      · decide
    cases negative with
    | false => exact hpositional
    | true =>
      intro c hc
      change c ∈ ("-" ++ positional (shortest .upper m e)).toList at hc
      rw [String.toList_append, List.mem_append] at hc
      exact hc.elim (fun hc => by simp_all) (hpositional c)
  | infinite negative =>
    have hall : (infinite negative).plain.toList.all
        fun c => c ≠ '+' ∧ c ≠ 'e' ∧ c ≠ 'E' := by cases negative <;> decide +kernel
    exact fun c hc => of_decide_eq_true (List.all_eq_true.mp hall c hc)
  | notANumber =>
    have hall : notANumber.plain.toList.all fun c => c ≠ '+' ∧ c ≠ 'e' ∧ c ≠ 'E' := by
      decide +kernel
    exact fun c hc => of_decide_eq_true (List.all_eq_true.mp hall c hc)

end Binary64

end GitInvocation
