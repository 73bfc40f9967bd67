import GitInvocation.Text.Number

/-!
# Whole numbers that are written back

An integer is written back as it was read when no zero in front of it can be left out, and when no
sign stands there but the minus sign of a number below zero.
-/
namespace GitInvocation.Text

/-- A number without a zero that could be left out. -/
inductive Bare : List Char → Prop where
  | zero : Bare ['0']
  | leading {d : Char} {rest : List Char} (hd : d ≠ '0') (h : ∀ c ∈ d :: rest, c.isDigit) :
      Bare (d :: rest)

/-- The usual spelling of an integer. -/
inductive Canonical : List Char → Prop where
  | natural {digits : List Char} (h : Bare digits) : Canonical digits
  | negative {digits : List Char} (h : Bare digits) (hzero : digits ≠ ['0']) :
      Canonical ('-' :: digits)

variable {c : Char} {s rest : List Char} {d m n : Nat}

/-- The letters that are digits in other bases stand for ten or more. -/
theorem digit?_eq_some (h : digit? 10 c = some d) : c = Nat.digitChar d ∧ d < 10 := by
  obtain ⟨hn, hlt⟩ := Option.filter_eq_some_iff.mp h
  rw [decide_eq_true_eq] at hlt
  refine ⟨?_, hlt⟩
  split at hn
  · next hc =>
    have hle : 0x30 ≤ c.toNat := hc.1
    have hd : c.toNat - 0x30 = d := Option.some.inj hn
    rw [← Char.toNat_inj, Nat.toNat_digitChar_of_lt_ten hlt]
    omega
  · split at hn
    · have := Option.some.inj hn
      omega
    · split at hn
      · have := Option.some.inj hn
        omega
      · cases hn

theorem isDigit_of_digit? (h : digit? 10 c = some d) : c.isDigit := by
  obtain ⟨rfl, hlt⟩ := digit?_eq_some h
  rw [Nat.isDigit_digitChar, decide_eq_true hlt]

/-- Digits behind a number that is not zero are digits of the larger one. -/
theorem toDigits_digitsFrom? (hn : 0 < n) (h : digitsFrom? 10 n s = some m) :
    Nat.toDigits 10 m = Nat.toDigits 10 n ++ s := by
  induction s generalizing n with
  | nil =>
    rw [digitsFrom?, Option.some.injEq] at h
    rw [h, List.append_nil]
  | cons c s ih =>
    obtain ⟨d, hd, hrest⟩ := Option.bind_eq_some_iff.mp h
    obtain ⟨rfl, hlt⟩ := digit?_eq_some hd
    have happend := Nat.toDigits_append_toDigits (b := 10) (by decide) hn hlt
    rw [Nat.toDigits_of_lt_base hlt] at happend
    rw [ih (by omega) hrest, Nat.mul_comm, ← happend, List.append_assoc]
    rfl

theorem toDigits_of_head_ne (h : digits? 10 (c :: rest) = some m) (hc : c ≠ '0') :
    Nat.toDigits 10 m = c :: rest := by
  obtain ⟨d, hd, hrest⟩ := Option.bind_eq_some_iff.mp h
  obtain ⟨rfl, hlt⟩ := digit?_eq_some hd
  have hpos : 0 < d := Nat.pos_of_ne_zero fun hz => hc (Nat.digitChar_eq_zero.mpr hz)
  rw [toDigits_digitsFrom? (by omega) hrest, Nat.zero_mul, Nat.zero_add,
    Nat.toDigits_of_lt_base hlt]
  rfl

theorem isDigit_of_digitsFrom? (h : digitsFrom? 10 n s = some m) : ∀ c ∈ s, c.isDigit := by
  induction s generalizing n with
  | nil => exact fun c hc => absurd hc List.not_mem_nil
  | cons c s ih =>
    obtain ⟨d, hd, hrest⟩ := Option.bind_eq_some_iff.mp h
    exact List.forall_mem_cons.mpr ⟨isDigit_of_digit? hd, ih hrest⟩

theorem isDigit_of_digits? (h : digits? 10 s = some m) : ∀ c ∈ s, c.isDigit := by
  cases s with
  | nil => cases h
  | cons c rest => exact isDigit_of_digitsFrom? h

theorem Bare.isDigit (h : Bare s) : ∀ c ∈ s, c.isDigit := by
  cases h with
  | zero => exact List.forall_mem_singleton.mpr rfl
  | leading _ h => exact h

/-- An integer in its usual spelling has neither a plus sign nor an exponent. -/
theorem canonical_chars (h : Canonical s) : ∀ c ∈ s, c ≠ '+' ∧ c ≠ 'e' ∧ c ≠ 'E' := by
  have hdigit (c : Char) (hc : c.isDigit) : c ≠ '+' ∧ c ≠ 'e' ∧ c ≠ 'E' := by
    refine ⟨?_, ?_, ?_⟩ <;> rintro rfl <;> cases hc
  cases h with
  | natural h => exact fun c hc => hdigit c (h.isDigit c hc)
  | negative h =>
    exact List.forall_mem_cons.mpr ⟨by decide, fun c hc => hdigit c (h.isDigit c hc)⟩

theorem toDigits_eq_zero_iff : Nat.toDigits 10 n = ['0'] ↔ n = 0 := by
  constructor
  · intro h
    have hn := Nat.ofDigitChars_ten_toDigits (n := n)
    rw [h] at hn
    exact hn.symm
  · rintro rfl
    rfl

/-- Two numbers are never written alike. -/
theorem toString_injective (h : toString m = toString n) : m = n := by
  have hdigits : Nat.toDigits 10 m = Nat.toDigits 10 n := by
    have hlist := congrArg String.toList h
    rwa [Nat.toString_eq_repr, Nat.toString_eq_repr, Nat.toList_repr, Nat.toList_repr] at hlist
  calc
    m = Nat.ofDigitChars 10 (Nat.toDigits 10 m) 0 := Nat.ofDigitChars_ten_toDigits.symm
    _ = Nat.ofDigitChars 10 (Nat.toDigits 10 n) 0 := by rw [hdigits]
    _ = n := Nat.ofDigitChars_ten_toDigits

theorem isDigit_of_mem_toDigits : ∀ c ∈ Nat.toDigits 10 n, c.isDigit := fun _ hc =>
  Nat.isDigit_of_mem_toDigits (by decide) (by decide) hc

theorem bare_toDigits (n : Nat) : Bare (Nat.toDigits 10 n) := by
  induction n using Nat.strongRecOn with
  | ind n ih =>
    by_cases hlt : n < 10
    · by_cases hz : n = 0
      · rw [toDigits_eq_zero_iff.mpr hz]
        exact .zero
      · have hall := isDigit_of_mem_toDigits (n := n)
        rw [Nat.toDigits_of_lt_base hlt] at hall ⊢
        exact .leading (mt Nat.digitChar_eq_zero.mp hz) hall
    · have hall := isDigit_of_mem_toDigits (n := n)
      have hfirst := ih (n / 10) (by omega)
      rw [Nat.toDigits_of_base_le (by decide) (Nat.not_lt.mp hlt)] at hall ⊢
      generalize hs : Nat.toDigits 10 (n / 10) = s at hall hfirst ⊢
      cases hfirst with
      | zero =>
        have := toDigits_eq_zero_iff.mp hs
        omega
      | leading hd => exact .leading hd hall

theorem toDigits_eq_iff (h : digits? 10 s = some m) : Nat.toDigits 10 m = s ↔ Bare s := by
  constructor
  · rintro rfl
    exact bare_toDigits m
  · rintro (_ | ⟨hd, -⟩)
    · cases h
      rfl
    · exact toDigits_of_head_ne h hd

theorem toList_toString_natCast (n : Nat) : (toString (n : Int)).toList = Nat.toDigits 10 n :=
  Nat.toList_repr

theorem toList_toString_neg (hn : n ≠ 0) :
    (toString (-(n : Int))).toList = '-' :: Nat.toDigits 10 n := by
  rw [Int.toString_eq_repr, Int.repr_eq_if, if_neg (by omega), Int.neg_neg, String.toList_append,
    Int.toNat_natCast, Nat.toList_repr]
  rfl

/-- No digit is a sign. -/
theorem not_bare_sign (hc : c.isDigit = false) : ¬ Bare (c :: s) := by
  rintro (_ | ⟨-, h⟩)
  · cases hc
  · rw [h c List.mem_cons_self] at hc
    cases hc

theorem toDigits_ne_sign (hc : c.isDigit = false) : Nat.toDigits 10 n ≠ c :: s := fun h =>
  not_bare_sign hc (h ▸ bare_toDigits n)

/-- An integer is a minus sign and digits, or digits that may have a plus sign in front. -/
theorem int64?_cases {n : Int} (h : int64? s = some n) :
    (∃ digits m, s = '-' :: digits ∧ digits? 10 digits = some m ∧ n = -(m : Int)) ∨
    (∃ digits m, s = '+' :: digits ∧ digits? 10 digits = some m ∧ n = m) ∨
    ∃ m, digits? 10 s = some m ∧ n = m := by
  obtain ⟨h, -⟩ := Option.filter_eq_some_iff.mp h
  split at h
  · next digits _ =>
    cases hm : digits? 10 digits with
    | none => simp [hm] at h
    | some m =>
      refine .inl ⟨digits, m, rfl, hm, ?_⟩
      simpa [hm, eq_comm] using h
  · cases hm : unsigned? 10 s with
    | none => simp [hm] at h
    | some m =>
      have hn : n = m := by simpa [hm, eq_comm] using h
      rw [unsigned?.eq_def] at hm
      split at hm
      · next digits _ _ => exact .inr (.inl ⟨digits, m, rfl, hm, hn⟩)
      · exact .inr (.inr ⟨m, hm, hn⟩)

/-- The law of integers. An integer that has been read is written back as it was exactly when it
had its usual spelling. -/
theorem toString_eq_iff {n : Int} (h : int64? s = some n) :
    (toString n).toList = s ↔ Canonical s := by
  rcases int64?_cases h with ⟨digits, m, rfl, hm, rfl⟩ | ⟨digits, m, rfl, hm, rfl⟩ | ⟨m, hm, rfl⟩
  · by_cases hz : m = 0
    · subst hz
      refine iff_of_false (fun hzero => ?_) ?_
      · exact absurd (List.cons.inj (hzero : ['0'] = '-' :: digits)).1 (by decide)
      · rintro (hbare | ⟨hbare, hne⟩)
        · exact not_bare_sign (by decide) hbare
        · exact hne ((toDigits_eq_iff hm).mpr hbare).symm
    · rw [toList_toString_neg hz, List.cons.injEq, toDigits_eq_iff hm]
      constructor
      · rintro ⟨-, hbare⟩
        refine .negative hbare ?_
        rintro rfl
        exact hz (Option.some.inj hm).symm
      · rintro (hbare | ⟨hbare, -⟩)
        · exact absurd hbare (not_bare_sign (by decide))
        · exact ⟨rfl, hbare⟩
  · rw [toList_toString_natCast]
    refine iff_of_false (toDigits_ne_sign (by decide)) ?_
    rintro hbare
    cases hbare with
    | natural hbare => exact not_bare_sign (by decide) hbare
  · rw [toList_toString_natCast, toDigits_eq_iff hm]
    constructor
    · exact .natural
    · rintro (hbare | _)
      · exact hbare
      · exact absurd (isDigit_of_digits? hm '-' List.mem_cons_self) (by decide)

end GitInvocation.Text
