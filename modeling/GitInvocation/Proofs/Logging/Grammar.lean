import GitInvocation.Logging.Verbosity
import GitInvocation.Proofs.Text.Number

/-!
# Verbosities in text

Which texts name a verbosity, and how the others are refused. White space around the number does
not count, a plus sign is allowed, and so are zeros in front, as many as there may be. A number of
one byte that is not on the scale is told in the refusal. Any larger number is refused like a text
that is no number at all, and then the refusal shows the text as it was given.
-/
namespace GitInvocation

namespace Text

/-- Digits with the number that they write. A plus sign may stand in front of them. -/
inductive Decimal : List Char → Nat → Prop where
  | bare {digits : List Char} (hne : digits ≠ []) (h : ∀ c ∈ digits, c.isDigit) :
      Decimal digits (Nat.ofDigitChars 10 digits 0)
  | signed {digits : List Char} (hne : digits ≠ []) (h : ∀ c ∈ digits, c.isDigit) :
      Decimal ('+' :: digits) (Nat.ofDigitChars 10 digits 0)

variable {c : Char} {s : List Char} {limit m n : Nat}

theorem digit?_of_isDigit (h : c.isDigit) : digit? 10 c = some (c.toNat - '0'.toNat) := by
  obtain ⟨hlow, hhigh⟩ := Char.isDigit_iff_toNat.mp h
  have hvalue : c.toNat - 0x30 < 10 := by
    have hnine : c.toNat ≤ 0x39 := hhigh
    omega
  have hrange : '0' ≤ c ∧ c ≤ '9' := ⟨hlow, hhigh⟩
  rw [digit?, if_pos hrange, Option.filter_some, if_pos (decide_eq_true hvalue)]
  rfl

theorem digitsFrom?_eq_some_iff :
    digitsFrom? 10 n s = some m ↔ (∀ c ∈ s, c.isDigit) ∧ Nat.ofDigitChars 10 s n = m := by
  induction s generalizing n with
  | nil => simp [digitsFrom?]
  | cons c s ih =>
    rw [digitsFrom?, List.forall_mem_cons, Nat.ofDigitChars_cons, Nat.mul_comm 10 n]
    by_cases hc : c.isDigit
    · rw [digit?_of_isDigit hc, Option.bind_some, ih]
      simp [hc]
    · refine iff_of_false (fun h => ?_) fun h => hc h.1.1
      obtain ⟨d, hd, -⟩ := Option.bind_eq_some_iff.mp h
      exact hc (isDigit_of_digit? hd)

theorem digits?_eq_some_iff :
    digits? 10 s = some m ↔
      s ≠ [] ∧ (∀ c ∈ s, c.isDigit) ∧ Nat.ofDigitChars 10 s 0 = m := by
  cases s with
  | nil => exact iff_of_false nofun fun h => h.1 rfl
  | cons c s =>
    rw [digits?, digitsFrom?_eq_some_iff]
    simp

theorem unsigned?_eq_some_iff : unsigned? 10 s = some m ↔ Decimal s m := by
  rw [unsigned?.eq_def]
  split
  · next digits =>
    rw [digits?_eq_some_iff]
    constructor
    · rintro ⟨hne, hdigits, rfl⟩
      exact .signed hne hdigits
    · rintro (⟨-, hdigits⟩ | ⟨hne, hdigits⟩)
      · -- A plus sign is no digit.
        exact absurd (hdigits '+' List.mem_cons_self) (by decide)
      · exact ⟨hne, hdigits, rfl⟩
  · next hsign =>
    rw [digits?_eq_some_iff]
    constructor
    · rintro ⟨hne, hdigits, rfl⟩
      exact .bare hne hdigits
    · rintro (⟨hne, hdigits⟩ | _)
      · exact ⟨hne, hdigits, rfl⟩
      · exact absurd rfl (hsign _)

/-- A text writes one number at most. -/
theorem Decimal.unique (hm : Decimal s m) (hn : Decimal s n) : m = n :=
  Option.some.inj ((unsigned?_eq_some_iff.mpr hm).symm.trans (unsigned?_eq_some_iff.mpr hn))

theorem bounded?_eq_some_iff : bounded? 10 limit s = some m ↔ Decimal s m ∧ m ≤ limit := by
  rw [bounded?, Option.filter_eq_some_iff, unsigned?_eq_some_iff, decide_eq_true_eq]

theorem bounded?_eq_none_iff : bounded? 10 limit s = none ↔ ∀ m ≤ limit, ¬ Decimal s m := by
  rw [Option.eq_none_iff_forall_ne_some]
  simp only [ne_eq, bounded?_eq_some_iff, not_and']

end Text

namespace Verbosity

open Text (Decimal)

variable {s : String} {v : Verbosity} {n : Nat} {e : SettingFault}

theorem number_le (v : Verbosity) : v.number ≤ 6 := by cases v <;> decide

/-- The scale has no gaps. -/
theorem le_six_iff : n ≤ 6 ↔ ∃ v : Verbosity, v.number = n := by
  constructor
  · have hall : ∀ n ≤ 6, ∃ v ∈ all, v.number = n := by decide
    intro h
    obtain ⟨v, -, hv⟩ := hall n h
    exact ⟨v, hv⟩
  · rintro ⟨v, rfl⟩
    exact v.number_le

theorem ofNumber?_number (v : Verbosity) : ofNumber? v.number = some v := by cases v <;> rfl

theorem ofNumber_eq_ok_iff : ofNumber n = .ok v ↔ v.number = n := by
  constructor
  · intro h
    unfold ofNumber at h
    split at h
    · next w hw =>
      obtain rfl := Except.ok.inj h
      rw [ofNumber?] at hw
      have hfound := List.find?_some hw
      exact of_decide_eq_true hfound
    · cases h
  · rintro rfl
    rw [ofNumber, ofNumber?_number]

theorem ofNumber_eq_error_iff : ofNumber n = .error e ↔ 6 < n ∧ e = outOfRange n := by
  by_cases h : n ≤ 6
  · obtain ⟨v, hv⟩ := le_six_iff.mp h
    rw [ofNumber_eq_ok_iff.mpr hv]
    exact iff_of_false nofun fun he => absurd he.1 (by omega)
  · have hnone : ofNumber? n = none := by
      rw [ofNumber?, List.find?_eq_none]
      rintro v - hv
      exact h (le_six_iff.mpr ⟨v, of_decide_eq_true hv⟩)
    rw [ofNumber, hnone]
    simp only [Except.error.injEq, Nat.not_le.mp h, true_and, eq_comm]

theorem outOfRange_injective {m n : Nat} (h : outOfRange m = outOfRange n) : m = n := by
  obtain ⟨-, -, h⟩ := SettingFault.invalidValue.inj h
  have hlist := congrArg String.toList h
  rw [String.toList_append, String.toList_append] at hlist
  exact Text.toString_injective (String.toList_inj.mp (List.append_cancel_left hlist))

theorem outOfRange_ne_unread (n : Nat) (s : String) :
    outOfRange n ≠ fault ("expected a number 0-6, got '" ++ s ++ "'") := by
  intro h
  obtain ⟨-, -, h⟩ := SettingFault.invalidValue.inj h
  have hhead := congrArg (fun t => t.toList.head?) h
  simp at hhead

/-- A text is no number of one byte, or it is one and the scale decides. -/
theorem parse_cases (s : String) :
    ((∀ n ≤ 255, ¬ Decimal (Text.trimChars s.toList) n) ∧
      parse s = .error (fault ("expected a number 0-6, got '" ++ s ++ "'"))) ∨
    ∃ n ≤ 255, Decimal (Text.trimChars s.toList) n ∧ parse s = ofNumber n := by
  unfold parse
  split
  · next n hn =>
    obtain ⟨hdecimal, hle⟩ := Text.bounded?_eq_some_iff.mp hn
    exact .inr ⟨n, hle, hdecimal, rfl⟩
  · next hn => exact .inl ⟨Text.bounded?_eq_none_iff.mp hn, rfl⟩

theorem parse_eq_ok_iff : parse s = .ok v ↔ Decimal (Text.trimChars s.toList) v.number := by
  rcases parse_cases s with ⟨hnone, h⟩ | ⟨n, hle, hn, h⟩
  · rw [h]
    exact iff_of_false nofun (hnone v.number (Nat.le_trans v.number_le (by decide)))
  · rw [h, ofNumber_eq_ok_iff]
    exact ⟨fun hv => hv ▸ hn, fun hv => hv.unique hn⟩

theorem parse_eq_outOfRange_iff :
    parse s = .error (outOfRange n) ↔ Decimal (Text.trimChars s.toList) n ∧ 7 ≤ n ∧ n ≤ 255 := by
  rcases parse_cases s with ⟨hnone, h⟩ | ⟨m, hle, hm, h⟩
  · rw [h, Except.error.injEq]
    exact iff_of_false (outOfRange_ne_unread n s).symm fun hn => hnone n hn.2.2 hn.1
  · rw [h, ofNumber_eq_error_iff]
    constructor
    · rintro ⟨hlt, he⟩
      obtain rfl := outOfRange_injective he
      exact ⟨hm, hlt, hle⟩
    · rintro ⟨hn, hlt, -⟩
      obtain rfl := hm.unique hn
      exact ⟨hlt, rfl⟩

theorem parse_eq_unread_iff :
    parse s = .error (fault ("expected a number 0-6, got '" ++ s ++ "'")) ↔
      ∀ n ≤ 255, ¬ Decimal (Text.trimChars s.toList) n := by
  rcases parse_cases s with ⟨hnone, h⟩ | ⟨m, hle, hm, h⟩
  · exact iff_of_true h hnone
  · rw [h, ofNumber_eq_error_iff]
    refine iff_of_false (fun he => ?_) fun hnone => hnone m hle hm
    exact outOfRange_ne_unread m s he.2.symm

/-- The grammar of verbosities. A text is a verbosity exactly when it is, without the white space
around it, a number on the scale. Numbers of one byte beyond the scale are refused by their value,
and everything else by the text itself. -/
theorem parse_grammar (s : String) :
    (∀ v, parse s = .ok v ↔ Decimal (Text.trim s).toList v.number) ∧
    (∀ n, n ≤ 6 ↔ ∃ v : Verbosity, v.number = n) ∧
    (∀ n, parse s = .error (.invalidValue "global" "log_level"
        ("log level must be 0-6, got " ++ toString n)) ↔
      Decimal (Text.trim s).toList n ∧ 7 ≤ n ∧ n ≤ 255) ∧
    (parse s = .error (.invalidValue "global" "log_level"
        ("expected a number 0-6, got '" ++ s ++ "'")) ↔
      ∀ n ≤ 255, ¬ Decimal (Text.trim s).toList n) := by
  rw [Text.trim, String.toList_ofList]
  exact ⟨fun _ => parse_eq_ok_iff, fun _ => le_six_iff, fun _ => parse_eq_outOfRange_iff,
    parse_eq_unread_iff⟩

/-- Zeros behind a plus sign and blanks around both, the greatest byte, and a number just above. -/
theorem parse_grammar_edges :
    parse "\u3000+0006\n" = .ok .dump ∧
    parse "+0255" = .error (.invalidValue "global" "log_level" "log level must be 0-6, got 255") ∧
    parse " 256" = .error (.invalidValue "global" "log_level"
      "expected a number 0-6, got ' 256'") := by
  have hsix : Decimal (Text.trim "\u3000+0006\n").toList 6 :=
    Text.unsigned?_eq_some_iff.mp (by decide +kernel)
  have hbyte : Decimal (Text.trim "+0255").toList 255 :=
    Text.unsigned?_eq_some_iff.mp (by decide +kernel)
  have hmore : ∀ n ≤ 255, ¬ Decimal (Text.trim " 256").toList n :=
    Text.bounded?_eq_none_iff.mp (by decide +kernel)
  exact ⟨((parse_grammar _).1 .dump).mpr hsix,
    ((parse_grammar _).2.2.1 255).mpr ⟨hbyte, by decide, by decide⟩,
    (parse_grammar _).2.2.2.mpr hmore⟩

end Verbosity

end GitInvocation
