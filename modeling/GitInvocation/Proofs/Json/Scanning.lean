import GitInvocation.Proofs.Json.Spelling
import GitInvocation.Proofs.Lookup

/-!
# What the scanners accept

The grammar leaves nothing out. A string that is read to its closing quote without a half pair, a
number that is read, and a text whose lexemes have nothing wrong with them are all spelled as the
grammar says. The spelling is found by going along with the scanner, one character of the content
or one part of the number at a time.
-/
namespace GitInvocation.Json

namespace Quoted

variable {c : Char} {content rest s : List Char}

/-- The string is read to its closing quote, and has no half pair in it. -/
def Closed (scan : Scan) (content rest : List Char) : Prop := scan = ⟨content, false, .closed, rest⟩

theorem closed_go {added : List Char} {half : Bool} {next : Place} {tail : List Char}
    (h : Closed ((Move.go added half next).run tail) content rest) :
    half = false ∧ ∃ more, content = added ++ more ∧ Closed (scan next tail) more rest := by
  unfold Closed Move.run at h
  obtain ⟨hcontent, hhalf, hstop, hrest⟩ := Scan.mk.inj h
  obtain ⟨hh, ht⟩ := Bool.or_eq_false_iff.mp hhalf
  refine ⟨hh, _, hcontent.symm, ?_⟩
  cases he : scan next tail with
  | mk more half why left =>
    rw [he] at ht hstop hrest
    subst ht hstop hrest
    rfl

theorem closed_stop {half : Bool} {why : Stop} {tail : List Char}
    (h : Closed ((Move.stop half why).run tail) content rest) :
    half = false ∧ why = .closed ∧ content = [] ∧ tail = rest := by
  obtain ⟨hcontent, hhalf, hstop, hrest⟩ := Scan.mk.inj h
  exact ⟨hhalf, hstop, hcontent.symm, hrest⟩

theorem not_closed_nil {place : Place} : ¬ Closed (scan place []) content rest := by
  intro h
  obtain ⟨-, -, hstop, -⟩ := Scan.mk.inj h
  exact absurd hstop (by decide)

/-- A half pair is noted for good. -/
theorem not_closed_noting (m : Move) {tail : List Char} :
    ¬ Closed (m.noting.run tail) content rest := by
  intro h
  cases m with
  | go added half next => exact absurd (closed_go h).1 (by decide)
  | stop half why => exact absurd (closed_stop h).1 (by decide)

/-- The digits of a code unit are taken to the last. -/
theorem hex_of_closed {left value : Nat} {high : Option Nat} (hl : 0 < left)
    (h : Closed (scan (.hex left value high) s) content rest) :
    ∃ digits tail unit, s = digits ++ tail ∧ digits.length = left ∧
      Text.digitsFrom? 16 value digits = some unit ∧
      Closed ((moveUnit unit high).run tail) content rest := by
  induction s generalizing left value with
  | nil => exact absurd h not_closed_nil
  | cons c s ih =>
    rw [scan_cons, move] at h
    cases hd : Text.digit? 16 c with
    | none =>
      rw [hd] at h
      exact absurd (closed_stop h).2.1 (by decide)
    | some d =>
      rw [hd] at h
      dsimp only at h
      by_cases hlast : left ≤ 1
      · rw [if_pos hlast] at h
        refine ⟨[c], s, value * 16 + d, rfl, by rw [List.length_singleton]; omega, ?_, h⟩
        rw [Text.digitsFrom?, hd]
        rfl
      · rw [if_neg hlast] at h
        obtain ⟨-, more, rfl, hmore⟩ := closed_go h
        obtain ⟨digits, tail, unit, rfl, hlen, hu, hrun⟩ := ih (by omega) hmore
        refine ⟨c :: digits, tail, unit, rfl, by rw [List.length_cons]; omega, ?_, hrun⟩
        rw [Text.digitsFrom?, hd]
        exact hu

theorem moveEscape_cases (c : Char) (rest : List Char) :
    (∃ d, (c, d) ∈ shortEscapes ∧ moveEscape c rest = .go [d] false .plain) ∨
    (c = 'u' ∧ moveEscape c rest = .go [] false (.hex 4 0 none)) ∨
    ∃ why, why ≠ .closed ∧ moveEscape c rest = .stop false why := by
  unfold moveEscape
  split
  · next h => rcases h with rfl | rfl | rfl <;> exact .inl ⟨_, by simp [shortEscapes], rfl⟩
  split
  · next h => subst h; exact .inl ⟨_, by simp [shortEscapes], rfl⟩
  split
  · next h => subst h; exact .inl ⟨_, by simp [shortEscapes], rfl⟩
  split
  · next h => subst h; exact .inl ⟨_, by simp [shortEscapes], rfl⟩
  split
  · next h => subst h; exact .inl ⟨_, by simp [shortEscapes], rfl⟩
  split
  · next h => subst h; exact .inl ⟨_, by simp [shortEscapes], rfl⟩
  split
  · next h =>
    split
    · exact .inr (.inr ⟨_, by decide, rfl⟩)
    · exact .inr (.inl ⟨h, rfl⟩)
  · exact .inr (.inr ⟨_, by decide, rfl⟩)

/-- The low half of a pair follows its high half. -/
theorem low_of_closed {high : Nat} (h : Closed (scan (.high high) s) content rest) :
    ∃ digits tail low more, s = '\\' :: 'u' :: digits ++ tail ∧ HexUnit digits low ∧ isLow low ∧
      content = Char.ofNat (joined high low) :: more ∧ Closed (scan .plain tail) more rest := by
  cases s with
  | nil => exact absurd h not_closed_nil
  | cons c s =>
    rw [scan_cons, move] at h
    split at h
    · next hc =>
      obtain ⟨-, more, rfl, hmore⟩ := closed_go h
      cases s with
      | nil => exact absurd hmore not_closed_nil
      | cons u s =>
        rw [scan_cons, move] at hmore
        split at hmore
        · next hu =>
          split at hmore
          · exact absurd (closed_stop hmore).2.1 (by decide)
          · obtain ⟨-, more, rfl, hmore⟩ := closed_go hmore
            obtain ⟨digits, tail, low, rfl, hlen, hd, hrun⟩ := hex_of_closed (by decide) hmore
            rw [moveUnit] at hrun
            split at hrun
            · next hlow =>
              obtain ⟨-, more, rfl, hnext⟩ := closed_go hrun
              exact ⟨digits, tail, low, more, by rw [hc, hu]; rfl, ⟨hlen, hd⟩, hlow, rfl, hnext⟩
            · exact absurd (closed_go hrun).1 (by decide)
        · exact absurd hmore (not_closed_noting _)
    · exact absurd h (not_closed_noting _)

/-- A piece stands behind a backslash. -/
theorem escape_of_closed (h : Closed (scan .escape s) content rest) :
    ∃ c t tail more, s = t ++ tail ∧ Piece c ('\\' :: t) ∧ content = c :: more ∧
      Closed (scan .plain tail) more rest := by
  cases s with
  | nil => exact absurd h not_closed_nil
  | cons c s =>
    rw [scan_cons, move] at h
    rcases moveEscape_cases c s with ⟨d, hd, hm⟩ | ⟨rfl, hm⟩ | ⟨why, hw, hm⟩
    · rw [hm] at h
      obtain ⟨-, more, rfl, hmore⟩ := closed_go h
      exact ⟨d, [c], s, more, rfl, .short hd, rfl, hmore⟩
    · rw [hm] at h
      obtain ⟨-, more, rfl, hmore⟩ := closed_go h
      obtain ⟨digits, tail, unit, rfl, hlen, hd, hrun⟩ := hex_of_closed (by decide) hmore
      rw [moveUnit] at hrun
      split at hrun
      · next hhigh =>
        obtain ⟨-, more, rfl, hnext⟩ := closed_go hrun
        obtain ⟨second, tail, low, more, rfl, hsecond, hlow, rfl, hlast⟩ := low_of_closed hnext
        refine ⟨_, 'u' :: digits ++ '\\' :: 'u' :: second, tail, more, ?_,
          .pair ⟨hlen, hd⟩ hsecond hhigh hlow, rfl, hlast⟩
        simp
      · next hhigh =>
        split at hrun
        · exact absurd (closed_go hrun).1 (by decide)
        · next hlow =>
          obtain ⟨-, more, rfl, hnext⟩ := closed_go hrun
          exact ⟨_, 'u' :: digits, tail, more, rfl,
            .unit ⟨hlen, hd⟩ (Bool.eq_false_iff.mpr hhigh) (Bool.eq_false_iff.mpr hlow), rfl, hnext⟩
    · rw [hm] at h
      exact absurd (closed_stop h).2.1 hw

/-- The string ends here, or goes on with a piece. -/
theorem piece_of_closed (h : Closed (scan .plain s) content rest) :
    (content = [] ∧ s = '"' :: rest) ∨
    ∃ c t tail more, s = t ++ tail ∧ Piece c t ∧ content = c :: more ∧
      Closed (scan .plain tail) more rest := by
  cases s with
  | nil => exact absurd h not_closed_nil
  | cons c s =>
    rw [scan_cons, move, movePlain] at h
    split at h
    · next hq =>
      obtain ⟨-, -, hcontent, hrest⟩ := closed_stop h
      exact .inl ⟨hcontent, by rw [hq, hrest]⟩
    · next hq =>
      split at h
      · next hb =>
        subst hb
        obtain ⟨-, more, rfl, hmore⟩ := closed_go h
        obtain ⟨c, t, tail, more, rfl, hpiece, rfl, hnext⟩ := escape_of_closed hmore
        exact .inr ⟨c, '\\' :: t, tail, more, rfl, hpiece, rfl, hnext⟩
      · next hb =>
        split at h
        · exact absurd (closed_stop h).2.1 (by decide)
        · next hc =>
          obtain ⟨-, more, rfl, hmore⟩ := closed_go h
          exact .inr ⟨c, [c], s, more, rfl, .plain hq hb (Nat.not_lt.mp hc), rfl, hmore⟩

theorem Piece.ne_nil {t : List Char} (h : Piece c t) : t ≠ [] := by
  cases h <;> exact List.cons_ne_nil _ _

/-- What is read to a closing quote is spelled in front of it. -/
theorem spells_of_closed (h : Closed (scan .plain s) content rest) :
    ∃ t, s = t ++ '"' :: rest ∧ Spells content t := by
  induction hn : s.length using Nat.strong_induction_on generalizing s content with
  | _ n ih =>
    rcases piece_of_closed h with ⟨rfl, rfl⟩ | ⟨c, t, tail, more, rfl, hpiece, rfl, hmore⟩
    · exact ⟨[], rfl, .nil⟩
    · have hpos := List.length_pos_iff.mpr hpiece.ne_nil
      rw [List.length_append] at hn
      obtain ⟨u, rfl, hu⟩ := ih tail.length (by omega) hmore rfl
      exact ⟨t ++ u, (List.append_assoc t u _).symm, .cons hpiece hu⟩

end Quoted

namespace Number

variable {s rest : List Char} {w v : Written}

/-- Digits are taken to the last. -/
theorem digits_of_span (h : (spanDigits s).1 ≠ []) :
    Digits (spanDigits s).1 ∧ s = (spanDigits s).1 ++ (spanDigits s).2 ∧
      ∀ c ∈ (spanDigits s).2.head?, Text.isDigit 10 c = false := by
  refine ⟨⟨h, fun c hc => List.mem_takeWhile_imp hc⟩, List.takeWhile_append_dropWhile.symm, ?_⟩
  intro c hc
  have hhead := List.head?_dropWhile_not (Text.isDigit 10) s
  rw [spanDigits] at hc
  rw [hc] at hhead
  exact hhead

/-- The text does not go on with a digit. -/
def Halted (rest : List Char) : Prop := ∀ c ∈ rest.head?, Text.isDigit 10 c = false

theorem spanSign_cases (s : List Char) :
    (s = '+' :: (spanSign s).2 ∧ (spanSign s).1 = false) ∨
    (s = '-' :: (spanSign s).2 ∧ (spanSign s).1 = true) ∨
    (s = (spanSign s).2 ∧ (spanSign s).1 = false) := by
  unfold spanSign
  split
  · exact .inl ⟨rfl, rfl⟩
  · exact .inr (.inl ⟨rfl, rfl⟩)
  · exact .inr (.inr ⟨rfl, rfl⟩)

theorem power_of_scan {letter : Char} (hl : letter = 'e' ∨ letter = 'E')
    (h : scanPower w s = .number v rest) :
    ∃ t e, letter :: s = t ++ rest ∧ Exponent e t ∧ v = { w with exponent := e } ∧
      Halted rest := by
  unfold scanPower at h
  dsimp only at h
  split at h
  · exact absurd h stopped_ne_number
  · next hne =>
    obtain ⟨hd, hsplit, hend⟩ := digits_of_span hne
    obtain ⟨rfl, rfl⟩ := Scan.number.inj h
    rcases spanSign_cases s with ⟨hs, hsign⟩ | ⟨hs, hsign⟩ | ⟨hs, hsign⟩
    · refine ⟨letter :: ['+'] ++ _, _, ?_, .up hl (.inr rfl) hd, by rw [hsign], hend⟩
      rw [List.append_assoc, ← hsplit]
      exact congrArg (letter :: ·) hs
    · refine ⟨letter :: '-' :: _, _, ?_, .down hl hd, by rw [hsign], hend⟩
      rw [List.cons_append, List.cons_append, ← hsplit, ← hs]
    · refine ⟨letter :: [] ++ _, _, ?_, .up hl (.inl rfl) hd, by rw [hsign], hend⟩
      rw [List.append_assoc, ← hsplit]
      exact congrArg (letter :: ·) hs

theorem exponent_of_scan (hs : Halted s) (hw : w.exponent = none)
    (h : scanExponent w s = .number v rest) :
    ∃ t e, s = t ++ rest ∧ Exponent e t ∧ v = { w with exponent := e } ∧ Halted rest := by
  have hself : w = { w with exponent := none } := by rw [← hw]
  cases s with
  | nil =>
    obtain ⟨rfl, rfl⟩ := Scan.number.inj h
    exact ⟨[], none, rfl, .none, hself, hs⟩
  | cons c s =>
    rw [scanExponent] at h
    split at h
    · next hl => exact power_of_scan hl h
    · obtain ⟨rfl, rfl⟩ := Scan.number.inj h
      exact ⟨[], none, rfl, .none, hself, hs⟩

theorem fraction_of_scan (hs : Halted s) (hf : w.fraction = none) (he : w.exponent = none)
    (h : scanFraction w s = .number v rest) :
    ∃ f t fraction e, s = f ++ (t ++ rest) ∧ Fraction fraction f ∧ Exponent e t ∧
      v = { w with fraction := fraction, exponent := e } ∧ Halted rest := by
  cases s with
  | nil =>
    obtain ⟨t, e, ht, hexp, rfl, hend⟩ := exponent_of_scan hs he h
    exact ⟨[], t, none, e, ht, .none, hexp, by rw [← hf], hend⟩
  | cons c s =>
    rw [scanFraction] at h
    split at h
    · next hc =>
      unfold scanPlaces at h
      dsimp only at h
      split at h
      · exact absurd h stopped_ne_number
      · next hne =>
        obtain ⟨hd, hsplit, hend⟩ := digits_of_span hne
        obtain ⟨t, e, ht, hexp, rfl, hlast⟩ := exponent_of_scan hend (by exact he) h
        refine ⟨'.' :: _, t, _, e, ?_, .some hd, hexp, rfl, hlast⟩
        rw [List.cons_append, ← ht, ← hsplit, hc]
    · obtain ⟨t, e, ht, hexp, rfl, hend⟩ := exponent_of_scan hs he h
      exact ⟨[], t, none, e, ht, .none, hexp, by rw [← hf], hend⟩

theorem whole_of_scan {negative : Bool} (h : scanWhole negative s = .number v rest) :
    ∃ t, s = t ++ rest ∧ Spells v ((if negative then ['-'] else []) ++ t) ∧ Halted rest := by
  unfold scanWhole at h
  dsimp only at h
  split at h
  · exact absurd h stopped_ne_number
  · next hne =>
    split at h
    · exact absurd h (by simp)
    · next hz =>
      obtain ⟨hd, hsplit, hend⟩ := digits_of_span hne
      obtain ⟨f, t, fraction, e, ht, hf, hexp, rfl, hlast⟩ := fraction_of_scan hend rfl rfl h
      have hzero : (spanDigits s).1.head? = some '0' → (spanDigits s).1.length = 1 := by
        intro h0
        have hpos := List.length_pos_iff.mpr hne
        have hlong : ¬ 1 < (spanDigits s).1.length := fun hl => hz ⟨h0, hl⟩
        omega
      refine ⟨(spanDigits s).1 ++ f ++ t, ?_, ?_, hlast⟩
      · rw [List.append_assoc, List.append_assoc, ← ht, ← hsplit]
      · have hspelled : Spells ⟨negative, (spanDigits s).1, fraction, e⟩ _ :=
          .mk hd hzero hf hexp
        simpa only [List.append_assoc] using hspelled

/-- What is read as a number is spelled as one. -/
theorem spells_of_scan (h : scan s = .number w rest) :
    ∃ t, s = t ++ rest ∧ Spells w t ∧ Halted rest := by
  cases s with
  | nil => exact absurd h (by simp [scan])
  | cons c s =>
    rw [scan] at h
    split at h
    · next hc =>
      obtain ⟨t, rfl, ht, hend⟩ := whole_of_scan h
      exact ⟨'-' :: t, by rw [hc]; rfl, ht, hend⟩
    · obtain ⟨t, hs, ht, hend⟩ := whole_of_scan h
      exact ⟨t, hs, ht, hend⟩

end Number

namespace Lexeme

variable {l : Lexeme} {s rest : List Char}

/-- Nothing is wrong with the lexeme. -/
def Sound : Lexeme → Prop
  | .openObject | .closeObject | .openArray | .closeArray | .colon | .comma | .word _ => True
  | .text _ half => half = false
  | _ => False

theorem Sound.not_broken (h : l.Sound) : l.isBroken = false := by
  cases l with
  | brokenText half ended => exact absurd h id
  | brokenNumber ended => exact absurd h id
  | brokenName ended => exact absurd h id
  | stray => exact absurd h id
  | _ => rfl

theorem name_of_afterName {v : Json} {name : List Char} (h : afterName v name s = (l, rest))
    (hl : l.Sound) : l = .word v ∧ s = name ++ rest := by
  induction name generalizing s with
  | nil =>
    have he : (Lexeme.word v, s) = (l, rest) := by
      rw [← h]
      cases s <;> rfl
    obtain ⟨rfl, rfl⟩ := Prod.mk.inj he
    exact ⟨rfl, rfl⟩
  | cons n name ih =>
    cases s with
    | nil =>
      obtain ⟨rfl, -⟩ := Prod.mk.inj h
      exact absurd hl id
    | cons c s =>
      rw [afterName] at h
      split at h
      · next hn =>
        obtain ⟨hw, rfl⟩ := ih h
        exact ⟨hw, by rw [hn]; rfl⟩
      · obtain ⟨rfl, -⟩ := Prod.mk.inj h
        exact absurd hl id

theorem spells_of_text (h : ofText (Quoted.scan .plain s) = (l, rest)) (hl : l.Sound) :
    ∃ t, '"' :: s = t ++ rest ∧ Spells rest l t := by
  unfold ofText at h
  split at h
  · next hstop =>
    obtain ⟨rfl, rfl⟩ := Prod.mk.inj h
    have hclosed : Quoted.Closed (Quoted.scan .plain s) (Quoted.scan .plain s).content
        (Quoted.scan .plain s).rest := by
      rw [Quoted.Closed, ← hstop, ← (hl : (Quoted.scan .plain s).half = false)]
    obtain ⟨t, ht, hspells⟩ := Quoted.spells_of_closed hclosed
    refine ⟨'"' :: t ++ ['"'], ?_, ?_⟩
    · rw [List.append_assoc, List.cons_append, List.singleton_append, ← ht]
    · rw [(hl : (Quoted.scan .plain s).half = false)]
      exact .text hspells
  · obtain ⟨rfl, -⟩ := Prod.mk.inj h
    exact absurd hl id
  · obtain ⟨rfl, -⟩ := Prod.mk.inj h
    exact absurd hl id

theorem spells_of_number (h : ofNumber (Number.scan s) = (l, rest)) (hl : l.Sound)
    (hend : Number.Halted rest → Number.Ends rest) : ∃ t, s = t ++ rest ∧ Spells rest l t := by
  cases hscan : Number.scan s with
  | number w left =>
    rw [hscan, ofNumber] at h
    obtain ⟨t, ht, hspells, hhalted⟩ := Number.spells_of_scan hscan
    cases hv : Number.value? w with
    | none =>
      rw [hv] at h
      obtain ⟨rfl, -⟩ := Prod.mk.inj h
      exact absurd hl id
    | some v =>
      rw [hv] at h
      obtain ⟨rfl, rfl⟩ := Prod.mk.inj h
      exact ⟨t, ht, .number hspells hv (hend hhalted)⟩
  | ended =>
    rw [hscan] at h
    obtain ⟨rfl, -⟩ := Prod.mk.inj h
    exact absurd hl id
  | malformed =>
    rw [hscan] at h
    obtain ⟨rfl, -⟩ := Prod.mk.inj h
    exact absurd hl id

/-- A lexeme with nothing wrong is spelled, if no number runs into what follows it. -/
theorem spells_of_starting {c : Char} (h : starting c s = (l, rest)) (hl : l.Sound)
    (hend : Number.Halted rest → Number.Ends rest) : ∃ t, c :: s = t ++ rest ∧ Spells rest l t := by
  unfold starting at h
  split at h
  · next hm =>
    obtain ⟨rfl, rfl⟩ := Prod.mk.inj h
    exact ⟨[c], rfl, .mark (mem_of_lookup hm)⟩
  · next hw =>
    obtain ⟨rfl, rfl⟩ := name_of_afterName h hl
    exact ⟨_, rfl, .name (mem_of_lookup hw)⟩
  · split at h
    · next hc =>
      rw [hc]
      exact spells_of_text h hl
    · split at h
      · exact spells_of_number h hl hend
      · obtain ⟨rfl, -⟩ := Prod.mk.inj h
        exact absurd hl id

theorem next?_of_stray {c : Char} (h : c = '.' ∨ c = 'e' ∨ c = 'E') (s : List Char) :
    next? (c :: s) = some (.stray, s) := by
  rcases h with rfl | rfl | rfl <;> rfl

/-- A number is not followed by a point or the letter of an exponent when nothing is wrong. -/
theorem ends_of_sound (h : ∀ l ∈ ofChars rest, l.Sound) (hr : Number.Halted rest) :
    Number.Ends rest := by
  intro c hc
  have hd := hr c hc
  cases rest with
  | nil => exact absurd hc (by simp)
  | cons d rest =>
    obtain rfl := Option.some.inj hc
    have hne : ¬ (d = '.' ∨ d = 'e' ∨ d = 'E') := by
      intro hstray
      rw [ofChars_of_some (next?_of_stray hstray rest)] at h
      exact h .stray List.mem_cons_self
    obtain ⟨hp, he, hE⟩ := not_or.mp hne |>.imp_right not_or.mp
    simp [Number.continues, hd, hp, he, hE]

/-- A text whose lexemes have nothing wrong with them spells them. -/
theorem spelled_of_sound (h : ∀ l ∈ ofChars s, l.Sound) : Spelled s (ofChars s) := by
  induction hn : s.length using Nat.strong_induction_on generalizing s with
  | _ n ih =>
    cases hnext : next? s with
    | none =>
      rw [ofChars_of_none hnext]
      refine .nil fun c hc => ?_
      unfold next? at hnext
      split at hnext
      · next hd => exact List.dropWhile_eq_nil_iff.mp hd c hc
      · exact absurd hnext (by simp)
    | some p =>
      obtain ⟨l, rest⟩ := p
      have hlen := length_next? hnext
      rw [ofChars_of_some hnext] at h ⊢
      have hl : l.Sound := h l List.mem_cons_self
      rw [hl.not_broken] at h ⊢
      have hrest : ∀ l ∈ ofChars rest, l.Sound := fun k hk => h k (List.mem_cons_of_mem l hk)
      unfold next? at hnext
      split at hnext
      · exact absurd hnext (by simp)
      · next c tail hd =>
        obtain ⟨t, ht, hspells⟩ :=
          spells_of_starting (Option.some.inj hnext) hl (ends_of_sound hrest)
        have hs : s = s.takeWhile isSpace ++ (t ++ rest) := by
          rw [← ht, ← hd, List.takeWhile_append_dropWhile]
        rw [hs]
        exact .cons (fun c hc => List.mem_takeWhile_imp hc) hspells
          (ih rest.length (by omega) hrest rfl)

end Lexeme

end GitInvocation.Json
