import GitInvocation.Json.Lexeme
import Mathlib.Data.List.TakeWhile

/-!
# The spelling of lexemes

The grammar of JSON texts, stated without the reader: how each lexeme may be spelled, with any
escapes in a string and any fraction and exponent in a number, and how lexemes follow one another
with white space between them. The reader finds exactly the lexemes that a text spells.
-/
namespace GitInvocation.Json

namespace Quoted

/-- The characters with an escape of their own, by the letter behind the backslash. -/
def shortEscapes : List (Char × Char) :=
  [('"', '"'), ('\\', '\\'), ('/', '/'), ('b', '\x08'), ('f', '\x0c'), ('n', '\n'), ('r', '\r'),
   ('t', '\t')]

/-- The four digits of a code unit, in either letter case. -/
def HexUnit (digits : List Char) (unit : Nat) : Prop :=
  digits.length = 4 ∧ Text.digitsFrom? 16 0 digits = some unit

/-- The code point of a surrogate pair. -/
def joined (high low : Nat) : Nat := (high - 0xD800) * 0x400 + (low - 0xDC00) + 0x10000

/-- How a character may stand in a string. -/
inductive Piece : Char → List Char → Prop
  | plain {c : Char} (hq : c ≠ '"') (hb : c ≠ '\\') (hc : 0x20 ≤ c.toNat) : Piece c [c]
  | short {letter c : Char} (h : (letter, c) ∈ shortEscapes) : Piece c ['\\', letter]
  | unit {digits : List Char} {unit : Nat} (h : HexUnit digits unit) (hh : isHigh unit = false)
      (hl : isLow unit = false) : Piece (Char.ofNat unit) ('\\' :: 'u' :: digits)
  | pair {first second : List Char} {high low : Nat} (h : HexUnit first high)
      (h' : HexUnit second low) (hh : isHigh high) (hl : isLow low) :
      Piece (Char.ofNat (joined high low)) ('\\' :: 'u' :: first ++ '\\' :: 'u' :: second)

/-- How a text may stand between quotes. -/
inductive Spells : List Char → List Char → Prop
  | nil : Spells [] []
  | cons {c : Char} {s t u : List Char} (head : Piece c t) (tail : Spells s u) :
      Spells (c :: s) (t ++ u)

variable {c : Char} {rest s t : List Char}

/-- The reading behind a character that was just read. -/
def Move.run (rest : List Char) : Move → Scan
  | .stop half why => ⟨[], half, why, rest⟩
  | .go added half next =>
    { scan next rest with
      content := added ++ (scan next rest).content, half := half || (scan next rest).half }

theorem scan_cons (place : Place) (c : Char) (rest : List Char) :
    scan place (c :: rest) = (move c rest place).run rest := by
  rw [scan]
  cases move c rest place <;> rfl

/-- The text that was read before the rest. -/
def Scan.behind (added : List Char) (scan : Scan) : Scan :=
  { scan with content := added ++ scan.content }

theorem scan_go {place next : Place} {added : List Char}
    (h : move c rest place = .go added false next) :
    scan place (c :: rest) = (scan next rest).behind added := by
  rw [scan_cons, h, Move.run, Bool.false_or]
  rfl

theorem le_utf8ByteSize (s : List Char) : s.length ≤ (String.ofList s).utf8ByteSize := by
  induction s with
  | nil => exact Nat.zero_le _
  | cons c s ih =>
    have hc : 0 < c.utf8Size := Char.utf8Size_pos c
    have hs : (String.ofList (c :: s)).utf8ByteSize =
        c.utf8Size + (String.ofList s).utf8ByteSize := by
      rw [← List.singleton_append, String.ofList_append, String.utf8ByteSize_append]
      simp
    rw [hs, List.length_cons]
    omega

/-- Four digits are enough for the reader to go on. -/
theorem not_short {digits : List Char} (h : digits.length = 4) (rest : List Char) :
    ¬ (String.ofList ((digits ++ rest).take 4)).utf8ByteSize < 4 := by
  have hl := le_utf8ByteSize ((digits ++ rest).take 4)
  rw [List.length_take, List.length_append, h] at hl
  omega

theorem scan_hex {digits : List Char} {value unit : Nat} {high : Option Nat} (hne : digits ≠ [])
    (h : Text.digitsFrom? 16 value digits = some unit) :
    scan (.hex digits.length value high) (digits ++ rest) = (moveUnit unit high).run rest := by
  induction digits generalizing value with
  | nil => exact absurd rfl hne
  | cons c digits ih =>
    rw [Text.digitsFrom?, Option.bind_eq_some_iff] at h
    obtain ⟨d, hd, h⟩ := h
    rw [List.cons_append, scan_cons, move, hd]
    cases digits with
    | nil =>
      obtain rfl := Option.some.inj h
      rfl
    | cons c' digits =>
      have hlong : ¬ (c :: c' :: digits).length ≤ 1 := by simp
      dsimp only
      rw [if_neg hlong, Move.run, Bool.false_or]
      exact ih (List.cons_ne_nil _ _) h

theorem scan_unit {digits : List Char} {unit : Nat} {high : Option Nat} (h : HexUnit digits unit) :
    scan (.hex 4 0 high) (digits ++ rest) = (moveUnit unit high).run rest := by
  obtain ⟨hl, hd⟩ := h
  have hne : digits ≠ [] := by
    rintro rfl
    exact absurd hl (by decide)
  rw [← hl]
  exact scan_hex hne hd

theorem scan_escape_u {digits : List Char} {unit : Nat} (h : HexUnit digits unit) :
    scan .plain ('\\' :: 'u' :: digits ++ rest) = (moveUnit unit none).run rest := by
  have hb : move '\\' ('u' :: digits ++ rest) .plain = .go [] false .escape := rfl
  have hu : move 'u' (digits ++ rest) .escape = .go [] false (.hex 4 0 none) := by
    rw [move, moveEscape]
    simp [not_short h.1]
  have hfirst := scan_go hb
  rw [List.cons_append, scan_go hu, scan_unit h] at hfirst
  exact hfirst

theorem scan_piece (h : Piece c t) (rest : List Char) :
    scan .plain (t ++ rest) = (scan .plain rest).behind [c] := by
  cases h with
  | plain hq hb hc =>
    refine scan_go ?_
    rw [move, movePlain, if_neg hq, if_neg hb, if_neg (Nat.not_lt.mpr hc)]
  | @short letter _ h =>
    have hb : move '\\' (letter :: rest) .plain = .go [] false .escape := rfl
    have hl : move letter rest .escape = .go [c] false .plain := by
      simp only [shortEscapes, List.mem_cons, Prod.mk.injEq, List.not_mem_nil, or_false] at h
      rcases h with h | h | h | h | h | h | h | h <;> (obtain ⟨rfl, rfl⟩ := h; rfl)
    have := scan_go hb
    rw [scan_go hl] at this
    exact this
  | unit h hh hl =>
    rw [scan_escape_u h, moveUnit, hh, hl]
    rfl
  | @pair first second high low h h' hh hl =>
    have hhigh : (moveUnit high none) = .go [] false (.high high) := by
      rw [moveUnit, if_pos hh]
    have hb : move '\\' ('u' :: second ++ rest) (.high high) = .go [] false (.highEscape high) :=
      rfl
    have hu : move 'u' (second ++ rest) (.highEscape high) =
        .go [] false (.hex 4 0 (some high)) := by
      rw [move, if_pos rfl, if_neg (not_short h'.1 rest)]
    have hpair : moveUnit low (some high) = .go [Char.ofNat (joined high low)] false .plain := by
      rw [moveUnit, if_pos hl]
      rfl
    rw [List.append_assoc, scan_escape_u h, hhigh, Move.run, Bool.false_or]
    have hsecond := scan_go hb
    rw [List.cons_append, scan_go hu, scan_unit h', hpair] at hsecond
    exact hsecond

/-- A string is read to its closing quote. -/
theorem scan_spells (h : Spells s t) (rest : List Char) :
    scan .plain (t ++ '"' :: rest) = ⟨s, false, .closed, rest⟩ := by
  induction h with
  | nil => rfl
  | cons head tail ih =>
    rw [List.append_assoc, scan_piece head, ih]
    rfl

end Quoted

namespace Number

def Digits (s : List Char) : Prop := s ≠ [] ∧ ∀ c ∈ s, Text.isDigit 10 c

/-- True of the characters that would go on with a number. -/
def continues (c : Char) : Bool := Text.isDigit 10 c || c = '.' || c = 'e' || c = 'E'

/-- The text does not go on with a number that stands in front of it. -/
def Ends (rest : List Char) : Prop := ∀ c ∈ rest.head?, continues c = false

inductive Fraction : Option (List Char) → List Char → Prop
  | none : Fraction none []
  | some {digits : List Char} (h : Digits digits) : Fraction (some digits) ('.' :: digits)

inductive Exponent : Option (Bool × List Char) → List Char → Prop
  | none : Exponent none []
  | up {letter : Char} {sign digits : List Char} (hl : letter = 'e' ∨ letter = 'E')
      (hs : sign = [] ∨ sign = ['+']) (h : Digits digits) :
      Exponent (some (false, digits)) (letter :: sign ++ digits)
  | down {letter : Char} {digits : List Char} (hl : letter = 'e' ∨ letter = 'E')
      (h : Digits digits) : Exponent (some (true, digits)) (letter :: '-' :: digits)

/-- How a number may be written. A zero in front stands alone. -/
inductive Spells : Written → List Char → Prop
  | mk {negative : Bool} {whole : List Char} {fraction : Option (List Char)}
      {exponent : Option (Bool × List Char)} {f e : List Char} (hw : Digits whole)
      (hz : whole.head? = some '0' → whole.length = 1) (hf : Fraction fraction f)
      (he : Exponent exponent e) :
      Spells ⟨negative, whole, fraction, exponent⟩
        ((if negative then ['-'] else []) ++ whole ++ f ++ e)

variable {rest t : List Char} {w : Written}

theorem isDigit_of_continues {c : Char} (h : continues c = false) :
    Text.isDigit 10 c = false ∧ c ≠ '.' ∧ c ≠ 'e' ∧ c ≠ 'E' := by
  simp only [continues, Bool.or_eq_false_iff, decide_eq_false_iff_not] at h
  obtain ⟨⟨⟨hd, hp⟩, he⟩, hE⟩ := h
  exact ⟨hd, hp, he, hE⟩

theorem spanDigits_append {digits : List Char} (h : ∀ c ∈ digits, Text.isDigit 10 c)
    (hr : ∀ c ∈ rest.head?, Text.isDigit 10 c = false) :
    spanDigits (digits ++ rest) = (digits, rest) := by
  have hspan : rest.takeWhile (Text.isDigit 10) = [] ∧
      rest.dropWhile (Text.isDigit 10) = rest := by
    cases rest with
    | nil => exact ⟨rfl, rfl⟩
    | cons c rest =>
      have hc := hr c rfl
      exact ⟨List.takeWhile_cons_of_neg (by simp [hc]), List.dropWhile_cons_of_neg (by simp [hc])⟩
  rw [spanDigits, List.takeWhile_append_of_pos h, List.dropWhile_append_of_pos h, hspan.1, hspan.2,
    List.append_nil]

theorem Ends.digits (h : Ends rest) : ∀ c ∈ rest.head?, Text.isDigit 10 c = false :=
  fun c hc => (isDigit_of_continues (h c hc)).1

theorem spanSign_digits {digits : List Char} (h : Digits digits) (rest : List Char) :
    spanSign (digits ++ rest) = (false, digits ++ rest) := by
  obtain ⟨hne, hd⟩ := h
  obtain ⟨c, digits, rfl⟩ := List.exists_cons_of_ne_nil hne
  have hc := hd c List.mem_cons_self
  rw [List.cons_append]
  unfold spanSign
  split
  · next he => rw [(List.cons.inj he).1] at hc; exact absurd hc (by decide)
  · next he => rw [(List.cons.inj he).1] at hc; exact absurd hc (by decide)
  · rfl

theorem scanPower_spells {down : Bool} {digits : List Char} (sign : List Char)
    (h : Digits digits) (hr : Ends rest)
    (hs : spanSign (sign ++ (digits ++ rest)) = (down, digits ++ rest)) :
    scanPower w (sign ++ (digits ++ rest)) =
      .number { w with exponent := some (down, digits) } rest := by
  rw [scanPower, hs]
  dsimp only
  rw [spanDigits_append h.2 hr.digits, if_neg h.1]

theorem scanExponent_spells {exponent : Option (Bool × List Char)} (h : Exponent exponent t)
    (hr : Ends rest) (hw : w.exponent = none) :
    scanExponent w (t ++ rest) = .number { w with exponent := exponent } rest := by
  cases h with
  | none =>
    have he : { w with exponent := none } = w := by rw [← hw]
    rw [he, List.nil_append]
    cases rest with
    | nil => rfl
    | cons c rest =>
      obtain ⟨-, -, hl, hu⟩ := isDigit_of_continues (hr c rfl)
      rw [scanExponent, if_neg (not_or.mpr ⟨hl, hu⟩)]
  | @up letter sign digits hl hs h =>
    rw [List.append_assoc, List.cons_append, scanExponent, if_pos hl]
    refine scanPower_spells sign h hr ?_
    rcases hs with rfl | rfl
    · exact spanSign_digits h rest
    · rfl
  | @down letter digits hl h =>
    rw [List.cons_append, scanExponent, if_pos hl]
    exact scanPower_spells ['-'] h hr rfl

theorem Exponent.ends {exponent : Option (Bool × List Char)} (h : Exponent exponent t)
    (hr : Ends rest) :
    ∀ c ∈ (t ++ rest).head?, Text.isDigit 10 c = false ∧ c ≠ '.' := by
  intro c hc
  cases h with
  | none =>
    obtain ⟨hd, hp, -, -⟩ := isDigit_of_continues (hr c hc)
    exact ⟨hd, hp⟩
  | up hl hs h =>
    obtain rfl := Option.some.inj hc
    rcases hl with rfl | rfl <;> exact ⟨by decide, by decide⟩
  | down hl h =>
    obtain rfl := Option.some.inj hc
    rcases hl with rfl | rfl <;> exact ⟨by decide, by decide⟩

theorem scanFraction_spells {fraction : Option (List Char)} {exponent : Option (Bool × List Char)}
    {f e : List Char} (hf : Fraction fraction f) (he : Exponent exponent e) (hr : Ends rest)
    (hwf : w.fraction = none) (hwe : w.exponent = none) :
    scanFraction w (f ++ (e ++ rest)) =
      .number { w with fraction := fraction, exponent := exponent } rest := by
  have hends := he.ends hr
  cases hf with
  | none =>
    have hw : { w with fraction := none, exponent := exponent } =
        { w with exponent := exponent } := by rw [← hwf]
    rw [hw, List.nil_append, ← scanExponent_spells he hr hwe]
    cases h : e ++ rest with
    | nil => rfl
    | cons c s =>
      rw [h] at hends
      rw [scanFraction, if_neg (hends c rfl).2]
  | some h =>
    rw [List.cons_append, scanFraction, if_pos rfl, scanPlaces,
      spanDigits_append h.2 fun c hc => (hends c hc).1]
    dsimp only
    rw [if_neg h.1]
    exact scanExponent_spells he hr hwe

theorem scanWhole_spells (negative : Bool) {whole f e : List Char}
    {fraction : Option (List Char)} {exponent : Option (Bool × List Char)} (hw : Digits whole)
    (hz : whole.head? = some '0' → whole.length = 1) (hf : Fraction fraction f)
    (he : Exponent exponent e) (hr : Ends rest) :
    scanWhole negative (whole ++ (f ++ (e ++ rest))) =
      .number ⟨negative, whole, fraction, exponent⟩ rest := by
  have hends : ∀ c ∈ (f ++ (e ++ rest)).head?, Text.isDigit 10 c = false := by
    intro c hc
    cases hf with
    | none => exact (he.ends hr c hc).1
    | some h =>
      obtain rfl := Option.some.inj hc
      decide
  rw [scanWhole, spanDigits_append hw.2 hends]
  dsimp only
  rw [if_neg hw.1, if_neg fun h => absurd (hz h.1) (Nat.ne_of_gt h.2)]
  exact scanFraction_spells hf he hr rfl rfl

/-- A number is read as far as it goes. -/
theorem scan_spells (h : Spells w t) (hr : Ends rest) : scan (t ++ rest) = .number w rest := by
  cases h with
  | @mk negative whole fraction exponent f e hw hz hf he =>
    have hs := scanWhole_spells negative hw hz hf he hr
    obtain ⟨c, digits, rfl⟩ := List.exists_cons_of_ne_nil hw.1
    cases negative with
    | true =>
      simpa only [if_true, List.append_assoc, List.cons_append, List.nil_append, scan] using hs
    | false =>
      have hc : c ≠ '-' := by
        rintro rfl
        exact absurd (hw.2 _ List.mem_cons_self) (by decide)
      simp only [Bool.false_eq_true, if_false, List.append_assoc, List.cons_append,
        List.nil_append] at hs ⊢
      rw [scan, if_neg hc]
      exact hs

/-- The first character tells a number from anything else. -/
theorem Spells.head (h : Spells w t) :
    ∃ c s, t = c :: s ∧ (c = '-' ∨ Text.isDigit 10 c) := by
  cases h with
  | @mk negative whole fraction exponent f e hw hz hf he =>
    obtain ⟨c, digits, rfl⟩ := List.exists_cons_of_ne_nil hw.1
    cases negative with
    | true => exact ⟨_, _, rfl, .inl rfl⟩
    | false => exact ⟨_, _, rfl, .inr (hw.2 c List.mem_cons_self)⟩

end Number

namespace Lexeme

/-- How a lexeme may be spelled in front of a text. A number must not run into what follows. -/
inductive Spells (rest : List Char) : Lexeme → List Char → Prop
  | mark {c : Char} {l : Lexeme} (h : (c, l) ∈ marks) : Spells rest l [c]
  | name {c : Char} {v : Json} {name : List Char} (h : (c, v, name) ∈ words) :
      Spells rest (.word v) (c :: name)
  | text {s t : List Char} (h : Quoted.Spells s t) :
      Spells rest (.text (String.ofList s) false) ('"' :: t ++ ['"'])
  | number {w : Number.Written} {t : List Char} {v : Json} (h : Number.Spells w t)
      (hv : Number.value? w = some v) (hr : Number.Ends rest) : Spells rest (.word v) t

/-- A text with its lexemes, and with white space around any of them. -/
inductive Spelled : List Char → List Lexeme → Prop
  | nil {space : List Char} (hs : ∀ c ∈ space, isSpace c) : Spelled space []
  | cons {space t rest : List Char} {l : Lexeme} {ls : List Lexeme} (hs : ∀ c ∈ space, isSpace c)
      (ht : Spells rest l t) (hr : Spelled rest ls) : Spelled (space ++ (t ++ rest)) (l :: ls)

variable {l : Lexeme} {t rest : List Char}

theorem Spelled.spaced {space s : List Char} {ls : List Lexeme} (h : Spelled s ls)
    (hs : ∀ c ∈ space, isSpace c) : Spelled (space ++ s) ls := by
  cases h with
  | nil hn => exact .nil fun c hc => (List.mem_append.mp hc).elim (hs c) (hn c)
  | cons hn ht hr =>
    rw [← List.append_assoc]
    exact .cons (fun c hc => (List.mem_append.mp hc).elim (hs c) (hn c)) ht hr

theorem afterName_append (v : Json) (name rest : List Char) :
    afterName v name (name ++ rest) = (.word v, rest) := by
  induction name with
  | nil => cases rest <;> rfl
  | cons n name ih => rw [List.cons_append, afterName, if_pos rfl, ih]

section Starting

variable {c : Char} (h : c = '-' ∨ Text.isDigit 10 c)
include h

theorem ne_of_number {d : Char} (hd : d ≠ '-') (hn : Text.isDigit 10 d = false) : c ≠ d := by
  rintro rfl
  rcases h with h | h
  · exact hd h
  · rw [hn] at h
    exact absurd h (by decide)

theorem isSpace_of_number : isSpace c = false := by
  simp only [isSpace, Bool.or_eq_false_iff, decide_eq_false_iff_not]
  refine ⟨⟨⟨?_, ?_⟩, ?_⟩, ?_⟩ <;> exact ne_of_number h (by decide) (by decide)

/-- A minus sign or a digit is the start of a number. -/
theorem starting_number (s : List Char) : starting c s = ofNumber (Number.scan (c :: s)) := by
  have hmarks : marks.lookup c = none := by
    rw [List.lookup_eq_none_iff]
    intro p hp
    simp only [marks, List.mem_cons, List.not_mem_nil, or_false] at hp
    rcases hp with rfl | rfl | rfl | rfl | rfl | rfl <;>
      exact bne_iff_ne.mpr (ne_of_number h (by decide) (by decide))
  have hwords : words.lookup c = none := by
    rw [List.lookup_eq_none_iff]
    intro p hp
    simp only [words, List.mem_cons, List.not_mem_nil, or_false] at hp
    rcases hp with rfl | rfl | rfl <;>
      exact bne_iff_ne.mpr (ne_of_number h (by decide) (by decide))
  rw [starting, hmarks, hwords]
  dsimp only
  rw [if_neg (ne_of_number h (by decide) (by decide)), if_pos h]

end Starting

theorem starting_spells (h : Spells rest l t) :
    ∃ c s, t = c :: s ∧ isSpace c = false ∧ starting c (s ++ rest) = (l, rest) := by
  cases h with
  | @mark c _ h =>
    simp only [marks, List.mem_cons, Prod.mk.injEq, List.not_mem_nil, or_false] at h
    rcases h with h | h | h | h | h | h <;>
      (obtain ⟨rfl, rfl⟩ := h; exact ⟨_, _, rfl, rfl, rfl⟩)
  | @name c v name h =>
    simp only [words, List.mem_cons, Prod.mk.injEq, List.not_mem_nil, or_false] at h
    rcases h with h | h | h <;>
      (obtain ⟨rfl, rfl, rfl⟩ := h; exact ⟨_, _, rfl, rfl, afterName_append _ _ rest⟩)
  | @text s t h =>
    refine ⟨'"', t ++ ['"'], rfl, rfl, ?_⟩
    have hs : starting '"' (t ++ ['"'] ++ rest) =
        ofText (Quoted.scan .plain (t ++ '"' :: rest)) := by
      rw [List.append_assoc]
      rfl
    rw [hs, Quoted.scan_spells h]
    rfl
  | @number w t v h hv hr =>
    obtain ⟨c, s, rfl, hc⟩ := h.head
    refine ⟨c, s, rfl, isSpace_of_number hc, ?_⟩
    rw [starting_number hc, ← List.cons_append, Number.scan_spells h hr, ofNumber, hv]

theorem isBroken_spells (h : Spells rest l t) : l.isBroken = false := by
  cases h with
  | mark h =>
    simp only [marks, List.mem_cons, Prod.mk.injEq, List.not_mem_nil, or_false] at h
    rcases h with h | h | h | h | h | h <;> (obtain ⟨rfl, rfl⟩ := h; rfl)
  | _ => rfl

theorem ofChars_of_none {s : List Char} (h : next? s = none) : ofChars s = [] := by
  rw [ofChars]
  split
  · rfl
  · next hn =>
    rw [h] at hn
    exact absurd hn (by simp)

theorem ofChars_of_some {s : List Char} (h : next? s = some (l, rest)) :
    ofChars s = l :: if l.isBroken then [] else ofChars rest := by
  rw [ofChars]
  split
  · next hn =>
    rw [h] at hn
    exact absurd hn (by simp)
  · next hn =>
    rw [h] at hn
    obtain ⟨rfl, rfl⟩ := Prod.mk.inj (Option.some.inj hn)
    rfl

/-- The reader finds the lexemes that are spelled. -/
theorem ofChars_spelled {s : List Char} {ls : List Lexeme} (h : Spelled s ls) :
    ofChars s = ls := by
  induction h with
  | @nil space hs =>
    apply ofChars_of_none
    rw [next?, List.dropWhile_eq_nil_iff.mpr hs]
  | @cons space t rest l ls hs ht hr ih =>
    obtain ⟨c, t, rfl, hc, hl⟩ := starting_spells ht
    have hn : next? (space ++ (c :: t ++ rest)) = some (l, rest) := by
      rw [next?, List.dropWhile_append_of_pos hs, List.cons_append,
        List.dropWhile_cons_of_neg (by simp [hc])]
      exact congrArg some hl
    rw [ofChars_of_some hn, isBroken_spells ht, ih]
    rfl

end Lexeme

end GitInvocation.Json
