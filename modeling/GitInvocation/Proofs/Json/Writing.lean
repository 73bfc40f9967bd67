import GitInvocation.Json.Writer
import GitInvocation.Proofs.Json.Reading
import GitInvocation.Proofs.Text.Number

/-!
# What is written spells the value

The compact form of a value has the lexemes of the value, so a reader gets the value back. This is
shown for values without floats and negative numbers, which is all that is ever written.
-/
namespace GitInvocation.Json

/-- Values whose numbers are whole, not negative and no greater than 64 bits. -/
inductive Writable : Json → Prop
  | null : Writable .null
  | bool (b : Bool) : Writable (.bool b)
  | natural {n : Nat} (h : n ≤ Text.greatestUInt64) : Writable (.integer n)
  | string (s : String) : Writable (.string s)
  | array {items : List Json} (h : ∀ v ∈ items, Writable v) : Writable (.array items)
  | object {members : List (String × Json)} (h : ∀ m ∈ members, Writable m.2) :
      Writable (.object members)

namespace Quoted

instance (digits : List Char) (unit : Nat) : Decidable (HexUnit digits unit) :=
  inferInstanceAs (Decidable (_ ∧ _))

theorem hexUnit_short (n : Fin 16) : HexUnit ('0' :: '0' :: '0' :: Nat.toDigits 16 n) n := by
  revert n
  decide

theorem hexUnit_long (n : Fin 16) : HexUnit ('0' :: '0' :: Nat.toDigits 16 (16 + n)) (16 + n) := by
  revert n
  decide

theorem piece_control {c : Char} {digits : List Char} (h : HexUnit digits c.toNat)
    (hc : c.toNat < 0x20) : Piece c ('\\' :: 'u' :: digits) := by
  have hh : isHigh c.toNat = false := by
    simp only [isHigh, Bool.and_eq_false_iff, decide_eq_false_iff_not]
    omega
  have hl : isLow c.toNat = false := by
    simp only [isLow, Bool.and_eq_false_iff, decide_eq_false_iff_not]
    omega
  have := Piece.unit h hh hl
  rwa [Char.ofNat_toNat] at this

theorem piece_writtenChar (c : Char) : Piece c (writtenChar c).toList := by
  unfold writtenChar
  split
  · next h => rw [h]; exact .short (by decide)
  split
  · next h => rw [h]; exact .short (by decide)
  split
  · next h => rw [h]; exact .short (by decide)
  split
  · next h => rw [h]; exact .short (by decide)
  split
  · next h => rw [h]; exact .short (by decide)
  split
  · next h => rw [h]; exact .short (by decide)
  split
  · next h => rw [h]; exact .short (by decide)
  split
  · next h =>
    have hl : ("\\u000" ++ Text.hex c.toNat).toList =
        '\\' :: 'u' :: '0' :: '0' :: '0' :: Nat.toDigits 16 c.toNat := by
      rw [String.toList_append, Text.hex, String.toList_ofList, String.toList_ofList]
      rfl
    rw [hl]
    exact piece_control (hexUnit_short ⟨c.toNat, h⟩) (by omega)
  split
  · next hlow h =>
    have hl : ("\\u00" ++ Text.hex c.toNat).toList =
        '\\' :: 'u' :: '0' :: '0' :: Nat.toDigits 16 c.toNat := by
      rw [String.toList_append, Text.hex, String.toList_ofList, String.toList_ofList]
      rfl
    have hn : c.toNat = 16 + (c.toNat - 16) := by omega
    have hu := hexUnit_long ⟨c.toNat - 16, by omega⟩
    dsimp only at hu
    rw [← hn] at hu
    rw [hl]
    exact piece_control hu h
  · next hq hb _ _ _ _ _ _ h =>
    rw [Char.toString_eq_singleton, String.toList_singleton]
    exact .plain hq hb (Nat.not_lt.mp h)

theorem spells_written (s : List Char) :
    Spells s ((s.map fun c => (writtenChar c).toList).flatten) := by
  induction s with
  | nil => exact .nil
  | cons c s ih =>
    rw [List.map_cons, List.flatten_cons]
    exact .cons (piece_writtenChar c) ih

end Quoted

namespace Number

theorem digits_toDigits (n : Nat) : Digits (Nat.toDigits 10 n) := by
  refine ⟨Nat.toDigits_ne_nil, fun c hc => ?_⟩
  have hd := Nat.isDigit_of_mem_toDigits (by decide) (by decide) hc
  have hr : '0' ≤ c ∧ c ≤ '9' := by
    rw [Char.isDigit, Bool.and_eq_true, decide_eq_true_eq, decide_eq_true_eq] at hd
    exact hd
  have hn : c.toNat - 0x30 < 10 := by
    have : c.toNat ≤ 0x39 := hr.2
    omega
  rw [Text.isDigit, Text.digit?, if_pos hr]
  simp [hn]

/-- Only zero is written with a zero in front. -/
theorem head?_toDigits {n : Nat} (h : (Nat.toDigits 10 n).head? = some '0') :
    (Nat.toDigits 10 n).length = 1 := by
  have hbare := Text.bare_toDigits n
  generalize Nat.toDigits 10 n = digits at h hbare
  cases hbare with
  | zero => rfl
  | leading hd => exact absurd (Option.some.inj h) hd

theorem le_ofDigitChars (digits : List Char) (n : Nat) : n ≤ Nat.ofDigitChars 10 digits n := by
  induction digits generalizing n with
  | nil => rw [Nat.ofDigitChars_nil]
  | cons c digits ih =>
    rw [Nat.ofDigitChars_cons]
    exact Nat.le_trans (by omega) (ih _)

/-- Digits are taken one and all when their value fits. -/
theorem take64_of_le (digits : List Char) {n : Nat}
    (h : Nat.ofDigitChars 10 digits n ≤ Text.greatestUInt64) :
    take64 n digits = (Nat.ofDigitChars 10 digits n, []) := by
  induction digits generalizing n with
  | nil => rw [take64, Nat.ofDigitChars_nil]
  | cons c digits ih =>
    have hnext : n * 10 + digitValue c = 10 * n + (c.toNat - '0'.toNat) := by
      rw [Nat.mul_comm, digitValue]
      rfl
    rw [Nat.ofDigitChars_cons] at h ⊢
    rw [take64, hnext, if_neg (Nat.not_lt.mpr ((le_ofDigitChars digits _).trans h)), ih h]

theorem spells_toDigits (n : Nat) :
    Spells ⟨false, Nat.toDigits 10 n, none, none⟩ (Nat.toDigits 10 n) := by
  have hs : Spells ⟨false, Nat.toDigits 10 n, none, none⟩ ([] ++ Nat.toDigits 10 n ++ [] ++ []) :=
    .mk (digits_toDigits n) head?_toDigits .none .none
  rwa [List.append_nil, List.append_nil, List.nil_append] at hs

theorem value?_toDigits {n : Nat} (h : n ≤ Text.greatestUInt64) :
    value? ⟨false, Nat.toDigits 10 n, none, none⟩ = some (.integer n) := by
  have ht : take64 0 (Nat.toDigits 10 n) = (n, []) := by
    have := take64_of_le (Nat.toDigits 10 n) (n := 0)
    rw [Nat.ofDigitChars_ten_toDigits] at this
    exact this h
  rw [value?]
  dsimp only
  rw [ht]
  rfl

end Number

section Values

open Lexeme

variable {v : Json} {rest : List Char} {l : Lexeme} {ls : List Lexeme}

theorem spelled_token {t : List Char} (ht : Spells rest l t) (h : Spelled rest ls) :
    Spelled (t ++ rest) (l :: ls) := by
  have hs : ∀ c ∈ ([] : List Char), isSpace c := fun _ hc => absurd hc List.not_mem_nil
  exact .cons hs ht h

theorem spelled_mark {c : Char} (hm : (c, l) ∈ marks) (h : Spelled rest ls) :
    Spelled (c :: rest) (l :: ls) := spelled_token (.mark hm) h

theorem spelled_text {s : String} (h : Spelled rest ls) :
    Spelled ((writtenString s).toList ++ rest) (.text s false :: ls) := by
  have hl : (writtenString s).toList =
      '"' :: (s.toList.map fun c => (writtenChar c).toList).flatten ++ ['"'] := by
    rw [writtenString, String.toList_append, String.toList_append, String.toList_join]
    simp [List.flatMap_def, Function.comp_def]
  have := spelled_token (.text (Quoted.spells_written s.toList)) h
  rwa [String.ofList_toList, ← hl] at this

/-- The texts of the further items of an array, each behind a comma. -/
def moreItemChars : List Json → List Char
  | [] => []
  | v :: items => ',' :: v.text.toList ++ moreItemChars items

def moreMemberChars : List (String × Json) → List Char
  | [] => []
  | (name, v) :: members =>
    ',' :: (writtenString name).toList ++ ':' :: v.text.toList ++ moreMemberChars members

theorem toList_itemTexts (v : Json) (items : List Json) :
    (",".intercalate (itemTexts (v :: items))).toList = v.text.toList ++ moreItemChars items := by
  induction items generalizing v with
  | nil => simp [itemTexts, moreItemChars]
  | cons w items ih =>
    have hc := ih w
    rw [itemTexts] at hc
    rw [itemTexts, itemTexts, String.intercalate_cons_cons, String.toList_append,
      String.toList_append, hc]
    simp [moreItemChars]

theorem toList_memberTexts (name : String) (v : Json) (members : List (String × Json)) :
    (",".intercalate (memberTexts ((name, v) :: members))).toList =
      (writtenString name).toList ++ ':' :: v.text.toList ++ moreMemberChars members := by
  induction members generalizing name v with
  | nil => simp [memberTexts, moreMemberChars]
  | cons m members ih =>
    obtain ⟨next, w⟩ := m
    have hc := ih next w
    rw [memberTexts] at hc
    rw [memberTexts, memberTexts, String.intercalate_cons_cons, String.toList_append,
      String.toList_append, hc]
    simp [moreMemberChars]

/-- The text can be followed by any text that does not go on with a number. -/
def Spellable (v : Json) : Prop :=
  ∀ {rest ls}, Spelled rest ls → Number.Ends rest →
    Spelled (v.text.toList ++ rest) (v.lexemes ++ ls)

theorem ends_cons {c : Char} (h : Number.continues c = false) (s : List Char) :
    Number.Ends (c :: s) := by
  intro d hd
  rwa [← Option.some.inj hd]

theorem ends_moreItemChars (items : List Json) (s : List Char) :
    Number.Ends (moreItemChars items ++ ']' :: s) := by
  cases items with
  | nil => exact ends_cons (by decide) _
  | cons v items => exact ends_cons (by decide) _

theorem ends_moreMemberChars (members : List (String × Json)) (s : List Char) :
    Number.Ends (moreMemberChars members ++ '\x7d' :: s) := by
  cases members with
  | nil => exact ends_cons (by decide) _
  | cons m members => exact ends_cons (by decide) _

theorem spelled_moreItems {items : List Json} (hi : ∀ v ∈ items, Spellable v)
    (h : Spelled rest ls) :
    Spelled (moreItemChars items ++ ']' :: rest) (moreItems items ++ ls) := by
  induction items with
  | nil => exact spelled_mark (by simp [marks]) h
  | cons v items ih =>
    have hrest := ih fun w hw => hi w (List.mem_cons_of_mem v hw)
    have hv := hi v List.mem_cons_self hrest (ends_moreItemChars items rest)
    have := spelled_mark (c := ',') (l := .comma) (by simp [marks]) hv
    simpa only [moreItemChars, moreItems, List.cons_append, List.append_assoc] using this

theorem spelled_moreMembers {members : List (String × Json)} (hm : ∀ m ∈ members, Spellable m.2)
    (h : Spelled rest ls) :
    Spelled (moreMemberChars members ++ '\x7d' :: rest) (moreMembers members ++ ls) := by
  induction members with
  | nil => exact spelled_mark (by simp [marks]) h
  | cons m members ih =>
    obtain ⟨name, v⟩ := m
    have hrest := ih fun n hn => hm n (List.mem_cons_of_mem _ hn)
    have hv := hm (name, v) List.mem_cons_self hrest (ends_moreMemberChars members rest)
    have hcolon := spelled_mark (c := ':') (l := .colon) (by simp [marks]) hv
    have := spelled_mark (c := ',') (l := .comma) (by simp [marks])
      (spelled_text (s := name) hcolon)
    simpa only [moreMemberChars, moreMembers, List.cons_append, List.append_assoc] using this

theorem spellable_array {items : List Json} (hi : ∀ v ∈ items, Spellable v) :
    Spellable (.array items) := by
  intro rest ls h _
  have htext : (text (.array items)).toList ++ rest =
      '[' :: ((",".intercalate (itemTexts items)).toList ++ ']' :: rest) := by
    rw [text, String.toList_append, String.toList_append]
    simp
  rw [htext]
  refine spelled_mark (l := .openArray) (by simp [marks]) ?_
  cases items with
  | nil => exact spelled_mark (by simp [marks]) h
  | cons v items =>
    have hrest := spelled_moreItems (fun w hw => hi w (List.mem_cons_of_mem v hw)) h
    have hv := hi v List.mem_cons_self hrest (ends_moreItemChars items rest)
    rw [toList_itemTexts]
    show Spelled _ (itemLexemes (v :: items) ++ ls)
    simpa only [itemLexemes, List.append_assoc] using hv

theorem spellable_object {members : List (String × Json)} (hm : ∀ m ∈ members, Spellable m.2) :
    Spellable (.object members) := by
  intro rest ls h _
  have htext : (text (.object members)).toList ++ rest =
      '\x7b' :: ((",".intercalate (memberTexts members)).toList ++ '\x7d' :: rest) := by
    rw [text, String.toList_append, String.toList_append]
    simp
  rw [htext]
  refine spelled_mark (l := .openObject) (by simp [marks]) ?_
  cases members with
  | nil => exact spelled_mark (by simp [marks]) h
  | cons m members =>
    obtain ⟨name, v⟩ := m
    have hrest := spelled_moreMembers (fun n hn => hm n (List.mem_cons_of_mem _ hn)) h
    have hv := hm (name, v) List.mem_cons_self hrest (ends_moreMemberChars members rest)
    have hcolon := spelled_mark (c := ':') (l := .colon) (by simp [marks]) hv
    have := spelled_text (s := name) hcolon
    rw [toList_memberTexts]
    show Spelled _ (memberLexemes ((name, v) :: members) ++ ls)
    simpa only [memberLexemes, List.cons_append, List.append_assoc] using this

theorem spellable (h : Writable v) : Spellable v := by
  induction h with
  | null =>
    intro rest ls h hr
    exact spelled_token (t := ['n', 'u', 'l', 'l']) (.name (by simp [words])) h
  | bool b =>
    intro rest ls h hr
    cases b with
    | true => exact spelled_token (t := ['t', 'r', 'u', 'e']) (.name (by simp [words])) h
    | false =>
      exact spelled_token (t := ['f', 'a', 'l', 's', 'e']) (.name (by simp [words])) h
  | @natural n hn =>
    intro rest ls h hr
    have htext : (text (.integer n)).toList = Nat.toDigits 10 n := by
      show (toString (n : Int)).toList = _
      rw [show toString (n : Int) = n.repr from rfl, Nat.toList_repr]
    rw [htext]
    exact spelled_token (.number (Number.spells_toDigits n) (Number.value?_toDigits hn) hr) h
  | string s => exact fun h _ => spelled_text h
  | array _ ih => exact spellable_array ih
  | object _ ih => exact spellable_object ih

/-- The compact form of a value spells it. -/
theorem Writable.spelled (h : Writable v) : Spelled v.text.toList v.lexemes := by
  have hend : Spelled [] [] := .nil fun _ hc => absurd hc List.not_mem_nil
  have := spellable h hend fun _ hc => absurd hc (by simp)
  rwa [List.append_nil, List.append_nil] at this

end Values

end GitInvocation.Json
