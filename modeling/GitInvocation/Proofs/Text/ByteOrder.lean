import Mathlib.Data.String.Basic
import Mathlib.Data.List.Lex

/-!
# The order of bytes

Texts are ordered by code points, and their UTF-8 encodings by bytes. The two orders agree: a
greater code point has a greater first byte, or the same one and the greater bytes behind it, and
no encoding begins another.
-/
namespace GitInvocation.Text

/-- The UTF-8 encoding of a text. -/
def bytes (s : String) : List UInt8 := s.toByteArray.data.toList

theorem bytes_eq_flatMap (s : String) : bytes s = s.toList.flatMap String.utf8EncodeChar := by
  rw [bytes, ← String.ofList_toList (s := s), String.toByteArray_ofList, String.toList_ofList]
  simp [List.utf8Encode]

/-- A text whose characters have one byte each is as long as its encoding. -/
theorem length_bytes_of_ascii {s : String} (h : ∀ c ∈ s.toList, c.toNat < 0x80) :
    (bytes s).length = s.length := by
  have hone : s.toList.map (fun c => (String.utf8EncodeChar c).length) =
      s.toList.map fun _ => 1 := by
    refine List.map_congr_left fun c hc => ?_
    rw [String.length_utf8EncodeChar, Char.utf8Size_eq_one_iff]
    exact Nat.le_of_lt_succ (h c hc)
  rw [bytes_eq_flatMap, List.length_flatMap, hone, List.map_const', List.sum_replicate_nat,
    Nat.mul_one, String.length_toList]

/-- The lowest `n` digits of a code point to the base 64, each in a byte of its own. -/
def trail : Nat → Nat → List UInt8
  | 0, _ => []
  | n + 1, v => UInt8.ofNat (v / 64 ^ n % 64 + 0x80) :: trail n v

/-- How many bytes come after the first. -/
def trailLength (v : Nat) : Nat :=
  if v ≤ 0x7f then 0 else if v ≤ 0x7ff then 1 else if v ≤ 0xffff then 2 else 3

/-- What the first byte says about the length. -/
def leadMark (n : Nat) : Nat :=
  match n with
  | 0 => 0
  | 1 => 0xc0
  | 2 => 0xe0
  | _ => 0xf0

def leadByte (v : Nat) : Nat := v / 64 ^ trailLength v + leadMark (trailLength v)

theorem utf8EncodeChar_eq (c : Char) :
    String.utf8EncodeChar c =
      UInt8.ofNat (leadByte c.val.toNat) :: trail (trailLength c.val.toNat) c.val.toNat := by
  have hc : c.val.toNat < 0x110000 := by
    rcases c.valid with hv | hv <;> omega
  unfold String.utf8EncodeChar leadByte trailLength
  generalize c.val.toNat = v at *
  dsimp only
  by_cases h1 : v ≤ 0x7f
  · rw [if_pos h1, if_pos h1]
    simp [trail, leadMark]
  by_cases h2 : v ≤ 0x7ff
  · rw [if_neg h1, if_neg h1, if_pos h2, if_pos h2, Nat.mod_eq_of_lt (show v / 64 < 0x20 by omega)]
    simp [trail, leadMark]
  by_cases h3 : v ≤ 0xffff
  · rw [if_neg h1, if_neg h1, if_neg h2, if_neg h2, if_pos h3, if_pos h3,
      Nat.mod_eq_of_lt (show v / 4096 < 0x10 by omega)]
    simp [trail, leadMark]
  · rw [if_neg h1, if_neg h1, if_neg h2, if_neg h2, if_neg h3, if_neg h3,
      Nat.mod_eq_of_lt (show v / 262144 < 0x08 by omega)]
    simp [trail, leadMark]

theorem cons_ofNat_lt {a b : Nat} (ha : a < 256) (hb : b < 256) {x y : List UInt8}
    (h : a < b ∨ a = b ∧ x < y) : UInt8.ofNat a :: x < UInt8.ofNat b :: y := by
  rw [List.cons_lt_cons_iff, UInt8.lt_iff_toNat_lt, UInt8.toNat_ofNat', UInt8.toNat_ofNat',
    Nat.mod_eq_of_lt ha, Nat.mod_eq_of_lt hb]
  rcases h with h | ⟨rfl, h⟩
  · exact .inl h
  · exact .inr ⟨rfl, h⟩

theorem trail_lt {n v w : Nat} (h : v % 64 ^ n < w % 64 ^ n) (x y : List UInt8) :
    trail n v ++ x < trail n w ++ y := by
  induction n with
  | zero => simp [Nat.mod_one] at h
  | succ n ih =>
    have hpos : 0 < 64 ^ n := Nat.pow_pos (by decide)
    have hv := Nat.mod_lt v hpos
    have hw := Nat.mod_lt w hpos
    rw [Nat.pow_succ, Nat.mod_mul, Nat.mod_mul] at h
    refine cons_ofNat_lt (by omega) (by omega) ?_
    rcases Nat.lt_trichotomy (v / 64 ^ n % 64) (w / 64 ^ n % 64) with hd | hd | hd
    · exact .inl (by omega)
    · rw [hd] at h ⊢
      exact .inr ⟨rfl, ih (by omega)⟩
    · -- a greater digit outweighs all digits behind it
      have hle : 64 ^ n * (w / 64 ^ n % 64 + 1) ≤ 64 ^ n * (v / 64 ^ n % 64) :=
        Nat.mul_le_mul_left _ hd
      rw [Nat.mul_add, Nat.mul_one] at hle
      omega

/-- Of two code points the greater has the greater first byte, or just as many bytes and the
greater digits in them. -/
theorem lead_lt {v w : Nat} (h : v < w) :
    leadByte v < leadByte w ∨ leadByte v = leadByte w ∧ trailLength v = trailLength w ∧
      v % 64 ^ trailLength v < w % 64 ^ trailLength v := by
  have hdigits : ∀ p, v / p < w / p ∨ v / p = w / p ∧ v % p < w % p := by
    intro p
    rcases Nat.lt_or_eq_of_le (Nat.div_le_div_right (c := p) h.le) with hd | hd
    · exact .inl hd
    · have hv := Nat.div_add_mod v p
      have hw := Nat.div_add_mod w p
      rw [hd] at hv
      exact .inr ⟨hd, by omega⟩
  by_cases hn : trailLength v = trailLength w
  · unfold leadByte
    rw [← hn]
    rcases hdigits (64 ^ trailLength v) with hd | ⟨hd, hm⟩
    · exact .inl (Nat.add_lt_add_right hd _)
    · exact .inr ⟨by rw [hd], rfl, hm⟩
  · refine .inl ?_
    unfold trailLength at hn
    unfold leadByte trailLength
    split_ifs at hn ⊢ <;> first | exact absurd rfl hn | (simp only [leadMark]; omega)

theorem encode_lt {c d : Char} (h : c < d) (x y : List UInt8) :
    String.utf8EncodeChar c ++ x < String.utf8EncodeChar d ++ y := by
  have hbound : ∀ e : Char, leadByte e.val.toNat < 256 := by
    intro e
    have he : e.val.toNat < 0x110000 := by
      rcases e.valid with hv | hv <;> omega
    unfold leadByte trailLength
    (repeat' split) <;> simp only [leadMark] <;> omega
  rw [utf8EncodeChar_eq, utf8EncodeChar_eq]
  refine cons_ofNat_lt (hbound c) (hbound d) ?_
  rcases lead_lt (show c.val.toNat < d.val.toNat from h) with hl | ⟨hl, hn, ht⟩
  · exact .inl hl
  · rw [← hn]
    exact .inr ⟨hl, trail_lt ht x y⟩

theorem flatMap_encode_lt {l m : List Char} (h : l < m) :
    l.flatMap String.utf8EncodeChar < m.flatMap String.utf8EncodeChar := by
  induction h with
  | nil =>
    rw [List.flatMap_nil, List.flatMap_cons, utf8EncodeChar_eq]
    exact List.nil_lt_cons _ _
  | rel h => exact encode_lt h _ _
  | cons h ih =>
    rw [List.flatMap_cons, List.flatMap_cons]
    exact List.append_left_lt ih

theorem bytes_lt_bytes {s t : String} (h : s < t) : bytes s < bytes t := by
  rw [bytes_eq_flatMap, bytes_eq_flatMap]
  exact flatMap_encode_lt (String.lt_iff_toList_lt.mp h)

/-- The order of texts is the order of their bytes. -/
theorem lt_iff_bytes_lt {s t : String} : s < t ↔ bytes s < bytes t := by
  refine ⟨bytes_lt_bytes, fun h => ?_⟩
  rcases lt_trichotomy s t with hlt | rfl | hgt
  · exact hlt
  · exact absurd h (List.lt_irrefl _)
  · exact absurd h (List.lt_asymm (bytes_lt_bytes hgt))

theorem le_iff_bytes_le {s t : String} : s ≤ t ↔ bytes s ≤ bytes t := by
  rw [← not_lt, lt_iff_bytes_lt, List.not_lt]

end GitInvocation.Text
