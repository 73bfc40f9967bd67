import GitInvocation.Files.Tree
import GitInvocation.Proofs.Text.ByteOrder

/-!
# Reading bytes as text

Bytes that are the encoding of a text are read as that text, so something is replaced only in bytes
that are no encoding. A settings file may thus be kept as a text or as the bytes of it.
-/
namespace GitInvocation

namespace Text

theorem decodeFrom_cons (begun : Option Begun) (b : UInt8) (rest : List UInt8) :
    decodeFrom begun (b :: rest) =
      (decodeByte begun b.toNat).1 ++ decodeFrom (decodeByte begun b.toNat).2 rest := by
  cases begun <;> rfl

/-- What a byte within the range adds to what has begun. -/
theorem decodeByte_continued {n v low high : Nat} (hlow : low ≤ v / 64 ^ n % 64 + 0x80)
    (hhigh : v / 64 ^ n % 64 + 0x80 ≤ high) :
    decodeByte (some ⟨v / 64 ^ (n + 1), n + 1, low, high⟩) (v / 64 ^ n % 64 + 0x80) =
      if n = 0 then ([Char.ofNat v], none) else ([], some ⟨v / 64 ^ n, n, 0x80, 0xBF⟩) := by
  have hvalue : v / 64 ^ (n + 1) * 0x40 + (v / 64 ^ n % 64 + 0x80 - 0x80) = v / 64 ^ n := by
    rw [Nat.pow_succ, ← Nat.div_div_eq_div_mul]
    omega
  rw [decodeByte, if_pos ⟨hlow, hhigh⟩]
  dsimp only
  rw [hvalue, Nat.add_sub_cancel]
  cases n with
  | zero => simp
  | succ n => simp

/-- The bytes behind the first one complete a character. -/
theorem decodeFrom_trail {n v low high : Nat} (rest : List UInt8)
    (hlow : low ≤ v / 64 ^ n % 64 + 0x80) (hhigh : v / 64 ^ n % 64 + 0x80 ≤ high) :
    decodeFrom (some ⟨v / 64 ^ (n + 1), n + 1, low, high⟩) (trail (n + 1) v ++ rest) =
      Char.ofNat v :: decodeFrom none rest := by
  induction n generalizing low high with
  | zero =>
    have hbyte : (UInt8.ofNat (v / 64 ^ 0 % 64 + 0x80)).toNat = v / 64 ^ 0 % 64 + 0x80 := by
      rw [UInt8.toNat_ofNat']
      omega
    rw [trail, List.cons_append, decodeFrom_cons, hbyte, decodeByte_continued hlow hhigh]
    rfl
  | succ n ih =>
    have hbyte : (UInt8.ofNat (v / 64 ^ (n + 1) % 64 + 0x80)).toNat =
        v / 64 ^ (n + 1) % 64 + 0x80 := by
      rw [UInt8.toNat_ofNat']
      omega
    rw [trail, List.cons_append, decodeFrom_cons, hbyte, decodeByte_continued hlow hhigh,
      if_neg (Nat.succ_ne_zero n)]
    exact ih (by omega) (by omega)

/-- The numbers whose encoding has as many bytes, and its first byte. -/
theorem leadByte_cases (v : Nat) :
    (trailLength v = 0 ∧ v < 0x80 ∧ leadByte v = v) ∨
      (trailLength v = 1 ∧ 0x80 ≤ v ∧ v < 0x800 ∧ leadByte v = v / 64 + 0xC0) ∨
      (trailLength v = 2 ∧ 0x800 ≤ v ∧ v < 0x10000 ∧ leadByte v = v / 4096 + 0xE0) ∨
      (trailLength v = 3 ∧ 0x10000 ≤ v ∧ leadByte v = v / 262144 + 0xF0) := by
  have hlead : ∀ n, trailLength v = n → leadByte v = v / 64 ^ n + leadMark n := by
    rintro n rfl
    rfl
  rcases Nat.lt_or_ge v 0x80 with h | h
  · have hlength : trailLength v = 0 := if_pos (by omega)
    exact .inl ⟨hlength, h, by simpa [leadMark] using hlead 0 hlength⟩
  rcases Nat.lt_or_ge v 0x800 with h' | h'
  · have hlength : trailLength v = 1 := by
      rw [trailLength, if_neg (by omega), if_pos (by omega)]
    exact .inr (.inl ⟨hlength, h, h', hlead 1 hlength⟩)
  rcases Nat.lt_or_ge v 0x10000 with h'' | h''
  · have hlength : trailLength v = 2 := by
      rw [trailLength, if_neg (by omega), if_neg (by omega), if_pos (by omega)]
    exact .inr (.inr (.inl ⟨hlength, h', h'', hlead 2 hlength⟩))
  · have hlength : trailLength v = 3 := by
      rw [trailLength, if_neg (by omega), if_neg (by omega), if_neg (by omega)]
    exact .inr (.inr (.inr ⟨hlength, h'', hlead 3 hlength⟩))

/-- The first byte of a character of several bytes, and the range in which the second one is. -/
theorem begin?_leadByte {v n : Nat} (h : trailLength v = n + 1) (hv : v < 0x110000)
    (hsurrogate : v < 0xD800 ∨ 0xDFFF < v) :
    ∃ low high, begin? (leadByte v) = some ⟨v / 64 ^ (n + 1), n + 1, low, high⟩ ∧
      low ≤ v / 64 ^ n % 64 + 0x80 ∧ v / 64 ^ n % 64 + 0x80 ≤ high := by
  rcases leadByte_cases v with ⟨hn, -⟩ | ⟨hn, hlow, hhigh, hlead⟩ | ⟨hn, hlow, hhigh, hlead⟩ |
    ⟨hn, hlow, hlead⟩
  · omega
  · obtain rfl : n = 0 := by omega
    refine ⟨0x80, 0xBF, ?_, by omega, by omega⟩
    rw [hlead, begin?, if_pos (by omega), Nat.add_sub_cancel]
    rfl
  · obtain rfl : n = 1 := by omega
    refine ⟨if v / 4096 + 0xE0 = 0xE0 then 0xA0 else 0x80,
      if v / 4096 + 0xE0 = 0xED then 0x9F else 0xBF, ?_, ?_, ?_⟩
    · rw [hlead, begin?, if_neg (by omega), if_pos (by omega), Nat.add_sub_cancel]
      rfl
    · split <;> omega
    · split <;> omega
  · obtain rfl : n = 2 := by omega
    refine ⟨if v / 262144 + 0xF0 = 0xF0 then 0x90 else 0x80,
      if v / 262144 + 0xF0 = 0xF4 then 0x8F else 0xBF, ?_, ?_, ?_⟩
    · rw [hlead, begin?, if_neg (by omega), if_neg (by omega), if_pos (by omega),
        Nat.add_sub_cancel]
      rfl
    · split <;> omega
    · split <;> omega

/-- The encoding of a character is read as the character. -/
theorem decodeFrom_char (c : Char) (rest : List UInt8) :
    decodeFrom none (String.utf8EncodeChar c ++ rest) = c :: decodeFrom none rest := by
  have hv : c.val.toNat < 0x110000 := by
    rcases c.valid with hv | hv <;> omega
  have hsurrogate : c.val.toNat < 0xD800 ∨ 0xDFFF < c.val.toNat := by
    rcases c.valid with hv | hv <;> omega
  have hchar : Char.ofNat c.val.toNat = c := Char.ofNat_toNat c
  rw [utf8EncodeChar_eq]
  generalize c.val.toNat = v at *
  have hcases := leadByte_cases v
  have hbyte : (UInt8.ofNat (leadByte v)).toNat = leadByte v := by
    rw [UInt8.toNat_ofNat']
    omega
  rw [List.cons_append, decodeFrom_cons, hbyte, decodeByte, decodeFirst]
  cases hlength : trailLength v with
  | zero =>
    have hlead : leadByte v = v ∧ v < 0x80 := by omega
    rw [hlead.1, if_pos hlead.2, hchar]
    rfl
  | succ n =>
    obtain ⟨low, high, hbegin, hlow, hhigh⟩ := begin?_leadByte hlength hv hsurrogate
    rw [if_neg (by omega), hbegin]
    exact (decodeFrom_trail rest hlow hhigh).trans (by rw [hchar])

/-- Nothing is replaced in the encoding of a text. -/
theorem ofBytes_bytes (s : String) : ofBytes (bytes s) = s := by
  have hchars : ∀ cs : List Char, decodeFrom none (cs.flatMap String.utf8EncodeChar) = cs := by
    intro cs
    induction cs with
    | nil => rfl
    | cons c cs ih => rw [List.flatMap_cons, decodeFrom_char, ih]
  rw [ofBytes, bytes_eq_flatMap, hchars, String.ofList_toList]

example : ofBytes [0x61, 0xE2, 0x82, 0x62, 0xFF] = "a\uFFFDb\uFFFD" := by decide +kernel

end Text

/-- A file with the encoding of a text is read as the text, as a file with the text itself is. -/
theorem FileTree.readDecoded_eq {t : FileTree} {path s : String} {p : Place}
    (hplace : t.locate path = .ok p)
    (hentry : t.entry? p = some (.text s) ∨ t.entry? p = some (.bytes (Text.bytes s))) :
    t.readDecoded path = .ok s := by
  rw [readDecoded, hplace]
  dsimp only [Except.bind]
  rcases hentry with htext | hbytes
  · rw [htext]
    dsimp only
    rw [read, hplace]
    dsimp only [Except.bind]
    rw [htext]
  · rw [hbytes]
    dsimp only
    rw [Text.ofBytes_bytes]

example : (FileTree.empty.put (Place.working.child "a") .binary).readDecoded "a" = .ok "\uFFFD" := by
  cbv

end GitInvocation
