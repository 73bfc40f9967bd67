import GitInvocation.Operation.RefFilter
import GitInvocation.Proofs.Text.Cutting

/-!
# The text of a filter

A filter is written as parts with bars between them. Cut at the bars and trimmed, the text falls
into the same parts again, and together they have the bits of the filter, those that stand for no
kind included.
-/
namespace GitInvocation

namespace RefFilter

open Text

/-- Text that stands for itself between bars. -/
def Clear (s : String) : Prop := '|' ∉ s.toList ∧ trimChars s.toList = s.toList

theorem map_trimChars_pieces {p : String} {ps : List String} (h : ∀ q ∈ p :: ps, Clear q) :
    (pieces '|' (" | ".intercalate (p :: ps)).toList).map trimChars =
      (p :: ps).map String.toList := by
  induction ps generalizing p with
  | nil =>
    obtain ⟨hbar, htrim⟩ := h p List.mem_cons_self
    rw [String.intercalate_singleton, pieces_of_notMem hbar, List.map_singleton, htrim]
    rfl
  | cons q ps ih =>
    obtain ⟨hbar, htrim⟩ := h p List.mem_cons_self
    have hl : (" | ".intercalate (p :: q :: ps)).toList =
        (p.toList ++ [' ']) ++ '|' :: ' ' :: (" | ".intercalate (q :: ps)).toList := by
      rw [String.intercalate_cons_cons, String.toList_append, String.toList_append]
      simp
    have hbar' : '|' ∉ p.toList ++ [' '] := by
      rw [List.mem_append, not_or]
      exact ⟨hbar, by decide⟩
    rw [hl, pieces_append hbar', List.map_cons, trimChars_concat (by decide), htrim,
      map_trimChars_pieces_cons (by decide) (by decide),
      ih fun r hr => h r (List.mem_cons_of_mem p hr)]
    rfl

/-- The parts of a filter, each with the bits that it stands for. -/
def parts (f : RefFilter) : List (String × RefFilter) :=
  (flags.filter fun flag => f.contains flag.2) ++
    if f.unnamed = empty then [] else [("0x" ++ Text.hex f.unnamed.bits.toNat, f.unnamed)]

theorem text_eq_parts (f : RefFilter) : f.text = " | ".intercalate (f.parts.map Prod.fst) := by
  rw [text, parts, List.map_append]
  split <;> rfl

theorem union_parts_ofFin : ∀ n : Fin 256,
    ((parts ⟨.ofFin n⟩).map Prod.snd).foldl union empty = ⟨.ofFin n⟩ := by
  decide +kernel

/-- The parts have the bits of the whole. -/
theorem union_parts (f : RefFilter) : (f.parts.map Prod.snd).foldl union empty = f :=
  union_parts_ofFin f.bits.toFin

theorem flags_read : ∀ flag ∈ flags, Clear flag.1 ∧ part flag.1.toList = .ok flag.2 := by
  intro flag hf
  simp only [flags, List.mem_cons, List.not_mem_nil, or_false] at hf
  rcases hf with rfl | rfl | rfl | rfl <;> exact ⟨⟨by decide, by decide⟩, rfl⟩

theorem hex_read : ∀ n : Fin 256, '|' ∉ Nat.toDigits 16 n ∧
    trimChars ('0' :: 'x' :: Nat.toDigits 16 n) = '0' :: 'x' :: Nat.toDigits 16 n ∧
    Text.bounded? 16 0xFF (Nat.toDigits 16 n) = some n.val := by
  decide +kernel

theorem unnamed_read (f : RefFilter) :
    Clear ("0x" ++ Text.hex f.unnamed.bits.toNat) ∧
      part ("0x" ++ Text.hex f.unnamed.bits.toNat).toList = .ok f.unnamed := by
  obtain ⟨hbar, htrim, hvalue⟩ := hex_read f.unnamed.bits.toFin
  have hl : ("0x" ++ Text.hex f.unnamed.bits.toNat).toList =
      '0' :: 'x' :: Nat.toDigits 16 f.unnamed.bits.toNat := by
    rw [String.toList_append, Text.hex, String.toList_ofList, String.toList_ofList]
    rfl
  rw [Clear, hl]
  refine ⟨⟨?_, htrim⟩, ?_⟩
  · rw [List.mem_cons, List.mem_cons, not_or, not_or]
    exact ⟨by decide, by decide, hbar⟩
  · have hstart : Text.afterStart? "0x".toList
        ('0' :: 'x' :: Nat.toDigits 16 f.unnamed.bits.toNat) =
        some (Nat.toDigits 16 f.unnamed.bits.toNat) := by
      rw [String.toList_ofList]
      rfl
    have hv : Text.bounded? 16 0xFF (Nat.toDigits 16 f.unnamed.bits.toNat) =
        some f.unnamed.bits.toNat := hvalue
    rw [part, if_neg (List.cons_ne_nil _ _), hstart]
    dsimp only
    rw [hv]
    show Except.ok (RefFilter.mk (UInt8.ofNat f.unnamed.bits.toNat)) = _
    rw [UInt8.ofNat_toNat]

theorem mapM_part {ps : List (String × RefFilter)} (h : ∀ p ∈ ps, part p.1.toList = .ok p.2) :
    ((ps.map Prod.fst).map String.toList).mapM part = .ok (ps.map Prod.snd) := by
  induction ps with
  | nil => rfl
  | cons p ps ih =>
    rw [List.map_cons, List.map_cons, List.mapM_cons, h p List.mem_cons_self,
      ih fun q hq => h q (List.mem_cons_of_mem p hq)]
    rfl

theorem parts_read {f : RefFilter} {p : String × RefFilter} (h : p ∈ f.parts) :
    Clear p.1 ∧ part p.1.toList = .ok p.2 := by
  rcases List.mem_append.mp h with hm | hm
  · exact flags_read p (List.mem_filter.mp hm).1
  · split at hm
    · exact absurd hm List.not_mem_nil
    · rw [List.mem_singleton.mp hm]
      exact unnamed_read f

/-- A text that begins with a part is not blank. -/
theorem not_blank_parts {p : String × RefFilter} {ps : List (String × RefFilter)}
    (h : Clear p.1 ∧ part p.1.toList = .ok p.2) :
    ¬ Text.blank (" | ".intercalate ((p :: ps).map Prod.fst)) := by
  obtain ⟨⟨-, htrim⟩, hpart⟩ := h
  have hne : p.1.toList ≠ [] := by
    intro he
    rw [he] at hpart
    exact absurd hpart (by simp [part])
  obtain ⟨c, s, hc⟩ := List.exists_cons_of_ne_nil hne
  have hblank : isBlank c = false := by
    refine (ends_trimChars p.1.toList).1 c ?_
    rw [htrim, hc]
    rfl
  have hm : c ∈ (" | ".intercalate ((p :: ps).map Prod.fst)).toList := by
    have hp : c ∈ p.1.toList := by
      rw [hc]
      exact List.mem_cons_self
    cases ps with
    | nil => simpa using hp
    | cons q ps =>
      rw [List.map_cons, List.map_cons, String.intercalate_cons_cons, String.toList_append,
        String.toList_append]
      exact List.mem_append_left _ (List.mem_append_left _ hp)
  intro hall
  have := List.all_eq_true.mp hall c hm
  rw [hblank] at this
  exact absurd this (by decide)

/-- The text of a filter is read as the filter. -/
theorem parse_text (f : RefFilter) : parse f.text = .ok f := by
  rw [text_eq_parts]
  cases hp : f.parts with
  | nil =>
    have he : f = empty := by
      have := union_parts f
      rw [hp] at this
      exact this.symm
    rw [he]
    rfl
  | cons p ps =>
    have hread : ∀ q ∈ p :: ps, Clear q.1 ∧ part q.1.toList = .ok q.2 :=
      fun q hq => parts_read (hp ▸ hq)
    have hclear : ∀ q ∈ (p :: ps).map Prod.fst, Clear q := by
      intro q hq
      obtain ⟨r, hr, rfl⟩ := List.mem_map.mp hq
      exact (hread r hr).1
    have hpieces := map_trimChars_pieces hclear
    have hunion := union_parts f
    rw [hp] at hunion
    have hmap : (pieces '|' (" | ".intercalate ((p :: ps).map Prod.fst)).toList).mapM
        (fun piece => part (trimChars piece)) = .ok ((p :: ps).map Prod.snd) := by
      rw [← mapM_part fun q hq => (hread q hq).2, List.map_cons, ← hpieces, List.mapM_map]
      rfl
    rw [parse, if_neg (not_blank_parts (hread p List.mem_cons_self)), hmap]
    exact congrArg Except.ok hunion

end RefFilter

end GitInvocation
