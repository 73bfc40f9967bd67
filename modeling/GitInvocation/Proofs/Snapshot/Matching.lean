import GitInvocation.Proofs.Text.Cutting
import GitInvocation.Snapshot.Key
import Mathlib.Data.Quot
import Mathlib.Logic.Function.Basic

/-!
# Keys that name the same setting

Two keys match when their section and name differ in letter case at most and their subsections not
at all. The rule is stated without canonical spellings, and two keys match exactly when their
canonical spellings are equal. A canonical spelling is its own, so keys may be made canonical any
number of times.
-/
namespace GitInvocation.Key

open Text

/-- Equal but for the case of ASCII letters. -/
def SameLetters (s t : List Char) : Prop := s.map Char.toLower = t.map Char.toLower

/-- Keys that name the same setting, whatever white space stands around them. -/
def Matches (j k : String) : Prop :=
  match parts? (trimChars j.toList), parts? (trimChars k.toList) with
  | some (first, middle, last), some (first', middle', last') =>
    SameLetters first first' ∧ middle = middle' ∧ SameLetters last last'
  | none, none => SameLetters (trimChars j.toList) (trimChars k.toList)
  | _, _ => False

section Parts

variable {s first middle last : List Char}

theorem parts?_append (hf : '.' ∉ first) (hl : '.' ∉ last) :
    parts? (first ++ '.' :: middle ++ '.' :: last) = some (first, middle, last) := by
  have hr : (middle ++ '.' :: last).reverse = last.reverse ++ '.' :: middle.reverse := by simp
  rw [parts?, List.append_assoc, List.cons_append, cut?_append hf, Option.bind_some]
  dsimp only
  rw [hr, cut?_append (by simpa using hl)]
  simp

theorem parts?_eq_some (h : parts? s = some (first, middle, last)) :
    s = first ++ '.' :: middle ++ '.' :: last ∧ '.' ∉ first ∧ '.' ∉ last := by
  rw [parts?, Option.bind_eq_some_iff] at h
  obtain ⟨⟨f, rest⟩, hc, h⟩ := h
  obtain ⟨⟨l, m⟩, hc', h⟩ := Option.map_eq_some_iff.mp h
  simp only [Prod.mk.injEq] at h
  obtain ⟨rfl, rfl, rfl⟩ := h
  obtain ⟨rfl, hf⟩ := cut?_eq_some hc
  obtain ⟨hr, hl⟩ := cut?_eq_some hc'
  have hrest : rest = m.reverse ++ '.' :: l.reverse := by
    rw [← List.reverse_reverse rest, hr]
    simp
  refine ⟨by rw [hrest, List.append_assoc, List.cons_append], hf, ?_⟩
  rwa [List.mem_reverse]

theorem dot_mem_map {t : List Char} : '.' ∈ t.map lowerAscii ↔ '.' ∈ t := by
  rw [List.mem_map]
  constructor
  · rintro ⟨c, hc, he⟩
    rwa [← (lowerAscii_eq_dot c).mp he]
  · intro h
    exact ⟨'.', h, rfl⟩

theorem parts?_map (s : List Char) :
    parts? (s.map lowerAscii) = (parts? s).map fun (first, middle, last) =>
      (first.map lowerAscii, middle.map lowerAscii, last.map lowerAscii) := by
  rw [parts?, parts?, cut?_map lowerAscii_eq_dot]
  cases cut? '.' s with
  | none => rfl
  | some p =>
    obtain ⟨first, rest⟩ := p
    simp only [Option.map_some, Option.bind_some, ← List.map_reverse, cut?_map lowerAscii_eq_dot]
    cases cut? '.' rest.reverse with
    | none => rfl
    | some q => simp

theorem map_lowerAscii_twice (t : List Char) :
    (t.map lowerAscii).map lowerAscii = t.map lowerAscii := by
  rw [List.map_map]
  exact List.map_congr_left fun c _ => lowerAscii_lowerAscii c

/-- The canonical spelling has the same parts, in lower case but for the middle. -/
theorem parts?_canonicalChars (s : List Char) :
    parts? (canonicalChars s) = (parts? s).map fun (first, middle, last) =>
      (first.map lowerAscii, middle, last.map lowerAscii) := by
  unfold canonicalChars
  cases h : parts? s with
  | none =>
    show parts? (s.map lowerAscii) = none
    rw [parts?_map, h]
    rfl
  | some p =>
    obtain ⟨first, middle, last⟩ := p
    obtain ⟨-, hf, hl⟩ := parts?_eq_some h
    exact parts?_append (mt dot_mem_map.mp hf) (mt dot_mem_map.mp hl)

theorem canonicalChars_canonicalChars (s : List Char) :
    canonicalChars (canonicalChars s) = canonicalChars s := by
  cases h : parts? s with
  | none =>
    have hc : canonicalChars s = s.map lowerAscii := by rw [canonicalChars, h]
    rw [hc, canonicalChars, parts?_map, h]
    exact map_lowerAscii_twice s
  | some p =>
    obtain ⟨first, middle, last⟩ := p
    have hc : canonicalChars s =
        first.map lowerAscii ++ '.' :: middle ++ '.' :: last.map lowerAscii := by
      rw [canonicalChars, h]
    rw [canonicalChars, parts?_canonicalChars, h, hc]
    simp only [Option.map_some, map_lowerAscii_twice]

/-- Letter case aside, a canonical spelling has the same characters in the same places. -/
theorem map_canonicalChars {p : Char → Bool} (hp : ∀ c, p (lowerAscii c) = p c) (s : List Char) :
    (canonicalChars s).map p = s.map p := by
  have hmap : ∀ t : List Char, (t.map lowerAscii).map p = t.map p := by
    intro t
    rw [List.map_map]
    exact List.map_congr_left fun c _ => hp c
  unfold canonicalChars
  cases h : parts? s with
  | none => exact hmap s
  | some parts =>
    obtain ⟨first, middle, last⟩ := parts
    obtain ⟨hs, -, -⟩ := parts?_eq_some h
    simp only [hs, List.map_append, List.map_cons, hmap]

theorem mem_canonicalChars {mark : Char} (h : ∀ c, lowerAscii c = mark ↔ c = mark)
    {s : List Char} (hm : mark ∈ canonicalChars s) : mark ∈ s := by
  have hmap := map_canonicalChars (p := fun c => c = mark) (fun c => by simp only [h c]) s
  have htrue : true ∈ (canonicalChars s).map fun c => decide (c = mark) :=
    List.mem_map.mpr ⟨mark, hm, decide_eq_true rfl⟩
  rw [hmap] at htrue
  obtain ⟨c, hc, he⟩ := List.mem_map.mp htrue
  exact of_decide_eq_true he ▸ hc

end Parts

theorem toList_canonical (key : String) :
    (canonical key).toList = canonicalChars (trimChars key.toList) := by
  rw [canonical, String.toList_ofList]

/-- A canonical spelling has no marks that the key has not. -/
theorem mem_canonical {mark : Char} (h : ∀ c, lowerAscii c = mark ↔ c = mark) {key : String}
    (hm : mark ∈ (canonical key).toList) : mark ∈ key.toList := by
  rw [toList_canonical] at hm
  exact mem_trimChars (mem_canonicalChars h hm)

theorem blank_canonical (key : String) : Text.blank (canonical key) = Text.blank key := by
  have hmap := congrArg (List.all · id) (map_canonicalChars isBlank_lowerAscii (trimChars key.toList))
  simp only [List.all_map, Function.id_comp] at hmap
  rw [Text.blank, toList_canonical, hmap, all_trimChars, Text.blank]

/-- A canonical spelling is its own. -/
theorem canonical_canonical (key : String) : canonical (canonical key) = canonical key := by
  have ht : trimChars (canonical key).toList = canonicalChars (trimChars key.toList) := by
    rw [toList_canonical]
    exact trimChars_of_map (map_canonicalChars isBlank_lowerAscii _)
  rw [canonical, ht, canonicalChars_canonicalChars]
  rfl

/-- White space around a key does not count. -/
theorem canonical_trimmed (key : List Char) :
    canonical (String.ofList (trimChars key)) = canonical (String.ofList key) := by
  rw [canonical, canonical, String.toList_ofList, String.toList_ofList, trimChars_trimChars]

theorem sameLetters_iff {s t : List Char} :
    SameLetters s t ↔ s.map lowerAscii = t.map lowerAscii := by
  have hlower : Char.toLower = lowerAscii := funext fun c => (lowerAscii_eq_toLower c).symm
  rw [SameLetters, hlower]

theorem canonicalChars_eq_iff (s t : List Char) :
    canonicalChars s = canonicalChars t ↔
      match parts? s, parts? t with
      | some (first, middle, last), some (first', middle', last') =>
        SameLetters first first' ∧ middle = middle' ∧ SameLetters last last'
      | none, none => SameLetters s t
      | _, _ => False := by
  have hparts : canonicalChars s = canonicalChars t →
      (parts? s).map (fun (first, middle, last) =>
        (first.map lowerAscii, middle, last.map lowerAscii)) =
      (parts? t).map fun (first, middle, last) =>
        (first.map lowerAscii, middle, last.map lowerAscii) := by
    intro h
    rw [← parts?_canonicalChars, ← parts?_canonicalChars, h]
  cases hs : parts? s with
  | none =>
    cases ht : parts? t with
    | none => simp only [canonicalChars, hs, ht, sameLetters_iff]
    | some q =>
      rw [hs, ht] at hparts
      exact iff_of_false (fun h => nomatch hparts h) id
  | some p =>
    cases ht : parts? t with
    | none =>
      rw [hs, ht] at hparts
      exact iff_of_false (fun h => nomatch hparts h) id
    | some q =>
      obtain ⟨first, middle, last⟩ := p
      obtain ⟨first', middle', last'⟩ := q
      rw [hs, ht] at hparts
      simp only [sameLetters_iff]
      constructor
      · intro h
        have := Option.some.inj (hparts h)
        simpa only [Prod.mk.injEq] using this
      · rintro ⟨hf, rfl, hl⟩
        simp only [canonicalChars, hs, ht, hf, hl]

/-- Keys match when their canonical spellings are equal. -/
theorem canonical_eq_iff {j k : String} : canonical j = canonical k ↔ Matches j k := by
  rw [Matches, ← canonicalChars_eq_iff, ← toList_canonical, ← toList_canonical, String.toList_inj]

instance (j k : String) : Decidable (Matches j k) := decidable_of_iff _ canonical_eq_iff

/-- Keys that match are of one kind. -/
def matching : Setoid String where
  r := Matches
  iseqv :=
    ⟨fun _ => canonical_eq_iff.mp rfl,
      fun h => canonical_eq_iff.mp (canonical_eq_iff.mpr h).symm,
      fun h h' => canonical_eq_iff.mp ((canonical_eq_iff.mpr h).trans (canonical_eq_iff.mpr h'))⟩

/-- The canonical spelling of all keys of a kind. -/
def canonicalOf : Quotient matching → String :=
  Quotient.lift canonical fun _ _ h => canonical_eq_iff.mpr h

theorem canonicalOf_injective : Function.Injective canonicalOf := by
  rintro ⟨j⟩ ⟨k⟩ h
  exact Quotient.sound (canonical_eq_iff.mp h)

instance : DecidableEq (Quotient matching) := canonicalOf_injective.decidableEq

end GitInvocation.Key
