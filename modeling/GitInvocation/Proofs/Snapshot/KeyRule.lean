import GitInvocation.Proofs.Snapshot.Entries

/-!
# The rule for keys

White space around a key does not count. A key with fewer than two dots is compared as a whole, and
letter case makes no difference in it. In a key with more dots this is so for the text in front of
the first dot and for the text behind the last, while the text between them, which may hold dots,
is compared as it is. Only ASCII letters have a case that does not count.

The rule is stated by the shape of the keys, without canonical spellings. Keys have the same
canonical spelling exactly when they follow it, which makes it an equivalence, and a snapshot that
holds a value for one key gives it for exactly the keys that follow the rule with it.
-/
namespace GitInvocation.Key

open Text

/-- Keys without white space around them that name the same setting. -/
inductive Alike : List Char → List Char → Prop
  | whole {s t : List Char} (hs : s.count '.' < 2) (ht : t.count '.' < 2) (h : SameLetters s t) :
      Alike s t
  | parted {first middle last first' last' : List Char} (hf : '.' ∉ first) (hl : '.' ∉ last)
      (hf' : '.' ∉ first') (hl' : '.' ∉ last') (hfirst : SameLetters first first')
      (hlast : SameLetters last last') :
      Alike (first ++ '.' :: middle ++ '.' :: last) (first' ++ '.' :: middle ++ '.' :: last')

/-- The rule: keys that name the same setting, whatever white space stands around them. -/
def SameSetting (j k : String) : Prop := Alike (trimChars j.toList) (trimChars k.toList)

section Rule

variable {s t : List Char}

/-- A key has parts when it has two dots at least. -/
theorem parts?_eq_none_iff : parts? s = none ↔ s.count '.' < 2 := by
  constructor
  · intro h
    cases hc : cut? '.' s with
    | none =>
      rw [List.count_eq_zero_of_not_mem (cut?_eq_none_iff.mp hc)]
      decide
    | some p =>
      obtain ⟨first, rest⟩ := p
      obtain ⟨rfl, hfirst⟩ := cut?_eq_some hc
      rw [parts?, hc, Option.bind_some, Option.map_eq_none_iff, cut?_eq_none_iff,
        List.mem_reverse] at h
      rw [List.count_append, List.count_cons_self, List.count_eq_zero_of_not_mem hfirst,
        List.count_eq_zero_of_not_mem h]
      decide
  · intro h
    cases hp : parts? s with
    | none => rfl
    | some p =>
      obtain ⟨first, middle, last⟩ := p
      obtain ⟨rfl, -, -⟩ := parts?_eq_some hp
      simp only [List.count_append, List.count_cons_self] at h
      omega

theorem alike_iff : Alike s t ↔
    match parts? s, parts? t with
    | some (first, middle, last), some (first', middle', last') =>
      SameLetters first first' ∧ middle = middle' ∧ SameLetters last last'
    | none, none => SameLetters s t
    | _, _ => False := by
  constructor
  · intro h
    cases h with
    | whole hs ht h =>
      rw [parts?_eq_none_iff.mpr hs, parts?_eq_none_iff.mpr ht]
      exact h
    | parted hf hl hf' hl' hfirst hlast =>
      rw [parts?_append hf hl, parts?_append hf' hl']
      exact ⟨hfirst, rfl, hlast⟩
  · intro h
    split at h
    · next hs ht =>
      obtain ⟨hfirst, rfl, hlast⟩ := h
      obtain ⟨rfl, hf, hl⟩ := parts?_eq_some hs
      obtain ⟨rfl, hf', hl'⟩ := parts?_eq_some ht
      exact .parted hf hl hf' hl' hfirst hlast
    · next hs ht =>
      exact .whole (parts?_eq_none_iff.mp hs) (parts?_eq_none_iff.mp ht) h
    · exact h.elim

theorem sameSetting_iff {j k : String} : SameSetting j k ↔ canonical j = canonical k := by
  rw [canonical_eq_iff]
  exact alike_iff

/-- What is not ASCII stands in the same places of both keys. -/
theorem Alike.places (h : Alike s t) {c : Char} (hc : 127 < c.toNat) (i : Nat) :
    s[i]? = some c ↔ t[i]? = some c := by
  have hsame : ∀ d, decide (lowerAscii d = c) = decide (d = c) := by
    intro d
    exact decide_eq_decide.mpr (lowerAscii_eq_mark (.inr (by omega)) d)
  have hmap : s.map (fun d => decide (d = c)) = t.map fun d => decide (d = c) := by
    rw [← map_canonicalChars hsame s, ← map_canonicalChars hsame t,
      (canonicalChars_eq_iff s t).mpr (alike_iff.mp h)]
  have hplace : ∀ u : List Char,
      u[i]? = some c ↔ (u.map fun d => decide (d = c))[i]? = some true := by
    intro u
    rw [List.getElem?_map, Option.map_eq_some_iff]
    constructor
    · intro hu
      exact ⟨c, hu, decide_eq_true rfl⟩
    · rintro ⟨d, hu, hd⟩
      rw [hu, of_decide_eq_true hd]
  rw [hplace s, hplace t, hmap]

end Rule

/-- Two keys have the same canonical spelling exactly when they follow the rule, and exactly then a
snapshot that holds a value for the first gives it for the second. What is not ASCII is the same in
keys that follow the rule, and the rule is an equivalence. -/
theorem canonical_by_rule (j k : String) :
    (canonical j = canonical k ↔ SameSetting j k) ∧
    (∀ value, (Snapshot.empty.insert j value).get? k = some value ↔ SameSetting j k) ∧
    (SameSetting j k → ∀ c : Char, 127 < c.toNat → ∀ i : Nat,
      (trimChars j.toList)[i]? = some c ↔ (trimChars k.toList)[i]? = some c) ∧
    Equivalence SameSetting := by
  refine ⟨sameSetting_iff.symm, fun value => ?_, fun h c hc i => h.places hc i, ?_⟩
  · rw [sameSetting_iff, Snapshot.get?_insert]
    by_cases h : Matches j k
    · simp [h, canonical_eq_iff]
    · simp [h, canonical_eq_iff, Snapshot.get?, Snapshot.empty]
  · constructor
    · intro j
      exact sameSetting_iff.mpr rfl
    · intro j k h
      exact sameSetting_iff.mpr (sameSetting_iff.mp h).symm
    · intro i j k h h'
      exact sameSetting_iff.mpr ((sameSetting_iff.mp h).trans (sameSetting_iff.mp h'))

/-- A subsection that is not ASCII is no other in small letters. -/
theorem canonical_by_rule_subsection :
    let j := " Remote.Öl.a.Url"
    let k := "REMOTE.Öl.a.URL\u3000"
    SameSetting j k ∧ (Snapshot.empty.insert j "x").get? k = some "x" ∧
      (trimChars k.toList)[7]? = some 'Ö' ∧ ¬ SameSetting "remote.öl.a.url" k := by
  intro j k
  obtain ⟨hcanonical, hget, hplaces, -⟩ := canonical_by_rule j k
  have h : SameSetting j k := hcanonical.mp (by decide +kernel)
  refine ⟨h, (hget "x").mpr h, ?_, fun hsmall => ?_⟩
  · exact (hplaces h 'Ö' (by decide) 7).mp (by decide +kernel)
  · exact absurd ((canonical_by_rule _ k).1.mpr hsmall) (by decide +kernel)

end GitInvocation.Key
