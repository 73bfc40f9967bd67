import GitInvocation.Proofs.Lookup
import GitInvocation.Proofs.Snapshot.Matching
import GitInvocation.Proofs.Text.ByteOrder
import GitInvocation.Snapshot.Basic
import Mathlib.Data.List.Sort

/-!
# Ascending entries

Setting a key keeps the entries ascending and changes the value of that key alone, so a run of
settings leaves each key with its last value. Entries are determined by the values they give.
-/
namespace GitInvocation

variable {l : List (String × String)}

/-- Entries in ascending order of their keys, each key once. -/
def Ascending (l : List (String × String)) : Prop := l.Pairwise fun a b => a.1 < b.1

/-- Sets keys one after the other. -/
def putAll (items l : List (String × String)) : List (String × String) :=
  items.foldl (fun entries item => putEntry item.1 item.2 entries) l

/-- The value of the last item whose key is a fitting one. -/
def lastValue? (fits : String → Bool) (items : List (String × String)) : Option String :=
  (items.filter fun item => fits item.1).getLast?.map Prod.snd

section Values

variable (fits : String → Bool)

theorem lastValue?_append (items more : List (String × String)) :
    lastValue? fits (items ++ more) = (lastValue? fits more).or (lastValue? fits items) := by
  rw [lastValue?, List.filter_append, List.getLast?_append, lastValue?, lastValue?]
  cases (more.filter fun item => fits item.1).getLast? <;> rfl

theorem lastValue?_single (key value : String) :
    lastValue? fits [(key, value)] = if fits key then some value else none := by
  unfold lastValue?
  cases h : fits key <;> simp [h]

theorem lastValue?_cons (key value : String) (items : List (String × String)) :
    lastValue? fits ((key, value) :: items) =
      (lastValue? fits items).or (if fits key then some value else none) := by
  rw [← lastValue?_single, ← lastValue?_append]
  rfl

theorem lastValue?_eq_none {items : List (String × String)} :
    lastValue? fits items = none ↔ ∀ item ∈ items, fits item.1 = false := by
  rw [lastValue?, Option.map_eq_none_iff, List.getLast?_eq_none_iff, List.filter_eq_nil_iff]
  simp only [Bool.not_eq_true]

theorem lastValue?_isSome {items : List (String × String)} :
    (lastValue? fits items).isSome ↔ ∃ item ∈ items, fits item.1 := by
  rw [← not_iff_not, Bool.not_eq_true, Option.isSome_eq_false_iff, Option.isNone_iff_eq_none,
    lastValue?_eq_none]
  simp only [not_exists, not_and, Bool.not_eq_true]

theorem exists_of_lastValue? {items : List (String × String)} {value : String}
    (h : lastValue? fits items = some value) : ∃ item ∈ items, fits item.1 ∧ item.2 = value := by
  obtain ⟨item, hlast, rfl⟩ := Option.map_eq_some_iff.mp h
  obtain ⟨hitem, hfits⟩ := List.mem_filter.mp (List.mem_of_getLast? hlast)
  exact ⟨item, hitem, hfits, rfl⟩

end Values

theorem mem_putEntry {key value : String} {e : String × String}
    (h : e ∈ putEntry key value l) : e = (key, value) ∨ e ∈ l := by
  induction l with
  | nil => exact .inl (List.mem_singleton.mp h)
  | cons entry rest ih =>
    rw [putEntry] at h
    split at h
    · rcases List.mem_cons.mp h with he | hm
      · exact .inl he
      · exact .inr (List.mem_cons_of_mem _ hm)
    · split at h
      · rcases List.mem_cons.mp h with he | hm
        · exact .inl he
        · exact .inr hm
      · rcases List.mem_cons.mp h with he | hm
        · exact .inr (List.mem_cons.mpr (.inl he))
        · exact (ih hm).imp id (List.mem_cons_of_mem _)

theorem ascending_putEntry (key value : String) (h : Ascending l) :
    Ascending (putEntry key value l) := by
  induction l with
  | nil => exact List.pairwise_singleton _ _
  | cons entry rest ih =>
    obtain ⟨k, v⟩ := entry
    obtain ⟨hk, hrest⟩ := List.pairwise_cons.mp h
    rw [putEntry]
    split
    · next he => exact List.pairwise_cons.mpr ⟨by rwa [he], hrest⟩
    · next hne =>
      split
      · next hlt =>
        refine List.pairwise_cons.mpr ⟨fun e he => ?_, h⟩
        rcases List.mem_cons.mp he with rfl | hm
        · exact hlt
        · exact hlt.trans (hk e hm)
      · next hle =>
        refine List.pairwise_cons.mpr ⟨fun e he => ?_, ih hrest⟩
        rcases mem_putEntry he with rfl | hm
        · exact lt_of_le_of_ne (not_lt.mp hle) (Ne.symm hne)
        · exact hk e hm

theorem lookup_putEntry (key value j : String) :
    (putEntry key value l).lookup j = if key = j then some value else l.lookup j := by
  induction l with
  | nil => exact lookup_entry key value j []
  | cons entry rest ih =>
    obtain ⟨k, v⟩ := entry
    rw [putEntry]
    split
    · next he =>
      rw [lookup_entry, lookup_entry, ← he]
      by_cases h : key = j
      · rw [if_pos h, if_pos h]
      · rw [if_neg h, if_neg h, if_neg h]
    · next hne =>
      split
      · rw [lookup_entry]
      · rw [lookup_entry, lookup_entry, ih]
        by_cases h : key = j
        · rw [if_pos h, if_pos h, if_neg (h ▸ Ne.symm hne)]
        · rw [if_neg h, if_neg h]

/-- Setting a key again makes the first setting void. -/
theorem putEntry_putEntry (key value before : String) :
    putEntry key value (putEntry key before l) = putEntry key value l := by
  induction l with
  | nil => simp [putEntry]
  | cons entry rest ih =>
    obtain ⟨k, v⟩ := entry
    by_cases he : key = k
    · simp [putEntry, he]
    · by_cases hlt : key < k
      · simp [putEntry, he, hlt]
      · simp [putEntry, he, hlt, ih]

section Runs

theorem putAll_append (items more : List (String × String)) :
    putAll (items ++ more) l = putAll more (putAll items l) := List.foldl_append

theorem ascending_putAll {items : List (String × String)} (h : Ascending l) :
    Ascending (putAll items l) := by
  induction items generalizing l with
  | nil => exact h
  | cons item items ih => exact ih (ascending_putEntry item.1 item.2 h)

theorem mem_putAll {items : List (String × String)} {e : String × String}
    (h : e ∈ putAll items l) : e ∈ items ∨ e ∈ l := by
  induction items generalizing l with
  | nil => exact .inr h
  | cons item items ih =>
    rcases ih h with hm | hm
    · exact .inl (List.mem_cons_of_mem _ hm)
    · rcases mem_putEntry hm with rfl | hl
      · exact .inl List.mem_cons_self
      · exact .inr hl

theorem lookup_putAll (items : List (String × String)) (j : String) :
    (putAll items l).lookup j = (lastValue? (fun key => key = j) items).or (l.lookup j) := by
  induction items generalizing l with
  | nil => rfl
  | cons item items ih =>
    obtain ⟨key, value⟩ := item
    rw [lastValue?_cons, Option.or_assoc, show putAll ((key, value) :: items) l =
      putAll items (putEntry key value l) from rfl, ih, lookup_putEntry]
    by_cases h : key = j <;> simp [h]

theorem mem_keys {j : String} : j ∈ l.map Prod.fst ↔ (l.lookup j).isSome := by
  rw [List.lookup_isSome_iff, List.mem_map]
  constructor
  · rintro ⟨e, he, rfl⟩
    exact ⟨e, he, beq_self_eq_true e.1⟩
  · rintro ⟨e, he, hj⟩
    exact ⟨e, he, (beq_iff_eq.mp hj).symm⟩

/-- The keys of entries that were empty at first. -/
theorem mem_keys_putAll {items : List (String × String)} {j : String} :
    j ∈ (putAll items []).map Prod.fst ↔ j ∈ items.map Prod.fst := by
  rw [mem_keys, lookup_putAll, List.lookup_nil, Option.or_none, lastValue?_isSome, List.mem_map]
  simp only [decide_eq_true_eq]

theorem lookup_of_lt {j : String} (h : ∀ e ∈ l, j < e.1) : l.lookup j = none := by
  rw [List.lookup_eq_none_iff]
  intro e he
  exact bne_iff_ne.mpr (ne_of_lt (h e he))

theorem lookup_tail {k v j : String} (h : ∀ e ∈ l, k < e.1) :
    l.lookup j = if k = j then none else ((k, v) :: l).lookup j := by
  rw [lookup_entry]
  by_cases hj : k = j
  · rw [if_pos hj, ← hj]
    exact lookup_of_lt h
  · rw [if_neg hj, if_neg hj]

/-- Of ascending entries none is the second one for its key. -/
theorem Ascending.lastValue?_eq (h : Ascending l) (j : String) :
    lastValue? (fun key => key = j) l = l.lookup j := by
  induction l with
  | nil => rfl
  | cons e l ih =>
    obtain ⟨k, v⟩ := e
    obtain ⟨hk, hl⟩ := List.pairwise_cons.mp h
    rw [lastValue?_cons, lookup_entry, ih hl]
    by_cases hj : k = j
    · rw [lookup_of_lt (hj ▸ hk), if_pos hj, if_pos (by simp [hj])]
      rfl
    · rw [if_neg hj, if_neg (by simp [hj]), Option.or_none]

/-- The first of ascending entries has the least key there is a value for. -/
theorem Ascending.not_lt_of_lookup {k v j w : String} {m : List (String × String)}
    (hm : Ascending ((j, w) :: m)) (h : ((j, w) :: m).lookup k = some v) : ¬ k < j := by
  intro hlt
  have hall : ∀ e ∈ (j, w) :: m, k < e.1 := by
    intro e he
    rcases List.mem_cons.mp he with rfl | hm'
    · exact hlt
    · exact hlt.trans ((List.pairwise_cons.mp hm).1 e hm')
  rw [lookup_of_lt hall] at h
  exact absurd h (by simp)

/-- Ascending entries that give every key the same value are the same. -/
theorem Ascending.ext {m : List (String × String)} (hl : Ascending l) (hm : Ascending m)
    (h : ∀ j, l.lookup j = m.lookup j) : l = m := by
  induction l generalizing m with
  | nil =>
    cases m with
    | nil => rfl
    | cons f m =>
      have := h f.1
      rw [List.lookup_nil, List.lookup_cons_self] at this
      exact absurd this (by simp)
  | cons e l ih =>
    obtain ⟨k, v⟩ := e
    cases m with
    | nil =>
      have := h k
      rw [List.lookup_nil, List.lookup_cons_self] at this
      exact absurd this (by simp)
    | cons f m =>
      obtain ⟨j, w⟩ := f
      have hk := (h k).symm.trans List.lookup_cons_self
      have hj := (h j).trans List.lookup_cons_self
      obtain rfl : k = j :=
        le_antisymm (not_lt.mp (hl.not_lt_of_lookup hj)) (not_lt.mp (hm.not_lt_of_lookup hk))
      obtain rfl : w = v := Option.some.inj (List.lookup_cons_self.symm.trans hk)
      obtain ⟨hkl, hl⟩ := List.pairwise_cons.mp hl
      obtain ⟨hkm, hm⟩ := List.pairwise_cons.mp hm
      refine congrArg _ (ih hl hm fun i => ?_)
      rw [lookup_tail (v := w) hkl, h i, ← lookup_tail hkm]

/-- Ascending entries are what is left when they are set one after the other. -/
theorem Ascending.putAll_eq (h : Ascending l) : putAll l [] = l := by
  refine (ascending_putAll .nil).ext h fun j => ?_
  rw [lookup_putAll, h.lastValue?_eq, List.lookup_nil, Option.or_none]

end Runs

section Sorting

def bytesLe (a b : String × String) : Bool := decide (Text.bytes a.1 ≤ Text.bytes b.1)

/-- The items in the order of the bytes of their keys. Items with one key keep their order. -/
def bytewise (items : List (String × String)) : List (String × String) := items.mergeSort bytesLe

theorem bytesLe_iff {a b : String × String} : bytesLe a b ↔ a.1 ≤ b.1 := by
  rw [bytesLe, decide_eq_true_eq, Text.le_iff_bytes_le]

theorem bytesLe_trans (a b c : String × String) (hab : bytesLe a b) (hbc : bytesLe b c) :
    bytesLe a c := bytesLe_iff.mpr ((bytesLe_iff.mp hab).trans (bytesLe_iff.mp hbc))

theorem bytesLe_total (a b : String × String) : bytesLe a b || bytesLe b a := by
  rw [Bool.or_eq_true, bytesLe_iff, bytesLe_iff]
  exact le_total a.1 b.1

theorem pairwise_bytewise (items : List (String × String)) :
    (bytewise items).Pairwise fun a b => a.1 ≤ b.1 :=
  (List.pairwise_mergeSort bytesLe_trans bytesLe_total items).imp bytesLe_iff.mp

/-- Sorting does not change the order of the items with one key. -/
theorem filter_bytewise (items : List (String × String)) (j : String) :
    (bytewise items).filter (fun item => item.1 = j) = items.filter fun item => item.1 = j := by
  have hsub : List.Sublist (items.filter fun item => item.1 = j) (bytewise items) := by
    refine List.sublist_mergeSort bytesLe_trans bytesLe_total ?_ List.filter_sublist
    refine List.pairwise_of_forall_mem_list fun a ha b hb => ?_
    have hab : a.1 = b.1 := by
      have ha' := of_decide_eq_true (List.mem_filter.mp ha).2
      have hb' := of_decide_eq_true (List.mem_filter.mp hb).2
      rw [ha', hb']
    exact bytesLe_iff.mpr hab.le
  have hfilter := hsub.filter fun item => decide (item.1 = j)
  rw [List.filter_filter] at hfilter
  simp only [Bool.and_self] at hfilter
  have hperm := (List.mergeSort_perm items bytesLe).filter fun item => decide (item.1 = j)
  exact (hfilter.eq_of_length hperm.length_eq.symm).symm

/-- A run of settings comes to the same in the order of the bytes. -/
theorem putAll_bytewise (items : List (String × String)) :
    putAll (bytewise items) [] = putAll items [] := by
  refine (ascending_putAll .nil).ext (ascending_putAll .nil) fun j => ?_
  rw [lookup_putAll, lookup_putAll, lastValue?, lastValue?, filter_bytewise]

/-- Items with one key each are sorted alike whatever order they come in. -/
theorem bytewise_perm {items others : List (String × String)} (hn : (items.map Prod.fst).Nodup)
    (hp : items.Perm others) : bytewise items = bytewise others := by
  have hsame : ∀ a b, a ∈ bytewise items → b ∈ bytewise others → a.1 ≤ b.1 → b.1 ≤ a.1 →
      a = b := by
    intro a b ha hb hab hba
    refine List.inj_on_of_nodup_map hn ?_ ?_ (le_antisymm hab hba)
    · exact List.mem_mergeSort.mp ha
    · exact hp.mem_iff.mpr (List.mem_mergeSort.mp hb)
  have hsorted : (bytewise items).Perm (bytewise others) :=
    (List.mergeSort_perm items _).trans (hp.trans (List.mergeSort_perm others _).symm)
  exact hsorted.eq_of_pairwise hsame (pairwise_bytewise items) (pairwise_bytewise others)

theorem ascending_bytewise {items : List (String × String)} (hn : (items.map Prod.fst).Nodup) :
    Ascending (bytewise items) := by
  have hsorted : ((bytewise items).map Prod.fst).Nodup :=
    ((List.mergeSort_perm items bytesLe).map Prod.fst).nodup_iff.mpr hn
  have hne : (bytewise items).Pairwise fun a b => a.1 ≠ b.1 := List.pairwise_map.mp hsorted
  exact (pairwise_bytewise items).imp₂ (fun _ _ => lt_of_le_of_ne) hne

/-- Items with one key each are brought into order, and none is lost. -/
theorem putAll_perm {items : List (String × String)} (hn : (items.map Prod.fst).Nodup) :
    (putAll items []).Perm items := by
  rw [← putAll_bytewise, (ascending_bytewise hn).putAll_eq]
  exact List.mergeSort_perm items bytesLe

end Sorting

/-- An insertion shows at the keys that match, whatever spelling they have. -/
theorem Snapshot.get?_insert (s : Snapshot) (key value k : String) :
    (s.insert key value).get? k = if Key.Matches key k then some value else s.get? k := by
  rw [get?, insert, lookup_putEntry]
  simp only [Key.canonical_eq_iff, get?]

end GitInvocation
