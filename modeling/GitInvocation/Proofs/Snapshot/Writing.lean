import GitInvocation.Proofs.Snapshot.Entries
import Mathlib.Data.List.Induction

/-!
# Writing to a snapshot

Items are written to a snapshot one after the other, each under the canonical spelling of its key.
The entries stay in ascending order, a key has the last value that was written to it in any of its
spellings, and writing the entries of a snapshot is the same as laying it on top.
-/
namespace GitInvocation.Snapshot

variable {s other : Snapshot} {items : List (String × String)}

/-- Ascending keys, each in its canonical spelling. -/
structure Lawful (s : Snapshot) : Prop where
  ascending : Ascending s.entries
  canonical : ∀ e ∈ s.entries, Key.canonical e.1 = e.1

def canonicalItems (items : List (String × String)) : List (String × String) :=
  items.map fun item => (Key.canonical item.1, item.2)

theorem entries_insertAll (s : Snapshot) (items : List (String × String)) :
    (s.insertAll items).entries = putAll (canonicalItems items) s.entries := by
  rw [putAll, canonicalItems, List.foldl_map]
  induction items generalizing s with
  | nil => rfl
  | cons item items ih => exact ih (s.insert item.1 item.2)

theorem insertAll_append (s : Snapshot) (items more : List (String × String)) :
    s.insertAll (items ++ more) = (s.insertAll items).insertAll more := List.foldl_append

theorem lawful_ofList (items : List (String × String)) : (ofList items).Lawful := by
  refine ⟨?_, fun e he => ?_⟩
  · rw [ofList, entries_insertAll]
    exact ascending_putAll .nil
  · rw [ofList, entries_insertAll] at he
    rcases mem_putAll he with hm | hm
    · obtain ⟨item, -, rfl⟩ := List.mem_map.mp hm
      exact Key.canonical_canonical item.1
    · exact absurd hm List.not_mem_nil

theorem lastValue?_canonicalItems (items : List (String × String)) (k : String) :
    lastValue? (fun key => key = Key.canonical k) (canonicalItems items) =
      lastValue? (fun key => Key.Matches key k) items := by
  rw [lastValue?, lastValue?, canonicalItems, List.filter_map, List.getLast?_map, Option.map_map]
  simp only [Function.comp_def, Key.canonical_eq_iff]

/-- A key has, in any of its spellings, the last value written to it, or else the one it had. -/
theorem get?_insertAll (s : Snapshot) (items : List (String × String)) (k : String) :
    (s.insertAll items).get? k =
      (lastValue? (fun key => Key.Matches key k) items).or (s.get? k) := by
  rw [get?, entries_insertAll, lookup_putAll, lastValue?_canonicalItems]
  rfl

/-- A snapshot gives a key, in any of its spellings, the last value written to it. -/
theorem get?_ofList (items : List (String × String)) (k : String) :
    (ofList items).get? k = lastValue? (fun key => Key.Matches key k) items := by
  rw [ofList, get?_insertAll]
  exact Option.or_none

theorem canonicalItems_of_canonical (h : ∀ e ∈ items, Key.canonical e.1 = e.1) :
    canonicalItems items = items := by
  rw [canonicalItems]
  refine (List.map_congr_left fun e he => ?_).trans (List.map_id items)
  rw [h e he]
  rfl

/-- The entries of a lawful snapshot are written as they are. -/
theorem Lawful.entries_insertAll (ho : other.Lawful) (s : Snapshot) :
    (s.insertAll other.entries).entries = putAll other.entries s.entries := by
  rw [Snapshot.entries_insertAll, canonicalItems_of_canonical ho.canonical]

/-- The entries of a lawful snapshot make up the snapshot. -/
theorem Lawful.ofList_entries (hs : s.Lawful) : ofList s.entries = s :=
  congrArg Snapshot.mk ((hs.entries_insertAll empty).trans hs.ascending.putAll_eq)

/-- To lay a lawful snapshot on top is to write its entries. -/
theorem merge_eq_insertAll (ho : other.Lawful) : s.merge other = s.insertAll other.entries :=
  congrArg Snapshot.mk (ho.entries_insertAll s).symm

theorem insert_insert (s : Snapshot) (key value before : String) :
    (s.insert key before).insert key value = s.insert key value :=
  congrArg Snapshot.mk (putEntry_putEntry (Key.canonical key) value before)

/-- An item that is sorted in last is written last. -/
theorem insertAll_putEntry {key value : String} {l : List (String × String)} (ha : Ascending l)
    (hl : ∀ e ∈ l, e.1 ≤ key) :
    s.insertAll (putEntry key value l) = (s.insertAll l).insert key value := by
  induction l generalizing s with
  | nil => rfl
  | cons e rest ih =>
    obtain ⟨k, v⟩ := e
    obtain ⟨hk, hrest⟩ := List.pairwise_cons.mp ha
    have hle : k ≤ key := hl (k, v) List.mem_cons_self
    rw [putEntry]
    by_cases he : key = k
    · have hnil : rest = [] := by
        cases rest with
        | nil => rfl
        | cons f rest =>
          have hlt : k < f.1 := hk f List.mem_cons_self
          have hf : f.1 ≤ key := hl f (List.mem_cons_of_mem _ List.mem_cons_self)
          exact absurd (he ▸ hf) (not_le.mpr hlt)
      subst hnil
      rw [if_pos he, ← he]
      exact (insert_insert s key value v).symm
    · rw [if_neg he, if_neg (not_lt.mpr hle)]
      exact ih hrest fun f hf => hl f (List.mem_cons_of_mem _ hf)

theorem ofList_putAll (h : items.Pairwise fun a b => a.1 ≤ b.1) :
    ofList (putAll items []) = ofList items := by
  induction items using List.reverseRecOn with
  | nil => rfl
  | append_singleton items item ih =>
    obtain ⟨hitems, -, hlast⟩ := List.pairwise_append.mp h
    have hbound : ∀ e ∈ putAll items [], e.1 ≤ item.1 := by
      intro e he
      rcases mem_putAll he with hm | hm
      · exact hlast e hm item List.mem_cons_self
      · exact absurd hm List.not_mem_nil
    have hput : putAll (items ++ [item]) [] = putEntry item.1 item.2 (putAll items []) := by
      rw [putAll_append]
      rfl
    rw [hput, ofList, insertAll_putEntry (ascending_putAll .nil) hbound, ofList, insertAll_append]
    exact congrArg (·.insert item.1 item.2) (ih hitems)

/-- The members of a table count in the order of the bytes of their keys. -/
theorem ofTable_eq_ofList (members : List (String × String)) :
    ofTable members = ofList (bytewise members) := by
  rw [← ofList_putAll (pairwise_bytewise members), putAll_bytewise]
  rfl

end GitInvocation.Snapshot
