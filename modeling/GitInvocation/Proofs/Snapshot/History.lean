import GitInvocation.Proofs.Snapshot.Listing
import GitInvocation.Standalone
import Mathlib.Data.Finset.Card

/-!
# The history of a snapshot

However a snapshot came about, it is what is left of the writes in its history, done one after the
other on an empty snapshot. What it holds for a key, and how many keys it has, therefore depends
on the writes alone. A listing writes its entries, as they stand in its lines. A listing or a table
of keys that cannot be read is not part of the history.
-/
namespace GitInvocation

namespace Standalone

/-- The members of an object of strings. -/
def decodeTable : Json → Except DecodeError (List (String × String))
  | .object members => members.mapM fun m => (Json.Format.string.decode m.2).map fun v => (m.1, v)
  | v => .error (v.mismatch "a map")

def table (text : String) : Except DecodeError (List (String × String)) :=
  Json.Reader.decodeText snapshotDemand decodeTable text

theorem snapshot_eq_table (text : String) :
    snapshot text = (table text).map Snapshot.ofTable := by
  unfold snapshot table Json.Reader.decodeText
  cases Json.Reader.run snapshotDemand (.value false []) (Json.Lexeme.ofChars text.toList) with
  | error e => rfl
  | ok p =>
    obtain ⟨v, rest⟩ := p
    have hv : decodeSnapshot v = (decodeTable v).map Snapshot.ofTable := by
      cases v <;> rfl
    show (decodeSnapshot v).bind _ = Except.map _ ((decodeTable v).bind _)
    rw [hv]
    cases decodeTable v with
    | error e => rfl
    | ok members => cases rest.isEmpty <;> rfl

end Standalone

/-- How a snapshot came about: a key is set, in place or in a copy; pairs are collected; another
snapshot is laid on top; a listing or a table of keys takes the place of what was there. -/
inductive History where
  | new
  | insert (before : History) (key value : String)
  | collect (items : List (String × String))
  | merge (before other : History)
  | load (before : History) (listing : String)
  | decode (before : History) (json : String)

namespace History

def snapshot : History → Snapshot
  | .new => .empty
  | .insert h key value => h.snapshot.insert key value
  | .collect items => .ofList items
  | .merge h other => h.snapshot.merge other.snapshot
  | .load h listing =>
    match Snapshot.ofListing listing with
    | .ok s => s
    | .error _ => h.snapshot
  | .decode h json =>
    match Standalone.snapshot json with
    | .ok s => s
    | .error _ => h.snapshot

/-- The writes that count, the earliest first. -/
def writes : History → List (String × String)
  | .new => []
  | .insert h key value => h.writes ++ [(key, value)]
  | .collect items => items
  | .merge h other => h.writes ++ other.snapshot.entries
  | .load h listing =>
    match Snapshot.listingFaults listing with
    | [] => Snapshot.listingEntries listing
    | _ :: _ => h.writes
  | .decode h json =>
    match Standalone.table json with
    | .ok members => bytewise members
    | .error _ => h.writes

/-- A snapshot is what its writes leave of an empty one. -/
theorem snapshot_eq_ofList (h : History) : h.snapshot = .ofList h.writes := by
  induction h with
  | new => rfl
  | insert h key value ih =>
    rw [snapshot, writes, ih, Snapshot.ofList, Snapshot.ofList, Snapshot.insertAll_append]
    rfl
  | collect items => rfl
  | merge h other ih ihOther =>
    have ho : other.snapshot.Lawful := ihOther ▸ Snapshot.lawful_ofList other.writes
    rw [snapshot, writes, Snapshot.merge_eq_insertAll ho, ih, Snapshot.ofList, Snapshot.ofList,
      Snapshot.insertAll_append]
  | load h listing ih =>
    rw [snapshot, writes, Snapshot.ofListing_eq]
    cases Snapshot.listingFaults listing with
    | nil => rfl
    | cons fault faults => exact ih
  | decode h json ih =>
    rw [snapshot, writes, Standalone.snapshot_eq_table]
    cases Standalone.table json with
    | error e => exact ih
    | ok members => exact Snapshot.ofTable_eq_ofList members

theorem lawful_snapshot (h : History) : h.snapshot.Lawful := by
  rw [h.snapshot_eq_ofList]
  exact Snapshot.lawful_ofList h.writes

/-- The kinds of the keys that are written. -/
def kinds (h : History) : Finset (Quotient Key.matching) :=
  (h.writes.map fun item => Quotient.mk Key.matching item.1).toFinset

/-- There is one entry for each kind. -/
theorem size_ofList (h : History) : (Snapshot.ofList h.writes).size = h.kinds.card := by
  have hlawful := Snapshot.lawful_ofList h.writes
  have hnodup : ((Snapshot.ofList h.writes).entries.map Prod.fst).Nodup :=
    List.pairwise_map.mpr (hlawful.ascending.imp fun hab => ne_of_lt hab)
  have hkeys : ((Snapshot.ofList h.writes).entries.map Prod.fst).toFinset =
      h.kinds.image Key.canonicalOf := by
    ext j
    rw [List.mem_toFinset, Snapshot.ofList, Snapshot.entries_insertAll, Snapshot.empty,
      mem_keys_putAll, Finset.mem_image, Snapshot.canonicalItems, List.map_map, List.mem_map]
    simp only [kinds, List.mem_toFinset, List.mem_map]
    constructor
    · rintro ⟨item, hi, rfl⟩
      exact ⟨_, ⟨item, hi, rfl⟩, rfl⟩
    · rintro ⟨kind, ⟨item, hi, rfl⟩, rfl⟩
      exact ⟨item, hi, rfl⟩
  rw [Snapshot.size, ← List.length_map Prod.fst, ← List.toFinset_card_of_nodup hnodup, hkeys,
    Finset.card_image_of_injective _ Key.canonicalOf_injective]

/-- The store law. The keys ascend by their bytes and are canonical; a key has the value of the
last write to a matching key, and none without such a write; keys are counted by kind; and a
listing or table that cannot be read changes nothing. -/
theorem store_law (h : History) :
    (h.snapshot.entries.Pairwise fun a b => Text.bytes a.1 < Text.bytes b.1) ∧
    (∀ e ∈ h.snapshot.entries, Key.canonical e.1 = e.1) ∧
    (∀ k, h.snapshot.get? k = lastValue? (fun key => Key.Matches key k) h.writes) ∧
    (∀ k, h.snapshot.get? k = none ↔ ∀ item ∈ h.writes, ¬ Key.Matches item.1 k) ∧
    h.snapshot.size = h.kinds.card ∧
    (h.snapshot.isEmpty ↔ h.writes = []) ∧
    (∀ listing e, Snapshot.ofListing listing = .error e →
      (h.load listing).snapshot = h.snapshot) ∧
    ∀ json e, Standalone.snapshot json = .error e → (h.decode json).snapshot = h.snapshot := by
  have hs := h.snapshot_eq_ofList
  have hget : ∀ k, h.snapshot.get? k = lastValue? (fun key => Key.Matches key k) h.writes := by
    intro k
    rw [hs, Snapshot.get?_ofList]
  have hsize : h.snapshot.size = h.kinds.card := by rw [hs, size_ofList]
  refine ⟨?_, ?_, hget, ?_, hsize, ?_, ?_, ?_⟩
  · rw [hs]
    exact (Snapshot.lawful_ofList h.writes).ascending.imp Text.lt_iff_bytes_lt.mp
  · rw [hs]
    exact (Snapshot.lawful_ofList h.writes).canonical
  · intro k
    rw [hget, lastValue?_eq_none]
    simp only [decide_eq_false_iff_not]
  · rw [Snapshot.isEmpty, List.isEmpty_iff, ← List.length_eq_zero_iff]
    rw [show h.snapshot.entries.length = h.kinds.card from hsize, Finset.card_eq_zero, kinds,
      List.toFinset_eq_empty_iff, List.map_eq_nil_iff]
  · intro listing e he
    rw [snapshot, he]
  · intro json e he
    rw [snapshot, he]

end History

end GitInvocation
