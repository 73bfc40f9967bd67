import GitInvocation.Proofs.Json.Accepting
import GitInvocation.Proofs.Json.Writing
import GitInvocation.Proofs.Snapshot.History

/-!
# Tables of keys

A snapshot is written as an object with a string for each key, and reading the object gives the
snapshot back. Objects that were not written by a snapshot may have several members for one key, in
different spellings. The members are sorted as they are spelled before any of them is inserted, so
their order makes no difference: the spelling that is greatest by its bytes counts.
-/
namespace GitInvocation

open Json.Reader (Demand Reads decodeText decodeText_none_iff decodeText_spelled deepest)
open Json.Lexeme (Spelled)

namespace Snapshot

variable {s : Snapshot}

/-- Sorting leaves the entries of a lawful snapshot as they are. -/
theorem Lawful.ofTable_entries (hs : s.Lawful) : ofTable s.entries = s := by
  have hsorted : putAll s.entries [] = s.entries := hs.ascending.putAll_eq
  show ofList (putAll s.entries []) = s
  rw [hsorted, hs.ofList_entries]

end Snapshot

namespace Standalone

variable {items : List (String × String)} {text : String}

/-- An object with a string for each key. -/
def stringObject (items : List (String × String)) : Json :=
  .object (items.map fun item => (item.1, .string item.2))

theorem writable_stringObject (items : List (String × String)) : (stringObject items).Writable := by
  refine .object fun m hm => ?_
  obtain ⟨item, -, rfl⟩ := List.mem_map.mp hm
  exact .string item.2

theorem depth_stringObject (items : List (String × String)) : (stringObject items).depth ≤ 1 := by
  refine Nat.succ_le_succ (Json.memberDepth_le fun m hm => ?_)
  obtain ⟨item, -, rfl⟩ := List.mem_map.mp hm
  exact Nat.zero_le 0

/-- An object of strings is all that is demanded of a table. -/
theorem reads_stringObject (items : List (String × String)) :
    Reads snapshotDemand [] (stringObject items) := by
  apply Json.Reader.reads_object (by decide) rfl
  apply Json.Reader.membersRead_of_forall (fun _ _ _ => rfl)
  intro m hm done
  obtain ⟨item, -, rfl⟩ := List.mem_map.mp hm
  exact Json.Reader.reads_string rfl

theorem decodeTable_stringObject (items : List (String × String)) :
    decodeTable (stringObject items) = .ok items := by
  rw [stringObject, decodeTable]
  induction items with
  | nil => rfl
  | cons item items ih =>
    rw [List.map_cons, List.mapM_cons, ih]
    rfl

/-- Each text that spells an object of strings is read as the snapshot of its members. -/
theorem snapshot_of_spelled (h : Spelled text.toList (stringObject items).lexemes) :
    snapshot text = .ok (.ofTable items) := by
  rw [snapshot_eq_table, table, decodeText_spelled h (reads_stringObject items),
    decodeTable_stringObject]
  rfl

theorem spelled_snapshotText (s : Snapshot) :
    Spelled (snapshotText s).toList (stringObject s.entries).lexemes :=
  (writable_stringObject s.entries).spelled

/-- A snapshot is written as an object with its entries, and read back from it. The order of the
members of an object makes no difference to the snapshot that is read. -/
theorem tables_read_back :
    (∀ h : History,
      decodeText Demand.none .ok (snapshotText h.snapshot) =
        .ok (stringObject h.snapshot.entries) ∧
      snapshot (snapshotText h.snapshot) = .ok h.snapshot) ∧
    ∀ members others : List (String × String), (members.map Prod.fst).Nodup →
      members.Perm others → ∀ text text' : String,
      Spelled text.toList (stringObject members).lexemes →
      Spelled text'.toList (stringObject others).lexemes →
      snapshot text = .ok (.ofList (bytewise members)) ∧ snapshot text' = snapshot text := by
  constructor
  · intro h
    have hdepth : (stringObject h.snapshot.entries).depth ≤ deepest :=
      (depth_stringObject _).trans (by decide)
    refine ⟨decodeText_none_iff.mpr ⟨spelled_snapshotText _, hdepth⟩, ?_⟩
    rw [snapshot_of_spelled (spelled_snapshotText h.snapshot), h.lawful_snapshot.ofTable_entries]
  · intro members others hn hp text text' ht ht'
    rw [snapshot_of_spelled ht, snapshot_of_spelled ht', Snapshot.ofTable_eq_ofList,
      Snapshot.ofTable_eq_ofList, bytewise_perm hn hp]
    exact ⟨rfl, rfl⟩

/-- Two spellings of a key in both orders, and a key that is empty beside one with an equals
sign. The entries are those that are stored. -/
theorem tables_read_back_twoSpellings :
    let text := "\x7b\"a.X\":\"2\",\"A.x\":\"1\",\"=\":\"\"\x7d"
    let text' := "\x7b\"A.x\":\"1\",\"=\":\"\",\"a.X\":\"2\"\x7d"
    snapshot text = .ok ⟨[("=", ""), ("a.x", "2")]⟩ ∧ snapshot text' = snapshot text ∧
      snapshot (snapshotText ⟨[("", "\"\n"), ("=.É.b", "é")]⟩) =
        .ok ⟨[("", "\"\n"), ("=.É.b", "é")]⟩ := by
  intro text text'
  obtain ⟨hwritten, hordered⟩ := tables_read_back
  have hspelled : ∀ {items : List (String × String)} {t : String}, t = (stringObject items).text →
      Spelled t.toList (stringObject items).lexemes :=
    fun h => h ▸ (writable_stringObject _).spelled
  have hread := hordered [("a.X", "2"), ("A.x", "1"), ("=", "")]
    [("A.x", "1"), ("=", ""), ("a.X", "2")] (by decide +kernel) (by decide +kernel) text text'
    (hspelled (by decide +kernel)) (hspelled (by decide +kernel))
  have hcollected : (History.collect [("=.É.B", "é"), ("", "\"\n")]).snapshot =
      ⟨[("", "\"\n"), ("=.É.b", "é")]⟩ := by decide +kernel
  refine ⟨?_, hread.2, hcollected ▸ (hwritten (.collect [("=.É.B", "é"), ("", "\"\n")])).2⟩
  rw [hread.1, ← Snapshot.ofTable_eq_ofList]
  exact congrArg Except.ok (by decide +kernel)

end Standalone

end GitInvocation
