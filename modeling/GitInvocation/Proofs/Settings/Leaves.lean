import GitInvocation.Proofs.Settings.Tree
import GitInvocation.Settings.KeyPath
import GitInvocation.Settings.Loading

/-!
# Leaves of the settings

The program has five settings, each a leaf of the tree with a type of its own. A layer that speaks
of nothing else acts on each leaf by itself: the leaf has the value that the layer gives it last,
and keeps its own when the layer does not mention it.
-/
namespace GitInvocation

open Setting

inductive SettingKey where
  | consoleVerbosity
  | fileVerbosity
  | logFile
  | snapshotFile
  | snapshotValues
  deriving DecidableEq

namespace SettingKey

def all : List SettingKey :=
  [.consoleVerbosity, .fileVerbosity, .logFile, .snapshotFile, .snapshotValues]

theorem mem_all (k : SettingKey) : k ∈ all := by cases k <;> decide

/-- The table that a leaf stands in. -/
def table : SettingKey → String
  | .consoleVerbosity | .fileVerbosity | .logFile => "global"
  | .snapshotFile | .snapshotValues => "snapshot"

/-- The name of a leaf in its table. -/
def name : SettingKey → String
  | .consoleVerbosity => "output_log_level"
  | .fileVerbosity => "file_log_level"
  | .logFile => "log_file"
  | .snapshotFile => "file"
  | .snapshotValues => "values"

/-- The full key of a leaf. -/
def key (k : SettingKey) : String := k.table ++ "." ++ k.name

def path (k : SettingKey) : KeyPath := ⟨k.table, [.member k.name]⟩

theorem parse?_key (k : SettingKey) : KeyPath.parse? k.key = some k.path := by
  cases k <;> decide +kernel

theorem ofKey_key (k : SettingKey) : KeyPath.ofKey k.key = k.path := by
  rw [KeyPath.ofKey, parse?_key, Option.getD_some]

theorem table_mem (k : SettingKey) : k.table ∈ Settings.tableNames := by cases k <;> decide

theorem eq_of_names {j k : SettingKey} (ht : j.table = k.table) (hn : j.name = k.name) : j = k := by
  revert ht hn
  cases j <;> cases k <;> decide

theorem eq_of_path {j k : SettingKey} (h : j.path = k.path) : j = k := by
  revert h
  cases j <;> cases k <;> decide

theorem eq_of_key {j k : SettingKey} (h : j.key = k.key) : j = k := by
  revert h
  cases j <;> cases k <;> decide +kernel

/-- What a leaf holds. -/
def Value : SettingKey → Type
  | .consoleVerbosity | .fileVerbosity => Verbosity
  | .logFile | .snapshotFile => Option String
  | .snapshotValues => List String

instance (k : SettingKey) : DecidableEq k.Value :=
  match k with
  | .consoleVerbosity | .fileVerbosity => inferInstanceAs (DecidableEq Verbosity)
  | .logFile | .snapshotFile => inferInstanceAs (DecidableEq (Option String))
  | .snapshotValues => inferInstanceAs (DecidableEq (List String))

/-- A setting as the value of a leaf. -/
def read : (k : SettingKey) → Setting → Except TreeFault k.Value
  | .consoleVerbosity, s => s.toVerbosity (key .consoleVerbosity)
  | .fileVerbosity, s => s.toVerbosity (key .fileVerbosity)
  | .logFile, s => s.toText? (key .logFile)
  | .snapshotFile, s => s.toText? (key .snapshotFile)
  | .snapshotValues, s => s.toTexts (key .snapshotValues)

/-- What is checked beyond the type. -/
def check : (k : SettingKey) → k.Value → Except SettingFault Unit
  | .snapshotValues, entries => checkEntries 0 entries
  | _, _ => .ok ()

/-- A setting is valid for a leaf. -/
def accepts (k : SettingKey) (s : Setting) : Bool :=
  match k.read s with
  | .ok v => (k.check v).isOk
  | .error _ => false

theorem accepts_iff {k : SettingKey} {s : Setting} :
    k.accepts s ↔ ∃ v, k.read s = .ok v ∧ k.check v = .ok () := by
  rw [accepts]
  cases k.read s with
  | error => simp
  | ok v => cases h : k.check v <;> simp [h, Except.isOk, Except.toBool]

end SettingKey

theorem ofKey_tableName {t : String} (h : t ∈ Settings.tableNames) : KeyPath.ofKey t = ⟨t, []⟩ := by
  revert t
  decide +kernel

/-- There is a leaf of the name in the table. -/
def known (t name : String) : Bool := SettingKey.all.any fun k => k.table = t && k.name = name

theorem known_iff {t name : String} :
    known t name ↔ ∃ k : SettingKey, k.table = t ∧ k.name = name := by
  rw [known, List.any_eq_true]
  constructor
  · rintro ⟨k, -, hk⟩
    exact ⟨k, by simpa using hk⟩
  · rintro ⟨k, hk⟩
    exact ⟨k, k.mem_all, by simpa using hk⟩

/-- A member of a layer that holds leaves and nothing else: one leaf under its full key, or a table
with some of its leaves. -/
def holdsLeaves : String × Setting → Bool
  | (t, .table _ leaves) =>
    t ∈ Settings.tableNames && leaves.all fun leaf => known t leaf.1 && !leaf.2.isTable
  | (key, _) => SettingKey.all.any fun k => k.key = key

theorem holdsLeaves_cases {m : String × Setting} (h : holdsLeaves m) :
    (∃ k s, m = (SettingKey.key k, s) ∧ s.isTable = false) ∨
    ∃ t origin leaves, m = (t, .table origin leaves) ∧ t ∈ Settings.tableNames ∧
      (∀ leaf ∈ leaves, known t leaf.1) ∧ ∀ leaf ∈ leaves, leaf.2.isTable = false := by
  obtain ⟨key, s⟩ := m
  have hkey (h : SettingKey.all.any fun k => k.key = key) : ∃ k : SettingKey, k.key = key := by
    obtain ⟨k, -, hk⟩ := List.any_eq_true.mp h
    exact ⟨k, of_decide_eq_true hk⟩
  cases s with
  | leaf => exact .inl ((hkey h).imp fun k hk => ⟨_, by rw [hk], rfl⟩)
  | list => exact .inl ((hkey h).imp fun k hk => ⟨_, by rw [hk], rfl⟩)
  | table origin leaves =>
    simp only [holdsLeaves, Bool.and_eq_true, decide_eq_true_eq, List.all_eq_true,
      Bool.not_eq_true'] at h
    exact .inr ⟨key, origin, leaves, rfl, h.1, fun l hl => (h.2 l hl).1, fun l hl => (h.2 l hl).2⟩

namespace SettingKey

/-- What a member of a layer gives a leaf. -/
def given (k : SettingKey) : String × Setting → Option Setting
  | (t, .table _ leaves) => if t = k.table then leaves.reverse.lookup k.name else none
  | (key, s) => if key = k.key then some s else none

/-- What a layer gives a leaf: what the last of its members that mention it does. -/
def lastGiven (k : SettingKey) (layer : List (String × Setting)) : Option Setting :=
  layer.reverse.findSome? k.given

/-- What a tree has for a leaf. -/
def inTree? (k : SettingKey) (tree : Setting) : Option Setting :=
  ((tree.member? k.table).getD nil).member? k.name

theorem given_key {s : Setting} (hs : s.isTable = false) (j k : SettingKey) :
    k.given (j.key, s) = if j = k then some s else none := by
  have hkey : j.key = k.key ↔ j = k := ⟨eq_of_key, fun h => by rw [h]⟩
  cases s with
  | leaf => simp only [given, hkey]
  | list => simp only [given, hkey]
  | table => cases hs

theorem inTree?_updateMember (k : SettingKey) (t : String) (f : Setting → Setting)
    (tree : Setting) : k.inTree? (tree.updateMember t f) =
      if t = k.table then (f ((tree.member? t).getD nil)).member? k.name else k.inTree? tree := by
  rw [inTree?, member?_updateMember]
  by_cases h : t = k.table
  · rw [if_pos h, if_pos h, Option.getD_some]
  · rw [if_neg h, if_neg h]
    rfl

theorem set_path (j : SettingKey) {s : Setting} (hs : s.isTable = false) (tree : Setting) :
    j.path.set s tree =
      tree.updateMember j.table fun old => old.updateMember j.name fun _ => s := by
  rw [KeyPath.set, path]
  dsimp only [KeyPath.descend]
  rw [funext (merge_of_not_table hs)]

theorem inTree?_set_path (j k : SettingKey) {s : Setting} (hs : s.isTable = false)
    (tree : Setting) : k.inTree? (j.path.set s tree) =
      if j = k then some s else k.inTree? tree := by
  rw [set_path j hs, inTree?_updateMember, member?_updateMember]
  by_cases h : j = k
  · rw [if_pos h, h, if_pos rfl, if_pos rfl]
  · rw [if_neg h]
    by_cases ht : j.table = k.table
    · rw [if_pos ht, if_neg fun hn => h (eq_of_names ht hn), ht]
      rfl
    · rw [if_neg ht]

theorem set_tableName {t : String} (ht : t ∈ Settings.tableNames) (s tree : Setting) :
    (KeyPath.ofKey t).set s tree = tree.updateMember t s.merge := by
  rw [ofKey_tableName ht]
  rfl

/-- A member acts on each leaf by itself. -/
theorem inTree?_set {m : String × Setting} (h : holdsLeaves m) (k : SettingKey) (tree : Setting) :
    k.inTree? ((KeyPath.ofKey m.1).set m.2 tree) = (k.given m).or (k.inTree? tree) := by
  rcases holdsLeaves_cases h with ⟨j, s, rfl, hs⟩ | ⟨t, origin, leaves, rfl, ht, -, hl⟩
  · rw [ofKey_key, inTree?_set_path j k hs, given_key hs]
    by_cases hj : j = k
    · rw [if_pos hj, if_pos hj, Option.some_or]
    · rw [if_neg hj, if_neg hj, Option.none_or]
  · rw [set_tableName ht, inTree?_updateMember, given]
    by_cases hk : t = k.table
    · rw [if_pos hk, if_pos hk, member?_merge_table hl, hk]
      rfl
    · rw [if_neg hk, if_neg hk, Option.none_or]

theorem inTree?_layer {layer : List (String × Setting)} (h : ∀ m ∈ layer, holdsLeaves m)
    (k : SettingKey) (tree : Setting) :
    k.inTree? (Setting.layer layer tree) = (k.lastGiven layer).or (k.inTree? tree) :=
  view_foldl (fun tree m hm => inTree?_set (h m hm) k tree) tree

end SettingKey

/-- A member of the root that is a table of known leaves. -/
def LeafTable (t : String) (s : Setting) : Prop :=
  t ∈ Settings.tableNames ∧ s.isTable ∧ Orderly (fun name _ => known t name) s

/-- A tree in which there is nothing but leaves, each of them once. -/
def Formed (tree : Setting) : Prop := Orderly LeafTable tree

namespace Formed

variable {tree : Setting}

theorem empty : Formed (.table none []) := Orderly.of_no_members rfl

theorem known_member (h : Formed tree) (t : String) :
    Orderly (fun name _ => known t name) ((tree.member? t).getD nil) := by
  cases hm : tree.member? t with
  | none => exact Orderly.of_no_members rfl
  | some s => exact (h.fits hm).2.2

theorem nil_or_table (h : Formed tree) (t : String) :
    (tree.member? t).getD nil = nil ∨ ((tree.member? t).getD nil).isTable := by
  cases hm : tree.member? t with
  | none => exact .inl rfl
  | some s => exact .inr (h.fits hm).2.1

theorem set_path (h : Formed tree) (j : SettingKey) {s : Setting} (hs : s.isTable = false) :
    Formed (j.path.set s tree) := by
  rw [j.set_path hs]
  refine h.updateMember ⟨j.table_mem, isTable_updateMember _ _ _, ?_⟩
  exact (h.known_member j.table).updateMember (known_iff.mpr ⟨j, rfl, rfl⟩)

theorem set (h : Formed tree) {m : String × Setting} (hm : holdsLeaves m) :
    Formed ((KeyPath.ofKey m.1).set m.2 tree) := by
  rcases holdsLeaves_cases hm with ⟨j, s, rfl, hs⟩ | ⟨t, origin, leaves, rfl, ht, hk, -⟩
  · rw [j.ofKey_key]
    exact h.set_path j hs
  · rw [SettingKey.set_tableName ht]
    refine h.updateMember ⟨ht, isTable_merge_table origin leaves (h.nil_or_table t), ?_⟩
    exact (h.known_member t).merge_table origin fun leaf hl _ => hk leaf hl

theorem layer (h : Formed tree) {layer : List (String × Setting)}
    (hl : ∀ m ∈ layer, holdsLeaves m) : Formed (Setting.layer layer tree) :=
  List.foldlRecOn layer _ h fun _ ht m hm => ht.set (hl m hm)

end Formed

end GitInvocation
