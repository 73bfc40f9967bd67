import GitInvocation.Proofs.Settings.Leaves

/-!
# Reading the leaves

A tree that holds nothing but leaves is read leaf by leaf, and nothing but the setting of a leaf
decides on its value. A leaf that is missing in the tree keeps its default.
-/
namespace GitInvocation

/-- What a tree is read into, when it can be read and its entries pass. -/
def Setting.settings (tree : Setting) : Except LoadFault Settings :=
  ((Settings.ofMembers tree.members).mapError .badTree).bind fun settings =>
    ((checkEntries 0 settings.snapshotValues).mapError .badSetting).map fun _ => settings

/-- The layers make a tree first, and nothing but this tree is read. -/
theorem Loader.loadBy_eq_bind (order : LayerOrder) (l : Loader) (files : FileTree)
    (environment : List (String × String)) :
    l.loadBy order files environment =
      (l.treeBy order files environment).bind Setting.settings := by
  rw [loadBy]
  cases l.treeBy order files environment with
  | error e => rfl
  | ok tree =>
    dsimp only [bind, Except.bind]
    rw [Setting.settings]
    cases tree
    -- What is no table has no members, so all three cases are read in the same way.
    all_goals
      dsimp only [Setting.members]
      generalize Settings.ofMembers _ = read
      cases read with
      | error e => rfl
      | ok settings =>
        dsimp only [Except.mapError, Except.bind]
        cases checkEntries 0 settings.snapshotValues <;> rfl

theorem Loader.load_eq_bind (l : Loader) (files : FileTree) (environment : List (String × String)) :
    l.load files environment = (l.tree files environment).bind Setting.settings :=
  l.loadBy_eq_bind .listed files environment

namespace Settings

def get (s : Settings) : (k : SettingKey) → k.Value
  | .consoleVerbosity => s.consoleVerbosity
  | .fileVerbosity => s.fileVerbosity
  | .logFile => s.logFile
  | .snapshotFile => s.snapshotFile
  | .snapshotValues => s.snapshotValues

end Settings

/-- The value that a leaf has under a setting; without one it keeps its default. -/
def SettingKey.valueOf (k : SettingKey) : Option Setting → Except TreeFault k.Value
  | some s => k.read s
  | none => .ok (Settings.default.get k)

namespace Settings

theorem eq_of_get {s target : Settings} (h : ∀ k, s.get k = target.get k) : s = target := by
  have hconsole : s.consoleVerbosity = target.consoleVerbosity := h .consoleVerbosity
  have hfile : s.fileVerbosity = target.fileVerbosity := h .fileVerbosity
  have hlog : s.logFile = target.logFile := h .logFile
  have hsnapshot : s.snapshotFile = target.snapshotFile := h .snapshotFile
  have hvalues : s.snapshotValues = target.snapshotValues := h .snapshotValues
  cases s
  cases target
  simp_all

theorem exists_get (value : (k : SettingKey) → k.Value) :
    ∃ s : Settings, ∀ k, s.get k = value k := by
  refine ⟨⟨value .consoleVerbosity, value .fileVerbosity, value .logFile, value .snapshotFile,
    value .snapshotValues⟩, fun k => ?_⟩
  cases k <;> rfl

/-- Settings in which one leaf is taken from others. -/
def take (s target : Settings) : SettingKey → Settings
  | .consoleVerbosity => { s with consoleVerbosity := target.consoleVerbosity }
  | .fileVerbosity => { s with fileVerbosity := target.fileVerbosity }
  | .logFile => { s with logFile := target.logFile }
  | .snapshotFile => { s with snapshotFile := target.snapshotFile }
  | .snapshotValues => { s with snapshotValues := target.snapshotValues }

theorem get_take (s target : Settings) (j k : SettingKey) :
    (s.take target j).get k = if j = k then target.get k else s.get k := by
  cases j <;> cases k <;> rfl

variable {target out : Settings} {k : SettingKey} {s : Setting}

theorem fields_eq {title key : String} {names : List String} {origin : Option String}
    {leaves : List (String × Setting)} (h : ∀ leaf ∈ leaves, leaf.1 ∈ names) :
    (Setting.table origin leaves).fields title key names =
      .ok (leaves.map fun leaf => (leaf.1, key ++ "." ++ leaf.1, leaf.2)) := by
  rw [Setting.fields]
  induction leaves with
  | nil => rfl
  | cons leaf rest ih =>
    obtain ⟨name, s⟩ := leaf
    rw [List.mapM_cons, ih fun leaf hl => h leaf (List.mem_cons_of_mem _ hl)]
    dsimp only
    rw [if_pos (h (name, s) List.mem_cons_self)]
    rfl

/-- What is read for each name of a table. -/
def readLeaf (t : String) (out : Settings) (leaf : String × Setting) : Except TreeFault Settings :=
  if t = "global" then readGlobal out leaf.1 (t ++ "." ++ leaf.1) leaf.2
  else readSnapshot out leaf.1 (t ++ "." ++ leaf.1) leaf.2

theorem readLeaf_eq (h : k.read s = .ok (target.get k)) :
    readLeaf k.table out (k.name, s) = .ok (out.take target k) := by
  cases k with
  | consoleVerbosity => exact congrArg (Except.map _) h
  | fileVerbosity => exact congrArg (Except.map _) h
  | logFile => exact congrArg (Except.map _) h
  | snapshotFile => exact congrArg (Except.map _) h
  | snapshotValues => exact congrArg (Except.map _) h

theorem mem_names_of_known {t name : String} (h : known t name) :
    name ∈ if t = "global" then globalNames else snapshotNames := by
  obtain ⟨k, rfl, rfl⟩ := known_iff.mp h
  cases k <;> decide

theorem readTable_eq {t : String} (ht : t ∈ tableNames) (origin : Option String)
    {leaves : List (String × Setting)} (h : ∀ leaf ∈ leaves, known t leaf.1) :
    readTable out t (.table origin leaves) = leaves.foldlM (readLeaf t) out := by
  have hnames : ∀ leaf ∈ leaves, leaf.1 ∈ if t = "global" then globalNames else snapshotNames :=
    fun leaf hl => mem_names_of_known (h leaf hl)
  have hcases : t = "global" ∨ t = "snapshot" := by simpa [tableNames] using ht
  rcases hcases with rfl | rfl
  · rw [if_pos rfl] at hnames
    rw [readTable, if_pos rfl, fields_eq hnames]
    exact List.foldlM_map ..
  · rw [if_neg (by decide)] at hnames
    rw [readTable, if_neg (by decide), if_pos rfl, fields_eq hnames]
    exact List.foldlM_map ..

/-- A table of leaves that are all valid is read, and none of the leaves that are right before is
changed. -/
theorem readTable_gains {t : String} (ht : LeafTable t s)
    (hread : ∀ k : SettingKey, k.table = t → ∀ v, s.member? k.name = some v →
      k.read v = .ok (target.get k)) (out : Settings) :
    ∃ after, readTable out t s = .ok after ∧ ∀ k : SettingKey,
      (out.get k = target.get k ∨ k.table = t ∧ (s.member? k.name).isSome) →
        after.get k = target.get k := by
  obtain ⟨hname, htable, hleaves⟩ := ht
  cases s with
  | leaf => cases htable
  | list => cases htable
  | table origin leaves =>
    have hknown : ∀ leaf ∈ leaves, known t leaf.1 := hleaves.every
    rw [readTable_eq hname origin hknown]
    have hstep : ∀ leaf ∈ leaves, ∀ out, ∃ after, readLeaf t out leaf = .ok after ∧
        ∀ k : SettingKey, (out.get k = target.get k ∨ (k.table = t ∧ k.name = leaf.1)) →
          after.get k = target.get k := by
      intro leaf hl out
      obtain ⟨j, rfl, hj⟩ := known_iff.mp (hknown leaf hl)
      have hleaf : readLeaf j.table out (j.name, leaf.2) = .ok (out.take target j) :=
        readLeaf_eq (hread j rfl leaf.2 (hj ▸ hleaves.member?_of_mem hl))
      refine ⟨_, by rw [hj] at hleaf; exact hleaf, fun k hk => ?_⟩
      rw [get_take]
      rcases hk with hk | ⟨hkt, hkn⟩
      · rw [hk, ite_self]
      · exact if_pos (SettingKey.eq_of_names hkt (hkn.trans hj.symm)).symm
    obtain ⟨after, hafter, hgood⟩ := foldlM_gains hstep out
    refine ⟨after, hafter, fun k hk => hgood k (hk.imp id fun ⟨hkt, hks⟩ => ?_)⟩
    obtain ⟨v, hv⟩ := Option.isSome_iff_exists.mp hks
    exact ⟨_, mem_of_lookup hv, hkt, rfl⟩

/-- A tree of nothing but leaves is read into the settings that have the value of each leaf in the
tree, and the default of every other. -/
theorem ofMembers_eq {tree : Setting} (h : Formed tree)
    (hvalue : ∀ k : SettingKey, k.valueOf (k.inTree? tree) = .ok (target.get k)) :
    ofMembers tree.members = .ok target := by
  have hstep : ∀ m ∈ tree.members, ∀ out, ∃ after, readTable out m.1 m.2 = .ok after ∧
      ∀ k : SettingKey, (out.get k = target.get k ∨
        (k.table = m.1 ∧ (m.2.member? k.name).isSome)) → after.get k = target.get k := by
    intro m hm out
    refine readTable_gains (h.every m hm) (fun k hk v hv => ?_) out
    have hin : k.inTree? tree = some v := by
      rw [SettingKey.inTree?, hk, h.member?_of_mem hm]
      exact hv
    have hread := hvalue k
    rw [hin] at hread
    exact hread
  obtain ⟨after, hafter, hgood⟩ := foldlM_gains hstep default
  have hall : after = target := eq_of_get fun k => by
    refine hgood k ?_
    have hread := hvalue k
    cases hk : k.inTree? tree with
    | none =>
      rw [hk] at hread
      exact .inl (Except.ok.inj hread)
    | some s =>
      rw [SettingKey.inTree?] at hk
      cases ht : tree.member? k.table with
      | none =>
        rw [ht] at hk
        cases hk
      | some v =>
        rw [ht, Option.getD_some] at hk
        exact .inr ⟨_, mem_of_lookup ht, rfl, hk ▸ rfl⟩
  rw [ofMembers, ← hall]
  exact hafter

end Settings

end GitInvocation
