import GitInvocation.Proofs.Outcomes
import GitInvocation.Proofs.Settings.Layering

/-!
# Keys that nobody knows

Laying something over a tree takes no key away from a table, as long as what stands for a table is
one in every layer. A key that nobody knows, in the root or in one of its tables, is therefore
still there when all layers have been laid on top of one another, and then the tree cannot be read.
An override that another one of the same path has replaced is in no layer.
-/
namespace GitInvocation

open Setting

/-- What is laid at the end of a path leaves the setting at the root of the path a table. -/
def keepsTable : KeyPath × Setting → Bool
  | (⟨_, []⟩, s) => s.isTable
  | (⟨_, .member _ :: _⟩, _) => true
  | (⟨_, .item _ :: _⟩, _) => false

/-- The names that get into the table at the root of the path. -/
def namesSet : KeyPath × Setting → List String
  | (⟨_, []⟩, s) => s.members.map Prod.fst
  | (⟨_, .member name :: _⟩, _) => [name]
  | (⟨_, .item _ :: _⟩, _) => []

/-- The names that are known in a table of the root. -/
def Settings.namesIn (table : String) : List String :=
  if table = "global" then globalNames else if table = "snapshot" then snapshotNames else []

/-- There is no such table in the root, or no such name in the table. -/
def Unknown (m : KeyPath × Setting) : Prop :=
  m.1.root ∉ Settings.tableNames ∨ ∃ name ∈ namesSet m, name ∉ Settings.namesIn m.1.root

instance (m : KeyPath × Setting) : Decidable (Unknown m) :=
  inferInstanceAs (Decidable (_ ∨ _))

namespace Setting

variable {name : String} {l : List (String × Setting)} {s old : Setting}

/-- Laying something over a table only ever adds names to it. -/
theorem has_updateMember (key : String) (f : Setting → Setting) (s : Setting) :
    ((s.updateMember key f).member? name).isSome ↔ key = name ∨ (s.member? name).isSome := by
  rw [member?_updateMember]
  by_cases h : key = name <;> simp [h]

theorem has_mergeMembers : ((mergeMembers l s).member? name).isSome ↔
    name ∈ l.map Prod.fst ∨ (s.member? name).isSome := by
  rw [mergeMembers_eq_foldl]
  induction l generalizing s with
  | nil => simp
  | cons m l ih =>
    rw [List.foldl_cons, ih, has_updateMember, List.map_cons, List.mem_cons, ← or_assoc,
      or_comm (a := name ∈ _), eq_comm]

theorem has_merge_table (origin : Option String) :
    ((merge (.table origin l) old).member? name).isSome ↔
      name ∈ l.map Prod.fst ∨ (old.member? name).isSome := by
  obtain ⟨base, hmerge, hbase, -⟩ := merge_table origin l old
  rw [hmerge, has_mergeMembers, member?, hbase]
  rfl

/-- What is laid over a table leaves a table there, with the names of both. -/
theorem descend_table {m : KeyPath × Setting} (hm : keepsTable m) (hold : old = nil ∨ old.isTable) :
    (KeyPath.descend m.2.merge m.1.steps old).isTable ∧
      ∀ name, ((KeyPath.descend m.2.merge m.1.steps old).member? name).isSome ↔
        name ∈ namesSet m ∨ (old.member? name).isSome := by
  obtain ⟨⟨root, steps⟩, s⟩ := m
  cases steps with
  | nil =>
    cases s with
    | leaf => cases hm
    | list => cases hm
    | table origin l =>
      exact ⟨isTable_merge_table origin l hold, fun name => has_merge_table origin⟩
  | cons step steps =>
    cases step with
    | item => cases hm
    | member key =>
      refine ⟨isTable_updateMember _ _ _, fun name => (has_updateMember _ _ _).trans ?_⟩
      rw [namesSet, List.mem_singleton, eq_comm]

/-- The tables of the root are tables where there is anything. -/
def Rooted (tree : Setting) : Prop :=
  ∀ t ∈ Settings.tableNames, ∀ s, tree.member? t = some s → s.isTable

/-- There is something in the tree that nobody knows. -/
def Astray (tree : Setting) : Prop :=
  ∃ t s, tree.member? t = some s ∧
    (t ∉ Settings.tableNames ∨ ∃ name, (s.member? name).isSome ∧ name ∉ Settings.namesIn t)

end Setting

/-- Lays a setting at the end of its path over a tree. -/
def lay (tree : Setting) (m : KeyPath × Setting) : Setting := m.1.set m.2 tree

section Step

variable {tree : Setting} {m : KeyPath × Setting}

theorem member?_lay (tree : Setting) (m : KeyPath × Setting) (t : String) :
    (lay tree m).member? t = if m.1.root = t then
      some (KeyPath.descend m.2.merge m.1.steps ((tree.member? t).getD nil))
    else tree.member? t := by
  rw [lay, KeyPath.set, member?_updateMember]
  by_cases h : m.1.root = t
  · rw [if_pos h, if_pos h, h]
  · rw [if_neg h, if_neg h]

theorem Setting.Rooted.nil_or_table (h : tree.Rooted) {t : String}
    (ht : t ∈ Settings.tableNames) :
    (tree.member? t).getD nil = nil ∨ ((tree.member? t).getD nil).isTable := by
  cases hm : tree.member? t with
  | none => exact .inl rfl
  | some s => exact .inr (h t ht s hm)

theorem Setting.Rooted.lay (h : tree.Rooted)
    (hm : m.1.root ∈ Settings.tableNames → keepsTable m) : (lay tree m).Rooted := by
  intro t ht s hs
  rw [member?_lay] at hs
  by_cases hroot : m.1.root = t
  · rw [if_pos hroot] at hs
    cases hs
    exact (descend_table (hm (hroot ▸ ht)) (h.nil_or_table ht)).1
  · rw [if_neg hroot] at hs
    exact h t ht s hs

theorem astray_of_unknown (h : tree.Rooted)
    (hm : m.1.root ∈ Settings.tableNames → keepsTable m) (hunknown : Unknown m) :
    (lay tree m).Astray := by
  refine ⟨m.1.root, _, (member?_lay tree m _).trans (if_pos rfl), ?_⟩
  by_cases hroot : m.1.root ∈ Settings.tableNames
  · obtain ⟨name, hname, hstray⟩ := hunknown.resolve_left (not_not_intro hroot)
    have hnames := (descend_table (hm hroot) (h.nil_or_table hroot)).2 name
    exact .inr ⟨name, hnames.mpr (.inl hname), hstray⟩
  · exact .inl hroot

/-- What is astray stays so. -/
theorem Setting.Astray.lay (hastray : tree.Astray) (h : tree.Rooted)
    (hm : m.1.root ∈ Settings.tableNames → keepsTable m) : (lay tree m).Astray := by
  obtain ⟨t, s, hs, hstray⟩ := hastray
  by_cases hroot : m.1.root = t
  · refine ⟨t, _, (member?_lay tree m t).trans (if_pos hroot), ?_⟩
    by_cases ht : t ∈ Settings.tableNames
    · obtain ⟨name, hname, hunknown⟩ := hstray.resolve_left (not_not_intro ht)
      have hnames := (descend_table (hm (hroot ▸ ht)) (h.nil_or_table ht)).2 name
      refine .inr ⟨name, hnames.mpr (.inr ?_), hunknown⟩
      rwa [hs, Option.getD_some]
    · exact .inl ht
  · exact ⟨t, s, (member?_lay tree m t).trans ((if_neg hroot).trans hs), hstray⟩

end Step

section Run

variable {tree : Setting} {ms : List (KeyPath × Setting)}

theorem rooted_foldl (h : tree.Rooted)
    (hms : ∀ m ∈ ms, m.1.root ∈ Settings.tableNames → keepsTable m) : (ms.foldl lay tree).Rooted :=
  List.foldlRecOn ms lay h fun _ ht m hm => ht.lay (hms m hm)

theorem astray_foldl (h : tree.Rooted)
    (hms : ∀ m ∈ ms, m.1.root ∈ Settings.tableNames → keepsTable m)
    (hstray : tree.Astray ∨ ∃ m ∈ ms, Unknown m) : (ms.foldl lay tree).Astray := by
  induction ms generalizing tree with
  | nil =>
    rcases hstray with hastray | ⟨m, hm, -⟩
    · exact hastray
    · cases hm
  | cons m ms ih =>
    have hm := hms m List.mem_cons_self
    refine ih (h.lay hm) (fun m hm => hms m (List.mem_cons_of_mem _ hm)) ?_
    rcases hstray with hastray | ⟨n, hn, hunknown⟩
    · exact .inl (hastray.lay h hm)
    · rcases List.mem_cons.mp hn with rfl | hn
      · exact .inl (astray_of_unknown h hm hunknown)
      · exact .inr ⟨n, hn, hunknown⟩

end Run

namespace Settings

variable {t : String} {s : Setting}

theorem exists_error_fields (title key : String) {name : String} {names : List String}
    (hs : s.isTable) (hname : (s.member? name).isSome) (hunknown : name ∉ names) :
    ∃ fault, s.fields title key names = .error fault := by
  cases s with
  | leaf => cases hs
  | list => cases hs
  | table origin l =>
    obtain ⟨v, hv⟩ := Option.isSome_iff_exists.mp hname
    exact exists_error_mapM (mem_of_lookup hv) ⟨_, if_neg hunknown⟩

/-- A table that nobody knows, or with a name that nobody knows, cannot be read. -/
theorem exists_error_readTable (htable : t ∈ tableNames → s.isTable)
    (hstray : t ∉ tableNames ∨ ∃ name, (s.member? name).isSome ∧ name ∉ namesIn t)
    (out : Settings) : ∃ fault, readTable out t s = .error fault := by
  rw [readTable]
  by_cases hglobal : t = "global"
  · subst hglobal
    obtain ⟨name, hname, hunknown⟩ := hstray.resolve_left (by decide)
    obtain ⟨fault, hfault⟩ :=
      exists_error_fields "GlobalConfig" "global" (htable (by decide)) hname hunknown
    exact ⟨fault, by rw [if_pos rfl]; exact congrArg (Except.bind · _) hfault⟩
  · rw [if_neg hglobal]
    by_cases hsnapshot : t = "snapshot"
    · subst hsnapshot
      obtain ⟨name, hname, hunknown⟩ := hstray.resolve_left (by decide)
      obtain ⟨fault, hfault⟩ :=
        exists_error_fields "SnapshotConfig" "snapshot" (htable (by decide)) hname hunknown
      exact ⟨fault, by rw [if_pos rfl]; exact congrArg (Except.bind · _) hfault⟩
    · exact ⟨_, if_neg hsnapshot⟩

theorem exists_error_ofMembers {tree : Setting} (hrooted : tree.Rooted) (hastray : tree.Astray) :
    ∃ fault, ofMembers tree.members = .error fault := by
  obtain ⟨t, s, hs, hstray⟩ := hastray
  exact exists_error_foldlM (mem_of_lookup hs)
    (exists_error_readTable (fun ht => hrooted t ht s hs) hstray) default

end Settings

/-- The members of a layer with the paths that their keys stand for. -/
def mentions (layer : List (String × Setting)) : List (KeyPath × Setting) :=
  layer.map fun m => (KeyPath.ofKey m.1, m.2)

namespace Loader

/-- Everything that the layers set, the lowest of them first. -/
def mentioned (l : Loader) (files : FileTree) (environment : List (String × String)) :
    List (KeyPath × Setting) :=
  l.sources.flatMap (fun source => ((source.read files).toOption.map mentions).getD []) ++
    mentions (l.environmentSettings environment) ++ l.overrides

theorem layer_eq_foldl (layer : List (String × Setting)) (tree : Setting) :
    Setting.layer layer tree = (mentions layer).foldl lay tree := by
  rw [mentions, List.foldl_map]
  rfl

theorem documentTree_eq_foldl {files : FileTree} {sources : List Source}
    {layers : List (List (String × Setting))} (hread : sources.mapM (Source.read files) = .ok layers)
    (tree : Setting) : layers.foldl (fun tree layer => Setting.layer layer tree) tree =
      (sources.flatMap fun source => ((source.read files).toOption.map mentions).getD []).foldl
        lay tree := by
  induction sources generalizing layers tree with
  | nil => cases hread; rfl
  | cons source sources ih =>
    rw [List.mapM_cons] at hread
    rw [List.flatMap_cons, List.foldl_append]
    cases hsource : source.read files with
    | error fault => rw [hsource] at hread; cases hread
    | ok layer =>
      rw [hsource] at hread
      cases hrest : sources.mapM (Source.read files) with
      | error fault => rw [hrest] at hread; cases hread
      | ok rest =>
        rw [hrest] at hread
        cases hread
        rw [List.foldl_cons, layer_eq_foldl, ih hrest]
        rfl

/-- The tree of layers that can be read. -/
theorem tree_eq_foldl {l : Loader} {files : FileTree} {environment : List (String × String)}
    {layers : List (List (String × Setting))}
    (hread : l.sources.mapM (Source.read files) = .ok layers) :
    l.tree files environment =
      .ok ((l.mentioned files environment).foldl lay (.table none [])) := by
  rw [tree_eq hread, mentioned, List.foldl_append, List.foldl_append, layer_eq_foldl, documentTree,
    documentTree_eq_foldl hread]
  rfl

end Loader

end GitInvocation
