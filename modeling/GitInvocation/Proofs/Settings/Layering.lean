import GitInvocation.Proofs.Settings.Reading

/-!
# The order of layers

A loader is built by a run of calls. Only the order of the documents among themselves, the last
environment and the order of the overrides among themselves count, so calls of different kinds may
be exchanged. When all layers speak of leaves alone, a leaf has the value of the last override of
it, or else that of the environment, or else that of the last document which mentions it, or else
its default. Whatever these hide may as well be faulty.
-/
namespace GitInvocation

open Setting

/-- What is asked of a loader before it loads. -/
inductive LoaderCall where
  | defaultFile (path : String)
  | file (path : String)
  | text (content : String)
  | environment (start : String)
  | set (key : String) (value : Setting)

namespace LoaderCall

variable (files : FileTree)

/-- What a call does to a loader; `none` when it is refused. -/
def apply (l : Loader) : LoaderCall → Option Loader
  | .defaultFile path => some (l.addDefaultFile files path)
  | .file path => some (l.addFile path)
  | .text content => some (l.addText content)
  | .environment start => some (l.addEnvironment start)
  | .set key value => l.override? key value

/-- The document that a call adds. -/
def source? : LoaderCall → Option Source
  | .defaultFile path => if files.isFile path then some (.defaultFile path) else none
  | .file path => some (.file path)
  | .text content => some (.inline content)
  | .environment _ | .set _ _ => none

/-- The environment that a call asks for. -/
def start? : LoaderCall → Option String
  | .environment start => some start
  | _ => none

/-- The override that a call sets. -/
def setting? : LoaderCall → Option (String × Setting)
  | .set key value => some (key, value)
  | _ => none

end LoaderCall

namespace Loader

/-- The documents that calls add, in their order. -/
def documents (files : FileTree) (calls : List LoaderCall) : List Source :=
  calls.filterMap (LoaderCall.source? files)

/-- The environment that calls ask for last. -/
def start? (calls : List LoaderCall) : Option String := calls.reverse.findSome? LoaderCall.start?

/-- The settings that the environment holds for the calls. -/
def fromEnvironment (environment : List (String × String)) (calls : List LoaderCall) :
    List (String × Setting) :=
  match start? calls with
  | some start => Environment.settings start environment
  | none => []

/-- The overrides that calls set, in their order. -/
def sets (calls : List LoaderCall) : List (String × Setting) :=
  calls.filterMap LoaderCall.setting?

/-- A loader after a run of calls. -/
def run (files : FileTree) (l : Loader) (calls : List LoaderCall) : Option Loader :=
  calls.foldlM (LoaderCall.apply files) l

/-- Overrides after further ones have been set; `none` when the key of one is no path. -/
def putAll? (overrides : List (KeyPath × Setting)) (items : List (String × Setting)) :
    Option (List (KeyPath × Setting)) :=
  items.foldlM (fun overrides item =>
    (KeyPath.parse? item.1).map fun path => putOverride path item.2 overrides) overrides

theorem putAll?_append (overrides : List (KeyPath × Setting))
    (items more : List (String × Setting)) : putAll? overrides (items ++ more) =
      (putAll? overrides items).bind fun overrides => putAll? overrides more :=
  List.foldlM_append ..

section Calls

variable (files : FileTree) (l : Loader) (call : LoaderCall) (calls : List LoaderCall)

theorem documents_cons :
    documents files (call :: calls) = (call.source? files).toList ++ documents files calls := by
  rw [documents, List.filterMap_cons]
  cases call.source? files <;> rfl

theorem sets_cons : sets (call :: calls) = call.setting?.toList ++ sets calls := by
  rw [sets, List.filterMap_cons]
  cases call.setting? <;> rfl

theorem start?_cons : start? (call :: calls) = (start? calls).or call.start? := by
  rw [start?, List.reverse_cons, List.findSome?_append, List.findSome?_singleton]
  rfl

/-- A call adds to one part of a loader and leaves the others alone. -/
theorem apply_eq : call.apply files l =
    (putAll? l.overrides call.setting?.toList).map fun overrides =>
      ⟨l.sources ++ (call.source? files).toList, call.start?.or l.environment, overrides⟩ := by
  cases call with
  | defaultFile path =>
    simp only [LoaderCall.apply, LoaderCall.source?, addDefaultFile]
    by_cases h : files.isFile path
    · rw [if_pos h, if_pos h]
      rfl
    · rw [if_neg h, if_neg h]
      exact congrArg some (by rw [Option.toList_none, List.append_nil]; rfl)
  | file path => rfl
  | text content => rfl
  | environment start =>
    exact congrArg some (by rw [LoaderCall.source?, Option.toList_none, List.append_nil]; rfl)
  | set key value =>
    rw [LoaderCall.source?, Option.toList_none, List.append_nil]
    cases h : KeyPath.parse? key <;>
      simp [LoaderCall.apply, override?, LoaderCall.setting?, LoaderCall.start?, putAll?, h]

/-- Calls of different kinds do not touch one another. -/
theorem run_eq : l.run files calls = (putAll? l.overrides (sets calls)).map fun overrides =>
      ⟨l.sources ++ documents files calls, (start? calls).or l.environment, overrides⟩ := by
  induction calls generalizing l with
  | nil => simp [run, putAll?, sets, documents, start?]
  | cons call calls ih =>
    rw [sets_cons, putAll?_append, documents_cons, start?_cons, run, List.foldlM_cons, apply_eq]
    cases putAll? l.overrides call.setting?.toList with
    | none => rfl
    | some overrides =>
      refine (ih _).trans ?_
      rw [List.append_assoc, Option.or_assoc]
      rfl

end Calls

theorem putOverride_eq (path : KeyPath) (value : Setting) (overrides : List (KeyPath × Setting)) :
    putOverride path value overrides = alterEntry path (fun _ => value) overrides := by
  induction overrides with
  | nil => rfl
  | cons entry rest ih =>
    obtain ⟨p, v⟩ := entry
    by_cases h : p = path
    · rw [putOverride, alterEntry, if_pos h, if_pos h, h]
    · rw [putOverride, alterEntry, if_neg h, if_neg h, ih]

/-- Overrides of leaves, each of them overridden once. -/
structure LeafOverrides (overrides : List (KeyPath × Setting)) : Prop where
  distinct : (overrides.map Prod.fst).Nodup
  every : ∀ o ∈ overrides, (∃ k : SettingKey, o.1 = k.path) ∧ o.2.isTable = false

theorem LeafOverrides.empty : LeafOverrides [] := ⟨List.nodup_nil, fun o ho => by cases ho⟩

theorem LeafOverrides.put {overrides : List (KeyPath × Setting)} (h : LeafOverrides overrides)
    (k : SettingKey) {s : Setting} (hs : s.isTable = false) :
    LeafOverrides (putOverride k.path s overrides) := by
  rw [putOverride_eq]
  refine ⟨nodup_alterEntry _ _ h.distinct, fun o ho => ?_⟩
  rcases mem_alterEntry ho with rfl | ho
  · exact ⟨⟨k, rfl⟩, hs⟩
  · exact h.every o ho

/-- Setting leaves is never refused, and the last value of each stays. -/
theorem putAll?_leaves {items : List (String × Setting)}
    (hitems : ∀ m ∈ items, holdsLeaves m ∧ m.2.isTable = false)
    {overrides : List (KeyPath × Setting)} (h : LeafOverrides overrides) :
    ∃ after, putAll? overrides items = some after ∧ LeafOverrides after ∧
      ∀ k : SettingKey, after.lookup k.path = (k.lastGiven items).or (overrides.lookup k.path) := by
  induction items generalizing overrides with
  | nil => exact ⟨overrides, rfl, h, fun k => rfl⟩
  | cons m items ih =>
    obtain ⟨hm, hleaf⟩ := hitems m List.mem_cons_self
    rcases holdsLeaves_cases hm with ⟨j, s, rfl, hs⟩ | ⟨t, origin, leaves, rfl, -⟩
    · obtain ⟨after, hafter, hleaves, hlookup⟩ :=
        ih (fun m hm => hitems m (List.mem_cons_of_mem _ hm)) (h.put j hs)
      refine ⟨after, ?_, hleaves, fun k => ?_⟩
      · rw [putAll?, List.foldlM_cons, j.parse?_key]
        exact hafter
      · rw [hlookup, putOverride_eq, lookup_alterEntry, SettingKey.lastGiven,
          SettingKey.lastGiven, List.reverse_cons, List.findSome?_append,
          List.findSome?_singleton, SettingKey.given_key hs, Option.or_assoc]
        by_cases hj : j = k
        · rw [if_pos hj, if_pos (congrArg SettingKey.path hj), Option.some_or]
        · rw [if_neg hj, if_neg fun hp => hj (SettingKey.eq_of_path hp), Option.none_or]
    · cases hleaf

/-- Overrides of leaves come before what is in the tree. -/
theorem inTree?_overrides {overrides : List (KeyPath × Setting)} (h : LeafOverrides overrides)
    (k : SettingKey) (tree : Setting) :
    k.inTree? (overrides.foldl (fun tree o => o.1.set o.2 tree) tree) =
      (overrides.lookup k.path).or (k.inTree? tree) := by
  rw [← lookup_reverse h.distinct, List.lookup_eq_findSome?]
  refine view_foldl (fun tree o ho => ?_) tree
  obtain ⟨⟨j, hj⟩, hs⟩ := h.every o ho
  rw [hj, SettingKey.inTree?_set_path j k hs]
  by_cases hk : j = k
  · rw [if_pos hk, hk, beq_self_eq_true]
    rfl
  · rw [if_neg hk, beq_eq_false_iff_ne.mpr fun hp => hk (SettingKey.eq_of_path hp.symm)]
    rfl

theorem formed_overrides {overrides : List (KeyPath × Setting)} (h : LeafOverrides overrides)
    {tree : Setting} (ht : Formed tree) :
    Formed (overrides.foldl (fun tree o => o.1.set o.2 tree) tree) := by
  refine List.foldlRecOn overrides _ ht fun tree ht o ho => ?_
  obtain ⟨⟨j, hj⟩, hs⟩ := h.every o ho
  rw [hj]
  exact ht.set_path j hs

/-- The setting that counts for a leaf: the last override of it, or else what the environment gives
it, or else what the last document that mentions it does. -/
def winner? (layers : List (List (String × Setting)))
    (environment overrides : List (String × Setting)) (k : SettingKey) : Option Setting :=
  (k.lastGiven overrides).or
    ((k.lastGiven environment).or (layers.reverse.findSome? k.lastGiven))

section Loading

variable {l : Loader} {files : FileTree} {environment : List (String × String)}
variable {layers : List (List (String × Setting))} {tree : Setting} {settings : Settings}

/-- The tree of the documents. -/
def documentTree (layers : List (List (String × Setting))) : Setting :=
  layers.foldl (fun tree layer => Setting.layer layer tree) (.table none [])

theorem formed_documentTree (h : ∀ layer ∈ layers, ∀ m ∈ layer, holdsLeaves m) :
    Formed (documentTree layers) :=
  List.foldlRecOn layers _ Formed.empty fun _ ht layer hl => ht.layer (h layer hl)

theorem inTree?_documentTree (h : ∀ layer ∈ layers, ∀ m ∈ layer, holdsLeaves m) (k : SettingKey) :
    k.inTree? (documentTree layers) = layers.reverse.findSome? k.lastGiven := by
  have hview := view_foldl (fun tree layer hl => SettingKey.inTree?_layer (h layer hl) k tree)
    (.table none [])
  exact hview.trans Option.or_none

theorem tree_eq (hread : l.sources.mapM (Source.read files) = .ok layers) :
    l.tree files environment = .ok (l.overrides.foldl (fun tree o => o.1.set o.2 tree)
      (Setting.layer (l.environmentSettings environment) (documentTree layers))) := by
  rw [tree, treeBy, hread]
  rfl

/-- Layers that speak of leaves alone make a tree that has the setting that counts for each leaf,
and nothing else. -/
theorem exists_tree (hread : l.sources.mapM (Source.read files) = .ok layers)
    (hlayers : ∀ layer ∈ layers, ∀ m ∈ layer, holdsLeaves m)
    (henvironment : ∀ m ∈ l.environmentSettings environment, holdsLeaves m)
    (hoverrides : LeafOverrides l.overrides) :
    ∃ tree, l.tree files environment = .ok tree ∧ Formed tree ∧ ∀ k : SettingKey,
      k.inTree? tree = (l.overrides.lookup k.path).or
        ((k.lastGiven (l.environmentSettings environment)).or
          (layers.reverse.findSome? k.lastGiven)) := by
  have hformed := (formed_documentTree hlayers).layer henvironment
  refine ⟨_, tree_eq hread, formed_overrides hoverrides hformed, fun k => ?_⟩
  rw [inTree?_overrides hoverrides, SettingKey.inTree?_layer henvironment,
    inTree?_documentTree hlayers]

theorem load_eq (htree : l.tree files environment = .ok tree)
    (hsettings : Settings.ofMembers tree.members = .ok settings)
    (hcheck : checkEntries 0 settings.snapshotValues = .ok ()) :
    l.load files environment = .ok settings := by
  rw [Loader.load_eq_bind, htree]
  show tree.settings = .ok settings
  rw [Setting.settings, hsettings]
  show ((checkEntries 0 settings.snapshotValues).mapError LoadFault.badSetting).map _ = _
  rw [hcheck]
  rfl

end Loading

/-- There are settings in which every leaf has the value of the setting that counts for it, as long
as each of these is valid. -/
theorem exists_settings {winner : SettingKey → Option Setting}
    (h : ∀ k, ∀ s ∈ winner k, k.accepts s) : ∃ settings : Settings,
      (∀ k : SettingKey, k.valueOf (winner k) = .ok (settings.get k)) ∧
      checkEntries 0 settings.snapshotValues = .ok () := by
  have hvalue : ∀ k : SettingKey, ∃ v : k.Value,
      k.valueOf (winner k) = .ok v ∧ k.check v = .ok () := by
    intro k
    cases hk : winner k with
    | none => exact ⟨_, rfl, by cases k <;> rfl⟩
    | some s => exact SettingKey.accepts_iff.mp (h k s hk)
  choose value hvalue hcheck using hvalue
  obtain ⟨settings, hget⟩ := Settings.exists_get value
  refine ⟨settings, fun k => (hget k).symm ▸ hvalue k, ?_⟩
  have hentries : settings.snapshotValues = value .snapshotValues := hget .snapshotValues
  rw [hentries]
  exact hcheck .snapshotValues

/-- The law of layers. When every document can be read, nothing but leaves is spoken of, and the
setting that counts for each leaf is valid for it, loading succeeds, and every leaf has the value of
this setting, or its default when there is none. Any other order of the calls that leaves the
documents, the last environment and the overrides as they are makes the same loader. -/
theorem last_mention_counts (files : FileTree) (environment : List (String × String))
    (calls : List LoaderCall) {layers : List (List (String × Setting))}
    (hread : (documents files calls).mapM (Source.read files) = .ok layers)
    (hlayers : ∀ layer ∈ layers, ∀ m ∈ layer, holdsLeaves m)
    (henvironment : ∀ m ∈ fromEnvironment environment calls, holdsLeaves m)
    (hsets : ∀ m ∈ sets calls, holdsLeaves m ∧ m.2.isTable = false)
    (hvalid : ∀ k, ∀ s ∈ winner? layers (fromEnvironment environment calls) (sets calls) k,
      k.accepts s) :
    ∃ l settings, empty.run files calls = some l ∧ l.load files environment = .ok settings ∧
      (∀ k : SettingKey,
        k.valueOf (winner? layers (fromEnvironment environment calls) (sets calls) k) =
          .ok (settings.get k)) ∧
      ∀ other, documents files other = documents files calls → start? other = start? calls →
        sets other = sets calls → empty.run files other = some l := by
  obtain ⟨overrides, hput, hleaves, hlookup⟩ := putAll?_leaves hsets LeafOverrides.empty
  have hrun : ∀ other, documents files other = documents files calls →
      start? other = start? calls → sets other = sets calls →
      empty.run files other = some ⟨documents files calls, start? calls, overrides⟩ := by
    intro other hdocuments hstart hother
    have hempty : empty = ⟨[], none, []⟩ := rfl
    rw [run_eq, hdocuments, hstart, hother, hempty, hput, Option.or_none]
    rfl
  obtain ⟨tree, htree, hformed, hin⟩ := exists_tree
    (l := ⟨documents files calls, start? calls, overrides⟩) hread hlayers henvironment hleaves
  obtain ⟨settings, hvalues, hcheck⟩ := exists_settings hvalid
  have hwinner : ∀ k : SettingKey, k.inTree? tree =
      winner? layers (fromEnvironment environment calls) (sets calls) k := by
    intro k
    rw [hin, hlookup, List.lookup_nil, Option.or_none]
    rfl
  refine ⟨_, settings, hrun calls rfl rfl rfl, load_eq htree ?_ hcheck, hvalues, hrun⟩
  exact Settings.ofMembers_eq hformed fun k => (congrArg k.valueOf (hwinner k)).trans (hvalues k)

/-- A verbosity off the scale, an entry without a key and an early name of the log file are hidden,
and a file that is missing is passed over. -/
theorem last_mention_counts_hiddenFaults :
    let files : FileTree := ⟨[(Place.working.child "gitargs.toml", .text
      "[global]\noutput_log_level = 99\nfile_log_level = \"off\"\n[snapshot]\nvalues = [\"=\"]\n")]⟩
    let environment := [("HOME", "/root"), ("GITARGS_GLOBAL__OUTPUT_LOG_LEVEL", "4")]
    let early := LoaderCall.set "global.log_file" (.leaf none (.text "early.log"))
    let late := LoaderCall.set "global.log_file" (.leaf none (.text "late.log"))
    let found := LoaderCall.defaultFile "gitargs.toml"
    let missing := LoaderCall.defaultFile "absent.toml"
    let text := LoaderCall.text "snapshot.values = [\"core.pager=less\"]"
    ∃ l, empty.run files [early, .environment "GITARGS", found, text, missing, late] = some l ∧
      empty.run files [found, text, early, late, .environment "GITARGS"] = some l ∧
      l.load files environment =
        .ok ⟨.debug, .silent, some "late.log", none, ["core.pager=less"]⟩ := by
  intro files environment early late found missing text
  let calls := [early, .environment "GITARGS", found, text, missing, late]
  let layers := (((documents files calls).mapM (Source.read files)).toOption).getD []
  have hok : ((documents files calls).mapM (Source.read files)).isOk := by decide +kernel
  have hread : (documents files calls).mapM (Source.read files) = .ok layers := by
    cases h : (documents files calls).mapM (Source.read files) with
    | error => rw [h] at hok; cases hok
    | ok => simp only [layers, h]; rfl
  have hvalid : ∀ k ∈ SettingKey.all,
      ∀ s ∈ winner? layers (fromEnvironment environment calls) (sets calls) k, k.accepts s := by
    decide +kernel
  obtain ⟨l, settings, hrun, hload, hvalues, hother⟩ := last_mention_counts files environment calls
    hread (by decide +kernel) (by decide +kernel) (by decide +kernel)
    fun k => hvalid k k.mem_all
  have hexpected : ∀ k ∈ SettingKey.all,
      k.valueOf (winner? layers (fromEnvironment environment calls) (sets calls) k) =
        .ok (Settings.get ⟨.debug, .silent, some "late.log", none, ["core.pager=less"]⟩ k) := by
    decide +kernel
  have hsettings := Settings.eq_of_get fun k =>
    Except.ok.inj ((hvalues k).symm.trans (hexpected k k.mem_all))
  exact ⟨l, hrun, hother _ (by decide +kernel) rfl rfl, hsettings ▸ hload⟩

end Loader

end GitInvocation
