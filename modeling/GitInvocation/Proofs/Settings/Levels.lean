import GitInvocation.Proofs.Outcomes
import GitInvocation.Proofs.Settings.Reading

/-!
# Verbosities in the settings

Two loaders may differ in the verbosities that override their settings and in nothing else. Their
trees then differ in those leaves alone, and no tree is refused for a verbosity on the scale. Both
are refused for the same fault, or both are loaded and agree in every other setting. A verbosity
from a file or from the environment is the same on both sides.
-/
namespace GitInvocation

open Setting

/-- A verbosity as it is written for an override. -/
def LevelText (s : Setting) : Prop := ∃ v : Verbosity, s = .leaf none (.text (toString v.number))

def SettingKey.isVerbosity : SettingKey → Bool
  | .consoleVerbosity | .fileVerbosity => true
  | _ => false

/-- The same setting of a table, unless it is a verbosity on both sides. -/
def AlikeLeaf (t name : String) (s s' : Setting) : Prop :=
  s = s' ∨ ∃ k : SettingKey, k.isVerbosity ∧ k.table = t ∧ k.name = name ∧ LevelText s ∧ LevelText s'

/-- No other setting than the two verbosities may differ. -/
theorem AlikeLeaf.eq_of_ne {t name : String} {s s' : Setting} (h : AlikeLeaf t name s s')
    (hne : ∀ k : SettingKey, k.isVerbosity → k.table = t → k.name ≠ name) : s = s' :=
  h.resolve_right fun ⟨k, hk, ht, hn, _⟩ => hne k hk ht hn

namespace Setting

variable {R : String → Setting → Setting → Prop} {key : String} {s s' : Setting}

/-- Members of the same names that are related. -/
abbrev AlikeMembers (R : String → Setting → Setting → Prop) (l l' : List (String × Setting)) :
    Prop := List.Forall₂ (fun m m' => m.1 = m'.1 ∧ R m.1 m.2 m'.2) l l'

/-- The same setting, or tables with members that are related. -/
inductive AlikeTable (R : String → Setting → Setting → Prop) : Setting → Setting → Prop where
  | same (s : Setting) : AlikeTable R s s
  | table {l l' : List (String × Setting)} (origin : Option String) (h : AlikeMembers R l l') :
      AlikeTable R (.table origin l) (.table origin l')

theorem alikeMembers_refl (hR : ∀ name s, R name s s) (l : List (String × Setting)) :
    AlikeMembers R l l :=
  List.forall₂_same.mpr fun m _ => ⟨rfl, hR m.1 m.2⟩

theorem AlikeTable.members (hR : ∀ name s, R name s s) (h : AlikeTable R s s') :
    AlikeMembers R s.members s'.members := by
  cases h with
  | same => exact alikeMembers_refl hR _
  | table _ h => exact h

section Update

variable {f f' : Setting → Setting}

theorem alikeMembers_updateKey {l l' : List (String × Setting)} (h : AlikeMembers R l l')
    (hnil : R key (f nil) (f' nil)) (hf : ∀ old old', R key old old' → R key (f old) (f' old')) :
    AlikeMembers R (updateKey key f l) (updateKey key f' l') := by
  induction h with
  | nil => exact .cons ⟨rfl, hnil⟩ .nil
  | @cons m m' _ _ hm hrest ih =>
    obtain ⟨name, old⟩ := m
    obtain ⟨name', old'⟩ := m'
    obtain ⟨rfl, hold⟩ := hm
    rw [updateKey, updateKey]
    by_cases hn : name = key
    · subst hn
      rw [if_pos rfl, if_pos rfl]
      exact .cons ⟨rfl, hf _ _ hold⟩ hrest
    · rw [if_neg hn, if_neg hn]
      exact .cons ⟨rfl, hold⟩ ih

theorem AlikeTable.updateMember (hR : ∀ name s, R name s s) (h : AlikeTable R s s')
    (hf : ∀ old old', R key old old' → R key (f old) (f' old')) :
    AlikeTable R (s.updateMember key f) (s'.updateMember key f') := by
  have hnil : R key (f nil) (f' nil) := hf _ _ (hR _ _)
  cases h with
  | same =>
    -- Related changes of one setting; what is no table becomes an empty one first.
    cases s with
    | leaf => exact .table none (alikeMembers_updateKey .nil hnil hf)
    | list => exact .table none (alikeMembers_updateKey .nil hnil hf)
    | table origin l =>
      exact .table origin (alikeMembers_updateKey (alikeMembers_refl hR l) hnil hf)
  | table origin h => exact .table origin (alikeMembers_updateKey h hnil hf)

end Update

/-- Trees that differ in verbosities alone. -/
abbrev AlikeTree : Setting → Setting → Prop := AlikeTable fun t => AlikeTable (AlikeLeaf t)

theorem AlikeTree.set {tree tree' : Setting} {k : SettingKey} (h : AlikeTree tree tree')
    (hs : s.isTable = false) (hs' : s'.isTable = false) (hleaf : AlikeLeaf k.table k.name s s') :
    AlikeTree (k.path.set s tree) (k.path.set s' tree') := by
  rw [k.set_path hs, k.set_path hs']
  refine AlikeTable.updateMember (fun _ s => .same s) h fun old old' hold => ?_
  exact hold.updateMember (fun _ _ => .inl rfl) fun _ _ _ => hleaf

/-- A verbosity on the scale can be read. -/
theorem toVerbosity_level (h : LevelText s) (key : String) : ∃ v, s.toVerbosity key = .ok v := by
  obtain ⟨v, rfl⟩ := h
  refine ⟨v, ?_⟩
  cases v <;> rfl

theorem toVerbosity_alike {t name : String} (h : AlikeLeaf t name s s') (key : String) :
    Agree (fun _ _ => True) (s.toVerbosity key) (s'.toVerbosity key) := by
  rcases h with rfl | ⟨-, -, -, -, hs, hs'⟩
  · exact .refl (fun _ => trivial) _
  · obtain ⟨v, hv⟩ := toVerbosity_level hs key
    obtain ⟨v', hv'⟩ := toVerbosity_level hs' key
    rw [hv, hv']
    exact .ok trivial

/-- A field of the same name and key. -/
structure AlikeField (t : String) (f f' : String × String × Setting) : Prop where
  name : f.1 = f'.1
  key : f.2.1 = f'.2.1
  leaf : AlikeLeaf t f.1 f.2.2 f'.2.2

theorem fields_alike {t title key : String} {names : List String}
    (h : AlikeTable (AlikeLeaf t) s s') :
    Agree (List.Forall₂ (AlikeField t)) (s.fields title key names) (s'.fields title key names) := by
  cases h with
  | same => exact .refl (fun _ => List.forall₂_same.mpr fun _ _ => ⟨rfl, rfl, .inl rfl⟩) _
  | table origin h =>
    refine .mapM h fun m m' hm => ?_
    obtain ⟨name, s⟩ := m
    obtain ⟨name', s'⟩ := m'
    obtain ⟨rfl, hs⟩ := hm
    dsimp only
    split
    · exact .ok ⟨rfl, rfl, hs⟩
    · exact .error _

end Setting

namespace Settings

/-- The same settings, up to the verbosities. -/
structure Alike (s s' : Settings) : Prop where
  logFile : s.logFile = s'.logFile
  snapshotFile : s.snapshotFile = s'.snapshotFile
  snapshotValues : s.snapshotValues = s'.snapshotValues

variable {out out' : Settings} {t name key : String} {s s' : Setting}

theorem Alike.refl (s : Settings) : Alike s s := ⟨rfl, rfl, rfl⟩

theorem readGlobal_alike (h : Alike out out') (hs : AlikeLeaf "global" name s s') :
    Agree Alike (readGlobal out name key s) (readGlobal out' name key s') := by
  rw [readGlobal, readGlobal]
  split
  · exact (toVerbosity_alike hs key).map fun _ _ _ => ⟨h.logFile, h.snapshotFile, h.snapshotValues⟩
  · rename_i hconsole
    split
    · exact (toVerbosity_alike hs key).map fun _ _ _ =>
        ⟨h.logFile, h.snapshotFile, h.snapshotValues⟩
    · rename_i hfile
      obtain rfl : s = s' := by
        refine hs.eq_of_ne fun k hk _ hn => ?_
        cases k with
        | consoleVerbosity => exact hconsole hn.symm
        | fileVerbosity => exact hfile hn.symm
        | _ => cases hk
      exact (Agree.refl Eq.refl _).map fun _ _ hp => ⟨hp, h.snapshotFile, h.snapshotValues⟩

theorem readSnapshot_alike (h : Alike out out') (hs : AlikeLeaf "snapshot" name s s') :
    Agree Alike (readSnapshot out name key s) (readSnapshot out' name key s') := by
  obtain rfl : s = s' := hs.eq_of_ne fun k hk ht => by cases k <;> contradiction
  rw [readSnapshot, readSnapshot]
  split
  · exact (Agree.refl Eq.refl _).map fun _ _ hp => ⟨h.logFile, hp, h.snapshotValues⟩
  · exact (Agree.refl Eq.refl _).map fun _ _ hv => ⟨h.logFile, h.snapshotFile, hv⟩

/-- A table is read field by field, so it is enough to read one field alike. -/
theorem foldlM_fields_alike
    (read : Settings → String → String → Setting → Except TreeFault Settings)
    (hread : ∀ {out out' name key s s'}, Alike out out' → AlikeLeaf t name s s' →
      Agree Alike (read out name key s) (read out' name key s'))
    {fs fs' : List (String × String × Setting)} (hfs : List.Forall₂ (AlikeField t) fs fs')
    (h : Alike out out') :
    Agree Alike (fs.foldlM (fun out (name, key, s) => read out name key s) out)
      (fs'.foldlM (fun out (name, key, s) => read out name key s) out') := by
  refine .foldlM hfs (fun out out' f f' hout hf => ?_) h
  obtain ⟨name, key, s⟩ := f
  obtain ⟨name', key', s'⟩ := f'
  obtain ⟨rfl, rfl, hleaf⟩ := hf
  exact hread hout hleaf

theorem readTable_alike (h : Alike out out') (hs : AlikeTable (AlikeLeaf t) s s') :
    Agree Alike (readTable out t s) (readTable out' t s') := by
  rw [readTable, readTable]
  split
  · rename_i ht
    subst ht
    exact (fields_alike hs).bind fun _ _ hfs => foldlM_fields_alike readGlobal readGlobal_alike hfs h
  · split
    · rename_i ht
      subst ht
      exact (fields_alike hs).bind fun _ _ hfs => foldlM_fields_alike readSnapshot readSnapshot_alike hfs h
    · exact .error _

theorem ofMembers_alike {tree tree' : Setting} (h : AlikeTree tree tree') :
    Agree Alike (ofMembers tree.members) (ofMembers tree'.members) := by
  refine .foldlM (h.members fun _ s => .same s) (fun out out' m m' hout hm => ?_) (.refl _)
  obtain ⟨t, s⟩ := m
  obtain ⟨t', s'⟩ := m'
  obtain ⟨rfl, hs⟩ := hm
  exact readTable_alike hout hs

end Settings

theorem Setting.settings_alike {tree tree' : Setting} (h : AlikeTree tree tree') :
    Agree Settings.Alike tree.settings tree'.settings := by
  refine ((Settings.ofMembers_alike h).mapError _).bind fun s s' hs => ?_
  rw [hs.snapshotValues]
  exact (Agree.refl Eq.refl _).map fun _ _ _ => hs

/-- The same path with leaves that are alike. -/
def AlikeOverride (m m' : KeyPath × Setting) : Prop :=
  ∃ (k : SettingKey) (s s' : Setting), m = (k.path, s) ∧ m' = (k.path, s') ∧
    s.isTable = false ∧ s'.isTable = false ∧ AlikeLeaf k.table k.name s s'

namespace Loader

/-- Loaders that differ in verbosities alone, with nothing but leaves as overrides. -/
structure Alike (l l' : Loader) : Prop where
  sources : l.sources = l'.sources
  environment : l.environment = l'.environment
  overrides : List.Forall₂ AlikeOverride l.overrides l'.overrides

variable {l l' : Loader}

theorem putOverride_alike {overrides overrides' : List (KeyPath × Setting)}
    (h : List.Forall₂ AlikeOverride overrides overrides') {path path' : KeyPath} {s s' : Setting}
    (hs : AlikeOverride (path, s) (path', s')) :
    List.Forall₂ AlikeOverride (putOverride path s overrides) (putOverride path' s' overrides') := by
  induction h with
  | nil => exact .cons hs .nil
  | @cons m m' _ _ hm hrest ih =>
    have hpath : path = path' := by
      obtain ⟨k, _, _, he, he', -⟩ := hs
      exact (congrArg Prod.fst he).trans (congrArg Prod.fst he').symm
    have hroot : m.1 = m'.1 := by
      obtain ⟨k, _, _, he, he', -⟩ := hm
      exact (congrArg Prod.fst he).trans (congrArg Prod.fst he').symm
    obtain ⟨p, old⟩ := m
    obtain ⟨p', old'⟩ := m'
    dsimp only at hroot
    subst hroot hpath
    rw [putOverride, putOverride]
    split
    · exact .cons hs hrest
    · exact .cons hm ih

theorem tree_alike (h : Alike l l') (order : LayerOrder) (files : FileTree)
    (environment : List (String × String)) :
    Agree AlikeTree (l.treeBy order files environment) (l'.treeBy order files environment) := by
  rw [treeBy, treeBy, h.sources, environmentSettings, environmentSettings, h.environment]
  refine (Agree.refl Eq.refl _).bind fun layers layers' hlayers => .ok ?_
  subst hlayers
  refine List.rel_foldl (fun tree tree' ht m m' hm => ?_) (.same _) h.overrides
  obtain ⟨k, s, s', rfl, rfl, hs, hs', hleaf⟩ := hm
  exact AlikeTree.set ht hs hs' hleaf

/-- Verbosities decide neither whether settings are loaded nor what the others are. -/
theorem load_alike (h : Alike l l') (order : LayerOrder) (files : FileTree)
    (environment : List (String × String)) :
    Agree Settings.Alike (l.loadBy order files environment) (l'.loadBy order files environment) := by
  rw [loadBy_eq_bind, loadBy_eq_bind]
  exact (tree_alike h order files environment).bind fun _ _ ht => Setting.settings_alike ht

end Loader

end GitInvocation
