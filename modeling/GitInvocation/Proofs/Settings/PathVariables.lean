import GitInvocation.Proofs.Binary64.Characters
import GitInvocation.Proofs.Outcomes
import GitInvocation.Proofs.Settings.Layering
import GitInvocation.Proofs.Text.LowerCase

/-!
# Paths in the environment

The text of a variable is read as a truth value or a number where it can be, also when a path is
wanted. The path is what this value is written back as, so it is the text itself exactly when the
text has the spelling in which such a value is written. A slash or any other character that no
number has keeps a text as it is, while a number with a plus sign or an exponent is never kept.
-/
namespace GitInvocation

/-- What the text of a variable is read as: a truth value before a number, an integer before any
other number, and nothing but itself when it is none of these. -/
inductive ReadsAs (v : String) : Leaf → Prop where
  | truth {b : Bool} (h : Text.lower v = toString b) : ReadsAs v (.bool b)
  | integer {n : Int} (hword : ∀ b : Bool, Text.lower v ≠ toString b)
      (h : Text.int64? v.toList = some n) : ReadsAs v (.integer n)
  | float {x : Binary64} (hword : ∀ b : Bool, Text.lower v ≠ toString b)
      (hinteger : Text.int64? v.toList = none) (h : Binary64.parse? v.toList = some x) :
      ReadsAs v (.float x)
  | text (hword : ∀ b : Bool, Text.lower v ≠ toString b)
      (hinteger : Text.int64? v.toList = none) (hfloat : Binary64.parse? v.toList = none) :
      ReadsAs v (.text v)

/-- Whatever the text is read as, it is what the value is written back as. -/
structure Verbatim (v : String) : Prop where
  truth : ∀ b : Bool, Text.lower v = toString b → v = toString b
  integer : (Text.int64? v.toList).isSome → Text.Canonical v.toList
  float : ∀ x, Text.int64? v.toList = none → Binary64.parse? v.toList = some x → v = x.plain

/-- A text that is read as a number. -/
def IsNumber (v : String) : Prop :=
  (Text.int64? v.toList).isSome ∨ (Binary64.parse? v.toList).isSome

section Texts

variable {v : String} {c : Char}

theorem readsAs_leaf (v : String) : ReadsAs v (Environment.leaf v) := by
  rw [Environment.leaf]
  split
  · next h => exact .truth (b := true) h
  · next htrue =>
    split
    · next h => exact .truth (b := false) h
    · next hfalse =>
      have hword (b : Bool) : Text.lower v ≠ toString b := by
        cases b
        · exact hfalse
        · exact htrue
      split
      · next hn => exact .integer hword hn
      · next hn hx => exact .float hword hn hx
      · next hn hx => exact .text hword hn hx

theorem verbatim_word (b : Bool) : Verbatim (toString b) := by
  refine ⟨fun b' h => ?_, fun h => ?_, fun x _ h => ?_⟩
  · cases b <;> cases b' <;> first | rfl | exact absurd h (by decide +kernel)
  · have hnone : Text.int64? (toString b).toList = none := by cases b <;> decide +kernel
    rw [hnone] at h
    cases h
  · have hnone : Binary64.parse? (toString b).toList = none := by cases b <;> decide +kernel
    rw [hnone] at h
    cases h

/-- The text that the value of a variable is written back as. -/
theorem ReadsAs.exists_text {value : Leaf} (h : ReadsAs v value) : ∃ path,
    (∀ key origin, (Setting.leaf origin value).toText? key = .ok (some path)) ∧
      (path = v ↔ Verbatim v) := by
  cases h with
  | @truth b h =>
    refine ⟨toString b, fun _ _ => by cases b <;> rfl, ?_, fun hv => (hv.truth b h).symm⟩
    rintro rfl
    exact verbatim_word b
  | @integer n hword h =>
    refine ⟨toString n, fun _ _ => rfl, ?_⟩
    rw [← String.toList_inj, Text.toString_eq_iff h]
    constructor
    · intro hcanonical
      refine ⟨fun b hb => absurd hb (hword b), fun _ => hcanonical, fun x hnone => ?_⟩
      rw [h] at hnone
      cases hnone
    · exact fun hv => hv.integer (by rw [h]; rfl)
  | @float x hword hinteger h =>
    refine ⟨x.plain, fun _ _ => rfl, ?_, fun hv => (hv.float x hinteger h).symm⟩
    intro hplain
    refine ⟨fun b hb => absurd hb (hword b), fun hsome => ?_, fun y _ hy => ?_⟩
    · rw [hinteger] at hsome
      cases hsome
    · rw [h] at hy
      cases hy
      exact hplain.symm
  | text hword hinteger hfloat =>
    refine ⟨v, fun _ _ => rfl, iff_of_true rfl ?_⟩
    refine ⟨fun b hb => absurd hb (hword b), fun hsome => ?_, fun y _ hy => ?_⟩
    · rw [hinteger] at hsome
      cases hsome
    · rw [hfloat] at hy
      cases hy

/-- A character of ASCII that no number has is in no truth value either. -/
theorem verbatim_of_mem (hc : c ∈ v.toList) (hascii : c.toNat < 0x80)
    (hforeign : Text.isNumeral c = false) : Verbatim v := by
  have hcontra {p : Prop} (h : Text.isNumeral c) : p := by
    rw [hforeign] at h
    cases h
  refine ⟨fun b hb => hcontra ?_, fun h => hcontra ?_, fun x _ hx => hcontra ?_⟩
  · have hlow : Text.lowerAscii c = c := by
      rcases Text.lowerAscii_cases c with ⟨hr, -⟩ | ⟨-, hl⟩
      · exact hcontra (Text.isNumeral_of_capital hr)
      · exact hl
    have hmem := Text.mem_lower hascii hlow hc
    rw [hb] at hmem
    have hall : (toString b).toList.all Text.isNumeral := by cases b <;> decide
    exact List.all_eq_true.mp hall c hmem
  · obtain ⟨n, hn⟩ := Option.isSome_iff_exists.mp h
    exact Text.isNumeral_of_int64? hn c hc
  · exact Binary64.isNumeral_of_parse? hx c hc

theorem not_verbatim_of_mem (hv : IsNumber v) (hc : c ∈ v.toList) (hmark : c ∈ ['+', 'e', 'E']) :
    ¬ Verbatim v := by
  intro h
  have hne : ¬ (c ≠ '+' ∧ c ≠ 'e' ∧ c ≠ 'E') := by
    rintro ⟨hplus, hsmall, hcapital⟩
    simp [hplus, hsmall, hcapital] at hmark
  by_cases hinteger : (Text.int64? v.toList).isSome
  · exact hne (Text.canonical_chars (h.integer hinteger) c hc)
  · obtain ⟨x, hx⟩ := Option.isSome_iff_exists.mp (hv.resolve_left hinteger)
    have hplain := h.float x (Option.not_isSome_iff_eq_none.mp hinteger) hx
    rw [hplain] at hc
    exact hne (x.plain_chars c hc)

end Texts

/-- The name of the variable for a leaf, without the prefix. -/
def SettingKey.variable : SettingKey → String
  | .consoleVerbosity => "_GLOBAL__OUTPUT_LOG_LEVEL"
  | .fileVerbosity => "_GLOBAL__FILE_LOG_LEVEL"
  | .logFile => "_GLOBAL__LOG_FILE"
  | .snapshotFile => "_SNAPSHOT__FILE"
  | .snapshotValues => "_SNAPSHOT__VALUES"

theorem Environment.key?_variable (k : SettingKey) (start : String) :
    key? start (start ++ k.variable) = some k.key := by
  have hall : k.variable.toList.all fun c => c.toNat < 0x80 := by cases k <;> decide
  have hname (c : Char) (hc : c ∈ k.variable.toList) : c.toNat < 0x80 :=
    of_decide_eq_true (List.all_eq_true.mp hall c hc)
  have hends : Text.meetsCased k.variable.toList = false := by cases k <;> decide +kernel
  obtain ⟨rest, hrest, hkey⟩ : ∃ rest, k.variable.toList.map Text.lowerAscii = '_' :: rest ∧
      String.ofList (dotted rest) = k.key := by
    cases k <;> exact ⟨_, rfl, by decide +kernel⟩
  have hsplit : (Text.lower (start ++ k.variable)).toList =
      (Text.lower start).toList ++ ['_'] ++ rest := by
    rw [Text.toList_lower_append hname hends, hrest, List.append_assoc, List.singleton_append]
  rw [key?, hsplit, Text.afterStart?_append, Option.map_some, hkey]

namespace Loader

variable {start : String} {files : FileTree} {environment : List (String × String)}

/-- A variable for a leaf, when no other variable is a setting. -/
theorem load_variable {k : SettingKey} {value : Leaf} {target : Settings}
    (hsettings : Environment.settings start environment =
      [(k.key, .leaf (some Environment.origin) value)])
    (hread : ∀ j : SettingKey, j.valueOf (if k = j then
      some (.leaf (some Environment.origin) value) else none) = .ok (target.get j))
    (hcheck : checkEntries 0 target.snapshotValues = .ok ()) :
    (empty.addEnvironment start).load files environment = .ok target := by
  have henvironment : (empty.addEnvironment start).environmentSettings environment =
      [(k.key, .leaf (some Environment.origin) value)] := hsettings
  have hsources : (empty.addEnvironment start).sources.mapM (Source.read files) = .ok [] := rfl
  have hholds : ∀ m ∈ (empty.addEnvironment start).environmentSettings environment,
      holdsLeaves m := by
    rw [henvironment]
    refine List.forall_mem_singleton.mpr ?_
    show SettingKey.all.any fun j => j.key = k.key
    exact List.any_eq_true.mpr ⟨k, k.mem_all, decide_eq_true rfl⟩
  obtain ⟨tree, htree, hformed, hin⟩ := exists_tree hsources
    (fun _ h => absurd h List.not_mem_nil) hholds LeafOverrides.empty
  refine load_eq htree (Settings.ofMembers_eq hformed fun j => ?_) hcheck
  have hgiven : j.lastGiven [(k.key, .leaf (some Environment.origin) value)] =
      if k = j then some (.leaf (some Environment.origin) value) else none := by
    rw [SettingKey.lastGiven, List.reverse_singleton, List.findSome?_singleton,
      SettingKey.given_key rfl]
  have hlookup : (empty.addEnvironment start).overrides.lookup j.path = none := rfl
  rw [hin, henvironment, hgiven, hlookup, Option.none_or, List.reverse_nil, List.findSome?_nil,
    Option.or_none]
  exact hread j

/-- The variable of a leaf among variables that are no settings. -/
theorem settings_variable (k : SettingKey) (v : String) {before after : List (String × String)}
    (h : ∀ p ∈ before ++ after, Environment.key? start p.1 = none) :
    Environment.settings start (before ++ (start ++ k.variable, v) :: after) =
      [(k.key, .leaf (some Environment.origin) (Environment.leaf v))] := by
  have hnone {pairs : List (String × String)} (hsub : ∀ p ∈ pairs, p ∈ before ++ after) :
      Environment.settings start pairs = [] := by
    refine List.filterMap_eq_nil_iff.mpr fun p hp => ?_
    dsimp only
    rw [h p (hsub p hp), Option.map_none]
  have hbefore := hnone fun p hp => List.mem_append_left after hp
  have hafter := hnone fun p hp => List.mem_append_right before hp
  have hone : Environment.settings start ((start ++ k.variable, v) :: after) =
      (k.key, .leaf (some Environment.origin) (Environment.leaf v)) ::
        Environment.settings start after :=
    List.filterMap_cons_some (congrArg (Option.map _) (Environment.key?_variable k start))
  calc Environment.settings start (before ++ (start ++ k.variable, v) :: after)
    _ = Environment.settings start before ++
          Environment.settings start ((start ++ k.variable, v) :: after) := List.filterMap_append
    _ = _ := by rw [hbefore, hone, hafter, List.nil_append]

/-- The law of paths in the environment. Where the variable of a path is the only setting, loading
succeeds, everything else keeps its default, and the path is the text of the variable exactly when
this is written back as it was read. So it is for a text with a character that is in no number, but
not for a number with a plus sign or an exponent. -/
theorem path_variable_kept_iff (start v : String) (files : FileTree)
    (before after : List (String × String))
    (h : ∀ p ∈ before ++ after, Environment.key? start p.1 = none) : ∃ path,
    (empty.addEnvironment start).load files
      (before ++ (start ++ "_SNAPSHOT__FILE", v) :: after) =
        .ok { Settings.default with snapshotFile := some path } ∧
    (empty.addEnvironment start).load files
      (before ++ (start ++ "_GLOBAL__LOG_FILE", v) :: after) =
        .ok { Settings.default with logFile := some path } ∧
    (path = v ↔ Verbatim v) ∧
    ((∃ c ∈ v.toList, c.toNat < 0x80 ∧ Text.isNumeral c = false) → path = v) ∧
    (IsNumber v → (∃ c ∈ v.toList, c ∈ ['+', 'e', 'E']) → path ≠ v) := by
  obtain ⟨path, htext, hiff⟩ := (readsAs_leaf v).exists_text
  refine ⟨path, ?_, ?_, hiff, ?_, ?_⟩
  · refine load_variable (settings_variable .snapshotFile v h) (fun j => ?_) rfl
    cases j with
    | snapshotFile => exact htext _ _
    | _ => rfl
  · refine load_variable (settings_variable .logFile v h) (fun j => ?_) rfl
    cases j with
    | logFile => exact htext _ _
    | _ => rfl
  · rintro ⟨c, hc, hascii, hforeign⟩
    exact hiff.mpr (verbatim_of_mem hc hascii hforeign)
  · rintro hv ⟨c, hc, hmark⟩ heq
    exact not_verbatim_of_mem hv hc hmark (hiff.mp heq)

/-- A listing in a directory whose name is a number. -/
theorem path_variable_kept_iff_slash :
    let environment := [("HOME", "7"), ("GITARGS_SNAPSHOT__FILE", "1e3/list"), ("PATH", "true")]
    (∀ p ∈ [("HOME", "7"), ("PATH", "true")], Environment.key? "GITARGS" p.1 = none) ∧
      (empty.addEnvironment "GITARGS").load ⟨[]⟩ environment =
        .ok { Settings.default with snapshotFile := some "1e3/list" } := by
  intro environment
  have hothers : ∀ p ∈ [("HOME", "7"), ("PATH", "true")],
      Environment.key? "GITARGS" p.1 = none := by decide +kernel
  obtain ⟨path, hload, -, -, hkept, -⟩ := path_variable_kept_iff "GITARGS" "1e3/list" ⟨[]⟩
    [("HOME", "7")] [("PATH", "true")] hothers
  rw [hkept ⟨'/', by decide, by decide, by decide⟩] at hload
  exact ⟨hothers, hload⟩

/-- Zeros in front of a number are lost. -/
theorem path_variable_changed_zeros : ∃ path,
    (empty.addEnvironment "GITARGS").load ⟨[]⟩ [("GITARGS_GLOBAL__LOG_FILE", "007")] =
      .ok { Settings.default with logFile := some path } ∧ path ≠ "007" :=
  ⟨"7", ok_of_toOption (by decide +kernel), by decide⟩

end Loader

end GitInvocation
