import GitInvocation.Proofs.Snapshot.Entries
import GitInvocation.Proofs.Text.Number
import GitInvocation.Settings.Loading

/-!
# The printed settings

Every setting has one line, and so has every entry of the snapshot, however many there are. The
lines come in the order of their keys, by bytes, and the equals signs stand in one column behind
the longest key. No key has a blank in it, so what a line is about can be read off the line.
-/
namespace GitInvocation

/-- The places of a list have different names, as different numbers are written differently. -/
theorem Setting.itemKey_injective {key : String} {m n : Nat}
    (h : Setting.itemKey key m = Setting.itemKey key n) : m = n := by
  have hlist := congrArg String.toList h
  simp only [Setting.itemKey, String.toList_append] at hlist
  have hdigits := List.append_cancel_left (List.append_cancel_right hlist)
  exact Text.toString_injective (String.toList_inj.mp hdigits)

namespace Settings

variable {s : Settings} {key value : String}

/-- The settings with names of their own. -/
def named (s : Settings) : List (String × String) :=
  [("global.output_log_level", toString s.consoleVerbosity.number),
    ("global.file_log_level", toString s.fileVerbosity.number),
    ("global.log_file", s.logFile.getD ""),
    ("snapshot.file", s.snapshotFile.getD "")]

/-- The entries of the snapshot, named by their places. -/
def placed (s : Settings) : List (String × String) :=
  s.snapshotValues.zipIdx.map fun (entry, n) => (Setting.itemKey "snapshot.values" n, entry)

theorem options_eq (s : Settings) : s.options = putAll (s.named ++ s.placed) [] := rfl

section Keys

/-- A character that may stand in a key. Keys have neither blanks nor letters of several bytes. -/
def isKeyChar (c : Char) : Bool := c ≠ ' ' && c.toNat < 0x80

theorem keys_placed (s : Settings) :
    s.placed.map Prod.fst =
      (List.range' 0 s.snapshotValues.length).map (Setting.itemKey "snapshot.values") := by
  rw [← List.zipIdx_map_snd, placed, List.map_map, List.map_map]
  rfl

theorem keys_named (s : Settings) : s.named.map Prod.fst =
    ["global.output_log_level", "global.file_log_level", "global.log_file", "snapshot.file"] := rfl

theorem getLast?_itemKey (key : String) (n : Nat) :
    (Setting.itemKey key n).toList.getLast? = some ']' := by
  rw [Setting.itemKey, String.toList_append, List.getLast?_append]
  rfl

theorem nodup_keys (s : Settings) : ((s.named ++ s.placed).map Prod.fst).Nodup := by
  rw [List.map_append, List.nodup_append, keys_placed, keys_named]
  refine ⟨by decide, (List.nodup_range' 1).map fun _ _ => Setting.itemKey_injective, ?_⟩
  -- The name of a place ends with a bracket, and no other name does.
  intro a ha b hb hab
  obtain ⟨n, -, rfl⟩ := List.mem_map.mp hb
  have hend : ∀ key ∈ ["global.output_log_level", "global.file_log_level", "global.log_file",
      "snapshot.file"], key.toList.getLast? ≠ some ']' := by decide
  exact hend a ha (hab ▸ getLast?_itemKey _ n)

theorem isKeyChar_of_isDigit {c : Char} (h : c.isDigit) : isKeyChar c := by
  rw [isKeyChar, Bool.and_eq_true_iff, decide_eq_true_iff, decide_eq_true_iff]
  obtain ⟨-, hle⟩ := Char.isDigit_iff_toNat.mp h
  refine ⟨?_, hle.trans_lt (by decide)⟩
  rintro rfl
  exact absurd h (by decide)

theorem isKeyChar_itemKey {key : String} (h : ∀ c ∈ key.toList, isKeyChar c) (n : Nat) :
    ∀ c ∈ (Setting.itemKey key n).toList, isKeyChar c := by
  intro c hc
  rw [Setting.itemKey, String.toList_append, String.toList_append, String.toList_append,
    Nat.toString_eq_repr, Nat.toList_repr, List.mem_append, List.mem_append, List.mem_append] at hc
  rcases hc with ((hc | hc) | hc) | hc
  · exact h c hc
  · rw [List.mem_singleton.mp hc]
    decide
  · exact isKeyChar_of_isDigit (Text.isDigit_of_mem_toDigits c hc)
  · rw [List.mem_singleton.mp hc]
    decide

theorem isKeyChar_of_mem (h : key ∈ (s.named ++ s.placed).map Prod.fst) :
    ∀ c ∈ key.toList, isKeyChar c := by
  rw [List.map_append, keys_placed, keys_named] at h
  rcases List.mem_append.mp h with h | h
  · have hall : ∀ key ∈ ["global.output_log_level", "global.file_log_level", "global.log_file",
        "snapshot.file"], key.toList.all isKeyChar := by decide
    exact List.all_eq_true.mp (hall key h)
  · obtain ⟨n, -, rfl⟩ := List.mem_map.mp h
    exact isKeyChar_itemKey (List.all_eq_true.mp (by decide)) n

end Keys

section Order

theorem options_perm (s : Settings) : s.options.Perm (s.named ++ s.placed) := by
  rw [options_eq]
  exact putAll_perm s.nodup_keys

theorem ascending_options (s : Settings) : Ascending s.options := by
  rw [options_eq]
  exact ascending_putAll .nil

theorem nodup_options (s : Settings) : (s.options.map Prod.fst).Nodup :=
  (s.options_perm.map Prod.fst).nodup_iff.mpr s.nodup_keys

theorem length_options (s : Settings) : s.options.length = s.snapshotValues.length + 4 := by
  rw [s.options_perm.length_eq, List.length_append, placed, List.length_map, List.length_zipIdx,
    Nat.add_comm]
  rfl

theorem mem_options_placed {i : Nat} (h : i < s.snapshotValues.length) :
    (Setting.itemKey "snapshot.values" i, s.snapshotValues[i]) ∈ s.options := by
  have hplace : (s.snapshotValues[i], i) ∈ s.snapshotValues.zipIdx :=
    List.mem_zipIdx_iff_getElem?.mpr (List.getElem?_eq_getElem h)
  exact s.options_perm.mem_iff.mpr
    (List.mem_append_right _ (List.mem_map.mpr ⟨_, hplace, rfl⟩))

theorem isKeyChar_of_option {e : String × String} (h : e ∈ s.options) :
    ∀ c ∈ e.1.toList, isKeyChar c :=
  isKeyChar_of_mem (List.mem_map_of_mem (s.options_perm.mem_iff.mp h))

end Order

section Columns

/-- The key that a line is about: what stands in front of its first blank. -/
def keyOf (line : String) : String := String.ofList (line.toList.takeWhile (· ≠ ' '))

/-- A line with a key, blanks up to the given width, and behind the equals sign a value. -/
def Shows (width : Nat) (line key value : String) : Prop :=
  ∃ blanks, key.length + blanks = width ∧
    line = key ++ String.ofList (List.replicate blanks ' ') ++ " = " ++ value

/-- How long the longest key is. -/
def width (s : Settings) : Nat := (s.options.map fun option => option.1.length).foldl max 0

def optionLine (width : Nat) (e : String × String) : String :=
  e.1 ++ String.ofList (List.replicate (width - e.1.length) ' ') ++ " = " ++ e.2

theorem optionLines_eq (s : Settings) : s.optionLines = s.options.map (optionLine s.width) := rfl

theorem mem_optionLines {line : String} :
    line ∈ s.optionLines ↔ ∃ e ∈ s.options, optionLine s.width e = line := List.mem_map

theorem width_spec (s : Settings) :
    (∃ e ∈ s.options, e.1.length = s.width) ∧ ∀ e ∈ s.options, e.1.length ≤ s.width := by
  have hne : s.options.map (fun e => e.1.length) ≠ [] := by
    rw [ne_eq, List.map_eq_nil_iff, ← List.length_eq_zero_iff, length_options]
    omega
  obtain ⟨longest, hmax⟩ := Option.isSome_iff_exists.mp (List.isSome_max?_of_ne_nil hne)
  have hwidth : s.width = longest := by
    rw [width, List.foldl_max, hmax, Option.getD_some, Nat.zero_max]
  obtain ⟨hmem, hle⟩ := List.max?_eq_some_iff.mp hmax
  rw [hwidth]
  exact ⟨List.mem_map.mp hmem, fun e he => hle _ (List.mem_map_of_mem he)⟩

theorem keyOf_optionLine {e : String × String} (h : ∀ c ∈ e.1.toList, isKeyChar c) (width : Nat) :
    keyOf (optionLine width e) = e.1 := by
  have hkey : ∀ c ∈ e.1.toList, decide (c ≠ ' ') = true := fun c hc =>
    (Bool.and_eq_true_iff.mp (h c hc)).1
  have hblank : ∀ n, (List.replicate n ' ' ++ ' ' :: ('=' :: ' ' :: e.2.toList)).takeWhile
      (fun c => decide (c ≠ ' ')) = [] := by
    rintro (_ | n) <;> rfl
  have hline : (optionLine width e).toList = e.1.toList ++
      (List.replicate (width - e.1.length) ' ' ++ ' ' :: ('=' :: ' ' :: e.2.toList)) := by
    simp [optionLine]
  rw [keyOf, hline, List.takeWhile_append_of_pos hkey, hblank, List.append_nil,
    String.ofList_toList]

theorem keyOf_of_option {e : String × String} (h : e ∈ s.options) :
    keyOf (optionLine s.width e) = e.1 := keyOf_optionLine (isKeyChar_of_option h) s.width

theorem shows_optionLine {e : String × String} (h : e ∈ s.options) :
    Shows s.width (optionLine s.width e) e.1 e.2 :=
  ⟨s.width - e.1.length, Nat.add_sub_cancel' (s.width_spec.2 e h), rfl⟩

theorem map_keyOf (s : Settings) : s.optionLines.map keyOf = s.options.map Prod.fst := by
  rw [optionLines_eq, List.map_map]
  exact List.map_congr_left fun e he => keyOf_of_option he

/-- No other line is about the key of an option. -/
theorem filter_keyOf (h : (key, value) ∈ s.options) :
    s.optionLines.filter (fun line => keyOf line = key) = [optionLine s.width (key, value)] := by
  have hsame : ∀ e ∈ s.options,
      decide (keyOf (optionLine s.width e) = key) = decide (e.1 = key) := by
    intro e he
    rw [keyOf_of_option he]
  rw [optionLines_eq, List.filter_map]
  calc
    _ = (s.options.filter fun e => e.1 = key).map (optionLine s.width) :=
        congrArg _ (List.filter_congr hsame)
    _ = _ := by rw [filter_of_mem s.nodup_options h, List.map_singleton]

theorem length_bytes_key {e : String × String} (h : e ∈ s.options) :
    (Text.bytes e.1).length = e.1.length :=
  Text.length_bytes_of_ascii fun c hc =>
    of_decide_eq_true (Bool.and_eq_true_iff.mp (isKeyChar_of_option h c hc)).2

/-- The one line with a key shows its value. -/
def Printed (s : Settings) (width : Nat) (key value : String) : Prop :=
  ∃ line, s.optionLines.filter (fun line => keyOf line = key) = [line] ∧ Shows width line key value

theorem printed_of_mem (h : (key, value) ∈ s.options) : s.Printed s.width key value :=
  ⟨optionLine s.width (key, value), filter_keyOf h, shows_optionLine h⟩

end Columns

/-- The law of printed settings. There is a line for each setting and one for each entry of the
snapshot, in the order of the bytes of their keys. The equals signs stand in one column behind the
longest key, and behind them stand the values as they are. -/
theorem option_lines_complete (s : Settings) :
    s.optionLines.length = s.snapshotValues.length + 4 ∧
    (s.optionLines.map keyOf).Pairwise (fun a b => Text.bytes a < Text.bytes b) ∧
    ∃ width,
      (∃ line ∈ s.optionLines, (Text.bytes (keyOf line)).length = width) ∧
      (∀ line ∈ s.optionLines, (Text.bytes (keyOf line)).length ≤ width ∧
        ∃ value, Shows width line (keyOf line) value) ∧
      (∀ e ∈ s.named, s.Printed width e.1 e.2) ∧
      ∀ (i : Nat) (h : i < s.snapshotValues.length),
        s.Printed width (Setting.itemKey "snapshot.values" i) s.snapshotValues[i] := by
  have hlength : s.optionLines.length = s.snapshotValues.length + 4 := by
    rw [optionLines_eq, List.length_map, length_options]
  have horder : (s.optionLines.map keyOf).Pairwise fun a b => Text.bytes a < Text.bytes b := by
    rw [map_keyOf, List.pairwise_map]
    exact s.ascending_options.imp Text.lt_iff_bytes_lt.mp
  obtain ⟨⟨longest, hmem, hlongest⟩, hle⟩ := s.width_spec
  refine ⟨hlength, horder, s.width, ?_, ?_, ?_, fun i h => printed_of_mem (mem_options_placed h)⟩
  · refine ⟨_, mem_optionLines.mpr ⟨longest, hmem, rfl⟩, ?_⟩
    rw [keyOf_of_option hmem, length_bytes_key hmem, hlongest]
  · intro line hline
    obtain ⟨e, he, rfl⟩ := mem_optionLines.mp hline
    rw [keyOf_of_option he, length_bytes_key he]
    exact ⟨hle e he, e.2, shows_optionLine he⟩
  · intro e he
    exact printed_of_mem (s.options_perm.mem_iff.mpr (List.mem_append_left _ he))

/-- The entry with the place 10 has a line of its own, and the equals signs in it do no harm. -/
theorem option_lines_complete_eleven :
    ∃ width, Printed { Settings.default with
      snapshotValues := List.replicate 10 "core.pager=cat" ++ ["alias.x = y=z "] } width
        "snapshot.values[10]" "alias.x = y=z " := by
  obtain ⟨-, -, width, -, -, -, hprinted⟩ := option_lines_complete { Settings.default with
    snapshotValues := List.replicate 10 "core.pager=cat" ++ ["alias.x = y=z "] }
  exact ⟨width, hprinted 10 (by decide)⟩

example : optionLines { Settings.default with snapshotValues := ["alias.x = y=z "] } =
    ["global.file_log_level   = 5",
      "global.log_file         = ",
      "global.output_log_level = 2",
      "snapshot.file           = ",
      "snapshot.values[0]      = alias.x = y=z "] := by
  cbv

end Settings

end GitInvocation
