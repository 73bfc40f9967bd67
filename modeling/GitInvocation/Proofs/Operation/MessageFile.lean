import GitInvocation.Proofs.Operation.BareOperands
import GitInvocation.Proofs.Words.Escapes

/-!
# The message file of a merge

The file with the message of a merge is the one path that keeps its backslashes, and it is written
between double quotes. There a backslash in front of another backslash, a dollar sign, a backtick
or a line feed is taken for an escape, and one at the end of the path takes the closing quote away.
Without these the file reaches the program as it is given. Otherwise the program receives another
file, or the text does not split.
-/
namespace GitInvocation

open Text (nonBlank?)
open Words

namespace Merge

variable {r : Merge} {file : String}

/-- The words in front of the message file. -/
def front (r : Merge) : List String :=
  { r with messageFile := none, log := 0, branch := "" }.argv

/-- The words behind the message file. -/
def tail (r : Merge) : List String := counted r.log ["--log=" ++ toString r.log] ++ [r.branch]

/-- The branch and the strategy are plain words. -/
structure Named (r : Merge) : Prop where
  branch : Plain r.branch ∧ r.branch ≠ ""
  strategy : ∀ strategy ∈ nonBlank? r.strategy, Bare strategy

theorem bare_front (h : r.Named) : ∀ w ∈ r.front, Bare w := by
  have hstrategy : ∀ w ∈ ((nonBlank? r.strategy).map ("--strategy=" ++ ·)).toList, Bare w := by
    intro w hw
    obtain ⟨strategy, hs, rfl⟩ := Option.map_eq_some_iff.mp (Option.mem_toList.mp hw)
    exact bare_append (bare_literal _ rfl) (h.strategy strategy hs)
  have hcommand : ∀ w ∈ ["merge"], Bare w := by
    intro w hw
    rw [List.mem_singleton.mp hw]
    exact bare_literal _ rfl
  have hnone : ∀ w ∈ ([] : List String), Bare w := fun w hw => absurd hw List.not_mem_nil
  simp only [front, argv, List.forall_mem_append]
  exact ⟨⟨⟨⟨⟨⟨⟨⟨hcommand, bare_given (bare_literal _ rfl) _⟩, hstrategy⟩,
    bare_given (bare_literal _ rfl) _⟩, bare_given (bare_literal _ rfl) _⟩,
    bare_given (bare_literal _ rfl) _⟩, hnone⟩, hnone⟩, hnone⟩

theorem plain_tail (h : r.Named) : ∀ w ∈ r.tail, Plain w ∧ w ≠ "" := by
  intro w hw
  have hflag : Plain "--log=" := plain_literal _ rfl
  rcases List.mem_append.mp hw with hw | hw
  · rw [counted] at hw
    split at hw
    · exact absurd hw List.not_mem_nil
    · rw [List.mem_singleton.mp hw]
      exact ⟨plain_append hflag (by decide) (bare_toString r.log.toNat), by simp⟩
  · exact List.mem_singleton.mp hw ▸ h.branch

theorem parts_message (h : r.Named) (hfile : nonBlank? r.messageFile = some file) :
    ∃ d : Draft, d.Reads r.front ∧
      r.draft.parts = d.parts ++ ("-F" ++ " " ++ quoted file) :: r.tail := by
  obtain ⟨d, hd, hdraft⟩ : ∃ d : Draft, d.Reads r.front ∧
      r.draft = ((d.raw? (some ("-F" ++ " " ++ quoted file))).raw?
        (Draft.countFlag? "--log=" r.log)).raw r.branch := by
    have hall := Merge.reads_draft (r := { r with messageFile := none, log := 0, branch := "" })
      ⟨h.strategy, nofun, plain_empty⟩
    refine ⟨_, hall.of_raw_empty.of_raw?_none.of_raw?_none, ?_⟩
    rw [Merge.draft, hfile]
    rfl
  refine ⟨d, hd, ?_⟩
  rw [hdraft, Draft.parts_raw _ h.branch.2, Draft.raw?, Draft.raw?, Draft.parts_add,
    Draft.parts_add]
  by_cases hlog : r.log = 0 <;>
    simp [tail, counted, Draft.countFlag?, Token.text?, hlog]

/-- The words of a merge with a message file, as far as the file is one. -/
theorem words?_message (h : r.Named) (hfile : nonBlank? r.messageFile = some file)
    (hq : Unquoted file) :
    words? r.draft.text = (content? file.toList).map fun got =>
      r.front ++ "-F" :: String.ofList got :: r.tail := by
  obtain ⟨d, hd, hparts⟩ := parts_message h hfile
  have hflag : Word "-F" := settled_literal _ rfl
  have htail : AllSettled r.tail r.tail := allSettled_words (plain_tail h)
  have hbetween := words?_between (AllSettled.append hd (.single hflag)) hq htail
    fun part hp => unquoted_of_bare (plain_tail h part hp).1.1
  rw [Draft.text, hparts, intercalate_two]
  simpa using hbetween

end Merge

namespace Operation

/-- The law of the message file. The words of a merge are those around the file, the flag of the
file, and what the file stands for between double quotes. The file itself is behind its flag, and
the branch at the end, exactly when no backslash in the file escapes anything. -/
theorem message_file_reaches_iff {r : Merge} {file : String} (h : r.Named)
    (hfile : r.messageFile = some file) (hblank : Text.blank file = false) (hq : Unquoted file)
    (s : Snapshot) : ∃ text, (merge r).arguments s = .ok text ∧
      words? text = (content? file.toList).map (fun got =>
        r.front ++ "-F" :: String.ofList got :: r.tail) ∧
      ((∃ argv, words? text = some argv ∧ ["-F", file] <:+: argv ∧
          argv.getLast? = some r.branch) ↔ Inert file.toList) := by
  have hgiven : nonBlank? r.messageFile = some file := by simp [nonBlank?, hfile, hblank]
  have hwords := Merge.words?_message h hgiven hq
  refine ⟨r.draft.text, rfl, hwords, ?_⟩
  rw [hwords, ← content?_eq_self_iff]
  constructor
  · rintro ⟨argv, hargv, hinfix, -⟩
    obtain ⟨got, hgot, rfl⟩ := Option.map_eq_some_iff.mp hargv
    by_cases hback : '\\' ∈ file.toList
    · -- No other word has a backslash, so it is the one behind the flag that is the file.
      have hbare : ¬ Bare file := fun hb => absurd (hb _ hback) (by decide)
      have hmem : file ∈ r.front ++ "-F" :: String.ofList got :: r.tail :=
        hinfix.subset (List.mem_cons_of_mem _ List.mem_cons_self)
      simp only [List.mem_append, List.mem_cons] at hmem
      rcases hmem with hmem | rfl | rfl | hmem
      · exact absurd (Merge.bare_front h file hmem) hbare
      · exact absurd (bare_literal _ rfl) hbare
      · rw [hgot, String.toList_ofList]
      · exact absurd (Merge.plain_tail h file hmem).1.1 hbare
    · exact content?_eq_self_iff.mpr (inert_of_notMem hback)
  · intro hsame
    refine ⟨r.front ++ "-F" :: file :: r.tail, by simp [hsame], ⟨r.front, r.tail, by simp⟩, ?_⟩
    rw [Merge.tail, ← List.cons_append, ← List.cons_append, ← List.append_assoc,
      List.getLast?_concat]

/-- The backslashes of most paths escape nothing. -/
theorem message_file_reaches_iff_windowsPath :
    let r : Merge := ⟨"topic", true, some "ours", false, false, false,
      some "D:\\myrepo\\.git\\file", 5⟩
    let text := "merge --strategy=ours -F \"D:\\myrepo\\.git\\file\" --log=5 topic"
    (merge r).arguments .empty = .ok text ∧ ∃ argv, words? text = some argv ∧
      ["-F", "D:\\myrepo\\.git\\file"] <:+: argv ∧ argv.getLast? = some "topic" := by
  intro r text
  have hshown : (merge r).arguments .empty = .ok text := congrArg Except.ok (by decide +kernel)
  have hnamed : r.Named := ⟨by decide +kernel, by decide +kernel⟩
  obtain ⟨shown, htext, -, hreaches⟩ :=
    message_file_reaches_iff hnamed rfl (by decide +kernel) (by decide +kernel) .empty
  obtain rfl := Except.ok.inj (htext.symm.trans hshown)
  exact ⟨htext, hreaches.mpr (by decide +kernel)⟩

def sharedMessage : Merge :=
  ⟨"topic", true, none, false, false, false, some "\\\\host\\MERGE_MSG", 0⟩

/-- The first of the two backslashes in front of a host escapes the second. -/
theorem message_file_altered_sharedPath : sharedMessage.Named ∧
    Unquoted "\\\\host\\MERGE_MSG" ∧ ∃ text argv,
      (merge sharedMessage).arguments .empty = .ok text ∧ words? text = some argv ∧
      argv = ["merge", "-F", "\\host\\MERGE_MSG", "topic"] ∧
      ¬ ["-F", "\\\\host\\MERGE_MSG"] <:+: argv := by
  refine ⟨⟨by decide +kernel, nofun⟩, by decide +kernel,
    "merge -F \"\\\\host\\MERGE_MSG\" topic", ["merge", "-F", "\\host\\MERGE_MSG", "topic"],
    congrArg Except.ok ?_, ?_, rfl, ?_⟩
  · decide +kernel
  · decide +kernel
  · decide +kernel

end Operation

end GitInvocation
