import GitInvocation.Proofs.Operation.Rejecting
import GitInvocation.Proofs.Operation.WholeOverrides

/-!
# Telling resets apart by their words

A reset of the index alone has no flag of its own, and quotes do not reach the program. A commit
that is spelled like the flag of another mode is therefore taken for that flag, and a commit that
is spelled like the mark in front of the file for that mark. Apart from these the words of a reset
say what it asks for.
-/
namespace GitInvocation

open Text (nonBlank?)
open Words

namespace ResetMode

theorem flag?_eq_none_iff {mode : ResetMode} : mode.flag? = none ↔ mode = .index := by
  cases mode <;> simp [flag?]

theorem exists_flag {mode : ResetMode} (h : mode ≠ .index) : ∃ flag, mode.flag? = some flag :=
  Option.ne_none_iff_exists'.mp (mt flag?_eq_none_iff.mp h)

theorem flag?_injective {mode mode' : ResetMode} (h : mode.flag? = mode'.flag?) : mode = mode' := by
  cases mode <;> cases mode' <;> first | rfl | exact absurd h (by decide)

end ResetMode

namespace Reset

/-- The mark in front of the file. -/
def fileMark : String := "--"

/-- The commit and the file stand for themselves between quotes. -/
def Verbatim (r : Reset) : Prop := (∀ v ∈ r.commit, Quotable v) ∧ ∀ v ∈ r.file, Quotable v

instance (r : Reset) : Decidable r.Verbatim := inferInstanceAs (Decidable (_ ∧ _))

/-- What is asked for, where blank values count as none. -/
def effective (r : Reset) : Reset := ⟨r.mode, nonBlank? r.commit, nonBlank? r.file⟩

/-- The words between the command and the mark. -/
def front (r : Reset) : List String := r.mode.flag?.toList ++ r.commit.toList

/-- The first reset has the words of the second, which asks for something else. -/
inductive TakenFor (r r' : Reset) : Prop
  /-- The commit is read as the flag of the mode. -/
  | flag (mode : r.mode = .index) (mode' : r'.mode ≠ .index) (commit : r.commit = r'.mode.flag?)
      (commit' : r'.commit = none) (file : r.file = r'.file)
  /-- The commit is read as the mark, and the mark as the file. -/
  | mark (mode : r.mode = r'.mode) (mode' : r'.mode ≠ .index) (commit : r.commit = some fileMark)
      (commit' : r'.commit = none) (file : r.file = none) (file' : r'.file = some fileMark)
  /-- The commit is read as the flag of the mode, and the mark as the commit. -/
  | both (mode : r.mode = .index) (mode' : r'.mode ≠ .index) (commit : r.commit = r'.mode.flag?)
      (commit' : r'.commit = some fileMark) (file : r.file = some fileMark) (file' : r'.file = none)

/-- A reset of the index names a commit. -/
def Names (r : Reset) : Prop := r.mode = .index → r.commit ≠ none

variable {r r' : Reset}

/-- The words behind the command, of values that are not blank. -/
def behind (r : Reset) : List String := r.front ++ fileMark :: r.file.toList

/-- What stands in front of the mark is the commit alone, or a flag and perhaps the commit. -/
theorem Names.front_cases (h : r.Names) :
    (r.mode = .index ∧ ∃ commit, r.commit = some commit ∧ r.front = [commit]) ∨
    (r.mode ≠ .index ∧ ∃ flag, r.mode.flag? = some flag ∧ r.front = flag :: r.commit.toList) := by
  by_cases hm : r.mode = .index
  · obtain ⟨commit, hc⟩ := Option.ne_none_iff_exists'.mp (h hm)
    exact .inl ⟨hm, commit, hc, by rw [front, ResetMode.flag?_eq_none_iff.mpr hm, hc]; rfl⟩
  · obtain ⟨flag, hf⟩ := ResetMode.exists_flag hm
    exact .inr ⟨hm, flag, hf, by rw [front, hf]; rfl⟩

/-- A flag and a commit are told apart unless the commit is the flag. -/
theorem front_eq_iff (h : r.Names) (h' : r'.Names) : r.front = r'.front ↔
    (r.mode = r'.mode ∧ r.commit = r'.commit) ∨
    (r.mode = .index ∧ r'.mode ≠ .index ∧ r.commit = r'.mode.flag? ∧ r'.commit = none) ∨
    (r'.mode = .index ∧ r.mode ≠ .index ∧ r'.commit = r.mode.flag? ∧ r.commit = none) := by
  obtain ⟨hm, commit, hc, hw⟩ | ⟨hm, flag, hf, hw⟩ := h.front_cases <;>
    obtain ⟨hm', commit', hc', hw'⟩ | ⟨hm', flag', hf', hw'⟩ := h'.front_cases <;>
    rw [hw, hw']
  · simp [hm, hm', hc, hc']
  · simp [hm, hm', hm'.symm, hc, hf']
  · simp [hm, hm', hc', hf, eq_comm (a := commit')]
  · have hflag : flag = flag' ↔ r.mode = r'.mode := by
      rw [← Option.some.injEq, ← hf, ← hf']
      exact ⟨ResetMode.flag?_injective, congrArg _⟩
    have hcommit : r.commit.toList = r'.commit.toList ↔ r.commit = r'.commit := by
      cases r.commit <;> cases r'.commit <;> simp
    simp [hm, hm', hflag, hcommit]

/-- A word behind another front is the commit, and what is left without it is that front. -/
theorem front_eq_append_iff (h : r.Names) (h' : r'.Names) {v : String} :
    r.front = r'.front ++ [v] ↔
      r.mode ≠ .index ∧ r.commit = some v ∧ r'.front = { r with commit := none }.front := by
  have hne : r'.front ≠ [] := by
    obtain ⟨-, _, -, hw'⟩ | ⟨-, _, -, hw'⟩ := h'.front_cases <;> simp [hw']
  obtain ⟨hm, commit, hc, hw⟩ | ⟨hm, flag, hf, hw⟩ := h.front_cases
  · simp [hw, hm, List.singleton_eq_append_iff, hne]
  · cases hc : r.commit with
    | none => simp [hw, hc, List.singleton_eq_append_iff, hne]
    | some commit =>
      have hpair : [flag, commit] = [flag] ++ [commit] := rfl
      have hbare : { r with commit := none }.front = [flag] := by simp [front, hf]
      rw [hw, hc, hbare, Option.toList_some, hpair, List.append_singleton_inj]
      simp [hm, and_comm, eq_comm]

/-- The last mark with at most one word behind it is found in one way only, unless that word is
the mark itself. -/
theorem append_mark_eq_iff {ws ws' : List String} {file file' : Option String} :
    ws ++ fileMark :: file.toList = ws' ++ fileMark :: file'.toList ↔
      (ws = ws' ∧ file = file') ∨
      (ws = ws' ++ [fileMark] ∧ file = none ∧ file' = some fileMark) ∨
      (ws' = ws ++ [fileMark] ∧ file' = none ∧ file = some fileMark) := by
  have hpair : ∀ (vs : List String) (name : String),
      vs ++ [fileMark, name] = (vs ++ [fileMark]) ++ [name] := by simp
  cases file with
  | none =>
    cases file' with
    | none => simp
    | some name =>
      simp only [Option.toList_none, Option.toList_some, hpair, List.append_singleton_inj]
      simp [eq_comm]
  | some name =>
    cases file' with
    | none =>
      simp only [Option.toList_none, Option.toList_some, hpair, List.append_singleton_inj]
      simp [eq_comm]
    | some name' =>
      simp only [Option.toList_some, hpair, List.append_singleton_inj]
      simp

theorem TakenFor.behind_eq (h : r.TakenFor r') : r.behind = r'.behind := by
  cases h with
  | flag mode mode' commit commit' file =>
    simp [behind, front, ResetMode.flag?_eq_none_iff.mpr mode, commit, commit', file]
  | mark mode mode' commit commit' file file' =>
    simp [behind, front, mode, commit, commit', file, file']
  | both mode mode' commit commit' file file' =>
    simp [behind, front, ResetMode.flag?_eq_none_iff.mpr mode, commit, commit', file, file']

theorem takenFor_of_longer (h : r.Names) (h' : r'.Names)
    (hfront : r.front = r'.front ++ [fileMark]) (hfile : r.file = none)
    (hfile' : r'.file = some fileMark) : r.TakenFor r' ∨ r'.TakenFor r := by
  obtain ⟨hmode, hcommit, hrest⟩ := (front_eq_append_iff h h').mp hfront
  have hbare : Names { r with commit := none } := fun hm => absurd hm hmode
  obtain ⟨hmode', hcommit'⟩ | ⟨hmode', -, hcommit', -⟩ | ⟨hmode', -⟩ :=
    (front_eq_iff h' hbare).mp hrest
  · exact .inl (.mark hmode'.symm (hmode' ▸ hmode) hcommit hcommit' hfile hfile')
  · exact .inr (.both hmode' hmode hcommit' hcommit hfile' hfile)
  · exact absurd hmode' hmode

/-- Resets with the same words are the same, or one is taken for the other. -/
theorem behind_eq_iff (h : r.Names) (h' : r'.Names) :
    r.behind = r'.behind ↔ r = r' ∨ r.TakenFor r' ∨ r'.TakenFor r := by
  constructor
  · intro heq
    obtain ⟨hfront, hfile⟩ | ⟨hfront, hfile, hfile'⟩ | ⟨hfront, hfile', hfile⟩ :=
      append_mark_eq_iff.mp heq
    · obtain ⟨hmode, hcommit⟩ | ⟨hmode, hmode', hcommit, hcommit'⟩ |
        ⟨hmode', hmode, hcommit', hcommit⟩ := (front_eq_iff h h').mp hfront
      · exact .inl ((mk.injEq ..).mpr ⟨hmode, hcommit, hfile⟩)
      · exact .inr (.inl (.flag hmode hmode' hcommit hcommit' hfile))
      · exact .inr (.inr (.flag hmode' hmode hcommit' hcommit hfile.symm))
    · exact .inr (takenFor_of_longer h h' hfront hfile hfile')
    · exact .inr (takenFor_of_longer h' h hfront hfile' hfile).symm
  · rintro (rfl | htaken | htaken)
    · rfl
    · exact htaken.behind_eq
    · exact htaken.behind_eq.symm

theorem Verbatim.legible (h : r.Verbatim) : r.Legible :=
  ⟨fun v hv => h.1 v (mem_of_mem_nonBlank? hv), fun v hv => (h.2 v (mem_of_mem_nonBlank? hv)).1⟩

theorem Verbatim.argv_eq (h : r.Verbatim) : r.argv = "reset" :: r.effective.behind := by
  have hpath : ∀ v ∈ (nonBlank? r.file).toList, posixPath v = v := fun v hv =>
    posixPath_of_notMem (h.2 v (mem_of_mem_nonBlank? (Option.mem_toList.mp hv))).2
  have hfile : (nonBlank? r.file).toList.map posixPath = (nonBlank? r.file).toList := by
    rw [List.map_congr_left hpath, List.map_id']
  simp [argv, behind, front, effective, fileMark, hfile]

/-- An accepted reset names a commit where it has to, and its words are those of its values. -/
theorem words?_text (hr : r.Verbatim) {s : Snapshot} {text : String}
    (h : (Operation.reset r).arguments s = .ok text) :
    r.effective.Names ∧ words? text = some ("reset" :: r.effective.behind) := by
  obtain ⟨drafted, hdrafted, rfl⟩ := map_eq_ok_iff.mp h
  obtain ⟨d, hd, rfl⟩ := map_eq_ok_iff.mp hdrafted
  refine ⟨fun hmode hcommit => ?_, ?_⟩
  · have habsent : Text.Absent r.commit := Text.nonBlank?_eq_none_iff.mp hcommit
    have hrefused : r.draft = _ := draft_eq_error_iff.mpr ⟨hmode, habsent, rfl⟩
    exact absurd (hd.symm.trans hrefused) (by simp)
  · rw [← hr.argv_eq]
    exact (reads_draft hr.legible hd).text.words?

end Reset

namespace Operation

open Reset (TakenFor)

/-- The law of resets whose values stand for themselves between quotes. Two of them have the same
words exactly when they ask for the same, or one is taken for the other. A reset of the index in
particular has the words of a reset with a flag only if its commit is that flag. -/
theorem resets_alike_iff {r r' : Reset} (hr : r.Verbatim) (hr' : r'.Verbatim) {s s' : Snapshot}
    {text text' : String} (h : (reset r).arguments s = .ok text)
    (h' : (reset r').arguments s' = .ok text') :
    ∃ words words', words? text = some words ∧ words? text' = some words' ∧
      (words = words' ↔ r.effective = r'.effective ∨ TakenFor r.effective r'.effective ∨
        TakenFor r'.effective r.effective) ∧
      (r.mode = .index → r'.mode ≠ .index → words = words' →
        nonBlank? r.commit = r'.mode.flag?) := by
  obtain ⟨hnames, hwords⟩ := Reset.words?_text hr h
  obtain ⟨hnames', hwords'⟩ := Reset.words?_text hr' h'
  have hiff := (List.cons_inj_right "reset").trans (Reset.behind_eq_iff hnames hnames')
  refine ⟨_, _, hwords, hwords', hiff, fun hmode hmode' heq => ?_⟩
  rcases hiff.mp heq with hsame | htaken | htaken
  · exact absurd ((congrArg Reset.mode hsame).symm.trans hmode) hmode'
  · cases htaken with
    | flag _ _ commit => exact commit
    | mark mode mode' => exact absurd (mode.symm.trans hmode) mode'
    | both _ _ commit => exact commit
  · cases htaken with
    | flag mode => exact absurd mode hmode'
    | mark mode mode' => exact absurd hmode mode'
    | both mode => exact absurd mode hmode'

/-- The same commit and the same file, once for the index and once for all. -/
theorem resets_alike_iff_indexAndHard :
    ∃ words words', words? "reset \"HEAD~1\" -- \"a b\"" = some words ∧
      words? "reset --hard \"HEAD~1\" -- \"a b\"" = some words' ∧ words ≠ words' := by
  let r : Reset := ⟨.index, some "HEAD~1", some "a b"⟩
  let r' : Reset := ⟨.hard, some "HEAD~1", some "a b"⟩
  have h : (reset r).arguments .empty = .ok "reset \"HEAD~1\" -- \"a b\"" := by
    refine congrArg Except.ok ?_
    decide +kernel
  have h' : (reset r').arguments .empty = .ok "reset --hard \"HEAD~1\" -- \"a b\"" := by
    refine congrArg Except.ok ?_
    decide +kernel
  have hr : r.Verbatim := by decide +kernel
  have hr' : r'.Verbatim := by decide +kernel
  obtain ⟨words, words', hwords, hwords', -, hindex⟩ := resets_alike_iff hr hr' h h'
  have hcommit : nonBlank? r.commit ≠ r'.mode.flag? := by decide +kernel
  exact ⟨words, words', hwords, hwords', fun heq => hcommit (hindex rfl (by decide) heq)⟩

/-- Two resets that ask for different things have the same words. -/
def Lookalikes (r r' : Reset) (words : List String) : Prop :=
  r.Verbatim ∧ r'.Verbatim ∧ r.effective ≠ r'.effective ∧
    ∃ text text', (reset r).arguments .empty = .ok text ∧ (reset r').arguments .empty = .ok text' ∧
      words? text = some words ∧ words? text' = some words

/-- A commit like a flag, a commit like the mark, and both at once. -/
theorem resets_alike_lookalikes :
    Lookalikes ⟨.index, some "--soft", none⟩ ⟨.soft, none, none⟩ ["reset", "--soft", "--"] ∧
    Lookalikes ⟨.hard, some "--", none⟩ ⟨.hard, none, some "--"⟩
      ["reset", "--hard", "--", "--"] ∧
    Lookalikes ⟨.index, some "--keep", some "--"⟩ ⟨.keep, some "--", none⟩
      ["reset", "--keep", "--", "--"] := by
  refine ⟨?_, ?_, ?_⟩
  all_goals
    refine ⟨by decide +kernel, by decide +kernel, by decide +kernel, _, _, rfl, rfl, ?_, ?_⟩ <;>
      decide +kernel

end Operation

end GitInvocation
