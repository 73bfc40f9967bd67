import GitInvocation.Proofs.Command.Opening
import GitInvocation.Proofs.Operation.BareOperands

/-!
# Overrides that arrive in one piece

An override is written without quotes, so blanks in it part words and a hash in front of it opens
a comment. For overrides without quotes and backslashes of their own, these are the only ways to
lose one: the program receives all of them, each as a word, exactly when none has a blank and none
starts with a hash.
-/
namespace GitInvocation

open Draft (given settings)
open Text (nonBlank?)
open Words

namespace Words

/-- Text without quotes of either kind and without backslashes. -/
def Unmarked (s : List Char) : Prop := ∀ c ∈ s, c ≠ '"' ∧ c ≠ '\x27' ∧ c ≠ '\\'

/-- Text without the characters that part words. -/
def Gapless (s : List Char) : Prop := ∀ c ∈ s, isGap c = false

instance (s : List Char) : Decidable (Unmarked s) := List.decidableBAll _ s
instance (s : List Char) : Decidable (Gapless s) := List.decidableBAll _ s

theorem bare_iff {s : String} : Bare s ↔ Unmarked s.toList ∧ Gapless s.toList := by
  simp only [Bare, Unmarked, Gapless, ← forall_and, isPlain]
  refine forall_congr' fun c => forall_congr' fun _ => ?_
  simp [and_assoc, and_comm, and_left_comm]

theorem gapless_extend {c : Char} (hc : isGap c = false) {ws : List (List Char)}
    (h : ∀ w ∈ ws, Gapless w) : ∀ w ∈ extend [c] ws, Gapless w := by
  cases ws with
  | nil => simpa [extend, Gapless] using hc
  | cons w ws =>
    intro v hv
    rcases List.mem_cons.mp hv with rfl | hv
    · intro d hd
      rcases List.mem_cons.mp hd with rfl | hd
      · exact hc
      · exact h w List.mem_cons_self d hd
    · exact h v (List.mem_cons_of_mem w hv)

/-- Outside quotes a character moves on to a place outside quotes, and a gap ends the word. -/
theorem step_unmarked {p : Place} {c : Char} (hp : p = .gap ∨ p = .comment ∨ p = .bare)
    (hc : c ≠ '"' ∧ c ≠ '\x27' ∧ c ≠ '\\') :
    (next p c = .gap ∨ next p c = .comment ∨ next p c = .bare) ∧
      ∀ ws, (∀ w ∈ ws, Gapless w) → ∀ w ∈ emit p c ws, Gapless w := by
  obtain ⟨hd, hs, hb⟩ := hc
  have hnil : Gapless [] := fun _ h => absurd h List.not_mem_nil
  rcases hp with rfl | rfl | rfl
  · by_cases hg : isGap c
    · simp [next, emit, hg]
    · by_cases hh : c = '#'
      · subst hh
        exact ⟨.inr (.inl rfl), fun ws h => by simpa [emit] using h⟩
      · have hg := (Bool.not_eq_true _).mp hg
        simp only [next, emit, hg, hh, hd, hs, hb]
        exact ⟨.inr (.inr rfl), fun ws => gapless_extend hg⟩
  · by_cases hn : c = '\n' <;> simp [next, emit, hn]
  · by_cases hg : isGap c
    · simp [next, emit, hg, hnil]
    · have hg := (Bool.not_eq_true _).mp hg
      simp only [next, emit, hg, hd, hs, hb]
      exact ⟨.inr (.inr rfl), fun ws => gapless_extend hg⟩

theorem scan_unmarked {p : Place} {s : List Char} (hp : p = .gap ∨ p = .comment ∨ p = .bare)
    (hs : Unmarked s) : ∃ ws, scan p s = some ws ∧ ∀ w ∈ ws, Gapless w := by
  induction s generalizing p with
  | nil => rcases hp with rfl | rfl | rfl <;> simp [scan, Gapless]
  | cons c s ih =>
    obtain ⟨hnext, hemit⟩ := step_unmarked hp (hs c List.mem_cons_self)
    obtain ⟨ws, hw, hg⟩ := ih hnext fun d hd => hs d (List.mem_cons_of_mem c hd)
    exact ⟨emit p c ws, by rw [scan_cons, hw]; rfl, hemit ws hg⟩

theorem scan_append_comment {p : Place} {s t : List Char} (h : after p s = .comment)
    (ht : '\n' ∉ t) : scan p (s ++ t) = scan p s := by
  have hs := scan_append p s []
  rw [List.append_nil, h] at hs
  rw [scan_append, h, scan_comment ht, hs]
  rfl

/-- No word of unmarked text has a gap in it, whatever settled text without gaps in its words comes
behind it. -/
theorem gapless_words {text rest : String} {ws words : List String} (ht : Unmarked text.toList)
    (hr : Settled rest ws) (hg : ∀ w ∈ ws, Gapless w.toList) (hline : '\n' ∉ rest.toList)
    (h : words? (text ++ " " ++ rest) = some words) : ∀ w ∈ words, Gapless w.toList := by
  obtain ⟨vs, hscan, hvs⟩ := scan_unmarked (.inl rfl) ht
  have hl : (text ++ " " ++ rest).toList = text.toList ++ ' ' :: rest.toList := by simp
  rw [words?, hl] at h
  by_cases hc : after .gap text.toList = .comment
  · have hrest : '\n' ∉ ' ' :: rest.toList := by simpa using hline
    rw [scan_append_comment hc hrest, hscan] at h
    obtain rfl := Option.some.inj h
    simpa using hvs
  · rw [scan_append_space hscan hc, hr.1] at h
    obtain rfl := Option.some.inj h
    intro w hw
    simp only [List.map_append, List.map_map, List.mem_append, List.mem_map] at hw
    rcases hw with ⟨v, hv, rfl⟩ | ⟨v, hv, rfl⟩
    · simpa using hvs v hv
    · simpa using hg v hv

end Words

theorem posixPath_of_notMem {s : String} (h : '\\' ∉ s.toList) : posixPath s = s := by
  have hback : ∀ c ∈ s.toList, (if c = '\\' then '/' else c) = c := fun c hc =>
    if_neg fun he : c = '\\' => h (he ▸ hc)
  rw [posixPath, ← String.toList_inj, String.toList_map, List.map_congr_left hback, List.map_id']

theorem posixPath_of_bare {s : String} (h : Bare s) : posixPath s = s :=
  posixPath_of_notMem (quotable_of_bare h).2

namespace AddSubmodule

/-- The same submodule without overrides. -/
def plain (r : AddSubmodule) : AddSubmodule := { r with overrides := [] }

/-- The other text of an addition is bare. -/
structure Tame (r : AddSubmodule) : Prop where
  branch : ∀ branch ∈ nonBlank? r.branch, Bare branch
  remotePath : Bare r.remotePath
  localPath : Bare r.localPath

variable {r : AddSubmodule}

theorem parts_draft (r : AddSubmodule) :
    r.draft.parts = r.overrides.flatMap (fun o => ["-c", o.text]) ++ r.plain.draft.parts := by
  have hd : r.draft = { r.plain.draft with overrides := r.overrides } := by
    unfold draft plain
    cases r.force <;> cases nonBlank? r.branch <;> rfl
  have hplain : r.plain.draft.overrides = [] ∧ r.plain.draft.lockFree = false := by
    unfold draft plain
    cases r.force <;> cases nonBlank? r.branch <;> exact ⟨rfl, rfl⟩
  rw [hd]
  simp [Draft.parts, hplain]

theorem Tame.reads (h : r.Tame) : r.plain.draft.Reads r.plain.argv :=
  reads_draft ⟨fun _ ho => absurd ho List.not_mem_nil, fun b hb => quotable_of_bare (h.branch b hb),
    unquoted_of_bare h.remotePath, unquoted_of_bare h.localPath⟩

theorem Tame.bare_argv (h : r.Tame) : ∀ w ∈ r.plain.argv, Bare w := by
  have hword : ∀ l : List Char, l.all isPlain → ∀ w ∈ [String.ofList l], Bare w :=
    fun l hl w hw => List.mem_singleton.mp hw ▸ bare_literal l hl
  have hremote := bare_filled ((posixPath_of_bare h.remotePath).symm ▸ h.remotePath)
  have hlocal := bare_filled ((posixPath_of_bare h.localPath).symm ▸ h.localPath)
  intro w hw
  simp only [argv, List.mem_append] at hw
  rcases hw with ((((((hw | hw) | hw) | hw) | hw) | hw) | hw) | hw
  · exact absurd hw List.not_mem_nil
  · exact hword _ rfl w hw
  · exact hword _ rfl w hw
  · exact bare_given (bare_literal _ rfl) _ w hw
  · exact bare_given (bare_literal _ rfl) _ w hw
  · exact h.branch w (Option.mem_toList.mp hw)
  · exact hremote w hw
  · exact hlocal w hw

theorem parts_plain (r : AddSubmodule) : r.plain.draft.parts =
    ["submodule", "add"] ++ given r.force "-f" ++ given (nonBlank? r.branch).isSome "-b" ++
      (nonBlank? r.branch).toList.map quoted ++ (quoted? (posixPath r.remotePath)).toList ++
      (quoted? (posixPath r.localPath)).toList := by
  have hbranch : ∀ b ∈ nonBlank? r.branch, b ≠ "" := fun _ hb => ne_empty_of_nonBlank? hb
  have hstart : (Draft.start "submodule" |>.configure []).parts = ["submodule"] := rfl
  unfold draft plain
  rw [Draft.parts_path, Draft.parts_path, Draft.parts_quoted? _ hbranch,
    Draft.parts_rawIf _ _ (by decide), Draft.parts_rawIf _ _ (by decide),
    Draft.parts_raw _ (by decide), hstart]
  rfl

theorem Tame.line (h : r.Tame) : ∀ part ∈ r.plain.draft.parts, '\n' ∉ part.toList := by
  have hbranch : ∀ b ∈ nonBlank? r.branch, '\n' ∉ (quoted b).toList := by
    intro b hb
    simpa [quoted] using line_of_bare (h.branch b hb)
  rw [parts_plain]
  intro part hp
  simp only [List.mem_append, List.mem_cons, List.not_mem_nil, or_false, List.mem_map,
    Option.mem_toList] at hp
  rcases hp with ((((hp | hp) | hp) | ⟨b, hb, rfl⟩) | hp) | hp
  · rcases hp with rfl | rfl <;> decide
  · exact line_of_bare (bare_given (bare_literal _ rfl) _ part hp)
  · exact line_of_bare (bare_given (bare_literal _ rfl) _ part hp)
  · exact hbranch b hb
  · exact line_quoted? (line_posixPath (line_of_bare h.remotePath)) part hp
  · exact line_quoted? (line_posixPath (line_of_bare h.localPath)) part hp

/-- The overrides hold no quotes and no backslashes. -/
def OverridesUnmarked (r : AddSubmodule) : Prop :=
  ∀ o ∈ r.overrides, Unmarked o.key.toList ∧ Unmarked o.value.toList

instance (r : AddSubmodule) : Decidable r.OverridesUnmarked :=
  inferInstanceAs (Decidable (∀ o ∈ r.overrides, _))

theorem unmarked_text {o : Override} (h : Unmarked o.key.toList ∧ Unmarked o.value.toList) :
    Unmarked o.text.toList := by
  intro c hc
  simp only [Override.text, String.toList_append, List.mem_append] at hc
  rcases hc with (hc | hc) | hc
  · exact h.1 c hc
  · obtain rfl := List.mem_singleton.mp hc
    decide
  · exact h.2 c hc

/-- An override that does not arrive in one piece is not among the words. -/
theorem gapless_overrides (hr : r.OverridesUnmarked) (h : r.Tame) {words : List String}
    (hwords : words? r.draft.text = some words) (hsub : ∀ o ∈ r.overrides, o.text ∈ words) :
    ∀ o ∈ r.overrides, Gapless o.text.toList := by
  intro o ho
  have hne : r.overrides.flatMap (fun o => ["-c", o.text]) ≠ [] := by
    intro hnil
    exact absurd (List.flatMap_eq_nil_iff.mp hnil o ho) (List.cons_ne_nil _ _)
  have hmarks : Unmarked
      (" ".intercalate (r.overrides.flatMap fun o => ["-c", o.text])).toList := by
    refine forall_intercalate (by decide) fun part hp => ?_
    obtain ⟨o', ho', hp⟩ := List.mem_flatMap.mp hp
    rcases List.mem_cons.mp hp with rfl | hp
    · show Unmarked "-c".toList
      decide
    · exact List.mem_singleton.mp hp ▸ unmarked_text (hr o' ho')
  have hgapless : ∀ w ∈ r.plain.argv, Gapless w.toList := fun w hw =>
    (bare_iff.mp (h.bare_argv w hw)).2
  rw [Draft.text, parts_draft,
    String.intercalate_append_of_ne_nil hne r.plain.draft.parts_ne_nil] at hwords
  have hall := gapless_words hmarks h.reads.text hgapless (line_intercalate h.line) hwords
  exact hall o.text (hsub o ho)

theorem mem_settings {items : List Override} {w : String} (h : w ∈ settings items) :
    w = "-c" ∨ ∃ o ∈ items, w = o.text := by
  obtain ⟨o, ho, hw⟩ := List.mem_flatMap.mp h
  rcases List.mem_cons.mp hw with hw | hw
  · exact .inl hw
  · exact .inr ⟨o, ho, List.mem_singleton.mp hw⟩

theorem text_mem_settings {items : List Override} {o : Override} (h : o ∈ items) :
    o.text ∈ settings items :=
  List.mem_flatMap.mpr ⟨o, h, List.mem_cons_of_mem _ List.mem_cons_self⟩

/-- Without gaps in them, the overrides are words up to the first that starts with a hash. -/
theorem words?_text (hr : r.OverridesUnmarked) (h : r.Tame)
    (hg : ∀ o ∈ r.overrides, Gapless o.text.toList) :
    words? r.draft.text = some (uncovered (settings r.overrides) r.plain.argv) := by
  have hbares : ∀ w ∈ settings r.overrides, Bare w ∧ w ≠ "" := by
    intro w hw
    rcases mem_settings hw with rfl | ⟨o, ho, rfl⟩
    · exact ⟨bare_literal _ rfl, by decide⟩
    · exact ⟨bare_iff.mpr ⟨unmarked_text (hr o ho), hg o ho⟩, by simp [Override.text]⟩
  have hall := words?_bares .nil hbares h.reads h.line
  rw [List.nil_append, List.nil_append] at hall
  rw [Draft.text, parts_draft]
  exact hall

end AddSubmodule

theorem isHashed_of_prefix {bares behind words : List String} (hw : words ≠ [])
    (h : bares ++ words <+: uncovered bares behind) : ∀ w ∈ bares, isHashed w = false := by
  intro w hmem
  cases hhash : isHashed w
  · rfl
  have hany : bares.any isHashed := List.any_eq_true.mpr ⟨w, hmem, hhash⟩
  have hle := h.length_le
  have htake : (bares.takeWhile fun w => !isHashed w).length ≤ bares.length :=
    (List.takeWhile_sublist _).length_le
  have hpos := List.length_pos_iff.mpr hw
  simp only [uncovered, hany, if_true, List.append_nil, List.length_append] at hle
  omega

namespace Operation

/-- The law of overrides without quotes and backslashes. The program receives them whole and in
front of the command exactly when none of them has a space, a tab or a line feed in it and none
starts with a hash. -/
theorem overrides_whole_iff {r : AddSubmodule} (hr : r.OverridesUnmarked) (h : r.Tame)
    (s : Snapshot) : ∃ text, (addSubmodule r).arguments s = .ok text ∧
      ((∃ words, words? text = some words ∧
          settings r.overrides ++ ["submodule", "add"] <+: words) ↔
        ∀ o ∈ r.overrides, Gapless o.text.toList ∧ isHashed o.text = false) := by
  refine ⟨r.draft.text, rfl, ?_, ?_⟩
  · rintro ⟨words, hwords, hfront⟩
    have hmem : ∀ w ∈ settings r.overrides, w ∈ words := fun w hw =>
      hfront.subset (List.mem_append_left _ hw)
    have hg := AddSubmodule.gapless_overrides hr h hwords fun o ho =>
      hmem o.text (AddSubmodule.text_mem_settings ho)
    obtain rfl := Option.some.inj (hwords.symm.trans (AddSubmodule.words?_text hr h hg))
    have hhash := isHashed_of_prefix (List.cons_ne_nil _ _) hfront
    exact fun o ho => ⟨hg o ho, hhash o.text (AddSubmodule.text_mem_settings ho)⟩
  · intro hall
    refine ⟨_, AddSubmodule.words?_text hr h fun o ho => (hall o ho).1, ?_⟩
    have hhash : ∀ w ∈ settings r.overrides, isHashed w = false := by
      intro w hw
      rcases AddSubmodule.mem_settings hw with rfl | ⟨o, ho, rfl⟩
      · decide
      · exact (hall o ho).2
    rw [uncovered_eq_append_iff.mpr hhash, List.prefix_append_right_inj]
    exact ⟨_, by simp only [AddSubmodule.argv, AddSubmodule.plain, List.append_assoc]; rfl⟩

/-- A hash within a value and a blank that is no gap are harmless. -/
theorem overrides_whole_iff_hashInside :
    let r : AddSubmodule := ⟨"remote", "local", none, true,
      [.allowFileProtocol, ⟨"user.name", "Jane\u00a0#2"⟩]⟩
    ∃ text, (addSubmodule r).arguments .empty = .ok text ∧ ∃ words, words? text = some words ∧
      ["-c", "protocol.file.allow=always", "-c", "user.name=Jane\u00a0#2", "submodule", "add"] <+:
        words := by
  intro r
  have hr : r.OverridesUnmarked := by decide +kernel
  have h : r.Tame := ⟨fun _ hb => absurd hb (by simp [r, nonBlank?]), by decide +kernel,
    by decide +kernel⟩
  obtain ⟨text, htext, hwhole⟩ := overrides_whole_iff hr h .empty
  have hall : ∀ o ∈ r.overrides, Gapless o.text.toList ∧ isHashed o.text = false := by
    decide +kernel
  exact ⟨text, htext, hwhole.mpr hall⟩

def namedAddition : AddSubmodule :=
  ⟨"remote", "local", none, false, [⟨"user.name", "Jane Doe"⟩]⟩

/-- The second half of a name with a blank stands where the command is looked for. -/
theorem overrides_split_namedAddition : namedAddition.OverridesUnmarked ∧
    ∃ text words, (addSubmodule namedAddition).arguments .empty = .ok text ∧
      words? text = some words ∧
      words = ["-c", "user.name=Jane", "Doe", "submodule", "add", "remote", "local"] ∧
      ¬["-c", "user.name=Jane Doe", "submodule", "add"] <+: words := by
  refine ⟨by decide +kernel, "-c user.name=Jane Doe submodule add \"remote\" \"local\"",
    ["-c", "user.name=Jane", "Doe", "submodule", "add", "remote", "local"], congrArg Except.ok ?_,
    ?_, rfl, ?_⟩
  · decide +kernel
  · decide +kernel
  · decide +kernel

end Operation

end GitInvocation
