import GitInvocation.Program
import GitInvocation.Proofs.CommandLine.Levels
import GitInvocation.Proofs.Text.Cutting

/-!
# Settings files on a command line

A settings file is named by the word behind its option, or in one word with it. A word that is the
value of another option names none, and neither does a word behind a lone pair of hyphens. The files
that are named in front of the command count only when none are named behind it. So a run layers all
the files of its command line exactly when they stand on one side of the command.
-/
namespace GitInvocation

namespace CommandLine

/-- The options whose value may stand behind them as a word of its own. -/
def valueOptions : List (String × Argument) :=
  [("--config", .config), ("-l", .logLevel), ("--log-level", .logLevel),
   ("--file-log-level", .fileLogLevel), ("--log-file", .logFile), ("--json", .json),
   ("--git-config", .gitConfig), ("-c", .configValue)]

/-- An option and the word behind it, which is its value, or a word on its own. -/
inductive Part where
  | apart (a : Argument) (value : String)
  | alone (w : String)

/-- The parts of a command line, up to a lone pair of hyphens. -/
def partsOf : List String → List Part
  | [] => []
  | w :: ws =>
    if w = hyphens then []
    else
      match valueOptions.lookup w, ws with
      | some a, v :: ws => .apart a v :: partsOf ws
      | _, ws => .alone w :: partsOf ws

/-- The settings file that an argument names with its value. -/
def fileValue? : Argument → Option String → Option String
  | .config, value => value
  | _, _ => none

namespace Part

def file? : Part → Option String
  | .apart a value => fileValue? a (some value)
  | .alone w => (Text.afterStart? "--config=".toList w.toList).map String.ofList

def isCommand : Part → Bool
  | .apart _ _ => false
  | .alone w => namesCommand w

/-- The settings files in front of a command. -/
def front (parts : List Part) : List String :=
  (parts.takeWhile fun p => !p.isCommand).filterMap file?

/-- The settings files behind a command. -/
def behind (parts : List Part) : List String :=
  (parts.dropWhile fun p => !p.isCommand).filterMap file?

end Part

/-- The settings files that a command line names, in its order. -/
def filesOf (words : List String) : List String := (partsOf words).filterMap Part.file?

def filesInFront (words : List String) : List String := Part.front (partsOf words)

def filesBehind (words : List String) : List String := Part.behind (partsOf words)

theorem filterMap_cons (p : Part) (parts : List Part) :
    (p :: parts).filterMap Part.file? = p.file?.toList ++ parts.filterMap Part.file? := by
  cases h : p.file? <;> simp [h]

namespace Part

variable {p : Part}

theorem front_cons (h : p.isCommand = false) (parts : List Part) :
    front (p :: parts) = p.file?.toList ++ front parts := by
  rw [front, List.takeWhile_cons_of_pos (by simp [h]), filterMap_cons, front]

theorem behind_cons (h : p.isCommand = false) (parts : List Part) :
    behind (p :: parts) = behind parts := by
  rw [behind, List.dropWhile_cons_of_pos (by simp [h]), behind]

theorem front_command (h : p.isCommand) (parts : List Part) : front (p :: parts) = [] := by
  rw [front, List.takeWhile_cons_of_neg (by simp [h]), List.filterMap_nil]

theorem behind_command (h : p.isCommand) (parts : List Part) :
    behind (p :: parts) = p.file?.toList ++ parts.filterMap file? := by
  rw [behind, List.dropWhile_cons_of_neg (by simp [h]), filterMap_cons]

end Part

theorem filesOf_eq (words : List String) :
    filesOf words = filesInFront words ++ filesBehind words := by
  rw [filesInFront, filesBehind, Part.front, Part.behind, ← List.filterMap_append,
    List.takeWhile_append_dropWhile, filesOf]

section Spelling

variable {a : Argument} {w : String} {c : Char} {rest name value : List Char}

/-- An option that awaits its value is a hyphen with one more character, or two hyphens with a name
in which there is no equals sign. -/
theorem valueOptions_shape (h : valueOptions.lookup w = some a) : ∃ c rest,
    w.toList = '-' :: c :: rest ∧ (c = '-' ∨ rest = []) ∧ '=' ∉ w.toList := by
  have hall : ∀ p ∈ valueOptions, p.1.toList = '-' :: p.1.toList[1]! :: p.1.toList.drop 2 ∧
      (p.1.toList[1]! = '-' ∨ p.1.toList.drop 2 = []) ∧ '=' ∉ p.1.toList := by decide +kernel
  exact ⟨_, _, hall _ (mem_of_lookup h)⟩

theorem lookup_eq_none (h : ∀ c rest, w.toList = '-' :: c :: rest → (c = '-' ∨ rest = []) →
    '=' ∈ w.toList) : valueOptions.lookup w = none := by
  rw [Option.eq_none_iff_forall_ne_some]
  intro a ha
  obtain ⟨c, rest, hw, hshort, hmark⟩ := valueOptions_shape ha
  exact hmark (h c rest hw hshort)

theorem lookup_long (h : Argument.longNames.lookup (String.ofList name) = some a)
    (hw : w.toList = '-' :: '-' :: name) :
    valueOptions.lookup w = if a.takesValue then some a else none := by
  have hall : ∀ p ∈ Argument.longNames, valueOptions.lookup ("--" ++ p.1) =
      if p.2.takesValue then some p.2 else none := by decide +kernel
  obtain rfl : w = "--" ++ String.ofList name := String.toList_injective (by rw [hw]; simp)
  exact hall _ (mem_of_lookup h)

theorem lookup_short (h : Argument.shortNames.lookup c = some a)
    (hw : w.toList = '-' :: c :: rest) (hc : c ≠ '-') :
    valueOptions.lookup w = if a.takesValue && rest.isEmpty then some a else none := by
  cases rest with
  | nil =>
    have hall : ∀ p ∈ Argument.shortNames, valueOptions.lookup (String.ofList ['-', p.1]) =
        if p.2.takesValue && List.isEmpty ([] : List Char) then some p.2 else none := by
      decide +kernel
    obtain rfl : w = String.ofList ['-', c] := String.toList_injective (by rw [hw]; simp)
    exact hall _ (mem_of_lookup h)
  | cons d rest =>
    rw [List.isEmpty_cons, Bool.and_false, if_neg Bool.false_ne_true]
    refine lookup_eq_none fun c' rest' hw' hshort => ?_
    obtain ⟨rfl, rfl⟩ := List.cons.inj (List.tail_eq_of_cons_eq (hw.symm.trans hw'))
    rcases hshort with rfl | hnil
    · exact absurd rfl hc
    · cases hnil

/-- A settings file has a long name alone. -/
theorem short_ne_config (h : Argument.shortNames.lookup c = some a) : a ≠ .config := by
  have hall : ∀ p ∈ Argument.shortNames, p.2 ≠ .config := by decide
  exact hall _ (mem_of_lookup h)

theorem longName_config_iff (h : Argument.longNames.lookup (String.ofList name) = some a) :
    a = .config ↔ name = "config".toList := by
  have hall : ∀ p ∈ Argument.longNames, p.2 = .config ↔ p.1.toList = "config".toList := by
    decide +kernel
  simpa using hall _ (mem_of_lookup h)

theorem fileValue?_of_ne (h : a ≠ .config) (value : Option String) : fileValue? a value = none := by
  cases a <;> first | rfl | exact absurd rfl h

theorem fileValue?_none (a : Argument) : fileValue? a none = none := by
  cases a <;> rfl

theorem file?_eq_some_iff {file : String} :
    (Part.alone w).file? = some file ↔ w.toList = "--config=".toList ++ file.toList := by
  rw [Part.file?, Option.map_eq_some_iff]
  simp only [Text.afterStart?_eq_some_iff]
  constructor
  · rintro ⟨rest, h, rfl⟩
    simpa using h
  · exact fun h => ⟨_, h, String.ofList_toList⟩

/-- Nothing but the option with an equals sign behind it names a file in one word. -/
theorem file?_eq_none (h : '=' ∉ w.toList ∨ w.toList.take 2 ≠ ['-', '-']) :
    (Part.alone w).file? = none := by
  rw [Option.eq_none_iff_forall_ne_some]
  intro file hfile
  rw [file?_eq_some_iff] at hfile
  rw [hfile] at h
  exact h.elim (fun h => h (by simp)) (fun h => h rfl)

theorem file?_long (hcut : Text.cut? '=' rest = some (name, value))
    (ha : Argument.longNames.lookup (String.ofList name) = some a)
    (hw : w.toList = '-' :: '-' :: rest) :
    (Part.alone w).file? = fileValue? a (some (String.ofList value)) := by
  obtain ⟨rfl, hname⟩ := Text.cut?_eq_some hcut
  by_cases hc : a = .config
  · obtain rfl := (longName_config_iff ha).mp hc
    rw [hc, fileValue?, file?_eq_some_iff, hw]
    simp
  · rw [fileValue?_of_ne hc, Option.eq_none_iff_forall_ne_some]
    intro file hfile
    rw [file?_eq_some_iff, hw] at hfile
    have hrest : name ++ '=' :: value = "config".toList ++ '=' :: file.toList :=
      List.tail_eq_of_cons_eq (List.tail_eq_of_cons_eq hfile)
    rw [hrest, Text.cut?_append (by decide)] at hcut
    exact hc ((longName_config_iff ha).mpr (Prod.mk.inj (Option.some.inj hcut)).1.symm)

/-- The name of an option with a value is no settings file itself. -/
theorem file?_of_lookup (h : valueOptions.lookup w = some a) : (Part.alone w).file? = none := by
  obtain ⟨-, -, -, -, hmark⟩ := valueOptions_shape h
  exact file?_eq_none (.inl hmark)

theorem lookup_or_last {ws : List String}
    (h : ∀ a v rest, valueOptions.lookup w = some a → ws = v :: rest → False) :
    valueOptions.lookup w = none ∨ ws = [] := by
  cases ha : valueOptions.lookup w with
  | none => exact .inl rfl
  | some a =>
    cases ws with
    | nil => exact .inr rfl
    | cons v rest => exact (h a v rest ha rfl).elim

end Spelling

namespace Reading

variable {r r' : Reading} {a : Argument} {v w : String} {level : Level}

/-- The settings files that have been read. -/
def files (r : Reading) : List String :=
  valuesOf r.given .config ++ (r.pending.bind fun p => fileValue? p.1 p.2).toList

/-- The argument whose value is awaited. -/
def awaited (r : Reading) : Option Argument :=
  r.pending.bind fun p => if p.2.isNone then some p.1 else none

/-- Reading goes on to `r'` with more files and with an argument that awaits its value, if any. -/
structure Adds (r : Reading) (files : List String) (awaited : Option Argument) (r' : Reading) :
    Prop where
  files : r'.files = r.files ++ files
  awaited : r'.awaited = awaited
  bare : r'.bare = r.bare

theorem awaits_eq (r : Reading) : r.awaits = r.awaited.isSome := by
  obtain ⟨given, _ | ⟨a, _ | v⟩, bare⟩ := r <;> rfl

theorem awaited_eq_some_iff : r.awaited = some a ↔ r.pending = some (a, none) := by
  obtain ⟨given, _ | ⟨b, _ | v⟩, bare⟩ := r <;> simp [awaited]

theorem valuesOf_config_append (given : List (Argument × String)) (a : Argument) (v : String) :
    valuesOf (given ++ [(a, v)]) .config =
      valuesOf given .config ++ (fileValue? a (some v)).toList := by
  rw [valuesOf, valuesOf, List.filter_append, List.map_append]
  cases a <;> rfl

theorem give_ok (h : r.give a v = .ok r') : r' = { r with given := r.given ++ [(a, v)] } := by
  rw [give] at h
  split at h
  · cases h
  · split at h
    · cases h
    · exact (Except.ok.inj h).symm

theorem adds_give (hp : r.pending = none) (h : r.give a v = .ok r') :
    r.Adds (fileValue? a (some v)).toList none r' := by
  obtain rfl := give_ok h
  refine ⟨?_, by rw [awaited, hp]; rfl, rfl⟩
  rw [files, files, valuesOf_config_append, hp]
  simp

/-- What awaits its value cannot be settled, and to settle changes no file. -/
theorem settle_ok (h : r.settle = .ok r') :
    r.awaited = none ∧ r'.pending = none ∧ r.Adds [] none r' := by
  obtain ⟨given, _ | ⟨a, _ | v⟩, bare⟩ := r
  · cases h
    exact ⟨rfl, rfl, (List.append_nil _).symm, rfl, rfl⟩
  · cases h
  · obtain rfl := give_ok h
    refine ⟨rfl, rfl, ?_, rfl, rfl⟩
    rw [files, files, valuesOf_config_append]
    simp

theorem files_of_settle (h : r.settle = .ok r') : valuesOf r'.given .config = r.files := by
  obtain ⟨-, hp, hadds⟩ := settle_ok h
  simpa [files, hp] using hadds.files

theorem Adds.trans {files more : List String} {x y : Option Argument} {s : Reading}
    (h : r.Adds files x r') (h' : r'.Adds more y s) : r.Adds (files ++ more) y s :=
  ⟨by rw [h'.files, h.files, List.append_assoc], h'.awaited, h'.bare.trans h.bare⟩

theorem adds_await {value : Option String} (h : r.await a value = .ok r') :
    r.awaited = none ∧
      r.Adds (fileValue? a value).toList (if value.isNone then some a else none) r' := by
  obtain ⟨s, hs, rfl⟩ := map_eq_ok_iff.mp h
  obtain ⟨hr, hp, hadds⟩ := settle_ok hs
  refine ⟨hr, ?_, rfl, hadds.bare⟩
  have hfiles := hadds.files
  rw [List.append_nil, files, hp] at hfiles
  rw [files, ← hfiles]
  simp

theorem adds_switch (hv : a.takesValue = false) (h : r.switch a = .ok r') :
    r.awaited = none ∧ r.Adds [] none r' := by
  obtain ⟨s, hs, hgive⟩ := bind_eq_ok_iff.mp h
  obtain ⟨hr, hp, hadds⟩ := settle_ok hs
  refine ⟨hr, ?_⟩
  split at hgive
  · cases hgive
  · cases hgive
  · have hne : a ≠ .config := fun he => by rw [he] at hv; cases hv
    have hmore := hadds.trans (adds_give hp hgive)
    rwa [fileValue?_of_ne hne] at hmore

theorem adds_option {attached : Option String} (h : r.option a attached = .ok r') :
    r.awaited = none ∧ r.Adds (fileValue? a attached).toList
      (if a.takesValue && attached.isNone then some a else none) r' := by
  cases hv : a.takesValue with
  | true =>
    cases attached with
    | some value =>
      simp only [option, hv] at h
      obtain ⟨s, hs, hgive⟩ := bind_eq_ok_iff.mp h
      obtain ⟨hr, hp, hadds⟩ := settle_ok hs
      exact ⟨hr, hadds.trans (adds_give hp hgive)⟩
    | none =>
      simp only [option, hv] at h
      exact adds_await h
  | false =>
    cases attached with
    | some value =>
      simp only [option, hv] at h
      cases h
    | none =>
      simp only [option, hv] at h
      rw [fileValue?_none]
      exact adds_switch hv h

theorem adds_long {rest : List Char} (h : r.long level rest = .ok r')
    (hw : w.toList = '-' :: '-' :: rest) :
    r.awaited = none ∧ r.Adds (Part.alone w).file?.toList (valueOptions.lookup w) r' := by
  rw [long] at h
  cases hcut : Text.cut? '=' rest with
  | some p =>
    obtain ⟨name, value⟩ := p
    have hmark : '=' ∈ w.toList := by
      rw [hw, (Text.cut?_eq_some hcut).1]
      simp
    simp only [hcut] at h
    split at h
    · next a ha =>
      obtain ⟨hr, hadds⟩ := adds_option h
      rw [file?_long hcut (Option.filter_eq_some_iff.mp ha).1 hw,
        lookup_eq_none fun _ _ _ _ => hmark]
      exact ⟨hr, by simpa using hadds⟩
    · cases h
  | none =>
    have hmark : '=' ∉ w.toList := by
      rw [hw]
      simpa using Text.cut?_eq_none_iff.mp hcut
    simp only [hcut] at h
    split at h
    · next a ha =>
      obtain ⟨hr, hadds⟩ := adds_option h
      rw [file?_eq_none (.inl hmark), lookup_long (Option.filter_eq_some_iff.mp ha).1 hw]
      exact ⟨hr, by simpa [fileValue?_none] using hadds⟩
    · cases h

theorem isNone_attachedShort? (rest : List Char) :
    (attachedShort? rest).isNone = rest.isEmpty := by
  rw [attachedShort?.eq_def]
  split <;> simp_all

theorem adds_short {c : Char} {rest : List Char} (h : r.short level c rest = .ok r')
    (hw : w.toList = '-' :: c :: rest) (hc : c ≠ '-') :
    r.awaited = none ∧ r.Adds (Part.alone w).file?.toList (valueOptions.lookup w) r' := by
  have hfile : (Part.alone w).file? = none := file?_eq_none (.inr (by simp [hw, hc]))
  rw [short] at h
  split at h
  · next a ha =>
    have hname := (Option.filter_eq_some_iff.mp ha).1
    rw [hfile, lookup_short hname hw hc]
    split at h
    · obtain ⟨hr, hadds⟩ := adds_option h
      rw [fileValue?_of_ne (short_ne_config hname), isNone_attachedShort?] at hadds
      exact ⟨hr, hadds⟩
    · next hv =>
      rw [Bool.not_eq_true] at hv
      rw [hv, Bool.false_and, if_neg Bool.false_ne_true]
      exact adds_switch hv h
  · cases h

theorem adds_plain (h : r.plain level w = .ok r') : r.awaited = none ∧ r.Adds [] none r' := by
  cases level with
  | render =>
    rw [plain] at h
    split at h
    · cases h
    · exact adds_await h
  | root =>
    rw [plain] at h
    split at h <;> cases h
  | _ => cases h

/-- Behind a lone pair of hyphens no word names a file. -/
theorem words_bare {ws : List String} (hbare : r.bare = true) (h : r.words level ws = .ok r') :
    r.awaited = none ∧ valuesOf r'.given .config = r.files := by
  induction ws generalizing r with
  | nil => exact ⟨(settle_ok h).1, files_of_settle h⟩
  | cons w ws ih =>
    obtain ⟨s, hs, hws⟩ := bind_eq_ok_iff.mp h
    rw [word, if_pos hbare] at hs
    obtain ⟨hr, hadds⟩ := adds_plain hs
    refine ⟨hr, ?_⟩
    rw [(ih (hadds.bare.trans hbare) hws).2, hadds.files, List.append_nil]

/-- A word that stands where no value is awaited. -/
theorem adds_word (hbare : r.bare = false) (hawaited : r.awaited = none) (hw : w ≠ hyphens)
    (h : r.word level w = .ok r') :
    r.Adds (Part.alone w).file?.toList (valueOptions.lookup w) r' := by
  rw [word, if_neg (by simp [hbare])] at h
  split at h
  · next hl => exact absurd (String.toList_injective hl) hw
  · next rest _ hl => exact (adds_long h hl).2
  · next c rest _ hc hl => exact (adds_short h hl (by simp_all)).2
  · next hlong hplain =>
    have hnone : valueOptions.lookup w = none :=
      lookup_eq_none fun c rest hl _ => (hplain c rest hl).elim
    have hfile : (Part.alone w).file? = none := file?_eq_none (.inr fun htake => by
      rcases hl : w.toList with _ | ⟨c, _ | ⟨d, rest⟩⟩
      · simp [hl] at htake
      · simp [hl] at htake
      · simp only [hl, List.take_succ_cons, List.cons.injEq] at htake
        exact hplain d rest (by rw [hl, htake.1]))
    rw [hnone, hfile]
    split at h
    · next a hp =>
      rw [awaited_eq_some_iff.mpr hp] at hawaited
      cases hawaited
    · exact (adds_plain h).2

/-- A word that stands where a value is awaited is that value, unless it is a lone pair of
hyphens. -/
theorem adds_value (hbare : r.bare = false) (hawaited : r.awaited = some a) (hv : v ≠ hyphens)
    (h : r.word level v = .ok r') : r.Adds (fileValue? a (some v)).toList none r' := by
  have hcontra : r.awaited ≠ none := by simp [hawaited]
  rw [word, if_neg (by simp [hbare])] at h
  split at h
  · next hl => exact absurd (String.toList_injective hl) hv
  · next rest _ hl => exact absurd (adds_long h hl).1 hcontra
  · next c rest _ hc hl => exact absurd (adds_short h hl (by simp_all)).1 hcontra
  · rw [awaited_eq_some_iff.mp hawaited] at h
    cases h
    refine ⟨?_, rfl, rfl⟩
    rw [files, files, awaited_eq_some_iff.mp hawaited]
    simp [fileValue?_none]

/-- A lone pair of hyphens is no value, as long as nothing can be awaited behind it. -/
theorem ne_hyphens_of_awaited (hbare : r.bare = false) (hawaited : r.awaited = some a)
    (h : r.word level v = .ok r') (hnext : r'.bare = true → r'.awaited = none) : v ≠ hyphens := by
  rintro rfl
  rw [word_hyphens hbare] at h
  cases h
  have hnone : r.awaited = none := hnext rfl
  rw [hawaited] at hnone
  cases hnone

/-- The name of an option and its value. -/
theorem adds_apart {level' : Level} {s : Reading} (hbare : r.bare = false)
    (hawaited : r.awaited = none) (hw : w ≠ hyphens) (ha : valueOptions.lookup w = some a)
    (hv : v ≠ hyphens) (hs : r.word level w = .ok s) (hr : s.word level' v = .ok r') :
    r.Adds (Part.apart a v).file?.toList none r' := by
  have hname := adds_word hbare hawaited hw hs
  rw [file?_of_lookup ha, ha] at hname
  exact hname.trans (adds_value (hname.bare.trans hbare) hname.awaited hv hr)

/-- The words behind a command. -/
theorem words_files {ws : List String} (hbare : r.bare = false) (hawaited : r.awaited = none)
    (h : r.words level ws = .ok r') :
    valuesOf r'.given .config = r.files ++ (partsOf ws).filterMap Part.file? := by
  -- By induction on the parts: a name and its value are read by two steps, of which only the first
  -- leaves anything awaited.
  fun_induction partsOf ws generalizing r with
  | case1 => exact (files_of_settle h).trans (List.append_nil _).symm
  | case2 ws =>
    rw [words, word_hyphens hbare] at h
    rw [(words_bare rfl h).2]
    exact (List.append_nil _).symm
  | case3 w hw a v ws ha ih =>
    obtain ⟨s, hs, hmore⟩ := bind_eq_ok_iff.mp h
    obtain ⟨t, ht, hrest⟩ := bind_eq_ok_iff.mp hmore
    have hname := adds_word hbare hawaited hw hs
    have hv := ne_hyphens_of_awaited (hname.bare.trans hbare) (hname.awaited.trans ha) ht
      fun hb => (words_bare hb hrest).1
    have hadds := adds_apart hbare hawaited hw ha hv hs ht
    rw [ih (hadds.bare.trans hbare) hadds.awaited hrest, hadds.files, filterMap_cons,
      List.append_assoc]
  | case4 w hw ws hlast ih =>
    obtain ⟨s, hs, hrest⟩ := bind_eq_ok_iff.mp h
    have hadds := adds_word hbare hawaited hw hs
    have hnone : s.awaited = none := by
      rcases lookup_or_last hlast with ha | rfl
      · exact hadds.awaited.trans ha
      · exact (settle_ok hrest).1
    rw [ih (hadds.bare.trans hbare) hnone hrest, hadds.files, filterMap_cons, List.append_assoc]

end Reading

section Commands

variable {front : Reading} {v : String} {ws : List String} {w : Words} {level : Level}

theorem file?_of_namesCommand (h : namesCommand v) : (Part.alone v).file? = none := by
  have hall : ∀ w ∈ commands.map Prod.fst ++ [helpWord], '=' ∉ w.toList := by decide +kernel
  exact file?_eq_none (.inl (hall v (mem_of_namesCommand h)))

theorem namesCommand_of_lookup {a : Argument} (h : valueOptions.lookup v = some a) :
    namesCommand v = false := by
  have hall : ∀ p ∈ valueOptions, namesCommand p.1 = false := by decide +kernel
  exact hall _ (mem_of_lookup h)

theorem readFrom_apart (hawaits : front.awaits) (v : String) (ws : List String) :
    readFrom front (v :: ws) = (front.word .root v).bind fun r => readFrom r ws := by
  rw [readFrom, hawaits, Bool.or_true, if_pos rfl]

/-- A command takes over the words behind it. -/
theorem readFrom_command (hbare : front.bare = false) (hawaited : front.awaited = none)
    (hv : namesCommand v) (h : readFrom front (v :: ws) = .ok w) :
    ∃ level, readBehind front level ws = .ok w := by
  rw [readFrom, hbare, Reading.awaits_eq, hawaited, if_neg (by simp)] at h
  split at h
  · cases h
  · next hhelp =>
    split at h
    · exact ⟨_, h⟩
    · next hnone => simp [namesCommand, hhelp, hnone] at hv

theorem readBehind_ok (h : readBehind front level ws = .ok w) : ∃ behind settled,
    Reading.start.words level ws = .ok behind ∧ front.settle = .ok settled ∧
      w = ⟨settled.given, some (level, behind.given)⟩ := by
  obtain ⟨behind, hbehind, h⟩ := bind_eq_ok_iff.mp h
  split at h
  · cases h
  · obtain ⟨settled, hsettled, h⟩ := bind_eq_ok_iff.mp h
    exact ⟨behind, settled, hbehind, hsettled, (Except.ok.inj h).symm⟩

/-- In front of a command, no word may follow a lone pair of hyphens. -/
theorem readFrom_bare (hbare : front.bare = true) (h : readFrom front ws = .ok w) :
    front.awaited = none ∧ valuesOf w.front .config = front.files ∧ w.behind = [] := by
  cases ws with
  | nil =>
    obtain ⟨settled, hsettled, rfl⟩ := map_eq_ok_iff.mp h
    exact ⟨(Reading.settle_ok hsettled).1, Reading.files_of_settle hsettled, rfl⟩
  | cons v ws =>
    rw [readFrom, hbare, Bool.true_or, if_pos rfl, Reading.word, if_pos hbare, Reading.plain] at h
    split at h <;> cases h

theorem readFrom_files (hbare : front.bare = false) (hawaited : front.awaited = none)
    (h : readFrom front ws = .ok w) :
    valuesOf w.front .config = front.files ++ Part.front (partsOf ws) ∧
      valuesOf w.behind .config = Part.behind (partsOf ws) := by
  -- By induction on the parts again: the first of them that is a command takes over the rest.
  fun_induction partsOf ws generalizing front with
  | case1 =>
    obtain ⟨s, hs, rfl⟩ := map_eq_ok_iff.mp h
    exact ⟨(Reading.files_of_settle hs).trans (List.append_nil _).symm, rfl⟩
  | case2 ws =>
    rw [readFrom_cons (by decide), Reading.word_hyphens hbare] at h
    obtain ⟨-, hfiles, hbehind⟩ := readFrom_bare rfl h
    rw [hfiles, hbehind]
    exact ⟨(List.append_nil _).symm, rfl⟩
  | case3 u hu a v ws ha ih =>
    rw [readFrom_cons (namesCommand_of_lookup ha)] at h
    obtain ⟨s, hs, hmore⟩ := bind_eq_ok_iff.mp h
    have hname := Reading.adds_word hbare hawaited hu hs
    rw [readFrom_apart (by rw [Reading.awaits_eq, hname.awaited, ha]; rfl)] at hmore
    obtain ⟨t, ht, hrest⟩ := bind_eq_ok_iff.mp hmore
    have hv := Reading.ne_hyphens_of_awaited (hname.bare.trans hbare) (hname.awaited.trans ha) ht
      fun hb => (readFrom_bare hb hrest).1
    have hadds := Reading.adds_apart hbare hawaited hu ha hv hs ht
    obtain ⟨hfront, hbehind⟩ := ih (hadds.bare.trans hbare) hadds.awaited hrest
    rw [Part.front_cons rfl, Part.behind_cons rfl, hfront, hadds.files, List.append_assoc]
    exact ⟨rfl, hbehind⟩
  | case4 u hu ws hlast ih =>
    by_cases hcommand : namesCommand u
    · obtain ⟨level, hlevel⟩ := readFrom_command hbare hawaited hcommand h
      obtain ⟨behind, settled, hwords, hsettled, rfl⟩ := readBehind_ok hlevel
      rw [Part.front_command (p := .alone u) hcommand, Part.behind_command (p := .alone u) hcommand,
        file?_of_namesCommand hcommand, List.append_nil]
      exact ⟨Reading.files_of_settle hsettled, Reading.words_files rfl rfl hwords⟩
    · rw [Bool.not_eq_true] at hcommand
      rw [readFrom_cons hcommand] at h
      obtain ⟨s, hs, hrest⟩ := bind_eq_ok_iff.mp h
      have hadds := Reading.adds_word hbare hawaited hu hs
      have hnone : s.awaited = none := by
        rcases lookup_or_last hlast with ha | rfl
        · exact hadds.awaited.trans ha
        · obtain ⟨t, ht, -⟩ := map_eq_ok_iff.mp hrest
          exact (Reading.settle_ok ht).1
      obtain ⟨hfront, hbehind⟩ := ih (hadds.bare.trans hbare) hnone hrest
      rw [Part.front_cons (p := .alone u) hcommand, Part.behind_cons (p := .alone u) hcommand,
        hfront, hadds.files, List.append_assoc]
      exact ⟨rfl, hbehind⟩

theorem configs_eq {words : List String} {c : CommandLine} (h : parse words = .ok c) :
    c.options.configs =
      if filesBehind words = [] then filesInFront words else filesBehind words := by
  obtain ⟨w, hw, rfl⟩ := map_eq_ok_iff.mp h
  obtain ⟨hfront, hbehind⟩ := readFrom_files rfl rfl hw
  show w.sharedValues .config = _
  rw [Words.sharedValues, hbehind, hfront, filesBehind, filesInFront]
  split
  · next hnil =>
    rw [if_pos hnil]
    rfl
  · next hne => rw [if_neg hne]

theorem configs_eq_filesOf_iff {words : List String} {c : CommandLine} (h : parse words = .ok c) :
    c.options.configs = filesOf words ↔ filesInFront words = [] ∨ filesBehind words = [] := by
  rw [configs_eq h, filesOf_eq]
  split
  · next hnil => simp [hnil]
  · next hne => simp [hne, eq_comm (a := filesBehind words)]

end Commands

end CommandLine

namespace Program

open CommandLine (filesOf filesInFront filesBehind)

/-- The file with settings that needs no option, if it is layered. -/
def defaultLayer (o : GlobalOptions) (files : FileTree) : List Source :=
  if o.noDefaultConfig || !files.isFile defaultSettings then [] else [.defaultFile defaultSettings]

theorem sources_foldl (configs : List String) (l : Loader) :
    (configs.foldl Loader.addFile l).sources = l.sources ++ configs.map .file := by
  induction configs generalizing l with
  | nil => exact (List.append_nil _).symm
  | cons path configs ih =>
    rw [List.foldl_cons, ih]
    simp [Loader.addFile]

theorem sources_layers (o : GlobalOptions) (files : FileTree) :
    (layers o files).sources = defaultLayer o files ++ o.configs.map .file := by
  refine (sources_foldl _ _).trans (congrArg (· ++ _) ?_)
  rw [defaultLayer, Loader.addDefaultFile]
  cases o.noDefaultConfig <;> cases files.isFile defaultSettings <;> rfl

theorem sourceLines_file {sources : List Source} {n : Nat} {file : String}
    (h : sources[n]? = some (.file file)) :
    (sourceLines sources)[n]? = some (toString (n + 1) ++ ". [file] " ++ file) := by
  have hne : ¬ sources.isEmpty := by
    rintro hnil
    rw [List.isEmpty_iff.mp hnil] at h
    cases h
  rw [sourceLines, if_neg hne, List.getElem?_map, List.getElem?_zipIdx, h]
  have hlead : ". " ++ (Source.file file).text = ". [file] " ++ file :=
    (String.append_assoc : ". " ++ "[file] " ++ file = _).symm
  simp [String.append_assoc, hlead]

/-- The law of settings files. A command line that is understood layers the files it names, all of
them and in their order, exactly when it names them on one side of the command; otherwise it layers
those behind the command alone. They come after the default file, and the command `inis` has a line
for each file that is layered. -/
theorem settings_files_counted_iff {words : List String} {c : CommandLine}
    (h : CommandLine.parse words = .ok c) :
    (c.options.configs = filesOf words ↔ filesInFront words = [] ∨ filesBehind words = []) ∧
    (c.options.configs =
      if filesBehind words = [] then filesInFront words else filesBehind words) ∧
    ∀ w : World,
      (layers c.options w.files).sources =
        defaultLayer c.options w.files ++ c.options.configs.map .file ∧
      (c.command = some .inis → ∃ lines, run words w = success w (unlines lines) ∧
        ∀ (n : Nat) (file : String), c.options.configs[n]? = some file →
          let place := (defaultLayer c.options w.files).length + n
          lines[place]? = some (toString (place + 1) ++ ". [file] " ++ file)) := by
  refine ⟨CommandLine.configs_eq_filesOf_iff h, CommandLine.configs_eq h, fun w =>
    ⟨sources_layers _ _, fun hinis => ?_⟩⟩
  refine ⟨sourceLines (layers c.options w.files).sources, ?_, fun n file hfile =>
    sourceLines_file ?_⟩
  · rw [run, runBy, h]
    dsimp only
    rw [runCommand, hinis]
  · rw [sources_layers, List.getElem?_append_right (Nat.le_add_right _ _), Nat.add_sub_cancel_left,
      List.getElem?_map, hfile]
    rfl

/-- All files stand in front of the command, and so does a value that is spelled like it. -/
theorem settings_files_counted_iff_valueLikeCommand :
    let words := ["--log-file", "inis", "--config", "a.toml", "--config=b.toml", "inis"]
    ∃ c, CommandLine.parse words = .ok c ∧ c.command = some .inis ∧
      filesOf words = ["a.toml", "b.toml"] ∧ c.options.configs = filesOf words := by
  intro words
  let c : CommandLine := ⟨⟨["a.toml", "b.toml"], none, none, some "inis", false⟩, some .inis⟩
  have hparse : CommandLine.parse words = .ok c := ok_of_toOption (by decide +kernel)
  have hbehind : filesBehind words = [] := by decide +kernel
  exact ⟨c, hparse, rfl, by decide +kernel,
    (settings_files_counted_iff hparse).1.mpr (.inr hbehind)⟩

/-- A file in front of the command is dropped when there is one behind it. -/
theorem settings_file_dropped_bothSides :
    let words := ["--config", "a.toml", "inis", "--config", "b.toml"]
    ∃ c, CommandLine.parse words = .ok c ∧ c.options.configs = ["b.toml"] ∧
      filesOf words = ["a.toml", "b.toml"] ∧ c.options.configs ≠ filesOf words := by
  intro words
  let c : CommandLine := ⟨⟨["b.toml"], none, none, none, false⟩, some .inis⟩
  exact ⟨c, ok_of_toOption (by decide +kernel), rfl, by decide +kernel, by decide +kernel⟩

end Program

end GitInvocation
