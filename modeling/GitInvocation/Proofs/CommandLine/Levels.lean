import GitInvocation.CommandLine
import GitInvocation.Proofs.Lookup
import GitInvocation.Proofs.Outcomes

/-!
# Verbosities on a command line

Two command lines may differ in the verbosities that are given to the options for them and in
nothing else. They are then read alike, word by word: both are refused for the same fault, or both
ask for the same command, with the same other options and with a verbosity in the same places. A
verbosity that starts with a hyphen is one only where it is attached to its option.
-/
namespace GitInvocation.CommandLine

/-- A text that stands for a verbosity. -/
def IsLevel (value : String) : Prop := (verbosity? value).isSome

/-- The words after which a verbosity stands as a word of its own. -/
def levelNames : List (String × Argument) :=
  [("-l", .logLevel), ("--log-level", .logLevel), ("--file-log-level", .fileLogLevel)]

/-- What stands in front of a verbosity in one word with it. -/
def levelLeads : List (String × Argument) :=
  [("-l", .logLevel), ("-l=", .logLevel), ("--log-level=", .logLevel),
   ("--file-log-level=", .fileLogLevel)]

def hyphens : String := "--"

/-- The second line has other verbosities than the first, at most. `bare` holds for words behind a
lone pair of hyphens, where no word is an option. -/
inductive Relevelled : Bool → List String → List String → Prop where
  | nil {bare : Bool} : Relevelled bare [] []
  | word {bare : Bool} {ws ws' : List String} (w : String) (hw : bare ∨ w ≠ hyphens)
      (h : Relevelled bare ws ws') : Relevelled bare (w :: ws) (w :: ws')
  | hyphens {ws ws' : List String} (h : Relevelled true ws ws') :
      Relevelled false (CommandLine.hyphens :: ws) (CommandLine.hyphens :: ws')
  | attached {lead v v' : String} {a : Argument} {ws ws' : List String}
      (hlead : (lead, a) ∈ levelLeads) (hv : IsLevel v) (hv' : IsLevel v')
      (h : Relevelled false ws ws') : Relevelled false ((lead ++ v) :: ws) ((lead ++ v') :: ws')
  | apart {name v v' : String} {a : Argument} {ws ws' : List String}
      (hname : (name, a) ∈ levelNames) (hv : IsLevel v) (hv' : IsLevel v')
      (hplain : v.toList.head? ≠ some '-') (hplain' : v'.toList.head? ≠ some '-')
      (h : Relevelled false ws ws') : Relevelled false (name :: v :: ws) (name :: v' :: ws')

/-- Two values of an argument that are the same, as far as they are no verbosities. -/
def AlikeValue (a : Argument) (v v' : String) : Prop :=
  v = v' ∨ a.values = .level ∧ IsLevel v ∧ IsLevel v'

/-- The same argument with values that are alike. -/
def AlikeGiven (g g' : Argument × String) : Prop := g.1 = g'.1 ∧ AlikeValue g.1 g.2 g'.2

/-- The same argument, awaiting its value on both sides or on neither. -/
def AlikePending (p p' : Argument × Option String) : Prop :=
  p.1 = p'.1 ∧ Option.Rel (AlikeValue p.1) p.2 p'.2

section Values

variable {a : Argument} {v v' name : String}

theorem AlikeValue.fault?_eq (h : AlikeValue a v v') : a.fault? v = a.fault? v' := by
  rcases h with rfl | ⟨ha, hv, hv'⟩
  · rfl
  · rw [Argument.fault?, Argument.fault?, ha]
    rw [IsLevel, ← Option.not_isNone, Bool.not_eq_true'] at hv hv'
    rw [hv, hv']

theorem alikeValue?_refl (value : Option String) : Option.Rel (AlikeValue a) value value := by
  cases value with
  | none => exact .none
  | some v => exact .some (.inl rfl)

/-- A verbosity is not empty, and no equals sign stands in front of it. -/
theorem IsLevel.toList_eq (h : IsLevel v) : ∃ c rest, v.toList = c :: rest ∧ c ≠ '=' := by
  rw [IsLevel, verbosity?] at h
  cases hl : v.toList with
  | nil =>
    rw [hl] at h
    cases h
  | cons c rest =>
    refine ⟨c, rest, rfl, ?_⟩
    rintro rfl
    rw [hl] at h
    cases h

/-- The options that take a verbosity may have another one. -/
theorem AlikeValue.level (h : (name, a) ∈ levelNames ++ levelLeads) (hv : IsLevel v)
    (hv' : IsLevel v') : AlikeValue a v v' := by
  refine .inr ⟨?_, hv, hv'⟩
  revert h
  cases a <;> simp [levelNames, levelLeads, Argument.values]

end Values

namespace Reading

variable {bare : Bool} {r r' : Reading} {a : Argument} {v v' lead name w : String} {level : Level}

/-- What has been read is alike up to the verbosities. -/
structure Alike (bare : Bool) (r r' : Reading) : Prop where
  given : List.Forall₂ AlikeGiven r.given r'.given
  pending : Option.Rel AlikePending r.pending r'.pending
  left : r.bare = bare
  right : r'.bare = bare

theorem has_eq_of_given (h : List.Forall₂ AlikeGiven r.given r'.given) (a : Argument) :
    r.has a = r'.has a := by
  rw [has, has]
  generalize r.given = given, r'.given = given' at h
  induction h with
  | nil => rfl
  | cons hg _ ih => rw [List.any_cons, List.any_cons, hg.1, ih]

namespace Alike

theorem has_eq (h : Alike bare r r') (a : Argument) : r.has a = r'.has a :=
  has_eq_of_given h.given a

theorem pending_cases (h : Alike bare r r') :
    r.pending = none ∧ r'.pending = none ∨
    ∃ a, r.pending = some (a, none) ∧ r'.pending = some (a, none) ∨
    ∃ v v', r.pending = some (a, some v) ∧ r'.pending = some (a, some v') ∧ AlikeValue a v v' := by
  generalize hp : r.pending = p, hp' : r'.pending = p'
  have hrel := h.pending
  rw [hp, hp'] at hrel
  cases hrel with
  | none => exact .inl ⟨rfl, rfl⟩
  | @some p p' hrel =>
    obtain ⟨a, value⟩ := p
    obtain ⟨a', value'⟩ := p'
    obtain ⟨rfl, hvalue⟩ := hrel
    cases hvalue with
    | none => exact .inr ⟨a, .inl ⟨rfl, rfl⟩⟩
    | some hv => exact .inr ⟨a, .inr ⟨_, _, rfl, rfl, hv⟩⟩

theorem pending_fst_eq (h : Alike bare r r') :
    r.pending.map Prod.fst = r'.pending.map Prod.fst := by
  obtain ⟨hp, hp'⟩ | ⟨a, ⟨hp, hp'⟩ | ⟨v, v', hp, hp', -⟩⟩ := h.pending_cases <;> simp [hp, hp']

theorem awaits_eq (h : Alike bare r r') : r.awaits = r'.awaits := by
  rw [awaits, awaits]
  obtain ⟨hp, hp'⟩ | ⟨a, ⟨hp, hp'⟩ | ⟨v, v', hp, hp', -⟩⟩ := h.pending_cases <;> rw [hp, hp']

theorem give (h : Alike bare r r') (hv : AlikeValue a v v') :
    Agree (Alike bare) (r.give a v) (r'.give a v') := by
  rw [Reading.give, Reading.give, h.has_eq, hv.fault?_eq]
  split
  · exact .error _
  · cases a.fault? v' with
    | some e => exact .error e
    | none => exact .ok { h with given := List.rel_append h.given (.cons ⟨rfl, hv⟩ .nil) }

theorem settle (h : Alike bare r r') : Agree (Alike bare) r.settle r'.settle := by
  rw [Reading.settle, Reading.settle]
  obtain ⟨hp, hp'⟩ | ⟨a, ⟨hp, hp'⟩ | ⟨v, v', hp, hp', hv⟩⟩ := h.pending_cases <;> rw [hp, hp']
  · exact .ok h
  · exact .error _
  · exact give { h with pending := .none } hv

theorem await {value value' : Option String} (h : Alike bare r r')
    (hv : Option.Rel (AlikeValue a) value value') :
    Agree (Alike bare) (r.await a value) (r'.await a value') :=
  h.settle.map fun _ _ hs => { hs with pending := .some ⟨rfl, hv⟩ }

theorem switch (h : Alike bare r r') (a : Argument) :
    Agree (Alike bare) (r.switch a) (r'.switch a) := by
  refine h.settle.bind fun _ _ hs => ?_
  split
  · exact .error _
  · exact .error _
  · exact hs.give (.inl rfl)

theorem option {value value' : Option String} (h : Alike bare r r')
    (hv : Option.Rel (AlikeValue a) value value') :
    Agree (Alike bare) (r.option a value) (r'.option a value') := by
  cases hv with
  | some hv =>
    cases ht : a.takesValue with
    | true =>
      simp only [Reading.option, ht]
      exact h.settle.bind fun _ _ hs => hs.give hv
    | false =>
      simp only [Reading.option, ht]
      exact .error _
  | none =>
    cases ht : a.takesValue with
    | true =>
      simp only [Reading.option, ht]
      exact h.await .none
    | false =>
      simp only [Reading.option, ht]
      exact h.switch a

theorem long (h : Alike bare r r') (level : Level) (s : List Char) :
    Agree (Alike bare) (r.long level s) (r'.long level s) := by
  rw [Reading.long, Reading.long]
  split
  cases Argument.ofLong? level _ with
  | some a => exact h.option (alikeValue?_refl _)
  | none => exact .error _

theorem short (h : Alike bare r r') (level : Level) (name : Char) (rest : List Char) :
    Agree (Alike bare) (r.short level name rest) (r'.short level name rest) := by
  rw [Reading.short, Reading.short]
  split
  · split
    · exact h.option (alikeValue?_refl _)
    · exact h.switch _
  · exact .error _

theorem plain (h : Alike bare r r') (level : Level) (w : String) :
    Agree (Alike bare) (r.plain level w) (r'.plain level w) := by
  cases level with
  | render =>
    rw [Reading.plain, Reading.plain, h.has_eq, h.pending_fst_eq]
    split
    · exact .error _
    · exact h.await (.some (.inl rfl))
  | root =>
    rw [Reading.plain, Reading.plain, h.left, h.right]
    split <;> exact .error _
  | _ => exact .error _

/-- The same word, unless it is the pair of hyphens that makes the words behind it bare. -/
theorem word (h : Alike bare r r') (level : Level) (hw : bare ∨ w ≠ hyphens) :
    Agree (Alike bare) (r.word level w) (r'.word level w) := by
  rw [Reading.word, Reading.word, h.left, h.right]
  cases bare with
  | true => exact h.plain level w
  | false =>
    have hne : w.toList ≠ ['-', '-'] := fun he =>
      (hw.resolve_left Bool.false_ne_true) (String.toList_injective he)
    rw [if_neg Bool.false_ne_true, if_neg Bool.false_ne_true]
    split
    · contradiction
    · exact h.long level _
    · exact h.short level _ _
    · obtain ⟨hp, hp'⟩ | ⟨a, ⟨hp, hp'⟩ | ⟨v, v', hp, hp', -⟩⟩ := h.pending_cases <;> rw [hp, hp']
      · exact h.plain level w
      · exact .ok ⟨h.given, .some ⟨rfl, .some (.inl rfl)⟩, rfl, rfl⟩
      · exact h.plain level w

end Alike

theorem word_hyphens (h : r.bare = false) (level : Level) :
    r.word level hyphens = .ok { r with bare := true } := by
  rw [word, h]
  rfl

theorem Alike.hyphens (h : Alike false r r') (level : Level) :
    Agree (Alike true) (r.word level hyphens) (r'.word level hyphens) := by
  rw [word_hyphens h.left, word_hyphens h.right]
  exact .ok { h with left := rfl, right := rfl }

/-- An attached verbosity is given with its option at once. -/
theorem word_attached (hlead : (lead, a) ∈ levelLeads) (hv : IsLevel v) (h : r.bare = false)
    (level : Level) : r.word level (lead ++ v) = r.option a (some v) := by
  obtain ⟨c, rest, hl, hc⟩ := hv.toList_eq
  obtain rfl : String.ofList (c :: rest) = v := by rw [← hl, String.ofList_toList]
  rw [word, h, if_neg Bool.false_ne_true, String.toList_append, hl]
  simp only [levelLeads, List.mem_cons, Prod.mk.injEq, List.not_mem_nil, or_false] at hlead
  rcases hlead with ⟨rfl, rfl⟩ | ⟨rfl, rfl⟩ | ⟨rfl, rfl⟩ | ⟨rfl, rfl⟩
  · have hatt : attachedShort? (c :: rest) = some (String.ofList (c :: rest)) := by
      simp [attachedShort?, hc]
    rw [← hatt]
    cases level <;> rfl
  all_goals cases level <;> rfl

/-- A verbosity in one word with its option. -/
theorem Alike.attached (h : Alike false r r') (hlead : (lead, a) ∈ levelLeads) (hv : IsLevel v)
    (hv' : IsLevel v') (level : Level) :
    Agree (Alike false) (r.word level (lead ++ v)) (r'.word level (lead ++ v')) := by
  rw [word_attached hlead hv h.left, word_attached hlead hv' h.right]
  exact h.option (.some (.level (List.mem_append_right _ hlead) hv hv'))

/-- The name of an option awaits the verbosity. -/
theorem word_name (hname : (name, a) ∈ levelNames) (h : r.bare = false) (level : Level) :
    r.word level name = r.await a none := by
  rw [word, h, if_neg Bool.false_ne_true]
  simp only [levelNames, List.mem_cons, Prod.mk.injEq, List.not_mem_nil, or_false] at hname
  rcases hname with ⟨rfl, rfl⟩ | ⟨rfl, rfl⟩ | ⟨rfl, rfl⟩ <;> cases level <;> rfl

/-- A word that starts with no hyphen is the value that is awaited. -/
theorem word_value (hv : v.toList.head? ≠ some '-') (h : r.bare = false) (a : Argument)
    (level : Level) : word level { r with pending := some (a, none) } v =
      .ok { r with pending := some (a, some v) } := by
  rw [word, if_neg (by simp [h])]
  split <;> simp_all

/-- A verbosity that stands behind the name of its option. -/
theorem Alike.apart (h : Alike false r r') (hname : (name, a) ∈ levelNames) (hv : IsLevel v)
    (hv' : IsLevel v') (hplain : v.toList.head? ≠ some '-')
    (hplain' : v'.toList.head? ≠ some '-') (level : Level) :
    Agree (Alike false) ((r.word level name).bind fun r => r.word level v)
      ((r'.word level name).bind fun r => r.word level v') := by
  rw [word_name hname h.left, word_name hname h.right, Reading.await, Reading.await]
  have hsettle := h.settle
  generalize r.settle = x, r'.settle = x' at hsettle
  cases hsettle with
  | error e => exact .error e
  | @ok s s' hs =>
    change Agree _ (Reading.word level { s with pending := some (a, none) } v)
      (Reading.word level { s' with pending := some (a, none) } v')
    rw [word_value hplain hs.left, word_value hplain' hs.right]
    exact .ok { hs with
      pending := .some ⟨rfl, .some (.level (List.mem_append_left _ hname) hv hv')⟩ }

theorem words_cons_cons (level : Level) (r : Reading) (w v : String) (ws : List String) :
    r.words level (w :: v :: ws) =
      ((r.word level w).bind fun r => r.word level v).bind fun r => r.words level ws := by
  rw [words]
  cases r.word level w <;> rfl

/-- The words behind a command. -/
theorem Alike.words {ws ws' : List String} (h : Alike bare r r') (hws : Relevelled bare ws ws')
    (level : Level) : Agree (fun r r' => List.Forall₂ AlikeGiven r.given r'.given)
      (r.words level ws) (r'.words level ws') := by
  -- By induction on how the lines differ: what has been read stays alike, word by word.
  induction hws generalizing r r' with
  | nil => exact h.settle.imp fun _ _ hs => hs.given
  | word w hw _ ih => exact (h.word level hw).bind fun _ _ hs => ih hs
  | hyphens _ ih => exact (h.hyphens level).bind fun _ _ hs => ih hs
  | attached hlead hv hv' _ ih =>
    exact (h.attached hlead hv hv' level).bind fun _ _ hs => ih hs
  | apart hname hv hv' hplain hplain' _ ih =>
    rw [words_cons_cons, words_cons_cons]
    exact (h.apart hname hv hv' hplain hplain' level).bind fun _ _ hs => ih hs

end Reading

section Commands

variable {a : Argument} {v lead name w : String} {ws ws' : List String} {front front' : Reading}

theorem mem_of_namesCommand (h : namesCommand w) : w ∈ commands.map Prod.fst ++ [helpWord] := by
  rw [namesCommand, Bool.or_eq_true, beq_iff_eq] at h
  rcases h with h | rfl
  · obtain ⟨level, hl⟩ := Option.isSome_iff_exists.mp h
    exact List.mem_append_left _ (List.mem_map_of_mem (mem_of_lookup hl))
  · exact List.mem_append_right _ List.mem_cons_self

theorem namesCommand_name (hname : (name, a) ∈ levelNames) : namesCommand name = false := by
  have hall : ∀ n ∈ levelNames, namesCommand n.1 = false := by decide +kernel
  exact hall _ hname

theorem namesCommand_level (hv : IsLevel v) : namesCommand v = false := by
  have hall : ∀ w ∈ commands.map Prod.fst ++ [helpWord], verbosity? w = none := by decide +kernel
  rw [Bool.eq_false_iff]
  intro h
  rw [IsLevel, hall v (mem_of_namesCommand h)] at hv
  cases hv

theorem namesCommand_attached (hlead : (lead, a) ∈ levelLeads) (v : String) :
    namesCommand (lead ++ v) = false := by
  have hall : ∀ w ∈ commands.map Prod.fst ++ [helpWord],
      w.toList.take 2 ≠ ['-', 'l'] ∧ w.toList.take 2 ≠ ['-', '-'] := by decide +kernel
  have htake : (lead ++ v).toList.take 2 = ['-', 'l'] ∨ (lead ++ v).toList.take 2 = ['-', '-'] := by
    simp only [levelLeads, List.mem_cons, Prod.mk.injEq, List.not_mem_nil, or_false] at hlead
    rcases hlead with ⟨rfl, -⟩ | ⟨rfl, -⟩ | ⟨rfl, -⟩ | ⟨rfl, -⟩ <;> simp
  rw [Bool.eq_false_iff]
  intro h
  obtain ⟨hshort, hlong⟩ := hall _ (mem_of_namesCommand h)
  exact htake.elim hshort hlong

theorem readFrom_cons (h : namesCommand w = false) (front : Reading) (ws : List String) :
    readFrom front (w :: ws) = (front.word .root w).bind fun r => readFrom r ws := by
  rw [namesCommand, Bool.or_eq_false_iff, beq_eq_false_iff_ne, Option.isSome_eq_false_iff,
    Option.isNone_iff_eq_none] at h
  rw [readFrom, if_neg h.2, h.1, ite_self]

theorem readFrom_cons_cons (hname : (name, a) ∈ levelNames) (hv : IsLevel v) (front : Reading)
    (ws : List String) : readFrom front (name :: v :: ws) =
      ((front.word .root name).bind fun r => r.word .root v).bind fun r => readFrom r ws := by
  rw [readFrom_cons (namesCommand_name hname)]
  cases front.word .root name with
  | error e => rfl
  | ok r => exact readFrom_cons (namesCommand_level hv) r ws

theorem helpFault_eq {bare : Bool} (h : Relevelled bare ws ws') : helpFault ws = helpFault ws' := by
  cases h with
  | nil => rfl
  | word w _ h => cases h <;> rfl
  | hyphens h => cases h <;> rfl
  | attached hlead _ _ h =>
    cases h with
    | nil => rw [helpFault, helpFault, namesCommand_attached hlead, namesCommand_attached hlead]
    | _ => rfl
  | apart => rfl

/-- Lines that have been split at the command and are alike. -/
structure Words.Alike (w w' : Words) : Prop where
  front : List.Forall₂ AlikeGiven w.front w'.front
  command : Option.Rel (fun c c' => c.1 = c'.1 ∧ List.Forall₂ AlikeGiven c.2 c'.2)
    w.command w'.command

theorem readBehind_alike (h : Reading.Alike false front front') (hws : Relevelled false ws ws')
    (level : Level) :
    Agree Words.Alike (readBehind front level ws) (readBehind front' level ws') := by
  have hstart : Reading.Alike false .start .start := ⟨.nil, .none, rfl, rfl⟩
  refine (hstart.words hws level).bind fun r r' hr => ?_
  have hexcluded : excluded r = excluded r' := by
    rw [excluded, excluded, Reading.has_eq_of_given hr, Reading.has_eq_of_given hr]
  rw [hexcluded]
  cases excluded r' with
  | true => exact .error _
  | false => exact h.settle.bind fun _ _ hs => .ok ⟨hs.given, .some ⟨rfl, hr⟩⟩

theorem readFrom_alike {bare : Bool} (h : Reading.Alike bare front front')
    (hws : Relevelled bare ws ws') :
    Agree Words.Alike (readFrom front ws) (readFrom front' ws') := by
  induction hws generalizing front front' with
  | nil => exact h.settle.map fun _ _ hs => ⟨hs.given, .none⟩
  | @word bare ws ws' w hw hws ih =>
    -- Whether a word may be a command is decided by what has been read, and that is alike.
    have hstep := (h.word .root hw).bind fun _ _ hs => ih hs
    rw [readFrom, readFrom, h.left, h.right, h.awaits_eq, helpFault_eq hws]
    split
    · exact hstep
    · rename_i hbare
      obtain rfl : bare = false := by simp_all
      split
      · exact .error _
      · split
        · exact readBehind_alike h hws _
        · exact hstep
  | hyphens _ ih =>
    rw [readFrom_cons rfl, readFrom_cons rfl]
    exact (h.hyphens .root).bind fun _ _ hs => ih hs
  | attached hlead hv hv' _ ih =>
    rw [readFrom_cons (namesCommand_attached hlead _), readFrom_cons (namesCommand_attached hlead _)]
    exact (h.attached hlead hv hv' .root).bind fun _ _ hs => ih hs
  | apart hname hv hv' hplain hplain' _ ih =>
    rw [readFrom_cons_cons hname hv, readFrom_cons_cons hname hv']
    exact (h.apart hname hv hv' hplain hplain' .root).bind fun _ _ hs => ih hs

end Commands

section Options

variable {a : Argument} {given given' : List (Argument × String)} {w w' : Words}

theorem valuesOf_alike (h : List.Forall₂ AlikeGiven given given') (a : Argument) :
    List.Forall₂ (AlikeValue a) (valuesOf given a) (valuesOf given' a) := by
  rw [valuesOf, valuesOf]
  induction h with
  | nil => exact .nil
  | @cons g g' _ _ hg _ ih =>
    obtain ⟨b, v⟩ := g
    obtain ⟨b', v'⟩ := g'
    obtain ⟨rfl, hv⟩ := hg
    by_cases hb : b = a
    · subst hb
      rw [List.filter_cons_of_pos (by simp), List.filter_cons_of_pos (by simp)]
      exact .cons hv ih
    · rw [List.filter_cons_of_neg (by simpa), List.filter_cons_of_neg (by simpa)]
      exact ih

theorem sharedValues_alike (h : Words.Alike w w') (a : Argument) :
    List.Forall₂ (AlikeValue a) (w.sharedValues a) (w'.sharedValues a) := by
  have hbehind : List.Forall₂ AlikeGiven w.behind w'.behind := by
    have hcommand := h.command
    rw [Words.behind, Words.behind]
    generalize w.command = c, w'.command = c' at hcommand
    cases hcommand with
    | none => exact .nil
    | some hc => exact hc.2
  have hvalues := valuesOf_alike hbehind a
  rw [Words.sharedValues, Words.sharedValues]
  generalize valuesOf w.behind a = vs, valuesOf w'.behind a = vs' at hvalues
  cases hvalues with
  | nil => exact valuesOf_alike h.front a
  | cons hv hvs => exact .cons hv hvs

/-- Only verbosities may differ. -/
theorem eq_of_alike {vs vs' : List String} (ha : a.values ≠ .level)
    (h : List.Forall₂ (AlikeValue a) vs vs') : vs = vs' := by
  induction h with
  | nil => rfl
  | cons hv _ ih =>
    rw [hv.resolve_right fun hl => ha hl.1, ih]

theorem isSome_level_of_alike {vs vs' : List String} (h : List.Forall₂ (AlikeValue a) vs vs') :
    (vs.head?.bind verbosity?).isSome = (vs'.head?.bind verbosity?).isSome := by
  cases h with
  | nil => rfl
  | cons hv _ =>
    rcases hv with rfl | ⟨-, hv, hv'⟩
    · rfl
    · exact hv.trans hv'.symm

end Options

end GitInvocation.CommandLine

namespace GitInvocation

/-- The same options, with a verbosity on both sides or on neither. -/
structure GlobalOptions.Alike (o o' : GlobalOptions) : Prop where
  configs : o.configs = o'.configs
  logLevel : o.logLevel.isSome = o'.logLevel.isSome
  fileLogLevel : o.fileLogLevel.isSome = o'.fileLogLevel.isSome
  logFile : o.logFile = o'.logFile
  noDefaultConfig : o.noDefaultConfig = o'.noDefaultConfig

theorem GlobalOptions.Alike.symm {o o' : GlobalOptions} (h : o.Alike o') : o'.Alike o :=
  ⟨h.configs.symm, h.logLevel.symm, h.fileLogLevel.symm, h.logFile.symm, h.noDefaultConfig.symm⟩

/-- The same command, with options that are alike. -/
structure CommandLine.Alike (c c' : CommandLine) : Prop where
  options : c.options.Alike c'.options
  command : c.command = c'.command

namespace CommandLine

theorem Words.Alike.options {w w' : Words} (h : w.Alike w') : w.options.Alike w'.options where
  configs := eq_of_alike (by decide) (sharedValues_alike h .config)
  logLevel := isSome_level_of_alike (sharedValues_alike h .logLevel)
  fileLogLevel := isSome_level_of_alike (sharedValues_alike h .fileLogLevel)
  logFile := congrArg List.head? (eq_of_alike (by decide) (sharedValues_alike h .logFile))
  noDefaultConfig :=
    congrArg (!List.isEmpty ·) (eq_of_alike (by decide) (sharedValues_alike h .noDefaultConfig))

theorem Words.Alike.userCommand? {w w' : Words} (h : w.Alike w') :
    w.userCommand? = w'.userCommand? := by
  rw [Words.userCommand?, Words.userCommand?]
  have hcommand := h.command
  generalize w.command = c, w'.command = c' at hcommand
  cases hcommand with
  | none => rfl
  | @some c c' hc =>
    obtain ⟨level, given⟩ := c
    obtain ⟨level', given'⟩ := c'
    obtain ⟨rfl, hgiven⟩ := hc
    cases level with
    | render =>
      have hsame (a : Argument) (ha : a.values ≠ .level) : valuesOf given a = valuesOf given' a :=
        eq_of_alike ha (valuesOf_alike hgiven a)
      dsimp only
      rw [renderOptions, renderOptions, hsame .request (by decide), hsame .json (by decide),
        hsame .gitConfig (by decide), hsame .configValue (by decide), hsame .argv (by decide)]
    | _ => rfl

/-- Lines that differ in verbosities alone are refused alike or ask for the same, up to those. -/
theorem parse_relevelled {words words' : List String} (h : Relevelled false words words') :
    Agree Alike (parse words) (parse words') :=
  (readFrom_alike ⟨.nil, .none, rfl, rfl⟩ h).map fun _ _ hw => ⟨hw.options, hw.userCommand?⟩

end CommandLine

end GitInvocation
