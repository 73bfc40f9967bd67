import GitInvocation.Command.Draft
import GitInvocation.Proofs.Words.Fragment

/-!
# The words of a draft

A draft reads as a list of words when its parts are settled and have these words. Each thing
that is asked of a draft adds its own words at the end, whatever was asked before; the switch
against optional locks and the overrides stand in front of the command.
-/
namespace GitInvocation.Draft

open Words

def Reads (d : Draft) (words : List String) : Prop := AllSettled d.parts words

/-- The word of a switch that is on. -/
def given (on : Bool) (word : String) : List String := if on then [word] else []

theorem mem_given_iff {on : Bool} {word w : String} : w ∈ given on word ↔ on ∧ w = word := by
  cases on <;> simp [given]

/-- Overrides as a program receives them. -/
def settings (items : List Override) : List String := items.flatMap fun o => ["-c", o.text]

@[simp] theorem raw?_none (d : Draft) : d.raw? none = d := by simp [Draft.raw?, Draft.add]

@[simp] theorem quoted?_none (d : Draft) : d.quoted? none = d := by simp [Draft.quoted?, Draft.add]

theorem Reads.text {d : Draft} {ws : List String} (h : d.Reads ws) : Settled d.text ws :=
  AllSettled.intercalate h

variable {d : Draft} {ws vs : List String}

theorem settled_override {o : Override} (hk : Plain o.key) (hv : Bare o.value) :
    Word o.text := by
  have heq : Bare ("=" ++ o.value) := bare_append (bare_literal _ rfl) hv
  have hp : Plain (o.key ++ ("=" ++ o.value)) := by
    by_cases he : o.key = ""
    · rw [he, String.empty_append]
      exact plain_append (plain_literal _ rfl) (by decide) hv
    · exact plain_append hk he heq
  rw [← String.append_assoc] at hp
  exact settled_word hp (by simp [Override.text])

/-- Overrides read as the words of their texts, with the switch in front of each text. -/
theorem allSettled_overrides {items : List Override} {f : Override → List String}
    (h : ∀ o ∈ items, Settled o.text (f o)) :
    AllSettled (items.flatMap fun o => ["-c", o.text]) (items.flatMap fun o => "-c" :: f o) := by
  induction items with
  | nil => exact .nil
  | cons o items ih =>
    have hs := AllSettled.single (h o List.mem_cons_self)
    have ht := ih fun o' ho => h o' (List.mem_cons_of_mem o ho)
    have hc : Word "-c" := settled_literal _ rfl
    rw [List.flatMap_cons, List.flatMap_cons]
    exact (AllSettled.cons hc hs).append ht

/-- A draft reads as its parts do, whatever words each of its overrides has. -/
theorem reads_of_parts {f : Override → List String} (hc : Word d.command)
    (ho : ∀ o ∈ d.overrides, Settled o.text (f o))
    (ht : AllSettled (d.tokens.filterMap Token.text?) vs) :
    d.Reads (given d.lockFree noLocksSwitch ++ d.overrides.flatMap (fun o => "-c" :: f o) ++
      d.command :: vs) := by
  have hl : AllSettled (if d.lockFree then [noLocksSwitch] else [])
      (given d.lockFree noLocksSwitch) := by
    cases d.lockFree
    · exact .nil
    · exact .single (settled_literal _ rfl)
  exact (hl.append (allSettled_overrides ho)).append (.cons hc ht)

/-- The part of a draft in front of its tokens. -/
theorem reads_of_tokens_nil (ht : d.tokens = []) (hc : Word d.command)
    (ho : ∀ o ∈ d.overrides, Plain o.key ∧ Bare o.value) :
    d.Reads (given d.lockFree noLocksSwitch ++ settings d.overrides ++ [d.command]) := by
  refine reads_of_parts hc (fun o h => settled_override (ho o h).1 (ho o h).2) ?_
  rw [ht]
  exact .nil

section Start

variable {command : String} (hc : Word command)
include hc

theorem reads_start : (start command).Reads [command] :=
  reads_of_tokens_nil (d := start command) rfl hc fun _ h => absurd h List.not_mem_nil

theorem reads_noOptionalLocks (on : Bool) :
    ((start command).noOptionalLocks on).Reads (given on noLocksSwitch ++ [command]) := by
  have := reads_of_tokens_nil (d := (start command).noOptionalLocks on) rfl hc
    fun _ h => absurd h List.not_mem_nil
  rwa [show settings ((start command).noOptionalLocks on).overrides = [] from rfl,
    List.append_nil] at this

variable {items : List Override} (ho : ∀ o ∈ items, Plain o.key ∧ Bare o.value)
include ho

theorem reads_configure : ((start command).configure items).Reads (settings items ++ [command]) :=
  reads_of_tokens_nil (d := (start command).configure items) rfl hc ho

theorem reads_noOptionalLocks_configure (on : Bool) :
    (((start command).noOptionalLocks on).configure items).Reads
      (given on noLocksSwitch ++ settings items ++ [command]) :=
  reads_of_tokens_nil (d := ((start command).noOptionalLocks on).configure items) rfl hc ho

end Start

theorem parts_add (d : Draft) (items : List Token) :
    (d.add items).parts = d.parts ++ items.filterMap Token.text? := by
  simp only [parts, Draft.add, List.filterMap_append, List.append_assoc, List.cons_append]
  rfl

section Parts

theorem parts_start (command : String) : (start command).parts = [command] := rfl

theorem parts_start_configure (command : String) (items : List Override) :
    ((start command).configure items).parts = settings items ++ [command] := rfl

variable (d)

theorem parts_raw {value : String} (h : value ≠ "") : (d.raw value).parts = d.parts ++ [value] := by
  rw [Draft.raw, parts_add]
  simp [Token.text?, h]

theorem parts_rawIf (on : Bool) {value : String} (h : value ≠ "") :
    (d.rawIf on value).parts = d.parts ++ given on value := by
  cases on
  · exact (List.append_nil _).symm
  · exact d.parts_raw h

theorem parts_rawEither (on : Bool) {yes no : String} (hy : yes ≠ "") (hn : no ≠ "") :
    (d.rawEither on yes no).parts = d.parts ++ [if on then yes else no] := by
  cases on
  · exact d.parts_raw hn
  · exact d.parts_raw hy

theorem parts_quoted? {value : Option String} (h : ∀ v ∈ value, v ≠ "") :
    (d.quoted? value).parts = d.parts ++ value.toList.map GitInvocation.quoted := by
  rw [Draft.quoted?, parts_add]
  cases value with
  | none => rfl
  | some v => simp [Token.text?, GitInvocation.quoted?, h v rfl]

theorem parts_raw? {value : Option String} (h : ∀ v ∈ value, v ≠ "") :
    (d.raw? value).parts = d.parts ++ value.toList := by
  cases value with
  | none => rw [raw?_none, Option.toList_none, List.append_nil]
  | some v => exact d.parts_raw (h v rfl)

theorem parts_token (t : Token) : (d.add [t]).parts = d.parts ++ t.text?.toList := by
  rw [parts_add, List.filterMap_cons, List.filterMap_nil]
  cases t.text? <;> rfl

theorem parts_quoted (value : String) :
    (d.quoted value).parts = d.parts ++ (GitInvocation.quoted? value).toList :=
  d.parts_token (.quoted value)

theorem parts_path (value : String) :
    (d.path value).parts = d.parts ++ (GitInvocation.quoted? (posixPath value)).toList :=
  d.parts_token (.path value)

theorem parts_paths {values : List String} (h : ∀ v ∈ values, v ≠ "") :
    (d.paths values).parts = d.parts ++ values.map fun v => GitInvocation.quoted (posixPath v) := by
  rw [Draft.paths, parts_add, List.append_cancel_left_eq]
  induction values with
  | nil => rfl
  | cons v values ih =>
    have hv : (Token.path v).text? = some (GitInvocation.quoted (posixPath v)) :=
      if_neg (mt posixPath_eq_empty.mp (h v List.mem_cons_self))
    rw [List.map_cons, List.filterMap_cons_some hv,
      ih fun w hw => h w (List.mem_cons_of_mem v hw), List.map_cons]

end Parts

theorem Reads.add (h : d.Reads ws) {items : List Token}
    (hi : AllSettled (items.filterMap Token.text?) vs) : (d.add items).Reads (ws ++ vs) := by
  rw [Reads, parts_add]
  exact AllSettled.append h hi

/-- Empty values are left out, and have no words. -/
theorem allSettled_raws {values : List String} (h : AllSettled values vs) :
    AllSettled ((values.map Token.raw).filterMap Token.text?) vs := by
  induction h with
  | nil => exact .nil
  | @cons value values ws vs head tail ih =>
    rw [List.map_cons, List.filterMap_cons, Token.text?]
    split
    · next hn =>
      split at hn
      · next he => rw [(he ▸ head : Settled "" ws).eq_nil]; exact ih
      · exact absurd hn (by simp)
    · next v hs =>
      split at hs
      · exact absurd hs (by simp)
      · obtain rfl := Option.some.inj hs
        exact .cons head ih

theorem Reads.raws (h : d.Reads ws) {values : List String} (hv : AllSettled values vs) :
    (d.raws values).Reads (ws ++ vs) := h.add (allSettled_raws hv)

theorem Reads.raw (h : d.Reads ws) {value : String} (hv : Settled value vs) :
    (d.raw value).Reads (ws ++ vs) := h.raws (.single hv)

theorem Reads.raw? (h : d.Reads ws) {value : Option String} (hv : AllSettled value.toList vs) :
    (d.raw? value).Reads (ws ++ vs) := h.raws hv

theorem Reads.rawIf (h : d.Reads ws) (on : Bool) {value : String} (hv : Settled value vs) :
    (d.rawIf on value).Reads (ws ++ if on then vs else []) := by
  cases on
  · simpa [Draft.rawIf] using h
  · exact h.raw hv

theorem Reads.rawEither (h : d.Reads ws) (on : Bool) {yes no : String} {us : List String}
    (hy : Settled yes vs) (hn : Settled no us) :
    (d.rawEither on yes no).Reads (ws ++ if on then vs else us) := by
  cases on
  · exact h.raw hn
  · exact h.raw hy

theorem allSettled_quoted? {value : String} (hv : Quotable value) :
    AllSettled (GitInvocation.quoted? value).toList (filled value) := by
  unfold GitInvocation.quoted? filled
  split
  · exact .nil
  · have := settled_quoted plain_empty hv
    rw [String.empty_append, String.empty_append] at this
    exact .single this

theorem Reads.token (h : d.Reads ws) {t : Token} (ht : AllSettled t.text?.toList vs) :
    (d.add [t]).Reads (ws ++ vs) := by
  refine h.add ?_
  rw [List.filterMap_cons, List.filterMap_nil]
  cases hq : t.text? <;> rwa [hq] at ht

theorem Reads.quoted (h : d.Reads ws) {value : String} (hv : Quotable value) :
    (d.quoted value).Reads (ws ++ filled value) := h.token (allSettled_quoted? hv)

theorem Reads.path (h : d.Reads ws) {value : String} (hv : Unquoted value) :
    (d.path value).Reads (ws ++ filled (posixPath value)) :=
  h.token (allSettled_quoted? (quotable_posixPath hv))

theorem Reads.quoted? (h : d.Reads ws) {value : Option String}
    (hv : ∀ v ∈ value, v ≠ "" ∧ Quotable v) : (d.quoted? value).Reads (ws ++ value.toList) := by
  cases value with
  | none => simpa using h
  | some v =>
    have := h.quoted (hv v rfl).2
    rwa [filled, if_neg (hv v rfl).1] at this

theorem Reads.paths (h : d.Reads ws) {values : List String}
    (hv : ∀ v ∈ values, v ≠ "" ∧ Unquoted v) :
    (d.paths values).Reads (ws ++ values.map posixPath) := by
  induction values generalizing d ws with
  | nil => simpa [Draft.paths, Draft.add] using h
  | cons v values ih =>
    obtain ⟨hne, hu⟩ := hv v List.mem_cons_self
    have hp := h.path hu
    rw [filled, if_neg (mt posixPath_eq_empty.mp hne)] at hp
    have := ih hp fun w hw => hv w (List.mem_cons_of_mem v hw)
    simpa [Draft.paths, Draft.path, Draft.add] using this

theorem Reads.path? (h : d.Reads ws) {value : Option String}
    (hv : ∀ v ∈ value, v ≠ "" ∧ Unquoted v) :
    (d.path? value).Reads (ws ++ value.toList.map posixPath) :=
  h.paths fun v hm => hv v (Option.mem_toList.mp hm)

end GitInvocation.Draft
