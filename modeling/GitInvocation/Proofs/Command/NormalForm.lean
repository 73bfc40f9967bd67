import GitInvocation.Proofs.Command.Drafting

/-!
# The normal form of a draft

A draft may be asked for locks, overrides and tokens in any order. The three do not disturb each
other: the last word on the locks counts, overrides keep their order, and so do tokens. So the text
of a draft is known from its steps sorted by kind, and does not depend on how steps of different
kinds are interleaved. A step whose tokens have no content leaves no trace, not even a space.
-/
namespace GitInvocation

namespace Token

/-- What is in a token before its rule is applied. -/
def value : Token → String
  | .raw value | .quoted value | .path value => value

/-- A token as its rule has it. -/
def shown : Token → String
  | .raw value => value
  | .quoted value => GitInvocation.quoted value
  | .path value => GitInvocation.quoted (posixPath value)

theorem text?_eq (t : Token) : t.text? = if t.value = "" then none else some t.shown := by
  cases t with
  | raw value => rfl
  | quoted value => rfl
  | path value => exact ite_congr (propext Words.posixPath_eq_empty) (fun _ => rfl) fun _ => rfl

theorem quoted_ne_empty (s : String) : GitInvocation.quoted s ≠ "" := by
  intro h
  have hlist := congrArg String.toList h
  simp [GitInvocation.quoted] at hlist

theorem shown_ne_empty {t : Token} (h : t.value ≠ "") : t.shown ≠ "" := by
  cases t with
  | raw value => exact h
  | quoted value => exact quoted_ne_empty value
  | path value => exact quoted_ne_empty (posixPath value)

theorem filterMap_text? (tokens : List Token) :
    tokens.filterMap text? = (tokens.filter (·.value ≠ "")).map shown := by
  induction tokens with
  | nil => rfl
  | cons t tokens ih =>
    by_cases ht : t.value = ""
    · have hnone : t.text? = none := by rw [text?_eq, if_pos ht]
      rw [List.filterMap_cons_none hnone, List.filter_cons_of_neg (by simpa using ht), ih]
    · have hsome : t.text? = some t.shown := by rw [text?_eq, if_neg ht]
      rw [List.filterMap_cons_some hsome, List.filter_cons_of_pos (by simpa using ht),
        List.map_cons, ih]

end Token

namespace Draft

namespace Step

/-- What a step is about. -/
inductive Kind where
  | lock
  | override
  | token
  deriving DecidableEq

def kind : Step → Kind
  | .noOptionalLocks _ => .lock
  | .configure _ => .override
  | _ => .token

/-- What a step says about optional locks. -/
def lock? : Step → Option Bool
  | .noOptionalLocks on => some on
  | _ => none

def overrides : Step → List Override
  | .configure items => items
  | _ => []

/-- The tokens that a step adds, with content or without. -/
def tokens : Step → List Token
  | .noOptionalLocks _ | .configure _ => []
  | .add items => items
  | .addIf on item => if on then [item] else []
  | .addEither on yes no => [if on then yes else no]
  | .raw value => [.raw value]
  | .rawIf on value => if on then [.raw value] else []
  | .rawEither on yes no => [.raw (if on then yes else no)]
  | .raw? value => value.toList.map .raw
  | .raws values => values.map .raw
  | .quoted value => [.quoted value]
  | .quoted? value => value.toList.map .quoted
  | .path value => [.path value]
  | .path? value => value.toList.map .path
  | .paths values => values.map .path

/-- A step for tokens that adds none with content, as when its condition does not hold. -/
def Idle (step : Step) : Prop := step.kind = .token ∧ ∀ t ∈ step.tokens, t.value = ""

end Step

variable {d : Draft} {step : Step} {steps others : List Step}

/-- Each step adds to one part of a draft and leaves the others alone. -/
theorem apply_eq (d : Draft) (step : Step) :
    d.apply step = ⟨d.command, step.lock?.getD d.lockFree, d.overrides ++ step.overrides,
      d.tokens ++ step.tokens⟩ := by
  have hadd (items : List Token) :
      d.add items = ⟨d.command, d.lockFree, d.overrides ++ [], d.tokens ++ items⟩ := by
    rw [Draft.add, List.append_nil]
  have hnone : d = ⟨d.command, d.lockFree, d.overrides ++ [], d.tokens ++ []⟩ := by
    rw [List.append_nil, List.append_nil]
  cases step with
  | noOptionalLocks on => simp [apply, noOptionalLocks, Step.lock?, Step.overrides, Step.tokens]
  | configure items => simp [apply, configure, Step.lock?, Step.overrides, Step.tokens]
  | addIf on item =>
    cases on
    · exact hnone
    · exact hadd [item]
  | addEither on yes no =>
    cases on
    · exact hadd [no]
    · exact hadd [yes]
  | rawIf on value =>
    cases on
    · exact hnone
    · exact hadd [.raw value]
  | rawEither on yes no =>
    cases on
    · exact hadd [.raw no]
    · exact hadd [.raw yes]
  | _ => exact hadd _

theorem getLast?_filterMap_cons {α β : Type} (f : α → Option β) (a : α) (l : List α) (b : β) :
    ((a :: l).filterMap f).getLast?.getD b = (l.filterMap f).getLast?.getD ((f a).getD b) := by
  cases h : f a with
  | none => rw [List.filterMap_cons_none h]; rfl
  | some c => rw [List.filterMap_cons_some h, List.getLast?_cons]; rfl

/-- Many steps add to the parts of a draft what each of them adds. -/
theorem run_eq (d : Draft) (steps : List Step) :
    d.run steps = ⟨d.command, (steps.filterMap Step.lock?).getLast?.getD d.lockFree,
      d.overrides ++ steps.flatMap Step.overrides, d.tokens ++ steps.flatMap Step.tokens⟩ := by
  induction steps generalizing d with
  | nil => simp [run]
  | cons step steps ih =>
    have hrun : d.run (step :: steps) = (d.apply step).run steps := rfl
    rw [hrun, ih, apply_eq, getLast?_filterMap_cons]
    simp only [List.flatMap_cons, List.append_assoc]

/-- The parts of the text of a draft that is built by these steps. -/
def normalParts (command : String) (steps : List Step) : List String :=
  given ((steps.filterMap Step.lock?).getLast? = some true) "--no-optional-locks" ++
    (steps.flatMap Step.overrides).flatMap (fun o => ["-c", o.key ++ "=" ++ o.value]) ++
    command :: ((steps.flatMap Step.tokens).filter (·.value ≠ "")).map Token.shown

theorem text_run (command : String) (steps : List Step) :
    ((start command).run steps).text = " ".intercalate (normalParts command steps) := by
  have hlock : (steps.filterMap Step.lock?).getLast?.getD false =
      decide ((steps.filterMap Step.lock?).getLast? = some true) := by
    cases (steps.filterMap Step.lock?).getLast? with
    | none => rfl
    | some on => cases on <;> rfl
  rw [Draft.text, run_eq, parts, normalParts, given, ← hlock, ← Token.filterMap_text?]
  rfl

/-- Steps of one kind in the same order, whatever other steps stand between them; of the steps on
the locks only the last matters. -/
structure SameOrder (steps others : List Step) : Prop where
  overrides : others.filter (·.kind = .override) = steps.filter (·.kind = .override)
  tokens : others.filter (·.kind = .token) = steps.filter (·.kind = .token)
  lock : (others.filter (·.kind = .lock)).getLast? = (steps.filter (·.kind = .lock)).getLast?

theorem flatMap_filter_kind {β : Type} {f : Step → List β} {kind : Step.Kind}
    (h : ∀ step : Step, step.kind ≠ kind → f step = []) (steps : List Step) :
    (steps.filter (·.kind = kind)).flatMap f = steps.flatMap f := by
  induction steps with
  | nil => rfl
  | cons step steps ih =>
    by_cases hk : step.kind = kind
    · simp [hk, ih]
    · simp [hk, ih, h step hk]

theorem flatMap_overrides (steps : List Step) :
    (steps.filter (·.kind = .override)).flatMap Step.overrides = steps.flatMap Step.overrides :=
  flatMap_filter_kind (fun step h => by cases step <;> first | rfl | exact absurd rfl h) steps

theorem flatMap_tokens (steps : List Step) :
    (steps.filter (·.kind = .token)).flatMap Step.tokens = steps.flatMap Step.tokens :=
  flatMap_filter_kind (fun step h => by cases step <;> first | rfl | exact absurd rfl h) steps

theorem filterMap_lock (steps : List Step) :
    (steps.filter (·.kind = .lock)).map Step.lock? = (steps.filterMap Step.lock?).map some := by
  induction steps with
  | nil => rfl
  | cons step steps ih =>
    cases step with
    | noOptionalLocks on => exact congrArg (some on :: ·) ih
    | _ => exact ih

theorem getLast?_lock (steps : List Step) :
    (steps.filterMap Step.lock?).getLast? =
      (steps.filter (·.kind = .lock)).getLast?.bind Step.lock? := by
  have h := congrArg List.getLast? (filterMap_lock steps)
  rw [List.getLast?_map, List.getLast?_map] at h
  calc
    (steps.filterMap Step.lock?).getLast? =
        ((steps.filterMap Step.lock?).getLast?.map some).bind id := by
      cases (steps.filterMap Step.lock?).getLast? <;> rfl
    _ = ((steps.filter (·.kind = .lock)).getLast?.map Step.lock?).bind id := by rw [h]
    _ = (steps.filter (·.kind = .lock)).getLast?.bind Step.lock? := Option.bind_map

theorem SameOrder.normalParts_eq (h : SameOrder steps others) (command : String) :
    normalParts command others = normalParts command steps := by
  rw [normalParts, normalParts, getLast?_lock, getLast?_lock, h.lock, ← flatMap_overrides,
    ← flatMap_tokens, h.overrides, h.tokens, flatMap_overrides, flatMap_tokens]

theorem Step.lock?_of_token (h : step.kind = .token) : step.lock? = none := by
  cases step <;> first | rfl | cases h

theorem Step.overrides_of_token (h : step.kind = .token) : step.overrides = [] := by
  cases step <;> first | rfl | cases h

/-- A step that leaves no trace may stand anywhere. -/
theorem normalParts_idle (h : step.Idle) (command : String) (before behind : List Step) :
    normalParts command (before ++ step :: behind) = normalParts command (before ++ behind) := by
  have hlock : (step :: behind).filterMap Step.lock? = behind.filterMap Step.lock? :=
    List.filterMap_cons_none (Step.lock?_of_token h.1)
  have htokens : step.tokens.filter (·.value ≠ "") = [] := by
    rw [List.filter_eq_nil_iff]
    exact fun t ht hne => of_decide_eq_true hne (h.2 t ht)
  simp only [normalParts, List.filterMap_append, hlock, List.flatMap_append, List.flatMap_cons,
    Step.overrides_of_token h.1, List.nil_append, List.filter_append, htokens]

/-- The parts have content, as long as the command has. -/
theorem ne_empty_of_mem_normalParts {command part : String} (hc : command ≠ "")
    (h : part ∈ normalParts command steps) : part ≠ "" := by
  rcases List.mem_append.mp h with h | h
  · rcases List.mem_append.mp h with h | h
    · rw [(mem_given_iff.mp h).2]
      decide
    · obtain ⟨o, -, ho⟩ := List.mem_flatMap.mp h
      rcases List.mem_cons.mp ho with rfl | ho
      · decide
      · rw [List.mem_singleton.mp ho]
        simp
  · rcases List.mem_cons.mp h with rfl | h
    · exact hc
    · obtain ⟨t, ht, rfl⟩ := List.mem_map.mp h
      exact Token.shown_ne_empty (of_decide_eq_true (List.mem_filter.mp ht).2)

/-- The normal form of a draft. Its text is the parts that its steps stand for, one space between
any two, and none of them is empty. So steps of different kinds may change places, and a step that
leaves no trace may be put in anywhere. -/
theorem run_normal_form (command : String) (steps : List Step) :
    ((start command).run steps).text = " ".intercalate (normalParts command steps) ∧
    (command ≠ "" → ∀ part ∈ normalParts command steps, part ≠ "") ∧
    (∀ others, SameOrder steps others →
      ((start command).run others).text = ((start command).run steps).text) ∧
    ∀ before step behind, steps = before ++ behind → step.Idle →
      ((start command).run (before ++ step :: behind)).text =
        ((start command).run steps).text := by
  refine ⟨text_run command steps, fun hc _ => ne_empty_of_mem_normalParts hc, fun others h => ?_,
    fun before step behind hsteps h => ?_⟩
  · rw [text_run, text_run, h.normalParts_eq]
  · rw [text_run, text_run, normalParts_idle h, hsteps]

/-- Tokens in front of overrides, locks that are decided twice, and a path that is empty. -/
theorem run_normal_form_interleaved :
    ((start "log").run [.raw "-v", .noOptionalLocks false, .path "x\\y",
      .configure [⟨"a", "b"⟩], .noOptionalLocks true, .configure [⟨"c", "d e"⟩]]).text =
        "--no-optional-locks -c a=b -c c=d e log -v \"x/y\"" ∧
    ((start "log").run [.noOptionalLocks true, .configure [⟨"a", "b"⟩],
      .configure [⟨"c", "d e"⟩], .raw "-v", .path? (some ""), .path "x\\y"]).text =
        "--no-optional-locks -c a=b -c c=d e log -v \"x/y\"" := by
  let front : List Step :=
    [.noOptionalLocks true, .configure [⟨"a", "b"⟩], .configure [⟨"c", "d e"⟩], .raw "-v"]
  obtain ⟨hnormal, -, hsame, hidle⟩ := run_normal_form "log" (front ++ [.path "x\\y"])
  have htext : ((start "log").run (front ++ [.path "x\\y"])).text =
      "--no-optional-locks -c a=b -c c=d e log -v \"x/y\"" := hnormal.trans (by decide +kernel)
  have hempty : (Step.path? (some "")).Idle := ⟨rfl, by decide⟩
  exact ⟨(hsame _ ⟨rfl, rfl, rfl⟩).trans htext, (hidle front _ _ rfl hempty).trans htext⟩

end Draft

end GitInvocation
