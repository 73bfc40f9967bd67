import GitInvocation.Proofs.Snapshot.Writing
import GitInvocation.Snapshot.Requirement

/-!
# Overrides and requirements

The overrides for a list of requirements are the requirements that are not met. Once all of them
are in force, no requirement is left over, provided that the required values have no white space
around them and that no two requirements want different values for one key. None of the overrides
can be done without: what is inserted for other keys does not meet the requirements on a key. And
none reaches further than its own key.
-/
namespace GitInvocation.Snapshot

open Key (Matches)

variable {s t : Snapshot} {o : Override} {required part : List Override} {k : String}

/-- The setting has no value, or another one when the white space around it is left out. -/
def Unmet (s : Snapshot) (o : Override) : Prop :=
  s.get? o.key = none ∨ ∃ value, s.get? o.key = some value ∧ Text.trim value ≠ o.value

/-- The snapshot with the overrides in force. -/
def enforce (s : Snapshot) (overrides : List Override) : Snapshot :=
  s.insertAll (overrides.map fun o => (o.key, o.value))

theorem meets_eq_false_iff : s.meets o = false ↔ s.Unmet o := by
  rw [meets, Unmet, beq_eq_false_iff_ne]
  cases s.get? o.key <;> simp

instance (s : Snapshot) (o : Override) : Decidable (s.Unmet o) :=
  decidable_of_iff _ meets_eq_false_iff

theorem mem_missing : o ∈ s.missing required ↔ o ∈ required ∧ s.Unmet o := by
  rw [missing, List.mem_filter, Bool.not_eq_true', meets_eq_false_iff]

theorem missing_eq_filter (s : Snapshot) (required : List Override) :
    s.missing required = required.filter fun o => s.Unmet o := by
  rw [missing]
  apply List.filter_congr
  intro o _
  rw [Bool.eq_iff_iff, Bool.not_eq_true', decide_eq_true_eq, meets_eq_false_iff]

theorem unmet_congr (h : s.get? o.key = t.get? o.key) : s.Unmet o ↔ t.Unmet o := by
  rw [Unmet, Unmet, h]

/-- A key that no override is for keeps its value. -/
theorem get?_enforce_other (h : ∀ o ∈ part, ¬ Matches o.key k) :
    (s.enforce part).get? k = s.get? k := by
  have hnone : lastValue? (fun key => Matches key k)
      (part.map fun o => (o.key, o.value)) = none := by
    rw [lastValue?_eq_none]
    intro item hitem
    obtain ⟨o, ho, rfl⟩ := List.mem_map.mp hitem
    exact decide_eq_false (h o ho)
  rw [enforce, get?_insertAll, hnone]
  rfl

/-- A key that there is an override for has the value of one of them. -/
theorem exists_get?_enforce (ho : o ∈ part) (h : Matches o.key k) :
    ∃ p ∈ part, Matches p.key k ∧ (s.enforce part).get? k = some p.value := by
  have hsome : (lastValue? (fun key => Matches key k)
      (part.map fun o => (o.key, o.value))).isSome := by
    rw [lastValue?_isSome]
    exact ⟨(o.key, o.value), List.mem_map_of_mem ho, decide_eq_true h⟩
  obtain ⟨value, hvalue⟩ := Option.isSome_iff_exists.mp hsome
  obtain ⟨item, hitem, hfits, rfl⟩ := exists_of_lastValue? _ hvalue
  obtain ⟨p, hp, rfl⟩ := List.mem_map.mp hitem
  refine ⟨p, hp, of_decide_eq_true hfits, ?_⟩
  rw [enforce, get?_insertAll, hvalue]
  rfl

/-- Nothing is left to be required once the overrides are in force. -/
theorem missing_enforce (htrim : ∀ o ∈ required, Text.trim o.value = o.value)
    (hagree : ∀ o ∈ required, ∀ p ∈ required, Matches o.key p.key → o.value = p.value) :
    (s.enforce (s.missing required)).missing required = [] := by
  rw [List.eq_nil_iff_forall_not_mem]
  intro o ho
  obtain ⟨hreq, hunmet⟩ := mem_missing.mp ho
  by_cases h : ∃ p ∈ s.missing required, Matches p.key o.key
  · obtain ⟨p, hp, hmatch⟩ := h
    obtain ⟨q, hq, hmatch, hget⟩ := exists_get?_enforce (s := s) hp hmatch
    have hvalue : q.value = o.value := hagree q (mem_missing.mp hq).1 o hreq hmatch
    rcases hunmet with hnone | ⟨value, hsome, hne⟩
    · rw [hnone] at hget
      exact nomatch hget
    · obtain rfl : value = q.value := Option.some.inj (hsome.symm.trans hget)
      rw [hvalue] at hne
      exact hne (htrim o hreq)
  · have hother : ∀ p ∈ s.missing required, ¬ Matches p.key o.key := fun p hp hm => h ⟨p, hp, hm⟩
    have hself : o ∈ s.missing required :=
      mem_missing.mpr ⟨hreq, (unmet_congr (get?_enforce_other hother)).mp hunmet⟩
    exact hother o hself (Key.matching.iseqv.refl o.key)

/-- The overrides for a key are still wanted when nothing for it is put in force. -/
theorem filter_missing_enforce (h : ∀ o ∈ part, ¬ Matches o.key k) :
    ((s.enforce part).missing required).filter (fun o => Matches o.key k) =
      (s.missing required).filter fun o => Matches o.key k := by
  rw [missing_eq_filter, missing_eq_filter, List.filter_filter, List.filter_filter]
  apply List.filter_congr
  intro o _
  by_cases hk : Matches o.key k
  · have hother : ∀ p ∈ part, ¬ Matches p.key o.key :=
      fun p hp hm => h p hp (Key.matching.iseqv.trans hm hk)
    rw [decide_eq_decide.mpr (unmet_congr (get?_enforce_other hother))]
  · rw [decide_eq_false hk, Bool.false_and, Bool.false_and]

/-- The overrides are the unmet requirements in their order. They are enough, each of them is
needed, and they change the values of their own keys only. -/
theorem overrides_exact (s : Snapshot) (required : List Override) :
    (s.missing required = required.filter fun o => s.Unmet o) ∧
    ((∀ o ∈ required, Text.trim o.value = o.value) →
      (∀ o ∈ required, ∀ p ∈ required, Matches o.key p.key → o.value = p.value) →
      (s.enforce (s.missing required)).missing required = []) ∧
    (∀ part k, (∀ o ∈ part, ¬ Matches o.key k) →
      ((s.enforce part).missing required).filter (fun o => Matches o.key k) =
        (s.missing required).filter fun o => Matches o.key k) ∧
    ∀ k, (∀ o ∈ s.missing required, ¬ Matches o.key k) →
      (s.enforce (s.missing required)).get? k = s.get? k :=
  ⟨missing_eq_filter s required, missing_enforce, fun _ _ => filter_missing_enforce,
    fun _ => get?_enforce_other⟩

/-- A requirement that is met with blanks around the value, and two on one key. -/
theorem overrides_exact_twoSpellings :
    let s := ofList [("Fetch.Parallel", " 0\n"), ("core.pager", "less")]
    let color : Override := ⟨"color.ui", "never"⟩
    let jobs : Override := ⟨"submodule.fetchJobs", "0"⟩
    let shouted : Override := ⟨"SUBMODULE.fetchjobs", "0"⟩
    let required := [jobs, ⟨"fetch.parallel", "0"⟩, color, shouted]
    s.missing required = [jobs, color, shouted] ∧
      (s.enforce [jobs, color, shouted]).missing required = [] ∧
      ((s.enforce [color]).missing required).filter (fun o => Matches o.key "submodule.FetchJobs") =
        [jobs, shouted] ∧
      (s.enforce [jobs, color, shouted]).get? "core.Pager" = some "less" := by
  intro s color jobs shouted required
  obtain ⟨hmissing, henough, hneeded, hothers⟩ := overrides_exact s required
  have hlist : s.missing required = [jobs, color, shouted] := by
    rw [hmissing]
    decide +kernel
  rw [hlist] at henough hneeded hothers
  refine ⟨hlist, henough (by decide +kernel) (by decide +kernel), ?_, ?_⟩
  · rw [hneeded [color] "submodule.FetchJobs" (by decide +kernel)]
    decide +kernel
  · rw [hothers "core.Pager" (by decide +kernel)]
    decide +kernel

end GitInvocation.Snapshot
