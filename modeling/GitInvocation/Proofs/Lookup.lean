import Mathlib.Data.List.Nodup

/-!
# Keyed lists

A list of keys with values gives a key the value that stands first; when every key stands in it
once, it may as well be looked up from the end. A change to one key shows at this key alone and
lets none stand there twice. What a run of changes leaves is what the last change that matters has
put there.
-/
namespace GitInvocation

section Lookup

variable {α β : Type} [DecidableEq α] {l : List (α × β)} {k : α} {v : β}

theorem lookup_entry (k : α) (v : β) (j : α) (l : List (α × β)) :
    ((k, v) :: l).lookup j = if k = j then some v else l.lookup j := by
  by_cases h : k = j
  · rw [if_pos h, h, List.lookup_cons_self]
  · rw [if_neg h, List.lookup_cons, beq_eq_false_iff_ne.mpr (Ne.symm h)]

theorem mem_of_lookup (h : l.lookup k = some v) : (k, v) ∈ l := by
  obtain ⟨before, after, rfl, -⟩ := List.lookup_eq_some_iff.mp h
  exact List.mem_append_right _ List.mem_cons_self

theorem lookup_of_mem (h : (l.map Prod.fst).Nodup) (hm : (k, v) ∈ l) : l.lookup k = some v := by
  induction l with
  | nil => cases hm
  | cons entry rest ih =>
    obtain ⟨j, w⟩ := entry
    obtain ⟨hj, hrest⟩ := List.nodup_cons.mp h
    rw [lookup_entry]
    rcases List.mem_cons.mp hm with he | hm
    · cases he
      exact if_pos rfl
    · rw [if_neg fun he : j = k => hj (List.mem_map.mpr ⟨_, hm, he.symm⟩)]
      exact ih hrest hm

/-- A key that stands in the list once is found there once. -/
theorem filter_of_mem (h : (l.map Prod.fst).Nodup) (hm : (k, v) ∈ l) :
    l.filter (fun e => e.1 = k) = [(k, v)] := by
  induction l with
  | nil => cases hm
  | cons e l ih =>
    obtain ⟨he, hl⟩ := List.nodup_cons.mp h
    rcases List.mem_cons.mp hm with rfl | hm
    · have hnone : l.filter (fun e => e.1 = k) = [] := by
        rw [List.filter_eq_nil_iff]
        exact fun e' hm hk => he (List.mem_map.mpr ⟨e', hm, of_decide_eq_true hk⟩)
      rw [List.filter_cons, if_pos (decide_eq_true rfl), hnone]
    · have hne : ¬ e.1 = k := fun hk => he (List.mem_map.mpr ⟨_, hm, hk.symm⟩)
      rw [List.filter_cons, if_neg (by simpa using hne), ih hl hm]

theorem lookup_reverse (h : (l.map Prod.fst).Nodup) (k : α) : l.reverse.lookup k = l.lookup k := by
  have hr : (l.reverse.map Prod.fst).Nodup := by
    rw [List.map_reverse]
    exact List.nodup_reverse.mpr h
  refine Option.ext fun v => ⟨fun hv => ?_, fun hv => ?_⟩
  · exact lookup_of_mem h (List.mem_reverse.mp (mem_of_lookup hv))
  · exact lookup_of_mem hr (List.mem_reverse.mpr (mem_of_lookup hv))

/-- Changes the value of a key, or adds one behind all others. -/
def alterEntry (k : α) (f : Option β → β) : List (α × β) → List (α × β)
  | [] => [(k, f none)]
  | (j, v) :: rest => if j = k then (j, f (some v)) :: rest else (j, v) :: alterEntry k f rest

variable {f : Option β → β}

theorem lookup_alterEntry (k : α) (f : Option β → β) (j : α) (l : List (α × β)) :
    (alterEntry k f l).lookup j = if k = j then some (f (l.lookup k)) else l.lookup j := by
  induction l with
  | nil => exact lookup_entry k _ j []
  | cons entry rest ih =>
    obtain ⟨i, v⟩ := entry
    by_cases hi : i = k
    · subst hi
      rw [alterEntry, if_pos rfl, lookup_entry, List.lookup_cons_self, lookup_entry]
      by_cases hj : i = j
      · rw [if_pos hj, if_pos hj]
      · rw [if_neg hj, if_neg hj, if_neg hj]
    · rw [alterEntry, if_neg hi, lookup_entry, lookup_entry, if_neg hi, ih, lookup_entry]
      by_cases hj : i = j
      · rw [if_pos hj, if_neg fun h => hi (hj.trans h.symm), if_pos hj]
      · rw [if_neg hj, if_neg hj]

theorem mem_alterEntry {e : α × β} (h : e ∈ alterEntry k f l) : e = (k, f (l.lookup k)) ∨ e ∈ l := by
  induction l with
  | nil => exact .inl (List.mem_singleton.mp h)
  | cons entry rest ih =>
    obtain ⟨i, v⟩ := entry
    rw [alterEntry] at h
    rw [lookup_entry]
    by_cases hi : i = k
    · rw [if_pos hi] at h ⊢
      rcases List.mem_cons.mp h with he | hm
      · exact .inl (he.trans (by rw [hi]))
      · exact .inr (List.mem_cons_of_mem _ hm)
    · rw [if_neg hi] at h ⊢
      rcases List.mem_cons.mp h with he | hm
      · exact .inr (List.mem_cons.mpr (.inl he))
      · exact (ih hm).imp id (List.mem_cons_of_mem _)

theorem nodup_alterEntry (k : α) (f : Option β → β) (h : (l.map Prod.fst).Nodup) :
    ((alterEntry k f l).map Prod.fst).Nodup := by
  induction l with
  | nil => exact List.nodup_singleton k
  | cons entry rest ih =>
    obtain ⟨i, v⟩ := entry
    obtain ⟨hi, hrest⟩ := List.nodup_cons.mp h
    rw [alterEntry]
    split
    · exact List.nodup_cons.mpr ⟨hi, hrest⟩
    · next hne =>
      refine List.nodup_cons.mpr ⟨fun hm => ?_, ih hrest⟩
      obtain ⟨e, he, hek⟩ := List.mem_map.mp hm
      rcases mem_alterEntry he with rfl | he
      · exact hne hek.symm
      · exact hi (List.mem_map.mpr ⟨e, he, hek⟩)

end Lookup

section Runs

variable {α β ε ι σ : Type}

/-- What can be seen after a run of changes is the effect of the last one that has any. -/
theorem view_foldl {view : σ → Option β} {step : σ → α → σ} {effect : α → Option β}
    {items : List α} (h : ∀ s, ∀ a ∈ items, view (step s a) = (effect a).or (view s)) (s : σ) :
    view (items.foldl step s) = (items.reverse.findSome? effect).or (view s) := by
  induction items generalizing s with
  | nil => rfl
  | cons a items ih =>
    rw [List.foldl_cons, ih fun s b hb => h s b (List.mem_cons_of_mem a hb),
      h s a List.mem_cons_self, List.reverse_cons, List.findSome?_append, Option.or_assoc,
      List.findSome?_singleton]

/-- When no step fails and none undoes what has been gained, all is gained in the end. -/
theorem foldlM_gains {f : σ → α → Except ε σ} {Good : σ → ι → Prop} {Gained : α → ι → Prop}
    {items : List α}
    (h : ∀ a ∈ items, ∀ s, ∃ s', f s a = .ok s' ∧ ∀ i, Good s i ∨ Gained a i → Good s' i) (s : σ) :
    ∃ s', items.foldlM f s = .ok s' ∧ ∀ i, (Good s i ∨ ∃ a ∈ items, Gained a i) → Good s' i := by
  induction items generalizing s with
  | nil =>
    refine ⟨s, rfl, fun i hi => hi.resolve_right ?_⟩
    rintro ⟨a, ha, -⟩
    cases ha
  | cons a items ih =>
    obtain ⟨mid, hmid, hgood⟩ := h a List.mem_cons_self s
    obtain ⟨last, hlast, hall⟩ := ih (fun b hb => h b (List.mem_cons_of_mem a hb)) mid
    refine ⟨last, ?_, fun i hi => hall i ?_⟩
    · rw [List.foldlM_cons, hmid]
      exact hlast
    · rcases hi with hi | ⟨b, hb, hi⟩
      · exact .inl (hgood i (.inl hi))
      · rcases List.mem_cons.mp hb with rfl | hb
        · exact .inl (hgood i (.inr hi))
        · exact .inr ⟨b, hb, hi⟩

end Runs

end GitInvocation
