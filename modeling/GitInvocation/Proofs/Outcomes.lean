import Mathlib.Data.List.Forall2

/-!
# Computations that may fail

A run of steps fails when one of them fails whatever came before. Two computations agree when they
fail with the same fault, or both succeed with results that are related; what agrees step by step
agrees as a whole.
-/
namespace GitInvocation

variable {ε δ α β γ ι κ σ τ : Type}

theorem ok_of_toOption {x : Except ε α} {a : α} (h : x.toOption = some a) : x = .ok a := by
  cases x with
  | error => cases h
  | ok => exact congrArg Except.ok (Option.some.inj h)

section Steps

variable {x : Except ε α}

theorem map_eq_error_iff {f : α → β} {e : ε} : x.map f = .error e ↔ x = .error e := by
  cases x <;> simp [Except.map]

theorem map_eq_ok_iff {f : α → β} {b : β} : x.map f = .ok b ↔ ∃ a, x = .ok a ∧ f a = b := by
  cases x <;> simp [Except.map]

theorem bind_eq_ok_iff {f : α → Except ε β} {b : β} :
    x.bind f = .ok b ↔ ∃ a, x = .ok a ∧ f a = .ok b := by
  cases x <;> simp [Except.bind]

end Steps

theorem exists_error_foldlM {f : σ → ι → Except ε σ} {l : List ι} {a : ι} (ha : a ∈ l)
    (h : ∀ s, ∃ e, f s a = .error e) (s : σ) : ∃ e, l.foldlM f s = .error e := by
  induction l generalizing s with
  | nil => cases ha
  | cons b l ih =>
    rw [List.foldlM_cons]
    cases hb : f s b with
    | error e => exact ⟨e, rfl⟩
    | ok t =>
      rcases List.mem_cons.mp ha with rfl | ha
      · obtain ⟨e, he⟩ := h s
        exact nomatch hb.symm.trans he
      · exact ih ha t

theorem exists_error_mapM {f : ι → Except ε κ} {l : List ι} {a : ι} (ha : a ∈ l)
    (h : ∃ e, f a = .error e) : ∃ e, l.mapM f = .error e := by
  induction l with
  | nil => cases ha
  | cons b l ih =>
    rw [List.mapM_cons]
    cases hb : f b with
    | error e => exact ⟨e, rfl⟩
    | ok k =>
      rcases List.mem_cons.mp ha with rfl | ha
      · obtain ⟨e, he⟩ := h
        exact nomatch hb.symm.trans he
      · obtain ⟨e, he⟩ := ih ha
        exact ⟨e, by rw [he]; rfl⟩

/-- Both fail alike, or both succeed and the results are related. -/
inductive Agree (R : α → β → Prop) : Except ε α → Except ε β → Prop where
  | error (e : ε) : Agree R (.error e) (.error e)
  | ok {a : α} {b : β} (h : R a b) : Agree R (.ok a) (.ok b)

namespace Agree

variable {R : α → β → Prop} {S : σ → τ → Prop} {x : Except ε α} {y : Except ε β}

theorem refl {R : α → α → Prop} (h : ∀ a, R a a) (x : Except ε α) : Agree R x x := by
  cases x with
  | error e => exact .error e
  | ok a => exact .ok (h a)

theorem imp {T : α → β → Prop} (h : Agree R x y) (hRT : ∀ a b, R a b → T a b) : Agree T x y := by
  cases h with
  | error e => exact .error e
  | ok hab => exact .ok (hRT _ _ hab)

theorem bind {f : α → Except ε σ} {g : β → Except ε τ} (h : Agree R x y)
    (hfg : ∀ a b, R a b → Agree S (f a) (g b)) : Agree S (x.bind f) (y.bind g) := by
  cases h with
  | error e => exact .error e
  | ok hab => exact hfg _ _ hab

theorem map {f : α → σ} {g : β → τ} (h : Agree R x y) (hfg : ∀ a b, R a b → S (f a) (g b)) :
    Agree S (x.map f) (y.map g) := by
  cases h with
  | error e => exact .error e
  | ok hab => exact .ok (hfg _ _ hab)

theorem mapError (f : ε → δ) (h : Agree R x y) : Agree R (x.mapError f) (y.mapError f) := by
  cases h with
  | error e => exact .error (f e)
  | ok hab => exact .ok hab

theorem mapM {Q : ι → κ → Prop} {f : ι → Except ε α} {g : κ → Except ε β} {l : List ι} {m : List κ}
    (hlm : List.Forall₂ Q l m) (hfg : ∀ a b, Q a b → Agree R (f a) (g b)) :
    Agree (List.Forall₂ R) (l.mapM f) (m.mapM g) := by
  induction hlm with
  | nil => exact .ok .nil
  | cons hab _ ih =>
    rw [List.mapM_cons, List.mapM_cons]
    exact (hfg _ _ hab).bind fun c d hcd => ih.bind fun cs ds hcds => .ok (.cons hcd hcds)

theorem foldlM {Q : ι → κ → Prop} {f : σ → ι → Except ε σ} {g : τ → κ → Except ε τ} {l : List ι}
    {m : List κ} (hlm : List.Forall₂ Q l m)
    (hfg : ∀ s t a b, S s t → Q a b → Agree S (f s a) (g t b)) {s : σ} {t : τ} (hst : S s t) :
    Agree S (l.foldlM f s) (m.foldlM g t) := by
  induction hlm generalizing s t with
  | nil => exact .ok hst
  | cons hab _ ih =>
    rw [List.foldlM_cons, List.foldlM_cons]
    exact (hfg _ _ _ _ hst hab).bind fun _ _ h => ih h

end Agree

end GitInvocation
