import Mathlib.Data.List.Basic

/-!
# Finite runs of a partial labelled step

`run step s as` executes the labels `as` one after another and is undefined as
soon as one of the steps is.  The invariant rules come in two forms: for steps
that always preserve the invariant, and for runs whose every step also meets a
condition on the state it starts from.
-/

namespace Runs

variable {σ α : Type*}

/-- Execute the labels in order. -/
def run (step : α → σ → Option σ) : σ → List α → Option σ
  | s, [] => some s
  | s, a :: as => (step a s).bind fun t => run step t as

@[simp] theorem run_nil (step : α → σ → Option σ) (s : σ) : run step s [] = some s := rfl

@[simp] theorem run_cons (step : α → σ → Option σ) (s : σ) (a : α) (as : List α) :
    run step s (a :: as) = (step a s).bind fun t => run step t as := rfl

theorem run_append (step : α → σ → Option σ) (s : σ) (as bs : List α) :
    run step s (as ++ bs) = (run step s as).bind fun t => run step t bs := by
  induction as generalizing s with
  | nil => rfl
  | cons a as ih =>
      cases h : step a s with
      | none => simp [h]
      | some t => simpa [h] using ih t

theorem run_cons_eq_some {step : α → σ → Option σ} {s u : σ} {a : α} {as : List α} :
    run step s (a :: as) = some u ↔ ∃ t, step a s = some t ∧ run step t as = some u := by
  simp [Option.bind_eq_some_iff]

/-- The states seen along a run: those at the start and after each label. -/
def Visits (step : α → σ → Option σ) (s : σ) (as : List α) (t : σ) : Prop :=
  ∃ n, run step s (as.take n) = some t

theorem visits_start (step : α → σ → Option σ) (s : σ) (as : List α) : Visits step s as s :=
  ⟨0, rfl⟩

theorem visits_last {step : α → σ → Option σ} {s u : σ} {as : List α}
    (h : run step s as = some u) : Visits step s as u :=
  ⟨as.length, by simpa using h⟩

theorem visits_cons {step : α → σ → Option σ} {s t u : σ} {a : α} {as : List α}
    (hstep : step a s = some t) (h : Visits step t as u) : Visits step s (a :: as) u := by
  obtain ⟨n, hn⟩ := h
  exact ⟨n + 1, by simp [hstep, hn]⟩

theorem visits_cons_iff {step : α → σ → Option σ} {s t u : σ} {a : α} {as : List α}
    (hstep : step a s = some t) :
    Visits step s (a :: as) u ↔ u = s ∨ Visits step t as u := by
  constructor
  · rintro ⟨n, hn⟩
    cases n with
    | zero => exact Or.inl (by simpa using hn.symm)
    | succ n => exact Or.inr ⟨n, by simpa [hstep] using hn⟩
  · rintro (rfl | h)
    · exact visits_start step _ _
    · exact visits_cons hstep h

/-- Every step of the run meets `C` in the state it starts from. -/
def AllSteps (step : α → σ → Option σ) (C : σ → α → Prop) : σ → List α → Prop
  | _, [] => True
  | s, a :: as => C s a ∧ ∀ t, step a s = some t → AllSteps step C t as

instance decidableAllSteps {step : α → σ → Option σ} {C : σ → α → Prop}
    [∀ s a, Decidable (C s a)] : (s : σ) → (as : List α) → Decidable (AllSteps step C s as)
  | _, [] => isTrue trivial
  | s, a :: as =>
      match h : step a s with
      | none => decidable_of_iff (C s a) (by simp [AllSteps, h])
      | some t =>
          have : Decidable (AllSteps step C t as) := decidableAllSteps t as
          decidable_of_iff (C s a ∧ AllSteps step C t as) (by simp [AllSteps, h])

theorem allSteps_of_forall {step : α → σ → Option σ} {C : σ → α → Prop} (h : ∀ s a, C s a) (s : σ)
    (as : List α) : AllSteps step C s as := by
  induction as generalizing s with
  | nil => trivial
  | cons a as ih => exact ⟨h s a, fun t _ => ih t⟩

theorem AllSteps.take {step : α → σ → Option σ} {C : σ → α → Prop} {s : σ} {as : List α}
    (h : AllSteps step C s as) (n : ℕ) : AllSteps step C s (as.take n) := by
  induction as generalizing s n with
  | nil => simpa using h
  | cons a as ih =>
      cases n with
      | zero => trivial
      | succ n => exact ⟨h.1, fun t ht => ih (h.2 t ht) n⟩

theorem allSteps_append {step : α → σ → Option σ} {C : σ → α → Prop} {s t : σ} {as bs : List α}
    (h : run step s as = some t) :
    AllSteps step C s (as ++ bs) ↔ AllSteps step C s as ∧ AllSteps step C t bs := by
  induction as generalizing s with
  | nil =>
      obtain rfl := Option.some.inj h
      simp [AllSteps]
  | cons a as ih =>
      obtain ⟨u, hu, hrest⟩ := run_cons_eq_some.mp h
      simp only [List.cons_append, AllSteps, hu, Option.some.injEq, forall_eq']
      rw [ih hrest, and_assoc]

/-- Conditions that agree wherever the invariant holds and the step is defined
agree on defined runs. -/
theorem allSteps_congr_of_invariant {step : α → σ → Option σ} {C D : σ → α → Prop} {I : σ → Prop}
    (hI : ∀ s a t, I s → step a s = some t → I t)
    (hCD : ∀ s a t, I s → step a s = some t → (C s a ↔ D s a))
    {s u : σ} {as : List α} (hs : I s) (h : run step s as = some u) :
    AllSteps step C s as ↔ AllSteps step D s as := by
  induction as generalizing s with
  | nil => exact Iff.rfl
  | cons a as ih =>
      obtain ⟨t, ht, hrest⟩ := run_cons_eq_some.mp h
      simp only [AllSteps, ht, Option.some.injEq, forall_eq']
      exact and_congr (hCD s a t hs ht) (ih (hI s a t hs ht) hrest)

theorem allSteps_congr {step : α → σ → Option σ} {C D : σ → α → Prop} {s u : σ} {as : List α}
    (hCD : ∀ s a t, step a s = some t → (C s a ↔ D s a)) (h : run step s as = some u) :
    AllSteps step C s as ↔ AllSteps step D s as :=
  allSteps_congr_of_invariant (I := fun _ => True) (fun _ _ _ _ _ => trivial)
    (fun s a t _ ht => hCD s a t ht) trivial h

/-- Conditions that agree wherever the invariant holds agree on every run, also on
one that is cut short. -/
theorem allSteps_iff_of_invariant {step : α → σ → Option σ} {C D : σ → α → Prop} {I : σ → Prop}
    (hI : ∀ s a t, I s → step a s = some t → I t) (hCD : ∀ s a, I s → (C s a ↔ D s a))
    {s : σ} (hs : I s) (as : List α) : AllSteps step C s as ↔ AllSteps step D s as := by
  induction as generalizing s with
  | nil => exact Iff.rfl
  | cons a as ih =>
      exact and_congr (hCD s a hs) (forall₂_congr fun t ht => ih (hI s a t hs ht))

/-- The same for an invariant that only the steps which meet `D` keep. -/
theorem allSteps_iff_of_preserved {step : α → σ → Option σ} {C D : σ → α → Prop} {I : σ → Prop}
    (hI : ∀ s a t, I s → D s a → step a s = some t → I t) (hCD : ∀ s a, I s → (C s a ↔ D s a))
    {s : σ} (hs : I s) (as : List α) : AllSteps step C s as ↔ AllSteps step D s as := by
  induction as generalizing s with
  | nil => exact Iff.rfl
  | cons a as ih =>
      rw [AllSteps, AllSteps, hCD s a hs]
      exact and_congr_right fun hD => forall₂_congr fun t ht => ih (hI s a t hs hD ht)

/-- The invariant rule for runs whose steps all meet a condition. -/
theorem invariant_of_allSteps {step : α → σ → Option σ} {C : σ → α → Prop} {I : σ → Prop}
    (hstep : ∀ s a t, I s → C s a → step a s = some t → I t)
    {s u : σ} {as : List α} (hs : I s) (hC : AllSteps step C s as)
    (hrun : run step s as = some u) : I u := by
  induction as generalizing s with
  | nil => simp_all
  | cons a as ih =>
      obtain ⟨t, ht, hrest⟩ := run_cons_eq_some.mp hrun
      exact ih (hstep s a t hs hC.1 ht) (hC.2 t ht) hrest

theorem invariant_of_visits {step : α → σ → Option σ} {C : σ → α → Prop} {I : σ → Prop}
    (hstep : ∀ s a t, I s → C s a → step a s = some t → I t)
    {s t : σ} {as : List α} (hs : I s) (hC : AllSteps step C s as) (ht : Visits step s as t) :
    I t := by
  obtain ⟨n, hn⟩ := ht
  exact invariant_of_allSteps hstep hs (hC.take n) hn

theorem invariant {step : α → σ → Option σ} {I : σ → Prop}
    (hstep : ∀ s a t, I s → step a s = some t → I t)
    {s u : σ} {as : List α} (hs : I s) (hrun : run step s as = some u) : I u := by
  induction as generalizing s with
  | nil => simp_all
  | cons a as ih =>
      obtain ⟨t, ht, hrest⟩ := run_cons_eq_some.mp hrun
      exact ih (hstep s a t hs ht) hrest

/-- With an invariant at hand, a property kept by exactly the steps that meet
`C` holds along a run exactly when all of its steps meet `C`. -/
theorem forall_visits_iff_allSteps {step : α → σ → Option σ} {C : σ → α → Prop}
    {I P : σ → Prop} (hI : ∀ s a t, I s → step a s = some t → I t)
    (hP : ∀ s a t, I s → P s → step a s = some t → (P t ↔ C s a))
    {s u : σ} {as : List α} (hIs : I s) (hPs : P s) (hrun : run step s as = some u) :
    (∀ t, Visits step s as t → P t) ↔ AllSteps step C s as := by
  induction as generalizing s with
  | nil =>
      refine ⟨fun _ => trivial, fun _ t ht => ?_⟩
      obtain ⟨n, hn⟩ := ht
      simp only [List.take_nil, run_nil, Option.some.injEq] at hn
      exact hn ▸ hPs
  | cons a as ih =>
      obtain ⟨t, ht, hrest⟩ := run_cons_eq_some.mp hrun
      have hIt := hI s a t hIs ht
      constructor
      · intro hall
        have hPt : P t := hall t (visits_cons ht (visits_start step t as))
        refine ⟨(hP s a t hIs hPs ht).mp hPt, fun t' ht' => ?_⟩
        obtain rfl : t = t' := Option.some.inj (ht.symm.trans ht')
        exact (ih hIt hPt hrest).mp fun v hv => hall v (visits_cons ht hv)
      · rintro ⟨hC, hCs⟩ v hv
        have hPt : P t := (hP s a t hIs hPs ht).mpr hC
        rcases (visits_cons_iff ht).mp hv with rfl | hv
        · exact hPs
        · exact (ih hIt hPt hrest).mpr (hCs t ht) v hv

/-- A property that follows from an invariant, and that a step only keeps if it meets
`C`, as the invariant needs. -/
theorem forall_visits_iff_allSteps_of_invariant {step : α → σ → Option σ} {C : σ → α → Prop}
    {I P : σ → Prop} (hI : ∀ s a t, I s → C s a → step a s = some t → I t)
    (hP : ∀ s, I s → P s) (hC : ∀ s a t, I s → step a s = some t → P t → C s a)
    {s u : σ} {as : List α} (hs : I s) (hrun : run step s as = some u) :
    (∀ t, Visits step s as t → P t) ↔ AllSteps step C s as := by
  constructor
  · intro hall
    induction as generalizing s with
    | nil => trivial
    | cons a as ih =>
        obtain ⟨t, ht, hrest⟩ := run_cons_eq_some.mp hrun
        have hCs := hC s a t hs ht (hall t (visits_cons ht (visits_start step t as)))
        refine ⟨hCs, fun t' ht' => ?_⟩
        obtain rfl : t = t' := Option.some.inj (ht.symm.trans ht')
        exact ih (hI s a t hs hCs ht) hrest fun v hv => hall v (visits_cons ht hv)
  · intro hall t ht
    exact hP t (invariant_of_visits hI hs hall ht)

end Runs
