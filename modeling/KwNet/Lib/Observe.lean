import KwNet.Lib.Run

/-!
# What can be observed along a run

`observed step obs` lists what `obs` reports of the steps of a run, each looked at in the state it is
taken in.

* **`run_observed_along`**, **`run_observed`** — a relation between the state and a summary of what was
  observed so far, kept by every step, holds at the end of every run;
* **`run_logged_along`** — the same for the observations themselves;
* `observed_map` — what tells the steps of a run from the observations.
-/

namespace KwNet.Lib

variable {σ α β τ : Type*} {step : σ → α → Option σ} {s₀ s : σ}

/-- The observations along the run from `s`, oldest first. -/
def observed (step : σ → α → Option σ) (obs : σ → α → Option β) : σ → List α → List β
  | _, [] => []
  | s, a :: as => (obs s a).toList ++ ((step s a).elim [] fun s' => observed step obs s' as)

theorem observed_cons {obs : σ → α → Option β} {a : α} {as : List α} {t : σ} (h : step s a = some t) :
    observed step obs s (a :: as) = (obs s a).toList ++ observed step obs t as := by
  rw [observed, h, Option.elim_some]

/-- **Run induction with a summary** `acc` of the observations, when every step meets a side condition. -/
theorem run_observed_along (P : σ → α → Prop) (obs : σ → α → Option β) (acc : τ → β → τ) (R : σ → τ → Prop)
    (hstep : ∀ s t a s', R s t → P s a → step s a = some s' → R s' ((obs s a).toList.foldl acc t)) {t₀ : τ}
    (h₀ : R s₀ t₀) {as : List α} (hP : Along step P s₀ as) (h : run step s₀ as = some s) :
    R s ((observed step obs s₀ as).foldl acc t₀) := by
  induction as generalizing s₀ t₀ with
  | nil =>
    rw [run_nil, Option.some.injEq] at h
    exact h ▸ h₀
  | cons a as ih =>
    obtain ⟨s₁, hs₁, hrest⟩ := run_cons_eq_some.mp h
    rw [observed_cons hs₁, List.foldl_append]
    exact ih (hstep s₀ t₀ a s₁ h₀ hP.1 hs₁) (hP.2 s₁ hs₁) hrest

/-- The same without a side condition. -/
theorem run_observed (obs : σ → α → Option β) (acc : τ → β → τ) (R : σ → τ → Prop)
    (hstep : ∀ s t a s', R s t → step s a = some s' → R s' ((obs s a).toList.foldl acc t)) {t₀ : τ}
    (h₀ : R s₀ t₀) {as : List α} (h : run step s₀ as = some s) :
    R s ((observed step obs s₀ as).foldl acc t₀) :=
  run_observed_along (fun _ _ => True) obs acc R (fun s t a s' hR _ => hstep s t a s' hR) h₀ (along_true as) h

/-- The observations are their own summary. -/
theorem run_logged_along (P : σ → α → Prop) (obs : σ → α → Option β) (R : σ → List β → Prop)
    (hstep : ∀ s log a s', R s log → P s a → step s a = some s' →
      R s' ((obs s a).toList.foldl (fun log b => log ++ [b]) log))
    (h₀ : R s₀ []) {as : List α} (hP : Along step P s₀ as) (h : run step s₀ as = some s) :
    R s (observed step obs s₀ as) := by
  have hlogged := run_observed_along P obs (fun log b => log ++ [b]) R hstep h₀ hP h
  rwa [List.foldl_append_eq_append, List.nil_append, ← List.flatMap_def, List.flatMap_singleton'] at hlogged

/-- Every step is observed, and can be told from the observation. -/
theorem observed_map (obs : σ → α → Option β) (g : β → α)
    (hobs : ∀ s a s', step s a = some s' → (obs s a).map g = some a) {as : List α} (h : run step s₀ as = some s) :
    (observed step obs s₀ as).map g = as := by
  induction as generalizing s₀ with
  | nil => rfl
  | cons a as ih =>
    obtain ⟨s₁, hs₁, hrest⟩ := run_cons_eq_some.mp h
    obtain ⟨b, hb, hba⟩ := Option.map_eq_some_iff.mp (hobs s₀ a s₁ hs₁)
    rw [observed_cons hs₁, hb, Option.toList_some, List.singleton_append, List.map_cons, hba, ih hrest]

end KwNet.Lib
