import KwNet.Lib.Run

/-!
# Runs that a measure bounds

* **`run_length_le`** — where every step keeps the invariant and takes something off the measure, a run is
  no longer than the measure at its start;
* **`run_reaches`** — where moreover the system can always go on as `feed` says, it gets done.
-/

namespace KwNet.Lib

variable {σ α : Type*} {step : σ → α → Option σ} {s₀ s : σ}

/-- **Bounded runs.** -/
theorem run_length_le (I : σ → Prop) (μ : σ → ℕ)
    (hstep : ∀ s a s', I s → step s a = some s' → I s' ∧ μ s' < μ s) (h₀ : I s₀) {as : List α}
    (h : run step s₀ as = some s) : as.length + μ s ≤ μ s₀ := by
  induction as generalizing s₀ with
  | nil =>
    rw [run_nil, Option.some.injEq] at h
    rw [h, List.length_nil, Nat.zero_add]
  | cons a as ih =>
    obtain ⟨t, ht, hrest⟩ := run_cons_eq_some.mp h
    obtain ⟨hI, hless⟩ := hstep s₀ a t h₀ ht
    have hle := ih hI hrest
    rw [List.length_cons]
    omega

/-- **Getting done.**  `feed` is what the environment does in each state. -/
theorem run_reaches (I : σ → Prop) (done : σ → Prop) (feed : σ → α) (μ : σ → ℕ)
    (hstep : ∀ s, I s → ¬done s → ∃ s', step s (feed s) = some s' ∧ I s' ∧ μ s' < μ s) (h₀ : I s₀) :
    ∃ as s, Along step (fun s a => a = feed s) s₀ as ∧ run step s₀ as = some s ∧ done s := by
  induction hn : μ s₀ using Nat.strong_induction_on generalizing s₀ with
  | h n ih =>
    by_cases hdone : done s₀
    · exact ⟨[], s₀, trivial, run_nil, hdone⟩
    · obtain ⟨t, ht, hI, hless⟩ := hstep s₀ h₀ hdone
      obtain ⟨as, s, hfed, hrun, hs⟩ := ih (μ t) (hn ▸ hless) hI rfl
      refine ⟨feed s₀ :: as, s, ⟨rfl, fun u hu => ?_⟩, run_cons_eq_some.mpr ⟨t, ht, hrun⟩, hs⟩
      rw [ht, Option.some.injEq] at hu
      exact hu ▸ hfed

end KwNet.Lib
