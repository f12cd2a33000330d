import KwNet.Lib.Pool
import KwNet.Lib.Run

/-!
# Steps paid for in advance

A step may cost something, and some steps bring credit for those to come.  `debt` is what the threads of a
pool can still spend at most without new credit.

* **`run_cost_le_along`**, **`run_cost_le`** — where every step is paid for by a fall of the debt or by credit, so is the
  whole run;
* **`weight_surge`** — one thread moves, and what it does raises the debt of each other thread a little.
-/

namespace KwNet.Lib

section Runs

variable {σ α : Type*} {step : σ → α → Option σ} {s₀ s : σ}

/-- What a step cannot bring about held before the run. -/
theorem run_back {J : σ → Prop} (hback : ∀ s a s', step s a = some s' → J s' → J s) {as : List α}
    (h : run step s₀ as = some s) (hJ : J s) : J s₀ := by
  induction as generalizing s₀ with
  | nil =>
    rw [run_nil, Option.some.injEq] at h
    exact h ▸ hJ
  | cons a as ih =>
    obtain ⟨t, ht, hrest⟩ := run_cons_eq_some.mp h
    exact hback s₀ a t ht (ih hrest)

/-- **Amortised runs** whose steps meet a side condition.  `J` is a bound on the last state that holds all along the run;
`earned` is credit the state keeps account of, `granted` credit that comes with an action. -/
theorem run_cost_le_along (P : σ → α → Prop) (I J : σ → Prop) (debt earned : σ → ℕ) (cost granted : α → ℕ)
    (hback : ∀ s a s', step s a = some s' → J s' → J s)
    (hstep : ∀ s a s', I s → J s → P s a → step s a = some s' →
      I s' ∧ cost a + debt s' + earned s ≤ debt s + earned s' + granted a)
    (h₀ : I s₀) {as : List α} (hP : Along step P s₀ as) (h : run step s₀ as = some s) (hJ : J s) :
    (as.map cost).sum + debt s + earned s₀ ≤ debt s₀ + earned s + (as.map granted).sum := by
  induction as generalizing s₀ with
  | nil =>
    rw [run_nil, Option.some.injEq] at h
    rw [h, List.map_nil, List.map_nil, List.sum_nil]
    omega
  | cons a as ih =>
    obtain ⟨t, ht, hrest⟩ := run_cons_eq_some.mp h
    have hJt : J t := run_back hback hrest hJ
    obtain ⟨hI, hpaid⟩ := hstep s₀ a t h₀ (hback s₀ a t ht hJt) hP.1 ht
    have hle := ih hI (hP.2 t ht) hrest
    simp only [List.map_cons, List.sum_cons]
    omega

/-- Amortised runs. -/
theorem run_cost_le (I J : σ → Prop) (debt earned : σ → ℕ) (cost granted : α → ℕ)
    (hback : ∀ s a s', step s a = some s' → J s' → J s)
    (hstep : ∀ s a s', I s → J s → step s a = some s' →
      I s' ∧ cost a + debt s' + earned s ≤ debt s + earned s' + granted a)
    (h₀ : I s₀) {as : List α} (h : run step s₀ as = some s) (hJ : J s) :
    (as.map cost).sum + debt s + earned s₀ ≤ debt s₀ + earned s + (as.map granted).sum :=
  run_cost_le_along (fun _ _ => True) I J debt earned cost granted hback
    (fun s a s' hI hJ _ hs => hstep s a s' hI hJ hs) h₀ (along_true as) h hJ

end Runs

section Pools

variable {ι τ : Type*} [Fintype ι] [DecidableEq ι]

/-- The weight may be another one after the move, by at most `c` more for each thread. -/
theorem weight_surge {w w' : τ → ℕ} {c : ℕ} (hsurge : ∀ x, w' x ≤ w x + c) (f : ι → τ) (i : ι) (x : τ) :
    weight w' (Function.update f i x) + w (f i) ≤ weight w f + w' x + c * (Fintype.card ι - 1) := by
  have hupdate := weight_update w' f i x
  have hrest : ∑ j ∈ Finset.univ.erase i, w' (f j) ≤ ∑ j ∈ Finset.univ.erase i, w (f j) + c * (Fintype.card ι - 1) := by
    calc ∑ j ∈ Finset.univ.erase i, w' (f j)
        ≤ ∑ j ∈ Finset.univ.erase i, (w (f j) + c) := Finset.sum_le_sum fun j _ => hsurge (f j)
      _ = ∑ j ∈ Finset.univ.erase i, w (f j) + c * (Fintype.card ι - 1) := by
        rw [Finset.sum_add_distrib, Finset.sum_const, Finset.card_erase_of_mem (Finset.mem_univ i),
          Finset.card_univ, smul_eq_mul, Nat.mul_comm]
  have hsplit : ∀ v : τ → ℕ, weight v f = v (f i) + ∑ j ∈ Finset.univ.erase i, v (f j) :=
    fun v => (Finset.add_sum_erase Finset.univ (fun j => v (f j)) (Finset.mem_univ i)).symm
  rw [hsplit w'] at hupdate
  rw [hsplit w]
  omega

end Pools

end KwNet.Lib
