import Mathlib

/-!
# Counting along a sequence

* **`exists_first_deficit`** — a counter that goes down with every element but finitely many reaches each value
  below its start, and the first time it does so with a step down;
* **`count_residue`** — in a window of `m` consecutive numbers every residue modulo `n` occurs `m / n` times,
  rounded down or up.
-/

namespace KwNet.Lib

/-! ### A counter that goes up and down -/

variable (up : ℕ → Prop) [DecidablePred up]

theorem count_add_count_not (m : ℕ) : Nat.count up m + Nat.count (fun i => ¬ up i) m = m := by
  induction m with
  | zero => rfl
  | succ m ih =>
    rw [Nat.count_succ, Nat.count_succ]
    by_cases h : up m
    · rw [if_pos h, if_neg (not_not.mpr h)]
      omega
    · rw [if_neg h, if_pos h]
      omega

theorem count_after {N : ℕ} (hdown : ∀ i, N ≤ i → ¬ up i) (m : ℕ) : Nat.count up (N + m) = Nat.count up N := by
  induction m with
  | zero => rfl
  | succ m ih => rw [← Nat.add_assoc, Nat.count_succ, if_neg (hdown _ (Nat.le_add_right _ _)), Nat.add_zero, ih]

/-- **The first time the counter is `L` below its start.**  The step to it goes down. -/
theorem exists_first_deficit (hfinite : Set.Finite up) {L : ℕ} (hL : 0 < L) :
    ∃ m, ¬ up m ∧ Nat.count (fun i => ¬ up i) m + 1 = Nat.count up m + L ∧
      ∀ j ≤ m, Nat.count (fun i => ¬ up i) j < Nat.count up j + L := by
  obtain ⟨N, hN⟩ := hfinite.bddAbove
  have hdown : ∀ i, N + 1 ≤ i → ¬ up i := fun i hi hup => absurd (hN hup) (by omega)
  -- behind the last step up the counter only falls
  have hex : ∃ m, Nat.count up m + L ≤ Nat.count (fun i => ¬ up i) m := by
    refine ⟨N + 1 + (Nat.count up (N + 1) + L), ?_⟩
    have hups := count_after up hdown (Nat.count up (N + 1) + L)
    have hall := count_add_count_not up (N + 1 + (Nat.count up (N + 1) + L))
    have hfew := count_add_count_not up (N + 1)
    omega
  have hfound := Nat.find_spec hex
  have hbefore : ∀ j < Nat.find hex, Nat.count (fun i => ¬ up i) j < Nat.count up j + L :=
    fun j hj => Nat.lt_of_not_le (Nat.find_min hex hj)
  cases hm : Nat.find hex with
  | zero =>
    rw [hm] at hfound
    have hle : 0 + L ≤ 0 := hfound
    omega
  | succ m =>
    rw [hm] at hfound hbefore
    have hlast := hbefore m (Nat.lt_succ_self m)
    rw [Nat.count_succ, Nat.count_succ] at hfound
    have hstep : ¬ up m := by
      intro hup
      rw [if_pos hup, if_neg (not_not.mpr hup)] at hfound
      omega
    rw [if_neg hstep, if_pos hstep] at hfound
    exact ⟨m, hstep, by omega, fun j hj => hbefore j (Nat.lt_succ_of_le hj)⟩

/-! ### Residues in a window -/

theorem count_mod {n i : ℕ} (hi : i < n) (b : ℕ) :
    Nat.count (fun x => x % n = i) b = b / n + if i < b % n then 1 else 0 := by
  have h := Nat.count_modEq_card b (Nat.zero_lt_of_lt hi) i
  unfold Nat.ModEq at h
  simp only [Nat.mod_eq_of_lt hi] at h
  exact h

/-- **Residues in a window** of `m` numbers from `a` on. -/
theorem count_residue {n i : ℕ} (hi : i < n) (a m : ℕ) :
    m / n ≤ Nat.count (fun j => (a + j) % n = i) m ∧
      Nat.count (fun j => (a + j) % n = i) m ≤ (m + n - 1) / n := by
  have hn : 0 < n := Nat.zero_lt_of_lt hi
  have hsum := Nat.count_add (fun x => x % n = i) a m
  rw [count_mod hi, count_mod hi] at hsum
  have hdiv : (a + m) / n = a / n + m / n + if n ≤ a % n + m % n then 1 else 0 := Nat.add_div hn
  have hmod : (a + m) % n + (if n ≤ a % n + m % n then n else 0) = a % n + m % n := Nat.add_mod_add_ite a m n
  have hup : (m + n - 1) / n = m / n + if 0 < m % n then 1 else 0 := by
    have hsplit := Nat.div_add_mod m n
    have hmn := Nat.mod_lt m hn
    split
    · next hpos =>
      rw [Nat.div_eq_iff hn, Nat.add_mul, Nat.mul_comm (m / n), Nat.one_mul]
      omega
    · next hzero =>
      rw [Nat.add_zero, Nat.div_eq_iff hn, Nat.mul_comm (m / n)]
      omega
  have ha := Nat.mod_lt a hn
  have hm := Nat.mod_lt m hn
  rw [hup]
  rw [hdiv] at hsum
  -- whether the window wraps around once more than `m / n` times
  by_cases hwrap : n ≤ a % n + m % n
  · rw [if_pos hwrap] at hsum hmod
    split_ifs at hsum ⊢ <;> omega
  · rw [if_neg hwrap] at hsum hmod
    split_ifs at hsum ⊢ <;> omega

end KwNet.Lib
