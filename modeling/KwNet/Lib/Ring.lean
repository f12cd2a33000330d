import Mathlib

/-!
# Ring positions

A ring of `N` cells is addressed by free-running positions: position `p` lives in cell `p % N`.  Over a
window of `N` consecutive positions the addressing is one to one, which is what lets a cell be tagged
with the position it currently serves.

* **`eq_of_mod_eq`** — two positions less than a revolution apart share a cell only if they are equal;
* **`exists_window`** — every earlier position shares its cell with one of the window;
* **`toNat_succ`** — a 64-bit counter advances like a number until it wraps;
* **`toNat_and_mask`** — masking a 64-bit position with `2 ^ m - 1` computes its cell.
-/

namespace KwNet.Lib

theorem eq_of_mod_eq {N p q : ℕ} (h : p % N = q % N) (hle : p ≤ q) (hlt : q < p + N) : p = q := by
  have hdvd : N ∣ q - p := (Nat.modEq_iff_dvd' hle).mp h
  rcases Nat.eq_zero_or_pos (q - p) with h0 | hpos
  · omega
  · have := Nat.le_of_dvd hpos hdvd
    omega

theorem ne_mod_of_lt {N p q : ℕ} (hlt : p < q) (hw : q < p + N) : p % N ≠ q % N := by
  intro h
  have := eq_of_mod_eq h (by omega) hw
  omega

/-- Every earlier position shares its cell with one of a window of `N`. -/
theorem exists_window {N p h : ℕ} (hN : 0 < N) (hp : p < h) :
    ∃ q, h ≤ q ∧ q < h + N ∧ p + N ≤ q ∧ p % N = q % N := by
  have hdiv := Nat.div_add_mod (h - p + N - 1) N
  have hmod := Nat.mod_lt (h - p + N - 1) hN
  have hone : N * 1 ≤ N * ((h - p + N - 1) / N) := by
    refine Nat.mul_le_mul_left N ?_
    rw [Nat.one_le_div_iff hN]
    omega
  refine ⟨p + N * ((h - p + N - 1) / N), by omega, by omega, by omega, ?_⟩
  rw [Nat.add_mul_mod_self_left]

theorem toNat_and_mask {w m : ℕ} {mask : BitVec w} (hmask : mask.toNat + 1 = 2 ^ m)
    (pos : BitVec w) : (pos &&& mask).toNat = pos.toNat % 2 ^ m := by
  have hm : mask.toNat = 2 ^ m - 1 := by omega
  rw [BitVec.toNat_and, hm, Nat.and_two_pow_sub_one_eq_mod]

/-- A 64-bit counter below its last value advances like a number. -/
theorem toNat_succ {pos : BitVec 64} (h : pos.toNat + 1 < 2 ^ 64) :
    (pos + 1).toNat = pos.toNat + 1 := by
  rw [BitVec.toNat_add, show (1 : BitVec 64).toNat = 1 from rfl, Nat.mod_eq_of_lt h]

end KwNet.Lib
