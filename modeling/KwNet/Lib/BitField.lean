import Mathlib

/-!
# Flags with a counter above them

A machine word that packs a few flag bits below a counter: `pack w k f c` is the `w`-bit word with the
flags `f < 2 ^ k` in its low `k` bits and the counter `c` above them, reduced modulo `2 ^ w`.  The
counter is a natural number, so adding one to it is adding `2 ^ k` to the word, also when the word
overflows; it is read back modulo `2 ^ (w - k)`.

* **`pack_succ`** — one step of the counter;
* **`pack_and`** — testing a flag does not see the counter;
* **`pack_shiftRight`** — reading the counter.
-/

namespace KwNet.Lib

/-- Flags `f` in the low `k` bits, counter `c` above them. -/
def pack (w k f c : ℕ) : BitVec w := BitVec.ofNat w (f + 2 ^ k * c)

theorem pack_succ (w k f c : ℕ) : pack w k f c + BitVec.ofNat w (2 ^ k) = pack w k f (c + 1) := by
  rw [pack, pack, ← BitVec.ofNat_add, Nat.mul_succ, Nat.add_assoc]

theorem pack_pred (w k f c : ℕ) : pack w k f (c + 1) - BitVec.ofNat w (2 ^ k) = pack w k f c := by
  rw [← pack_succ, BitVec.add_sub_cancel]

theorem pack_and (w : ℕ) {k f m : ℕ} (c : ℕ) (hf : f < 2 ^ k) (hm : m < 2 ^ k) :
    pack w k f c &&& BitVec.ofNat w m = BitVec.ofNat w (f &&& m) := by
  apply BitVec.eq_of_getLsbD_eq
  intro i hi
  rw [pack, BitVec.getLsbD_and, BitVec.getLsbD_ofNat, BitVec.getLsbD_ofNat, BitVec.getLsbD_ofNat,
    Nat.testBit_and]
  by_cases hik : i < k
  · have hlow : (f + 2 ^ k * c).testBit i = f.testBit i := by
      rw [Nat.add_comm, Nat.testBit_two_pow_mul_add c hf i, if_pos hik]
    rw [hlow]
    cases decide (i < w) <;> simp
  · have hpow : 2 ^ k ≤ 2 ^ i := Nat.pow_le_pow_right (by omega) (by omega)
    have hm0 : m.testBit i = false := Nat.testBit_lt_two_pow (by omega)
    rw [hm0]
    simp

theorem toNat_pack {w k f : ℕ} (c : ℕ) (hf : f < 2 ^ k) (hk : k ≤ w) :
    (pack w k f c).toNat = f + 2 ^ k * (c % 2 ^ (w - k)) := by
  have hw : 2 ^ w = 2 ^ k * 2 ^ (w - k) := by rw [← Nat.pow_add]; congr 1; omega
  rw [pack, BitVec.toNat_ofNat, hw, Nat.mod_mul, Nat.add_mul_mod_self_left, Nat.mod_eq_of_lt hf,
    Nat.add_mul_div_left _ _ (Nat.two_pow_pos k), Nat.div_eq_of_lt hf, Nat.zero_add]

theorem pack_shiftRight {w k f : ℕ} (c : ℕ) (hf : f < 2 ^ k) (hk : k ≤ w) :
    (pack w k f c) >>> k = BitVec.ofNat w (c % 2 ^ (w - k)) := by
  have hpow : (2 : ℕ) ^ (w - k) ≤ 2 ^ w := Nat.pow_le_pow_right (by omega) (by omega)
  have hc : c % 2 ^ (w - k) < 2 ^ (w - k) := Nat.mod_lt _ (Nat.two_pow_pos _)
  apply BitVec.eq_of_toNat_eq
  rw [BitVec.toNat_ushiftRight, toNat_pack c hf hk, Nat.shiftRight_eq_div_pow, BitVec.toNat_ofNat,
    Nat.add_mul_div_left _ _ (Nat.two_pow_pos k), Nat.div_eq_of_lt hf, Nat.zero_add,
    Nat.mod_eq_of_lt (Nat.lt_of_lt_of_le hc hpow)]

end KwNet.Lib
