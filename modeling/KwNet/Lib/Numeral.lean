import Mathlib

/-!
# Canonical numerals

A numeral in base `b` is a list of digits.  `Canonical b ds n` says that `ds`, most significant digit first,
is the numeral of `n`; `lsdFirst b n` are its digits in the order in which division by `b` produces them.

* **`lsdFirst_eq`** — one division gives the last digit and the digits of the quotient;
* **`canonical_lsdFirst`** — in reverse they are the canonical numeral;
* **`lsdFirst_length_le`** — how many digits there are at most.
-/

namespace KwNet.Lib

/-- The digits of `n`, the least significant one first; zero has one digit. -/
def lsdFirst (b n : ℕ) : List ℕ := if n = 0 then [0] else Nat.digits b n

/-- The digits `ds`, the most significant one first, are the numeral of `n`. -/
structure Canonical (b : ℕ) (ds : List ℕ) (n : ℕ) : Prop where
  digits : ∀ d ∈ ds, d < b
  value : Nat.ofDigits b ds.reverse = n
  nonempty : ds ≠ []
  /-- No leading zeros. -/
  leading : ds.head? = some 0 → ds = [0]

variable {b : ℕ}

theorem lsdFirst_eq (hb : 1 < b) (n : ℕ) :
    lsdFirst b n = n % b :: if n / b = 0 then [] else lsdFirst b (n / b) := by
  unfold lsdFirst
  by_cases hn : n = 0
  · subst hn
    simp
  · rw [if_neg hn, Nat.digits_eq_cons_digits_div hb hn]
    by_cases hq : n / b = 0
    · rw [if_pos hq, hq, Nat.digits_zero]
    · rw [if_neg hq, if_neg hq]

theorem lsdFirst_ne_nil (b n : ℕ) : lsdFirst b n ≠ [] := by
  unfold lsdFirst
  split
  · exact List.cons_ne_nil _ _
  · next hn => exact Nat.digits_ne_nil_iff_ne_zero.mpr hn

theorem lsdFirst_lt (hb : 1 < b) {n d : ℕ} (hd : d ∈ lsdFirst b n) : d < b := by
  unfold lsdFirst at hd
  split at hd
  · rw [List.mem_singleton.mp hd]
    omega
  · exact Nat.digits_lt_base hb hd

theorem ofDigits_lsdFirst (b n : ℕ) : Nat.ofDigits b (lsdFirst b n) = n := by
  unfold lsdFirst
  split
  · next hn => rw [hn, Nat.ofDigits_singleton]
  · exact Nat.ofDigits_digits b n

/-- **The digits that division produces, in reverse.** -/
theorem canonical_lsdFirst (hb : 1 < b) (n : ℕ) : Canonical b (lsdFirst b n).reverse n where
  digits := by
    intro d hd
    exact lsdFirst_lt hb (List.mem_reverse.mp hd)
  value := by rw [List.reverse_reverse, ofDigits_lsdFirst]
  nonempty := by
    rw [Ne, List.reverse_eq_nil_iff]
    exact lsdFirst_ne_nil b n
  leading := by
    rw [List.head?_reverse, lsdFirst]
    split
    · intro _
      rfl
    · next hn =>
      intro hlast
      have hne : Nat.digits b n ≠ [] := Nat.digits_ne_nil_iff_ne_zero.mpr hn
      rw [List.getLast?_eq_getLast_of_ne_nil hne, Option.some.injEq] at hlast
      exact absurd hlast (Nat.getLast_digit_ne_zero b hn)

/-- A number below `b ^ k` has at most `k` digits. -/
theorem lsdFirst_length_le (hb : 1 < b) {n k : ℕ} (hk : 0 < k) (h : n < b ^ k) :
    (lsdFirst b n).length ≤ k := by
  unfold lsdFirst
  split
  · exact hk
  · exact (Nat.digits_length_le_iff hb n).mpr h

end KwNet.Lib
