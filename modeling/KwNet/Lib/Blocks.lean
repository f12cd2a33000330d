import Mathlib.Data.Nat.Find
import Mathlib.Order.Monotone.Basic

/-!
# Numbers in consecutive blocks

`start i` is where block `i` begins: the years of a calendar, the months of a year, the hours of a day.  A number
lies in one block, at some distance from its start.

* `index` — the block of a number, among the first ones;
* **`InBlock.lt_iff`** — numbers are ordered as their blocks, and within a block as their distances.
-/

namespace KwNet.Lib

/-- `d` lies in block `i`. -/
structure InBlock (start : ℕ → ℕ) (d i : ℕ) : Prop where
  le : start i ≤ d
  lt : d < start (i + 1)

/-- The last block up to `n` that begins at `d` or before. -/
def index (start : ℕ → ℕ) (n d : ℕ) : ℕ := Nat.findGreatest (fun i => start i ≤ d) n

variable {start : ℕ → ℕ} {d e i j n : ℕ}

theorem inBlock_index (h₀ : start 0 ≤ d) (hn : d < start (n + 1)) : InBlock start d (index start n d) where
  le := Nat.findGreatest_spec (P := fun i => start i ≤ d) (Nat.zero_le n) h₀
  lt := by
    by_contra hle
    rcases (Nat.findGreatest_le (P := fun i => start i ≤ d) n).eq_or_lt with heq | hlt
    · rw [index, heq] at hle
      exact hle hn
    · exact Nat.findGreatest_is_greatest (P := fun i => start i ≤ d) (Nat.lt_succ_self _) hlt (Nat.le_of_not_lt hle)

theorem index_le : index start n d ≤ n := Nat.findGreatest_le n

theorem InBlock.le_of_le (hmono : Monotone start) (hd : InBlock start d i) (he : InBlock start e j) (h : d ≤ e) :
    i ≤ j := by
  by_contra hlt
  have hstart : start (j + 1) ≤ start i := hmono (Nat.lt_of_not_le hlt)
  have hi := hd.le
  have hj := he.lt
  omega

/-- **The order of numbers** is that of their blocks, then that within the block. -/
theorem InBlock.lt_iff (hmono : Monotone start) (hd : InBlock start d i) (he : InBlock start e j) :
    d < e ↔ i < j ∨ i = j ∧ d - start i < e - start j := by
  have hi := hd.le
  have hj := he.le
  constructor
  · intro hlt
    rcases (hd.le_of_le hmono he hlt.le).lt_or_eq with hij | rfl
    · exact .inl hij
    · exact .inr ⟨rfl, by omega⟩
  · rintro (hij | ⟨rfl, hlt⟩)
    · by_contra hle
      exact absurd (he.le_of_le hmono hd (Nat.le_of_not_lt hle)) (Nat.not_le_of_lt hij)
    · omega

end KwNet.Lib
