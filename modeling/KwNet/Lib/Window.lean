import Mathlib

/-!
# A window into a list, and writing behind it

`window l a b` is the part of `l` from index `a` up to index `b`.  `splice l i xs` overwrites `l` from
index `i` on with `xs`.

* **`window_splice`** — writing right behind a window makes it longer by what was written.
-/

namespace KwNet.Lib

variable {α : Type*} {l xs : List α} {a b i : ℕ}

def window (l : List α) (a b : ℕ) : List α := (l.drop a).take (b - a)

def splice (l : List α) (i : ℕ) (xs : List α) : List α :=
  l.take i ++ xs ++ l.drop (i + xs.length)

theorem length_window (hb : b ≤ l.length) : (window l a b).length = b - a := by
  rw [window, List.length_take, List.length_drop]
  omega

theorem length_splice (h : i + xs.length ≤ l.length) : (splice l i xs).length = l.length := by
  simp only [splice, List.length_append, List.length_take, List.length_drop]
  omega

theorem window_self (l : List α) (a : ℕ) : window l a a = [] := by
  rw [window, Nat.sub_self, List.take_zero]

theorem window_append_left {l' : List α} (hb : b ≤ l.length) :
    window (l ++ l') a b = window l a b := by
  by_cases hab : a ≤ b
  · rw [window, window, List.drop_append_of_le_length (by omega),
      List.take_append_of_le_length (by rw [List.length_drop]; omega)]
  · rw [window, window, Nat.sub_eq_zero_of_le (by omega), List.take_zero, List.take_zero]

/-- Writing behind a window. -/
theorem window_splice (hai : a ≤ i) (h : i + xs.length ≤ l.length) :
    window (splice l i xs) a (i + xs.length) = window l a i ++ xs := by
  have hlen : (l.take i ++ xs).length = i + xs.length := by
    rw [List.length_append, List.length_take, Nat.min_eq_left (by omega)]
  have htake : (l.take i).length = i := by rw [List.length_take, Nat.min_eq_left (by omega)]
  rw [splice, window_append_left (by omega), window, window,
    List.drop_append_of_le_length (by omega), List.drop_take, List.take_of_length_le]
  rw [List.length_append, List.length_take, List.length_drop]
  omega

end KwNet.Lib
