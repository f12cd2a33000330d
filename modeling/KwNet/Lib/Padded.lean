import Mathlib.Data.Nat.Digits.Defs
import Mathlib.Tactic.IntervalCases
import Mathlib.Tactic.Tauto

/-!
# Fields of fixed width

A number in decimal, filled up with zeros to a given width, and a text made of such fields.

* `padded`, `render` — one field, and a row of fields with texts behind them;
* **`render_lt`** — as long as every number fits into its field, the texts are ordered as the rows of numbers;
* `length_render` — and all of one length.
-/

namespace KwNet.Lib

/-- `%0wd`. -/
def padded (w n : ℕ) : List Char :=
  List.replicate (w - (Nat.toDigits 10 n).length) '0' ++ Nat.toDigits 10 n

/-- The fields `fmt`, each with its width and the text behind it. -/
def render : List (ℕ × List Char) → List ℕ → List Char
  | (w, sep) :: fmt, n :: ns => padded w n ++ (sep ++ render fmt ns)
  | _, _ => []

/-- Every number fits into its field. -/
def Fit (fmt : List (ℕ × List Char)) (ns : List ℕ) : Prop := List.Forall₂ (fun f n => n < 10 ^ f.1 ∧ 0 < f.1) fmt ns

/-! ### One field -/

theorem length_padded {w n : ℕ} (hw : 0 < w) (h : n < 10 ^ w) : (padded w n).length = w := by
  have hlen : (Nat.toDigits 10 n).length ≤ w := (Nat.length_toDigits_le_iff (by decide) hw).mpr h
  rw [padded, List.length_append, List.length_replicate]
  omega

/-- The last digit stands alone. -/
theorem padded_succ {w n : ℕ} (hw : 0 < w) : padded (w + 1) n = padded w (n / 10) ++ [Nat.digitChar (n % 10)] := by
  rcases Nat.lt_or_ge n 10 with hlt | hge
  · have hdigits : Nat.toDigits 10 n = [Nat.digitChar n] := Nat.toDigits_of_lt_base hlt
    have hzero : padded w 0 = List.replicate w '0' := by
      rw [padded, Nat.toDigits_zero, ← List.replicate_one, List.replicate_append_replicate]
      congr 1
      rw [List.length_replicate]
      omega
    rw [padded, hdigits, Nat.div_eq_of_lt hlt, Nat.mod_eq_of_lt hlt, hzero]
    rfl
  · rw [padded, padded, Nat.toDigits_of_base_le (by decide) hge, List.length_append, List.length_singleton,
      Nat.add_sub_add_right, List.append_assoc]

theorem digitChar_lt_iff {a b : ℕ} (ha : a < 10) (hb : b < 10) :
    (Nat.digitChar a < Nat.digitChar b ↔ a < b) ∧ (Nat.digitChar a = Nat.digitChar b ↔ a = b) := by
  interval_cases a <;> interval_cases b <;> decide

/-! ### The lexicographic order -/

theorem not_nil_lt_nil {α : Type*} [LT α] : ¬([] : List α) < [] := nofun

theorem append_lt_append {α : Type*} [LT α] {xs ys xs' ys' : List α} (h : xs.length = xs'.length) :
    xs ++ ys < xs' ++ ys' ↔ xs < xs' ∨ xs = xs' ∧ ys < ys' := by
  induction xs generalizing xs' with
  | nil =>
    obtain rfl : xs' = [] := List.length_eq_zero_iff.mp h.symm
    simp only [List.nil_append, not_nil_lt_nil, true_and, false_or]
  | cons x xs ih =>
    cases xs' with
    | nil => cases h
    | cons x' xs' =>
      simp only [List.cons_append, List.cons_lt_cons_iff, ih (Nat.succ.inj h), List.cons.injEq]
      tauto

theorem padded_lt_iff {w n m : ℕ} (hw : 0 < w) (hn : n < 10 ^ w) (hm : m < 10 ^ w) :
    (padded w n < padded w m ↔ n < m) ∧ (padded w n = padded w m ↔ n = m) := by
  induction w, hw using Nat.le_induction generalizing n m with
  | base =>
    rw [pow_one] at hn hm
    have hdigit : ∀ {k : ℕ}, k < 10 → padded 1 k = [Nat.digitChar k] := by
      intro k hk
      rw [padded, Nat.toDigits_of_lt_base hk]
      rfl
    obtain ⟨hlt, heq⟩ := digitChar_lt_iff hn hm
    rw [hdigit hn, hdigit hm, List.cons_lt_cons_iff, hlt, List.cons.injEq, heq]
    simp only [not_nil_lt_nil, and_false, or_false, and_true]
  | succ w hw ih =>
    have hn' : n / 10 < 10 ^ w := Nat.div_lt_of_lt_mul (by rw [← pow_succ']; exact hn)
    have hm' : m / 10 < 10 ^ w := Nat.div_lt_of_lt_mul (by rw [← pow_succ']; exact hm)
    have hn10 : n % 10 < 10 := Nat.mod_lt n (by decide)
    have hm10 : m % 10 < 10 := Nat.mod_lt m (by decide)
    obtain ⟨hlt, heq⟩ := ih hn' hm'
    obtain ⟨hlast, hlast'⟩ := digitChar_lt_iff hn10 hm10
    have hlen : (padded w (n / 10)).length = (padded w (m / 10)).length := by
      rw [length_padded hw hn', length_padded hw hm']
    rw [padded_succ hw, padded_succ hw, append_lt_append hlen, hlt, heq, List.append_singleton_inj, heq, hlast',
      List.cons_lt_cons_iff, hlast]
    simp only [not_nil_lt_nil, and_false, or_false]
    omega

/-! ### A row of fields -/

variable {fmt : List (ℕ × List Char)} {ns ms : List ℕ}

theorem length_render (h : Fit fmt ns) : (render fmt ns).length = (fmt.map fun f => f.1 + f.2.length).sum := by
  induction h with
  | nil => rfl
  | @cons f n fmt ns hfit _ ih =>
    show (padded f.1 n ++ (f.2 ++ render fmt ns)).length = _
    rw [List.length_append, List.length_append, length_padded hfit.2 hfit.1, ih, List.map_cons, List.sum_cons,
      Nat.add_assoc]

/-- **Texts are ordered as the numbers in them.** -/
theorem render_lt (hn : Fit fmt ns) (hm : Fit fmt ms) : render fmt ns < render fmt ms ↔ ns < ms := by
  induction hn generalizing ms with
  | nil =>
    cases hm
    exact iff_of_false not_nil_lt_nil not_nil_lt_nil
  | @cons f n fmt ns hfit hrest ih =>
    cases hm with
    | @cons _ m _ ms hfit' hrest' =>
      obtain ⟨hlt, heq⟩ := padded_lt_iff hfit.2 hfit.1 hfit'.1
      show padded f.1 n ++ (f.2 ++ render fmt ns) < padded f.1 m ++ (f.2 ++ render fmt ms) ↔ _
      have hself : ¬f.2 < f.2 := List.lt_irrefl f.2
      rw [append_lt_append (by rw [length_padded hfit.2 hfit.1, length_padded hfit.2 hfit'.1]), append_lt_append rfl,
        hlt, heq, ih hrest', List.cons_lt_cons_iff]
      simp only [hself, true_and, false_or]

end KwNet.Lib
