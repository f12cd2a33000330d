import Mathlib

/-!
# Searching a list for a pattern

A pattern occurs in a list at an index; in the window from `lo` up to `hi` are those occurrences that lie
wholly inside.

* `findIn`, `occurrences` — the first one, and all of them in order;
* **`findIn_first`** — what `findIn` returns;
* **`scan_occurrences`** — a search that is restarted just past each hit finds every occurrence once, when two
  of them never overlap.
-/

namespace KwNet.Lib

variable {α : Type*} [DecidableEq α] {pat l : List α} {lo hi i : ℕ}

/-- The pattern stands at index `i`. -/
def OccursAt (pat l : List α) (i : ℕ) : Prop := (l.drop i).take pat.length = pat

instance (pat l : List α) (i : ℕ) : Decidable (OccursAt pat l i) :=
  inferInstanceAs (Decidable ((l.drop i).take pat.length = pat))

/-- How many indices from `lo` on leave room for the pattern below `hi`. -/
def places (pat : List α) (lo hi : ℕ) : ℕ := hi + 1 - pat.length - lo

/-- The first occurrence in the window. -/
def findIn (pat l : List α) (lo hi : ℕ) : Option ℕ :=
  (List.range' lo (places pat lo hi)).find? fun i => OccursAt pat l i

/-- All occurrences in the window, in order. -/
def occurrences (pat l : List α) (lo hi : ℕ) : List ℕ :=
  (List.range' lo (places pat lo hi)).filter fun i => OccursAt pat l i

/-- `r` is the first occurrence in the window, if there is one. -/
def FirstIn (pat l : List α) (lo hi : ℕ) : Option ℕ → Prop
  | some i => lo ≤ i ∧ i + pat.length ≤ hi ∧ OccursAt pat l i ∧ ∀ j, lo ≤ j → j < i → ¬ OccursAt pat l j
  | none => ∀ j, lo ≤ j → j + pat.length ≤ hi → ¬ OccursAt pat l j

omit [DecidableEq α] in
theorem mem_places (hpat : pat ≠ []) : i ∈ List.range' lo (places pat lo hi) ↔ lo ≤ i ∧ i + pat.length ≤ hi := by
  have hlen : 0 < pat.length := List.length_pos_iff.mpr hpat
  rw [List.mem_range'_1, places]
  omega

/-- **The first occurrence.** -/
theorem findIn_first (hpat : pat ≠ []) (l : List α) (lo hi : ℕ) : FirstIn pat l lo hi (findIn pat l lo hi) := by
  cases h : findIn pat l lo hi with
  | none =>
    intro j hlo hhi
    have hj := List.find?_eq_none.mp h j ((mem_places hpat).mpr ⟨hlo, hhi⟩)
    rwa [decide_eq_true_eq] at hj
  | some i =>
    obtain ⟨hoccurs, hmem, hbefore⟩ := List.find?_range'_eq_some.mp h
    obtain ⟨hlo, hhi⟩ := (mem_places hpat).mp hmem
    refine ⟨hlo, hhi, of_decide_eq_true hoccurs, fun j hj hlt => ?_⟩
    have hnot := hbefore j hj hlt
    rwa [Bool.not_eq_true', decide_eq_false_iff_not] at hnot

theorem mem_occurrences (hpat : pat ≠ []) :
    i ∈ occurrences pat l lo hi ↔ (lo ≤ i ∧ i + pat.length ≤ hi) ∧ OccursAt pat l i := by
  rw [occurrences, List.mem_filter, mem_places hpat, decide_eq_true_eq]

theorem occurrences_eq_nil (hpat : pat ≠ []) (h : FirstIn pat l lo hi none) : occurrences pat l lo hi = [] := by
  rw [List.eq_nil_iff_forall_not_mem]
  intro i hi
  obtain ⟨⟨hlo, hhi⟩, hoccurs⟩ := (mem_occurrences hpat).mp hi
  exact h i hlo hhi hoccurs

/-- Two occurrences do not overlap. -/
def Apart (pat l : List α) : Prop :=
  ∀ i j, OccursAt pat l i → OccursAt pat l j → i < j → i + pat.length ≤ j

/-- The places of a window: up to `i`, `i` itself, the pattern behind it, and the rest. -/
theorem places_split {n : ℕ} (hn : 0 < n) (hlo : lo ≤ i) (hhi : i + n ≤ hi) :
    ∃ m ≤ n - 1, List.range' lo (hi + 1 - n - lo) =
      List.range' lo (i - lo) ++ i :: (List.range' (i + 1) m ++ List.range' (i + n) (hi + 1 - n - (i + n))) := by
  have hhead : List.range' lo (hi + 1 - n - lo) = List.range' lo (i - lo) ++ List.range' i (hi - n - i + 1) := by
    conv_rhs => rw [show i = lo + (i - lo) by omega, Nat.add_sub_cancel_left]
    rw [List.range'_append_1]
    congr 1
    omega
  by_cases hroom : n - 1 ≤ hi - n - i
  · refine ⟨n - 1, Nat.le_refl _, ?_⟩
    rw [hhead, List.range'_succ, show i + n = i + 1 + (n - 1) by omega, List.range'_append_1]
    congr 3
    omega
  · refine ⟨hi - n - i, by omega, ?_⟩
    rw [hhead, List.range'_succ, show hi + 1 - n - (i + n) = 0 by omega, List.range'_zero, List.append_nil]

theorem filter_places {a n : ℕ} (h : ∀ j, a ≤ j → j < a + n → ¬ OccursAt pat l j) :
    (List.range' a n).filter (fun j => OccursAt pat l j) = [] := by
  rw [List.filter_eq_nil_iff]
  intro j hj
  rw [List.mem_range'_1] at hj
  rw [decide_eq_true_eq]
  exact h j hj.1 hj.2

/-- The first occurrence, and those that begin behind it. -/
theorem occurrences_eq_cons (hpat : pat ≠ []) (hapart : Apart pat l) (h : FirstIn pat l lo hi (some i)) :
    occurrences pat l lo hi = i :: occurrences pat l (i + pat.length) hi := by
  obtain ⟨hlo, hhi, hoccurs, hbefore⟩ := h
  obtain ⟨m, hm, hsplit⟩ := places_split (List.length_pos_iff.mpr hpat) hlo hhi
  have hfirst : (List.range' lo (i - lo)).filter (fun j => OccursAt pat l j) = [] :=
    filter_places fun j hj hlt => hbefore j hj (by omega)
  have hmiddle : (List.range' (i + 1) m).filter (fun j => OccursAt pat l j) = [] := by
    refine filter_places fun j hj hlt hocc => ?_
    have hbehind := hapart i j hoccurs hocc (by omega)
    omega
  rw [occurrences, places, hsplit, List.filter_append, hfirst, List.nil_append, List.filter_cons,
    if_pos (decide_eq_true hoccurs), List.filter_append, hmiddle, List.nil_append]
  rfl

/-- Search from `start`, and again from `width` past each hit.  A search that fails fails as a whole; the first
argument bounds the number of searches. -/
def scan (find : ℕ → Option (Option ℕ)) (width : ℕ) : ℕ → ℕ → Option (List ℕ)
  | 0, _ => none
  | fuel + 1, start =>
    (find start).bind fun
      | none => some []
      | some i => (scan find width fuel (i + width)).map fun hits => i :: hits

/-- **Restarting just past each hit** finds every occurrence once, given a search for each place of the window. -/
theorem scan_occurrences (hpat : pat ≠ []) (hapart : Apart pat l) {find : ℕ → Option (Option ℕ)} {fuel : ℕ}
    (hfind : ∀ start, lo ≤ start → start ≤ hi → find start = some (findIn pat l start hi)) (hle : lo ≤ hi)
    (hfuel : hi - lo < fuel) : scan find pat.length fuel lo = some (occurrences pat l lo hi) := by
  have hlen : 0 < pat.length := List.length_pos_iff.mpr hpat
  induction fuel generalizing lo with
  | zero => exact absurd hfuel (Nat.not_lt_zero _)
  | succ fuel ih =>
    have hfirst := findIn_first hpat l lo hi
    rw [scan, hfind lo (Nat.le_refl lo) hle, Option.bind_some]
    cases hhit : findIn pat l lo hi with
    | none =>
      rw [hhit] at hfirst
      rw [occurrences_eq_nil hpat hfirst]
    | some i =>
      rw [hhit] at hfirst
      have hlo : lo ≤ i := hfirst.1
      have hhi : i + pat.length ≤ hi := hfirst.2.1
      have hrest : scan find pat.length fuel (i + pat.length) = some (occurrences pat l (i + pat.length) hi) :=
        ih (fun start hs => hfind start (by omega)) hhi (by omega)
      rw [occurrences_eq_cons hpat hapart hfirst]
      show (scan find pat.length fuel (i + pat.length)).map (fun hits => i :: hits) = _
      rw [hrest, Option.map_some]

end KwNet.Lib
