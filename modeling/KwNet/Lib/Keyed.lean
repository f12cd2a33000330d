import Mathlib.Data.List.Basic

/-!
# Lists that are grouped by a key

* **`flatMap_filter_of_sorted`** — where the keys never go back, the groups of the keys in their order are the list.
-/

namespace KwNet.Lib

variable {κ α : Type*} [DecidableEq κ] {r : κ → κ → Prop} (key : α → κ) {l : List α}

/-- What has the least key stands in front. -/
theorem filter_append_of_least {k : κ} (hasymm : ∀ a b, r a b → ¬r b a)
    (hsorted : l.Pairwise fun x y => key x = key y ∨ r (key x) (key y)) (hleast : ∀ x ∈ l, key x = k ∨ r k (key x)) :
    (l.filter fun x => key x = k) ++ (l.filter fun x => key x ≠ k) = l := by
  induction l with
  | nil => rfl
  | cons x l ih =>
    obtain ⟨hx, hl⟩ := List.pairwise_cons.mp hsorted
    by_cases hk : key x = k
    · rw [List.filter_cons_of_pos (by simpa using hk), List.filter_cons_of_neg (by simpa using hk), List.cons_append,
        ih hl fun y hy => hleast y (List.mem_cons_of_mem x hy)]
    · have hgt : r k (key x) := (hleast x List.mem_cons_self).resolve_left hk
      have hnone : ∀ y ∈ x :: l, key y ≠ k := by
        intro y hy hyk
        rcases List.mem_cons.mp hy with rfl | hy
        · exact hk hyk
        · rcases hx y hy with heq | hlt
          · exact hk (heq.trans hyk)
          · exact hasymm k (key x) hgt (hyk ▸ hlt)
      rw [List.filter_eq_nil_iff.mpr fun y hy => by simpa using hnone y hy, List.nil_append,
        List.filter_eq_self.mpr fun y hy => by simpa using hnone y hy]

/-- **The groups, one after the other.** -/
theorem flatMap_filter_of_sorted {ks : List κ} (hasymm : ∀ a b, r a b → ¬r b a)
    (hsorted : l.Pairwise fun x y => key x = key y ∨ r (key x) (key y)) (hks : ks.Pairwise r) (hmem : ∀ x ∈ l, key x ∈ ks) :
    (ks.flatMap fun k => l.filter fun x => key x = k) = l := by
  induction ks generalizing l with
  | nil =>
    rw [List.eq_nil_iff_forall_not_mem.mpr fun x hx => List.not_mem_nil (hmem x hx)]
    rfl
  | cons k ks ih =>
    obtain ⟨hk, hks⟩ := List.pairwise_cons.mp hks
    have hrest := ih (l := l.filter fun x => key x ≠ k) (hsorted.filter _) hks fun x hx => by
      obtain ⟨hx, hne⟩ := List.mem_filter.mp hx
      exact (List.mem_cons.mp (hmem x hx)).resolve_left (by simpa using hne)
    -- the other groups do not see the first one
    have hsame : ∀ k' ∈ ks, ((l.filter fun x => key x ≠ k).filter fun x => key x = k') = l.filter fun x => key x = k' := by
      intro k' hk'
      have hne : k' ≠ k := by
        rintro rfl
        exact hasymm k' k' (hk k' hk') (hk k' hk')
      rw [List.filter_filter]
      refine List.filter_congr fun x _ => ?_
      by_cases hx : key x = k'
      · simp only [hx, hne, ne_eq, not_false_iff, decide_true, Bool.and_self]
      · simp only [hx, decide_false, Bool.false_and]
    rw [List.flatMap_cons, ← List.flatMap_congr hsame, hrest]
    refine filter_append_of_least key hasymm hsorted fun x hx => ?_
    exact (List.mem_cons.mp (hmem x hx)).imp_right (hk _)

end KwNet.Lib
