import Mathlib

/-!
# Maps sorted by key

A finite map as the list of its entries in strictly increasing order of the keys, the way an ordered
map is iterated.

* **`find?_eq_some`** — looking up a key finds the entry of that key;
* **`mem_set`**, **`mem_erase`** — the entries after an update;
* **`first?_eq_some`** — the first entry is the one with the least key.
-/

namespace KwNet.Lib

/-- Entries with strictly increasing keys. -/
structure SortedMap (α β : Type*) [LinearOrder α] where
  entries : List (α × β)
  sorted : entries.Pairwise fun x y => x.1 < y.1

namespace SortedMap

variable {α β : Type*} [LinearOrder α]

def empty : SortedMap α β := ⟨[], List.Pairwise.nil⟩

def isEmpty (m : SortedMap α β) : Bool := m.entries.isEmpty

def keys (m : SortedMap α β) : List α := m.entries.map Prod.fst

/-- The value of a key. -/
def find? (m : SortedMap α β) (k : α) : Option β :=
  (m.entries.find? fun e => decide (e.1 = k)).map Prod.snd

/-- The entry with the least key. -/
def first? (m : SortedMap α β) : Option (α × β) := m.entries.head?

/-- Insert an entry, or replace the one of its key. -/
def set (m : SortedMap α β) (k : α) (v : β) : SortedMap α β where
  entries := m.entries.filter (fun e => e.1 < k) ++ (k, v) :: m.entries.filter fun e => k < e.1
  sorted := by
    refine List.pairwise_append.mpr ⟨m.sorted.filter _, ?_, ?_⟩
    · refine List.pairwise_cons.mpr ⟨fun e he => ?_, m.sorted.filter _⟩
      exact of_decide_eq_true (List.mem_filter.mp he).2
    · intro x hx y hy
      have hxk : x.1 < k := of_decide_eq_true (List.mem_filter.mp hx).2
      rcases List.mem_cons.mp hy with rfl | hy'
      · exact hxk
      · exact hxk.trans (of_decide_eq_true (List.mem_filter.mp hy').2)

/-- Remove the entry of a key. -/
def erase (m : SortedMap α β) (k : α) : SortedMap α β where
  entries := m.entries.filter fun e => e.1 ≠ k
  sorted := m.sorted.filter _

variable {m : SortedMap α β} {k : α} {v : β}

theorem eq_of_mem {e e' : α × β} (he : e ∈ m.entries) (he' : e' ∈ m.entries) (hk : e.1 = e'.1) :
    e = e' := by
  have hnodup : (m.entries.map Prod.fst).Nodup := List.pairwise_map.mpr (m.sorted.imp ne_of_lt)
  exact List.inj_on_of_nodup_map hnodup he he' hk

theorem find?_eq_some : m.find? k = some v ↔ (k, v) ∈ m.entries := by
  unfold find?
  constructor
  · intro h
    obtain ⟨e, he, rfl⟩ := Option.map_eq_some_iff.mp h
    have hk : e.1 = k := by simpa using List.find?_some he
    rw [← hk]
    exact List.mem_of_find?_eq_some he
  · intro h
    cases hfind : m.entries.find? fun e => decide (e.1 = k) with
    | none =>
      have hnot := List.find?_eq_none.mp hfind (k, v) h
      simp at hnot
    | some e =>
      have hk : e.1 = k := by simpa using List.find?_some hfind
      rw [eq_of_mem (List.mem_of_find?_eq_some hfind) h hk]
      rfl

theorem mem_keys : k ∈ m.keys ↔ ∃ v, (k, v) ∈ m.entries := by
  simp [keys]

theorem find?_eq_none : m.find? k = none ↔ k ∉ m.keys := by
  rw [mem_keys, Option.eq_none_iff_forall_ne_some]
  constructor
  · rintro h ⟨v, hv⟩
    exact h v (find?_eq_some.mpr hv)
  · intro h v hv
    exact h ⟨v, find?_eq_some.mp hv⟩

theorem mem_set {e : α × β} :
    e ∈ (m.set k v).entries ↔ e = (k, v) ∨ (e ∈ m.entries ∧ e.1 ≠ k) := by
  simp only [set, List.mem_append, List.mem_filter, List.mem_cons, decide_eq_true_eq]
  constructor
  · rintro (⟨he, hlt⟩ | rfl | ⟨he, hlt⟩)
    · exact .inr ⟨he, hlt.ne⟩
    · exact .inl rfl
    · exact .inr ⟨he, hlt.ne'⟩
  · rintro (rfl | ⟨he, hne⟩)
    · exact .inr (.inl rfl)
    · rcases lt_or_gt_of_ne hne with hlt | hgt
      · exact .inl ⟨he, hlt⟩
      · exact .inr (.inr ⟨he, hgt⟩)

theorem mem_erase {e : α × β} : e ∈ (m.erase k).entries ↔ e ∈ m.entries ∧ e.1 ≠ k := by
  simp [erase]

theorem mem_keys_set {j : α} : j ∈ (m.set k v).keys ↔ j = k ∨ j ∈ m.keys := by
  simp only [mem_keys, mem_set, Prod.mk.injEq, ne_eq]
  constructor
  · rintro ⟨w, ⟨rfl, -⟩ | ⟨hw, -⟩⟩
    · exact .inl rfl
    · exact .inr ⟨w, hw⟩
  · rintro (rfl | ⟨w, hw⟩)
    · exact ⟨v, .inl ⟨rfl, rfl⟩⟩
    · by_cases hj : j = k
      · exact ⟨v, .inl ⟨hj, rfl⟩⟩
      · exact ⟨w, .inr ⟨hw, hj⟩⟩

theorem mem_keys_erase {j : α} : j ∈ (m.erase k).keys ↔ j ∈ m.keys ∧ j ≠ k := by
  simp only [mem_keys, mem_erase, exists_and_right]

theorem first?_mem {e : α × β} (h : m.first? = some e) : e ∈ m.entries :=
  List.mem_of_mem_head? h

/-- The first entry has the least key. -/
theorem first?_le {e : α × β} (h : m.first? = some e) {j : α} (hj : j ∈ m.keys) : e.1 ≤ j := by
  obtain ⟨w, hw⟩ := mem_keys.mp hj
  obtain ⟨es, hes⟩ : ∃ es, m.entries = e :: es := List.head?_eq_some_iff.mp h
  have hsorted := m.sorted
  rw [hes] at hsorted hw
  rcases List.mem_cons.mp hw with heq | hmem
  · exact (congrArg Prod.fst heq).ge
  · exact ((List.pairwise_cons.mp hsorted).1 _ hmem).le

theorem first?_eq_some {e : α × β} :
    m.first? = some e ↔ e ∈ m.entries ∧ ∀ j ∈ m.keys, e.1 ≤ j := by
  constructor
  · intro h
    exact ⟨first?_mem h, fun j hj => first?_le h hj⟩
  · rintro ⟨he, hle⟩
    cases hfirst : m.first? with
    | none =>
      rw [first?, List.head?_eq_none_iff] at hfirst
      rw [hfirst] at he
      cases he
    | some e' =>
      have hle' := first?_le hfirst (mem_keys.mpr ⟨e.2, he⟩)
      have hge := hle e'.1 (mem_keys.mpr ⟨e'.2, first?_mem hfirst⟩)
      rw [eq_of_mem (first?_mem hfirst) he (le_antisymm hle' hge)]

/-- Removing the first entry leaves the others as they are. -/
theorem entries_erase_first {e : α × β} {es : List (α × β)} (h : m.entries = e :: es) :
    (m.erase e.1).entries = es := by
  have hsorted := m.sorted
  rw [h] at hsorted
  have hother : ∀ x ∈ es, x.1 ≠ e.1 := fun x hx => ((List.pairwise_cons.mp hsorted).1 x hx).ne'
  have hentries : (m.erase e.1).entries = m.entries.filter fun x => x.1 ≠ e.1 := rfl
  rw [hentries, h, List.filter_cons_of_neg (by simp)]
  exact List.filter_eq_self.mpr fun x hx => decide_eq_true (hother x hx)

theorem first?_eq_none : m.first? = none ↔ m.keys = [] := by
  simp [first?, keys]

theorem isEmpty_iff : m.isEmpty = true ↔ m.keys = [] := by
  simp [isEmpty, keys]

end SortedMap

end KwNet.Lib
