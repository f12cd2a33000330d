import Mathlib

/-!
# An array that is written with checked stores

An array is the list of its cells.  `store` writes one cell and fails outside the array; `storeAll` writes
consecutive cells (`memcpy`); `reverseRange` reverses a part of the array (`std::reverse`).

Everything is stated for an array `before ++ room`, written from the first cell of `room` on.

* **`storeAll_append`** — stores one after another are one longer store;
* **`storeAll_room`** — what fits into the room is written there;
* **`reverseRange_room`** — reversing what was written.
-/

namespace KwNet.Lib

variable {α : Type*}

def store (mem : List α) (i : ℕ) (a : α) : Option (List α) :=
  if i < mem.length then some (mem.set i a) else none

def storeAll : List α → ℕ → List α → Option (List α)
  | mem, _, [] => some mem
  | mem, i, a :: as => (store mem i a).bind fun mem => storeAll mem (i + 1) as

/-- Reverse the cells from `first` on, up to `last`. -/
def reverseRange (mem : List α) (first last : ℕ) : Option (List α) :=
  if first ≤ last ∧ last ≤ mem.length then
    some (mem.take first ++ ((mem.drop first).take (last - first)).reverse ++ mem.drop last)
  else none

theorem storeAll_singleton (mem : List α) (i : ℕ) (a : α) : storeAll mem i [a] = store mem i a := by
  cases h : store mem i a with
  | none => rw [storeAll, h, Option.bind_none]
  | some mem' => rw [storeAll, h, Option.bind_some, storeAll]

theorem storeAll_append (mem : List α) (i : ℕ) (as bs : List α) :
    storeAll mem i (as ++ bs) = (storeAll mem i as).bind fun mem => storeAll mem (i + as.length) bs := by
  induction as generalizing mem i with
  | nil => rfl
  | cons a as ih =>
    rw [List.cons_append, storeAll, storeAll, Option.bind_assoc]
    refine Option.bind_congr fun mem' _ => ?_
    rw [ih, List.length_cons, Nat.add_assoc, Nat.add_comm 1]

theorem store_room (before : List α) (r a : α) (room : List α) :
    store (before ++ r :: room) before.length a = some (before ++ a :: room) := by
  have hlt : before.length < (before ++ r :: room).length := by simp
  rw [store, if_pos hlt, List.set_append_right _ _ (Nat.le_refl _), Nat.sub_self, List.set_cons_zero]

/-- **What fits is written.** -/
theorem storeAll_room (before room as : List α) (h : as.length ≤ room.length) :
    storeAll (before ++ room) before.length as = some (before ++ as ++ room.drop as.length) := by
  induction as generalizing before room with
  | nil => rw [storeAll, List.append_nil, List.length_nil, List.drop_zero]
  | cons a as ih =>
    cases room with
    | nil => cases h
    | cons r room =>
      have hsplit : before ++ a :: room = (before ++ [a]) ++ room := by
        rw [List.append_assoc, List.singleton_append]
      have hlen : before.length + 1 = (before ++ [a]).length := by rw [List.length_append, List.length_singleton]
      rw [storeAll, store_room, Option.bind_some, hsplit, hlen, ih _ _ (Nat.le_of_succ_le_succ h)]
      simp only [List.append_assoc, List.length_cons, List.drop_succ_cons, List.cons_append, List.nil_append]

/-- **Reversing what was written.** -/
theorem reverseRange_room (before as room : List α) :
    reverseRange (before ++ as ++ room) before.length (before.length + as.length) =
      some (before ++ as.reverse ++ room) := by
  have hin : before.length ≤ before.length + as.length ∧
      before.length + as.length ≤ (before ++ as ++ room).length := by
    simp only [List.length_append]
    omega
  have htake : (before ++ as ++ room).take before.length = before := by
    rw [List.append_assoc, List.take_left]
  have hmiddle : ((before ++ as ++ room).drop before.length).take as.length = as := by
    rw [List.append_assoc, List.drop_left, List.take_left]
  have hdrop : (before ++ as ++ room).drop (before.length + as.length) = room := by
    rw [← List.length_append, List.drop_left]
  rw [reverseRange, if_pos hin, Nat.add_sub_cancel_left, htake, hmiddle, hdrop]

end KwNet.Lib
