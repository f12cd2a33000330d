import Mathlib
import KwNet.Queue.Steps

/-!
# `mpmc_bounded_Queue` transfers elements faithfully

`Transfers s` is what the history of a run says about the queue: every `try_pop` returns the argument
of the `try_push` that claimed the same position, positions are claimed one after the other on both
ends and answered at most once, and the payload of a cell is never written while its previous content
is still to be read.

**`tryPop_returns_tryPush`**: this holds after every run of a constructed queue of at most `2 ^ 62`
cells with fewer than `2 ^ 63` calls.
-/

namespace KwNet.Mpmc

open KwNet.Lib

variable {ι T : Type}

/-- Nothing is lost, duplicated, torn or reordered. -/
structure Transfers (s : State ι T) : Prop where
  /-- The `try_pop` that claimed head position `p` returned the argument of the `try_push` that
  claimed tail position `p`. -/
  matched : ∀ p v, (p, v) ∈ s.popped → (p, v) ∈ s.pushed
  /-- Tail positions are claimed in the order `0, 1, 2, …`, each once. -/
  pushOrder : s.pushed.map Prod.fst = List.range s.pushed.length
  /-- Head positions are claimed in the order `0, 1, 2, …`, each once. -/
  popOrder : s.taken = List.range s.taken.length
  /-- A claimed position is answered at most once, and only claimed positions are answered. -/
  once : (s.popped.map Prod.fst).Nodup ∧ ∀ p ∈ s.popped.map Prod.fst, p ∈ s.taken
  /-- Only positions that were pushed are claimed by poppers. -/
  bounded : s.taken.length ≤ s.pushed.length
  /-- No pusher is about to write a cell that a popper has claimed and not read. -/
  unread : ∀ i j v pos pos', s.pc i = .pushWrite v pos → s.pc j = .popRead pos' →
    s.queue.slot pos ≠ s.queue.slot pos'
  /-- No two pushers are about to write the same cell. -/
  exclusive : ∀ i j v v' pos pos', s.pc i = .pushWrite v pos → s.pc j = .pushWrite v' pos' →
    s.queue.slot pos = s.queue.slot pos' → i = j

variable [Fintype ι]

theorem Inv.transfers {m : ℕ} {s : State ι T} (hI : Inv m s) : Transfers s := by
  have hlen : s.taken.length = s.h := by rw [hI.taken, List.length_range]
  refine ⟨?_, hI.order, ?_, ⟨hI.once, ?_⟩, ?_, ?_, ?_⟩
  · intro p v hr
    exact List.mem_of_getElem? (hI.results (p, v) hr).2
  · rw [hlen]
    exact hI.taken
  · intro p hp
    obtain ⟨r, hr, rfl⟩ := List.mem_map.mp hp
    rw [hI.taken, List.mem_range]
    exact (hI.results r hr).1
  · rw [hlen, ← hI.tail_eq]
    exact hI.head_le
  · intro i j v pos pos' hi hj
    have hpi : (s.pc i).pushPos = some pos := by rw [hi]; rfl
    have hpj : (s.pc j).popPos = some pos' := by rw [hj]; rfl
    have hpush := hI.pushPos_lt hpi
    have hpop := hI.popPos_lt hpj
    rw [hI.slot_eq, hI.slot_eq]
    exact (ne_mod_of_lt (by omega) (by omega)).symm
  · intro i j v v' pos pos' hi hj hslot
    have hpi : (s.pc i).pushPos = some pos := by rw [hi]; rfl
    have hpj : (s.pc j).pushPos = some pos' := by rw [hj]; rfl
    obtain ⟨hi1, hi2⟩ := hI.pushPos_lt hpi
    obtain ⟨hj1, hj2⟩ := hI.pushPos_lt hpj
    have hle := hI.tail_le
    rw [hI.slot_eq, hI.slot_eq] at hslot
    have hpos : pos.toNat = pos'.toNat := by
      rcases Nat.le_total pos.toNat pos'.toNat with h | h
      · exact eq_of_mod_eq hslot h (by omega)
      · exact (eq_of_mod_eq hslot.symm h (by omega)).symm
    have : pos = pos' := BitVec.eq_of_toNat_eq hpos
    subst this
    exact hI.pushers i j pos hpi hpj

/-- **The queue transfers faithfully.**  For every capacity the constructor accepts up to `2 ^ 62`,
any number of threads and any interleaving of their accesses, with fewer than `2 ^ 63` calls. -/
theorem tryPop_returns_tryPush [DecidableEq ι] {junk : T} {size : U64} {q : Queue T}
    (hctor : Queue.ctor junk size = some q) (hsize : size.toNat ≤ 2 ^ 62)
    {as : List (Action ι T)} {s : State ι T} (hrun : run step (State.init ι q) as = some s)
    (hcalls : s.calls < 2 ^ 63) : Transfers s := by
  obtain ⟨m, hm, hpow⟩ := ctor_size hctor
  have hm' : m ≤ 62 := by
    by_contra h
    have : (2 : ℕ) ^ 63 ≤ 2 ^ m := Nat.pow_le_pow_right (by omega) (by omega)
    omega
  exact (inv_of_run hctor hpow hm hm' hrun hcalls).transfers

/-- A pusher and a popper on a ring of two cells: the pop overlaps the second push. -/
def twoCellRun : List (Action (Fin 2) ℕ) :=
  [.call 0 (.tryPush 7), .step 0 false, .step 0 false, .step 0 true, .step 0 false, .step 0 false,
    .step 0 false, .step 0 false, .call 0 (.tryPush 8), .call 1 .tryPop, .step 0 false, .step 1 false,
    .step 0 false, .step 1 false, .step 1 false, .step 0 false, .step 1 false, .step 1 false]

theorem tryPop_returns_tryPush_two_cells :
    ∃ q s, Queue.ctor 0 2#64 = some q ∧ run step (State.init (Fin 2) q) twoCellRun = some s ∧
      s.popped = [(0, 7)] ∧ s.pushed = [(0, 7), (1, 8)] ∧ Transfers s :=
  ⟨_, _, rfl, rfl, rfl, rfl,
    tryPop_returns_tryPush (show Queue.ctor 0 2#64 = some _ from rfl) (by decide)
      (show run step _ twoCellRun = some _ from rfl) (by decide)⟩

end KwNet.Mpmc
