import KwNet.Lib.Pool
import KwNet.Lib.Ring
import KwNet.Queue.Model

/-!
# The ring invariant of `mpmc_bounded_Queue`

Write `h` and `t` for the head and tail counters and `N` for the capacity.  The `N` positions
`h, …, h + N - 1` name each cell exactly once, and a cell's sequence number tells which stage of its
life it is in:

* position `p` with `h ≤ p < t` is *filled*: `sequence = p` while the pusher that claimed `p` has not
  published, `sequence = p + 1` once the payload is there;
* position `p` with `t ≤ p < h + N` is *free*: `sequence = p - N + 1` while the popper that claimed
  `p - N` has not finished, `sequence = p` once it has.

`PcOk` says what a thread may rely on where it stands.  Threads that still hold a stale position are
harmless: what they know is conditional on the counter not having moved.

This module states the invariant and proves what a step of one thread leaves true for the others;
`KwNet.Queue.Steps` takes the steps one by one.
-/

namespace KwNet.Mpmc

open KwNet.Lib

variable {ι T : Type}

/-! ### Views of the ring by position -/

def State.h (s : State ι T) : ℕ := s.queue.headPos.toNat

def State.t (s : State ι T) : ℕ := s.queue.tailPos.toNat

/-- The sequence number of the cell that serves position `p`. -/
def State.seq (N : ℕ) (s : State ι T) (p : ℕ) : ℕ := (s.queue.buffer (p % N)).sequence.toNat

/-- The payload of the cell that serves position `p`. -/
def State.dat (N : ℕ) (s : State ι T) (p : ℕ) : T := (s.queue.buffer (p % N)).data

/-- The position a thread has claimed for pushing and not published yet. -/
def Pc.pushPos : Pc T → Option U64
  | .pushWrite _ pos => some pos
  | .pushPublish _ pos => some pos
  | _ => none

/-- The position a thread has claimed for popping and not released yet. -/
def Pc.popPos : Pc T → Option U64
  | .popRead pos => some pos
  | .popPublish pos _ => some pos
  | _ => none

/-- `1` for a thread inside a call that has claimed no position yet. -/
def Pc.pending : Pc T → ℕ
  | .pushLoad _ => 1
  | .pushSeq _ _ => 1
  | .pushCas _ _ => 1
  | .popLoad => 1
  | .popSeq _ => 1
  | .popCas _ => 1
  | _ => 0

/-- What a thread may rely on. -/
def PcOk (N : ℕ) (s : State ι T) : Pc T → Prop
  | .idle => True
  | .pushLoad _ => True
  | .pushSeq _ pos => pos.toNat ≤ s.t
  | .pushCas _ pos => pos.toNat ≤ s.t ∧ (pos.toNat = s.t → s.seq N s.t = s.t ∧ s.t < s.h + N)
  | .pushWrite v pos =>
    s.h ≤ pos.toNat ∧ pos.toNat < s.t ∧ s.seq N pos.toNat = pos.toNat ∧
      s.pushed[pos.toNat]? = some (pos.toNat, v)
  | .pushPublish v pos =>
    s.h ≤ pos.toNat ∧ pos.toNat < s.t ∧ s.seq N pos.toNat = pos.toNat ∧
      s.pushed[pos.toNat]? = some (pos.toNat, v) ∧ s.dat N pos.toNat = v
  | .popLoad => True
  | .popSeq pos => pos.toNat ≤ s.h
  | .popCas pos => pos.toNat ≤ s.h ∧ (pos.toNat = s.h → s.h < s.t ∧ s.seq N s.h = s.h + 1)
  | .popRead pos =>
    pos.toNat < s.h ∧ s.t ≤ pos.toNat + N ∧ s.seq N pos.toNat = pos.toNat + 1 ∧
      s.pushed[pos.toNat]? = some (pos.toNat, s.dat N pos.toNat)
  | .popPublish pos v =>
    pos.toNat < s.h ∧ s.t ≤ pos.toNat + N ∧ s.seq N pos.toNat = pos.toNat + 1 ∧
      s.pushed[pos.toNat]? = some (pos.toNat, v)

/-- The ring invariant, for a ring of `N = 2 ^ m` cells. -/
structure Inv [Fintype ι] (m : ℕ) (s : State ι T) : Prop where
  mask : s.queue.bufferMask.toNat + 1 = 2 ^ m
  tail_eq : s.t = s.pushed.length
  head_le : s.h ≤ s.t
  tail_le : s.t ≤ s.h + 2 ^ m
  calls : s.h + s.t + weight Pc.pending s.pc ≤ s.calls
  filled : ∀ p, s.h ≤ p → p < s.t →
    s.seq (2 ^ m) p = p ∨
      (s.seq (2 ^ m) p = p + 1 ∧ s.pushed[p]? = some (p, s.dat (2 ^ m) p))
  free : ∀ p, s.t ≤ p → p < s.h + 2 ^ m →
    s.seq (2 ^ m) p = p ∨ s.seq (2 ^ m) p + 2 ^ m = p + 1
  threads : ∀ i, PcOk (2 ^ m) s (s.pc i)
  pushers : ∀ i j pos, (s.pc i).pushPos = some pos → (s.pc j).pushPos = some pos → i = j
  poppers : ∀ i j pos, (s.pc i).popPos = some pos → (s.pc j).popPos = some pos → i = j
  order : s.pushed.map Prod.fst = List.range s.pushed.length
  taken : s.taken = List.range s.h
  results : ∀ r ∈ s.popped, r.1 < s.h ∧ s.pushed[r.1]? = some r
  once : (s.popped.map Prod.fst).Nodup
  fresh : ∀ i pos, (s.pc i).popPos = some pos → pos.toNat ∉ s.popped.map Prod.fst

/-- `PcOk` looks at the thread's own locals and at the queue, never at other threads. -/
theorem pcOk_congr {N : ℕ} (s s' : State ι T) (hq : s'.queue = s.queue)
    (hp : s'.pushed = s.pushed) (pc : Pc T) : PcOk N s' pc ↔ PcOk N s pc := by
  cases pc <;> simp only [PcOk, State.h, State.t, State.seq, State.dat, hq, hp]

/-! ### The branches on `dif` -/

theorem dif_eq_zero {seq pos : U64} : dif seq pos = 0 ↔ seq = pos := by
  unfold dif
  rw [← BitVec.toInt_zero (w := 64), BitVec.toInt_inj]
  bv_omega

theorem pushBranch_eq (v : T) (pos seq : U64) :
    (seq = pos ∧ pushBranch v pos seq = .pushCas v pos) ∨
      pushBranch v pos seq = .idle ∨ pushBranch v pos seq = .pushLoad v := by
  unfold pushBranch
  by_cases h0 : dif seq pos = 0
  · exact Or.inl ⟨dif_eq_zero.mp h0, if_pos h0⟩
  · rw [if_neg h0]
    by_cases hneg : dif seq pos < 0
    · exact Or.inr (Or.inl (if_pos hneg))
    · exact Or.inr (Or.inr (if_neg hneg))

theorem popBranch_eq (pos seq : U64) :
    (seq = pos + 1 ∧ popBranch (T := T) pos seq = .popCas pos) ∨
      popBranch (T := T) pos seq = .idle ∨ popBranch (T := T) pos seq = .popLoad := by
  unfold popBranch
  by_cases h0 : dif seq (pos + 1) = 0
  · exact Or.inl ⟨dif_eq_zero.mp h0, if_pos h0⟩
  · rw [if_neg h0]
    by_cases hneg : dif seq (pos + 1) < 0
    · exact Or.inr (Or.inl (if_pos hneg))
    · exact Or.inr (Or.inr (if_neg hneg))

/-! ### Moves that only change where a thread stands -/

section Steps

variable [Fintype ι] {m : ℕ} {s : State ι T} {i : ι}

theorem Inv.slot_eq (hI : Inv m s) (pos : U64) : s.queue.slot pos = pos.toNat % 2 ^ m :=
  toNat_and_mask hI.mask pos

theorem Inv.seqAt_eq (hI : Inv m s) (pos : U64) :
    (s.queue.seqAt pos).toNat = s.seq (2 ^ m) pos.toNat := by
  rw [Queue.seqAt, hI.slot_eq, State.seq]

theorem Inv.dataAt_eq (hI : Inv m s) (pos : U64) :
    s.queue.dataAt pos = s.dat (2 ^ m) pos.toNat := by
  rw [Queue.dataAt, hI.slot_eq, State.dat]

variable [DecidableEq ι]

/-- A thread that claims nothing new may move wherever `PcOk` allows. -/
theorem Inv.goto (hI : Inv m s) {pc : Pc T} (hok : PcOk (2 ^ m) s pc)
    (hpush : pc.pushPos = (s.pc i).pushPos ∨ pc.pushPos = none)
    (hpop : pc.popPos = (s.pc i).popPos ∨ pc.popPos = none)
    (hpend : pc.pending ≤ (s.pc i).pending) : Inv m (s.goto i pc) where
  mask := hI.mask
  tail_eq := hI.tail_eq
  head_le := hI.head_le
  tail_le := hI.tail_le
  calls := by
    have hw := weight_update Pc.pending s.pc i pc
    have hc := hI.calls
    simp only [State.goto, State.h, State.t] at hc ⊢
    omega
  filled := hI.filled
  free := hI.free
  threads := by
    intro j
    refine (pcOk_congr s (s.goto i pc) rfl rfl _).mpr ?_
    simp only [State.goto, Function.update_apply]
    split
    · exact hok
    · exact hI.threads j
  pushers := by
    intro j k pos hj hk
    simp only [State.goto, Function.update_apply] at hj hk
    split at hj <;> split at hk
    · simp_all
    · rcases hpush with h | h
      · simp_all [hI.pushers i k pos]
      · simp_all
    · rcases hpush with h | h
      · simp_all [hI.pushers j i pos]
      · simp_all
    · exact hI.pushers j k pos hj hk
  poppers := by
    intro j k pos hj hk
    simp only [State.goto, Function.update_apply] at hj hk
    split at hj <;> split at hk
    · simp_all
    · rcases hpop with h | h
      · simp_all [hI.poppers i k pos]
      · simp_all
    · rcases hpop with h | h
      · simp_all [hI.poppers j i pos]
      · simp_all
    · exact hI.poppers j k pos hj hk
  order := hI.order
  taken := hI.taken
  results := hI.results
  once := hI.once
  fresh := by
    intro j pos hj
    simp only [State.goto, Function.update_apply] at hj
    split at hj
    · rcases hpop with h | h
      · exact hI.fresh i pos (h ▸ hj)
      · rw [h] at hj
        cases hj
    · exact hI.fresh j pos hj

/-! ### What other threads keep when one thread claims or publishes

Each lemma compares two states by the counters, the cells and the history; the thread that moves is
left out, its own obligation comes from the step it takes. -/

omit [Fintype ι] [DecidableEq ι] in
theorem PcOk.tail_advance {N : ℕ} {s s' : State ι T} {r : ℕ × T} {pc : Pc T} (h : PcOk N s pc)
    (hN : 2 ≤ N) (hh : s'.h = s.h) (ht : s'.t = s.t + 1) (hseq : s'.seq N = s.seq N)
    (hdat : s'.dat N = s.dat N) (hpushed : s'.pushed = s.pushed ++ [r])
    (hlen : s.t = s.pushed.length) (hfree : s.seq N s.t = s.t) : PcOk N s' pc := by
  have hkeep : ∀ p, p < s.t → s'.pushed[p]? = s.pushed[p]? := by
    intro p hp
    rw [hpushed, List.getElem?_append_left (by omega)]
  -- a popper of `t - N` would still have the old sequence number in the cell that is now free
  have hpop : ∀ p, s.seq N p = p + 1 → s.t ≠ p + N := by
    intro p hp he
    have : s.seq N s.t = s.seq N p := by rw [he, State.seq, State.seq, Nat.add_mod_right]
    omega
  cases pc with
  | idle => trivial
  | pushLoad v => trivial
  | popLoad => trivial
  | pushSeq v pos => simp only [PcOk, ht] at h ⊢; omega
  | pushCas v pos => simp only [PcOk, ht] at h ⊢; exact ⟨by omega, fun he => by omega⟩
  | pushWrite v pos =>
    obtain ⟨h1, h2, h3, h4⟩ := h
    exact ⟨by omega, by omega, by rw [hseq]; exact h3, by rw [hkeep _ h2]; exact h4⟩
  | pushPublish v pos =>
    obtain ⟨h1, h2, h3, h4, h5⟩ := h
    exact ⟨by omega, by omega, by rw [hseq]; exact h3, by rw [hkeep _ h2]; exact h4,
      by rw [hdat]; exact h5⟩
  | popSeq pos => simp only [PcOk, hh] at h ⊢; exact h
  | popCas pos =>
    obtain ⟨h1, h2⟩ := h
    refine ⟨by omega, fun he => ?_⟩
    obtain ⟨h3, h4⟩ := h2 (by omega)
    exact ⟨by omega, by rw [hseq, hh]; exact h4⟩
  | popRead pos =>
    obtain ⟨h1, h2, h3, h4⟩ := h
    have hne := hpop _ h3
    have hlt : pos.toNat < s.t := by
      rw [hlen]
      exact (List.getElem?_eq_some_iff.mp h4).1
    exact ⟨by omega, by omega, by rw [hseq]; exact h3, by rw [hkeep _ hlt, hdat]; exact h4⟩
  | popPublish pos v =>
    obtain ⟨h1, h2, h3, h4⟩ := h
    have hne := hpop _ h3
    have hlt : pos.toNat < s.t := by
      rw [hlen]
      exact (List.getElem?_eq_some_iff.mp h4).1
    exact ⟨by omega, by omega, by rw [hseq]; exact h3, by rw [hkeep _ hlt]; exact h4⟩

omit [Fintype ι] [DecidableEq ι] in
theorem PcOk.head_advance {N : ℕ} {s s' : State ι T} {pc : Pc T} (h : PcOk N s pc)
    (hh : s'.h = s.h + 1) (ht : s'.t = s.t) (hseq : s'.seq N = s.seq N)
    (hdat : s'.dat N = s.dat N) (hpushed : s'.pushed = s.pushed)
    (hfull : s.seq N s.h = s.h + 1) : PcOk N s' pc := by
  -- the pusher of position `h` has published, so no pusher stands at `h`
  have hpush : ∀ p, s.seq N p = p → p ≠ s.h := by
    intro p hp he
    rw [he] at hp
    omega
  cases pc with
  | idle => trivial
  | pushLoad v => trivial
  | popLoad => trivial
  | pushSeq v pos => simp only [PcOk, ht] at h ⊢; exact h
  | pushCas v pos =>
    obtain ⟨h1, h2⟩ := h
    refine ⟨by omega, fun he => ?_⟩
    obtain ⟨h3, h4⟩ := h2 (by omega)
    exact ⟨by rw [hseq, ht]; exact h3, by omega⟩
  | pushWrite v pos =>
    obtain ⟨h1, h2, h3, h4⟩ := h
    have := hpush _ h3
    exact ⟨by omega, by omega, by rw [hseq]; exact h3, by rw [hpushed]; exact h4⟩
  | pushPublish v pos =>
    obtain ⟨h1, h2, h3, h4, h5⟩ := h
    have := hpush _ h3
    exact ⟨by omega, by omega, by rw [hseq]; exact h3, by rw [hpushed]; exact h4,
      by rw [hdat]; exact h5⟩
  | popSeq pos => simp only [PcOk, hh] at h ⊢; omega
  | popCas pos => simp only [PcOk, hh] at h ⊢; exact ⟨by omega, fun he => by omega⟩
  | popRead pos =>
    obtain ⟨h1, h2, h3, h4⟩ := h
    exact ⟨by omega, by omega, by rw [hseq]; exact h3, by rw [hpushed, hdat]; exact h4⟩
  | popPublish pos v =>
    obtain ⟨h1, h2, h3, h4⟩ := h
    exact ⟨by omega, by omega, by rw [hseq]; exact h3, by rw [hpushed]; exact h4⟩

omit [Fintype ι] [DecidableEq ι] in
/-- The pusher of position `q` changes its own cell only. -/
theorem PcOk.push_cell {N q : ℕ} {s s' : State ι T} {pc : Pc T} (h : PcOk N s pc)
    (hq : s.h ≤ q) (hqt : q < s.t) (htN : s.t ≤ s.h + N)
    (hh : s'.h = s.h) (ht : s'.t = s.t) (hpushed : s'.pushed = s.pushed)
    (hseq : ∀ p, p % N ≠ q % N → s'.seq N p = s.seq N p)
    (hdat : ∀ p, p % N ≠ q % N → s'.dat N p = s.dat N p)
    (hown : s'.seq N q = s.seq N q ∨ s'.seq N q = q + 1)
    (hother : ∀ pos, pc.pushPos = some pos → pos.toNat ≠ q) : PcOk N s' pc := by
  -- every other pusher works in `[h, t)`, every popper less than a revolution behind `q`
  have hne : ∀ p, s.h ≤ p → p < s.t → p ≠ q → p % N ≠ q % N := by
    intro p h1 h2 h3
    rcases Nat.lt_or_gt_of_ne h3 with hlt | hgt
    · exact ne_mod_of_lt hlt (by omega)
    · exact (ne_mod_of_lt hgt (by omega)).symm
  cases pc with
  | idle => trivial
  | pushLoad v => trivial
  | popLoad => trivial
  | pushSeq v pos => simp only [PcOk, ht] at h ⊢; exact h
  | pushCas v pos =>
    obtain ⟨h1, h2⟩ := h
    refine ⟨by omega, fun he => ?_⟩
    obtain ⟨h3, h4⟩ := h2 (by omega)
    rw [ht, hh, hseq s.t (ne_mod_of_lt hqt (by omega)).symm]
    exact ⟨h3, h4⟩
  | pushWrite v pos =>
    obtain ⟨h1, h2, h3, h4⟩ := h
    have hc := hne _ h1 h2 (hother pos rfl)
    exact ⟨by omega, by omega, by rw [hseq _ hc]; exact h3, by rw [hpushed]; exact h4⟩
  | pushPublish v pos =>
    obtain ⟨h1, h2, h3, h4, h5⟩ := h
    have hc := hne _ h1 h2 (hother pos rfl)
    exact ⟨by omega, by omega, by rw [hseq _ hc]; exact h3, by rw [hpushed]; exact h4,
      by rw [hdat _ hc]; exact h5⟩
  | popSeq pos => simp only [PcOk, hh] at h ⊢; exact h
  | popCas pos =>
    obtain ⟨h1, h2⟩ := h
    refine ⟨by omega, fun he => ?_⟩
    obtain ⟨h3, h4⟩ := h2 (by omega)
    rw [ht, hh]
    refine ⟨h3, ?_⟩
    by_cases hqh : s.h = q
    · rcases hown with hown | hown
      · rw [hqh, hown, ← hqh]
        exact h4
      · rw [hqh, hown]
    · rw [hseq _ (hne _ (by omega) h3 hqh)]
      exact h4
  | popRead pos =>
    obtain ⟨h1, h2, h3, h4⟩ := h
    have hc : pos.toNat % N ≠ q % N := ne_mod_of_lt (by omega) (by omega)
    exact ⟨by omega, by omega, by rw [hseq _ hc]; exact h3, by rw [hpushed, hdat _ hc]; exact h4⟩
  | popPublish pos v =>
    obtain ⟨h1, h2, h3, h4⟩ := h
    have hc : pos.toNat % N ≠ q % N := ne_mod_of_lt (by omega) (by omega)
    exact ⟨by omega, by omega, by rw [hseq _ hc]; exact h3, by rw [hpushed]; exact h4⟩

omit [Fintype ι] [DecidableEq ι] in
/-- The popper of position `q` hands its cell on to position `q + N`. -/
theorem PcOk.pop_cell {N q : ℕ} {s s' : State ι T} {pc : Pc T} (h : PcOk N s pc)
    (hq : q < s.h) (hqt : s.t ≤ q + N) (hht : s.h ≤ s.t)
    (hh : s'.h = s.h) (ht : s'.t = s.t) (hpushed : s'.pushed = s.pushed)
    (hseq : ∀ p, p % N ≠ q % N → s'.seq N p = s.seq N p)
    (hown : s'.seq N q = q + N) (hdat : s'.dat N = s.dat N)
    (hother : ∀ pos, pc.popPos = some pos → pos.toNat ≠ q) : PcOk N s' pc := by
  have hfill : ∀ p, s.h ≤ p → p < s.t → p % N ≠ q % N := fun p h1 h2 =>
    (ne_mod_of_lt (by omega) (by omega)).symm
  have hpop : ∀ p, p < s.h → s.t ≤ p + N → p ≠ q → p % N ≠ q % N := by
    intro p h1 h2 h3
    rcases Nat.lt_or_gt_of_ne h3 with hlt | hgt
    · exact ne_mod_of_lt hlt (by omega)
    · exact (ne_mod_of_lt hgt (by omega)).symm
  cases pc with
  | idle => trivial
  | pushLoad v => trivial
  | popLoad => trivial
  | pushSeq v pos => simp only [PcOk, ht] at h ⊢; exact h
  | pushCas v pos =>
    obtain ⟨h1, h2⟩ := h
    refine ⟨by omega, fun he => ?_⟩
    obtain ⟨h3, h4⟩ := h2 (by omega)
    rw [ht, hh]
    refine ⟨?_, h4⟩
    by_cases htq : s.t = q + N
    · have : s'.seq N s.t = s'.seq N q := by rw [htq, State.seq, State.seq, Nat.add_mod_right]
      omega
    · rw [hseq _ (ne_mod_of_lt (by omega) (by omega)).symm]
      exact h3
  | pushWrite v pos =>
    obtain ⟨h1, h2, h3, h4⟩ := h
    exact ⟨by omega, by omega, by rw [hseq _ (hfill _ h1 h2)]; exact h3,
      by rw [hpushed]; exact h4⟩
  | pushPublish v pos =>
    obtain ⟨h1, h2, h3, h4, h5⟩ := h
    exact ⟨by omega, by omega, by rw [hseq _ (hfill _ h1 h2)]; exact h3,
      by rw [hpushed]; exact h4, by rw [hdat]; exact h5⟩
  | popSeq pos => simp only [PcOk, hh] at h ⊢; exact h
  | popCas pos =>
    obtain ⟨h1, h2⟩ := h
    refine ⟨by omega, fun he => ?_⟩
    obtain ⟨h3, h4⟩ := h2 (by omega)
    rw [ht, hh, hseq _ (hfill _ (le_refl _) h3)]
    exact ⟨h3, h4⟩
  | popRead pos =>
    obtain ⟨h1, h2, h3, h4⟩ := h
    have hc := hpop _ h1 h2 (hother pos rfl)
    exact ⟨by omega, by omega, by rw [hseq _ hc]; exact h3, by rw [hpushed, hdat]; exact h4⟩
  | popPublish pos v =>
    obtain ⟨h1, h2, h3, h4⟩ := h
    have hc := hpop _ h1 h2 (hother pos rfl)
    exact ⟨by omega, by omega, by rw [hseq _ hc]; exact h3, by rw [hpushed]; exact h4⟩

end Steps

end KwNet.Mpmc
