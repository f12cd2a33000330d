import KwNet.Threads.Mutex

/-!
# `CountDownLatch`

`Threads/CountDownLatch.cpp`.  `countDown` calls `notifyAll` only when it takes `count` to zero, and `wait` sleeps
while `count` is positive.

* `code` — the three members, as the procedures of one mutex;
* **`latch_releases`** — `wait` returns after `count` calls of `countDown` and not before, and then it does return.

`count` does not go below the least `int`.
-/

namespace KwNet.CountDownLatch

open KwNet.Lib KwNet.Lib.Monitor KwNet.Mutex

inductive Member where
  | wait
  | countDown
  | getCount
  deriving DecidableEq

/-- What each member does with `count`. -/
def code : Member → Procedure ℤ
  | .wait => { guard := fun count => !decide (count > 0), body := id, wakes := fun _ => false }
  | .countDown => { guard := fun _ => true, body := fun count => count - 1, wakes := fun count => count - 1 == 0 }
  | .getCount => { guard := fun _ => true, body := id, wakes := fun _ => false }

/-- The calls of `countDown` in a log. -/
def countDowns {ι : Type} (log : List (ι × Member × ℤ)) : ℕ := log.countP fun e => e.2.1 = .countDown

/-- Only `wait` has to wait. -/
theorem eq_wait_of_guard {m : Member} {count : ℤ} (h : (code m).guard count = false) : m = .wait ∧ 0 < count := by
  cases m with
  | wait =>
    simp only [code, Bool.not_eq_false', decide_eq_true_eq] at h
    exact ⟨rfl, h⟩
  | countDown => cases h
  | getCount => cases h

/-- From a positive count to one that is not there is only the step from one to zero. -/
theorem signals : Signals code := by
  intro m m' count _ hbefore hafter
  obtain ⟨rfl, hpos⟩ := eq_wait_of_guard hbefore
  cases m with
  | countDown =>
    simp only [code, Bool.not_eq_true', decide_eq_false_iff_not] at hafter
    show (count - 1 == 0) = true
    rw [beq_iff_eq]
    omega
  | wait => exact absurd hafter (by rw [show (code .wait).body count = count from rfl, hbefore]; decide)
  | getCount => exact absurd hafter (by rw [show (code .getCount).body count = count from rfl, hbefore]; decide)

variable {ι : Type} {count : ℤ}

theorem countDowns_concat (log : List (ι × Member × ℤ)) (t : ι) (m : Member) (d : ℤ) :
    countDowns (log ++ [(t, m, d)]) = countDowns log + if m = .countDown then 1 else 0 := by
  simp only [countDowns, List.countP_append, List.countP_singleton, decide_eq_true_eq]

/-- **The count** is what is left of the first one. -/
theorem serves_count {log : List (ι × Member × ℤ)} {d : ℤ} (h : Serves code count log d) : d = count - countDowns log := by
  induction h with
  | nil => exact (sub_zero count).symm
  | @serve log d t m h hguard ih =>
    rw [countDowns_concat]
    cases m with
    | countDown =>
      show d - 1 = _
      rw [if_pos rfl, ih]
      push_cast
      omega
    | wait =>
      show d = _
      rw [if_neg (by decide), ih, Nat.add_zero]
    | getCount =>
      show d = _
      rw [if_neg (by decide), ih, Nat.add_zero]

variable [DecidableEq ι] [Fintype ι]

/-- **The latch** holds and releases.  Each call sees the count less the calls of `countDown` before it, so that
`wait` returns after `count` of them only; and however the threads are scheduled afterwards, they do a bounded
number of accesses, and where none is left and there were `count` calls of `countDown`, nobody waits. -/
theorem latch_releases {as : List (Mutex.Action ι Member)} {s : Mutex.State ι Member ℤ}
    (hrun : run (Mutex.step code) (Mutex.State.init ι Member count) as = some s) :
    (∀ pre t m d post, s.served = pre ++ (t, m, d) :: post →
      d = count - countDowns pre ∧ (m = .wait → count ≤ countDowns pre)) ∧
    ∀ (ts : List ι) (s' : Mutex.State ι Member ℤ), run (Mutex.State.access code) s ts = some s' →
      ts.length ≤ s.work ∧
      ((∀ t, s'.access code t = none) → count ≤ countDowns s'.served → ∀ t, s'.pc t = .outside) := by
  constructor
  · intro pre t m d post heq
    obtain ⟨hpre, hguard⟩ := (ok_of_reachable (reachable_view hrun).1).serves.split heq
    have hd := serves_count hpre
    refine ⟨hd, fun hm => ?_⟩
    rw [hm] at hguard
    simp only [code, Bool.not_eq_true', decide_eq_false_iff_not] at hguard
    omega
  · intro ts s' hleft
    obtain ⟨hlength, hrest⟩ := comes_to_rest signals hrun hleft
    refine ⟨hlength, fun hstuck hall t => ?_⟩
    rcases hrest hstuck t with hout | ⟨m, -, hguard⟩
    · exact hout
    · have hserves := (ok_of_reachable (reachable_left hrun hleft).1).serves
      have hdatum : s'.datum = count - countDowns s'.served := serves_count hserves
      have hpos := (eq_wait_of_guard hguard).2
      omega

/-- One thread waits for the other, which counts down once. -/
def releaseRun : List (Mutex.Action Bool Member) :=
  [.call false .wait, .step false, .step false, .step false, .call true .countDown, .step false, .step false,
    .step true, .step true, .step true, .step true, .step true, .step false, .step false, .step false, .step false,
    .step false]

theorem latch_releases_one :
    ∃ s, run (Mutex.step code) (Mutex.State.init Bool Member 1) releaseRun = some s ∧
      s.served = [(true, .countDown, 1), (false, .wait, 0)] ∧
      (∀ (pre : List (Bool × Member × ℤ)) t m (d : ℤ) post, s.served = pre ++ (t, m, d) :: post →
        d = 1 - countDowns pre ∧ (m = Member.wait → 1 ≤ (countDowns pre : ℤ))) ∧
      ∀ (ts : List Bool) (s' : Mutex.State Bool Member ℤ), run (Mutex.State.access code) s ts = some s' →
        ts.length ≤ s.work ∧
        ((∀ t, s'.access code t = none) → 1 ≤ (countDowns s'.served : ℤ) → ∀ t, s'.pc t = .outside) :=
  ⟨_, rfl, rfl, latch_releases (show run (Mutex.step code) (Mutex.State.init Bool Member 1) releaseRun = some _ from rfl)⟩

/-- Asleep in `wait`, the first thread does not hold the mutex; the second one does. -/
theorem holder_tells_counting_down :
    ∃ s, run (Mutex.step code) (Mutex.State.init Bool Member 1) (releaseRun.take 9) = some s ∧
      s.isLockedByThisThread false = false ∧ s.isLockedByThisThread true = true ∧ HolderTells s :=
  ⟨_, rfl, rfl, rfl,
    holder_tells (show run (Mutex.step code) (Mutex.State.init Bool Member 1) (releaseRun.take 9) = some _ from rfl)⟩

end KwNet.CountDownLatch
