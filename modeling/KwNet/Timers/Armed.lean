import KwNet.Timers.Moves

/-!
# When the timerfd is armed early enough

`Armed s`: if there are timers, the timerfd expires no later than the earliest of them, or than 100
microseconds after it was set.

* **`addTimerInLoop_cases`** — an insertion re-arms exactly when it makes a new earliest key;
* `reset` always sets the timerfd anew, for the earliest of the repeating timers it puts back, and for
  the largest time there is when it puts none back: the timers that stay pending do not count;
* **`armed_early_enough`** — so the timerfd is armed early enough in every run in which, whenever
  `handle_timers` ends, no pending timer comes before the repeating ones (`Rearms`);
* **`one_shot_not_armed`** — two timers that run once are enough to break it.
-/

namespace KwNet.Timers

open KwNet.Lib

variable {κ : Type} [DecidableEq κ] {clock : ℕ → ℕ}

/-- The timerfd is armed to expire no later than the earliest key, or 100 microseconds after the
arming. -/
def Armed (s : State κ) : Prop :=
  ∀ e, s.activeTimers.first? = some e →
    ∃ a, s.timerfd = some a ∧ a.expiry ≤ max e.1 (a.time + 100)

/-- The same, against every key. -/
def ArmedAll (s : State κ) : Prop :=
  ∀ k ∈ s.activeTimers.keys, ∃ a, s.timerfd = some a ∧ a.expiry ≤ max k (a.time + 100)

omit [DecidableEq κ] in
theorem ArmedAll.armed {s : State κ} (h : ArmedAll s) : Armed s := by
  intro e he
  exact h e.1 (SortedMap.mem_keys.mpr ⟨e.2, SortedMap.first?_mem he⟩)

omit [DecidableEq κ] in
theorem Armed.all {s : State κ} (h : Armed s) : ArmedAll s := by
  intro k hk
  cases hfirst : s.activeTimers.first? with
  | none =>
    rw [SortedMap.first?_eq_none.mp hfirst] at hk
    cases hk
  | some e =>
    obtain ⟨a, ha, hle⟩ := h e hfirst
    have hek := SortedMap.first?_le hfirst hk
    exact ⟨a, ha, hle.trans (max_le_max_right _ hek)⟩

/-- The seconds and nanoseconds add up to the period. -/
theorem ItValue.arm_split (t period : ℕ) :
    ItValue.arm ⟨period / 1000000, period % 1000000 * 1000⟩ t = ⟨t, t + period⟩ := by
  show (⟨t, t + (period / 1000000 * 1000000 + period % 1000000 * 1000 / 1000)⟩ : Arming) = _
  rw [Nat.mul_div_cancel _ (by decide), Nat.div_add_mod']

theorem periodFromNow_arm (t x : ℕ) : (periodFromNow t x).arm t = ⟨t, max x (t + 100)⟩ := by
  unfold periodFromNow
  rw [ItValue.arm_split]
  congr 1
  split_ifs <;> omega

omit [DecidableEq κ] in
theorem updateFd_timerfd (s : State κ) (x : ℕ) :
    (s.updateFd clock x).timerfd = some ⟨clock s.reads, max x (clock s.reads + 100)⟩ := by
  rw [State.updateFd, periodFromNow_arm]

variable {s s' : State κ} {id : κ} {noOwner : Bool}

/-- **What `addTimerInLoop` does.**  The time of the timer is a key afterwards; the timerfd is set for it
if it is a new key before all others, and left alone otherwise. -/
theorem addTimerInLoop_cases (h : s.addTimerInLoop clock id noOwner = some s') :
    (∀ k, k ∈ s'.activeTimers.keys ↔ k = (s.timer id).triggerTime ∨ k ∈ s.activeTimers.keys) ∧
      ((s'.timerfd = some ⟨clock s.reads, max (s.timer id).triggerTime (clock s.reads + 100)⟩ ∧
          ∀ k ∈ s.activeTimers.keys, (s.timer id).triggerTime < k) ∨
        (s'.timerfd = s.timerfd ∧ ∃ k ∈ s.activeTimers.keys, k ≤ (s.timer id).triggerTime)) := by
  obtain ⟨r, hins, rfl⟩ := Option.map_eq_some_iff.mp h
  obtain ⟨m, earlier⟩ := r
  rcases insert_cases hins with ⟨b, hfind, -, heq⟩ | ⟨hkey, rfl, hfirst⟩
  · obtain ⟨rfl, rfl⟩ := Prod.mk.inj heq
    have hkey : (s.timer id).triggerTime ∈ s.activeTimers.keys :=
      SortedMap.mem_keys.mpr ⟨b, SortedMap.find?_eq_some.mp hfind⟩
    refine ⟨fun k => ⟨.inr, fun hk => ?_⟩, .inr ⟨rfl, _, hkey, Nat.le_refl _⟩⟩
    rcases hk with rfl | hk
    · exact hkey
    · exact hk
  · cases earlier with
    | true =>
      exact ⟨fun k => SortedMap.mem_keys_set, .inl ⟨updateFd_timerfd _ _, hfirst.mp rfl⟩⟩
    | false =>
      refine ⟨fun k => SortedMap.mem_keys_set, .inr ⟨rfl, ?_⟩⟩
      by_contra hnone
      have hall : ∀ k ∈ s.activeTimers.keys, (s.timer id).triggerTime < k := fun k hk =>
        Nat.lt_of_not_le fun hle => hnone ⟨k, hk, hle⟩
      have htrue := hfirst.mpr hall
      cases htrue

/-! ### Adding and cancelling -/

theorem ArmedAll.addTimerInLoop (hA : ArmedAll s)
    (h : s.addTimerInLoop clock id noOwner = some s') : ArmedAll s' := by
  obtain ⟨hkeys, hfd⟩ := addTimerInLoop_cases h
  intro k hk
  rcases hfd with ⟨hfd, hfirst⟩ | ⟨hfd, j, hj, hle⟩
  · refine ⟨_, hfd, max_le_max_right _ ?_⟩
    rcases (hkeys k).mp hk with rfl | hk'
    · exact Nat.le_refl _
    · exact (hfirst k hk').le
  · rw [hfd]
    rcases (hkeys k).mp hk with rfl | hk'
    · obtain ⟨a, ha, hexp⟩ := hA j hj
      exact ⟨a, ha, hexp.trans (max_le_max_right _ hle)⟩
    · exact hA k hk'

/-- Cancelling never re-arms, and never has to. -/
theorem ArmedAll.cancelTimerInLoop (hA : ArmedAll s) : ArmedAll (s.cancelTimerInLoop id) := by
  intro k hk
  rw [cancelTimerInLoop_timerfd]
  exact hA k (cancelTimerInLoop_keys hk)

/-! ### The end of `handle_timers` -/

/-- The next time of a timer that `reset(now)` puts back. -/
def State.nextTime (s : State κ) (now : ℕ) (id : κ) : ℕ := ((s.timer id).reset now).triggerTime

/-- The earliest next time of the repeating timers that were run; `0xffffffffffffffff` if there are
none. -/
def State.earliestNext (s : State κ) (now : ℕ) : ℕ :=
  (s.triggeredTimers.map (s.nextTime now)).foldl min 0xffffffffffffffff

/-- The time at which `reset(now)` sets the timerfd last. -/
def State.rearmTime (clock : ℕ → ℕ) (s : State κ) (now : ℕ) : ℕ :=
  clock ((s.triggeredTimers.foldlM (State.readd clock now) (s, 0xffffffffffffffff)).elim s.reads
    fun r => r.1.reads)

/-- When `handle_timers` ends, no timer that stays pending comes before the earliest next time of the
repeating timers that were run, or the timerfd is set for at most 100 microseconds. -/
def Rearms (clock : ℕ → ℕ) (s : State κ) : Action κ → Prop
  | .step =>
    match s.pc with
    | .reset now =>
      ∀ k ∈ s.activeTimers.keys, s.earliestNext now ≤ max k (s.rearmTime clock now + 100)
    | _ => True
  | _ => True

/-- A timer at time zero is never armed late. -/
def ZeroArmed (s : State κ) : Prop :=
  0 ∈ s.activeTimers.keys → ∃ a, s.timerfd = some a ∧ a.expiry ≤ a.time + 100

theorem ZeroArmed.addTimerInLoop (hZ : ZeroArmed s)
    (h : s.addTimerInLoop clock id noOwner = some s') : ZeroArmed s' := by
  obtain ⟨hkeys, hfd⟩ := addTimerInLoop_cases h
  intro hzero
  rcases hfd with ⟨hfd, hfirst⟩ | ⟨hfd, j, hj, hle⟩
  · refine ⟨_, hfd, ?_⟩
    rcases (hkeys 0).mp hzero with ht | hk
    · simp [← ht]
    · exact absurd (hfirst 0 hk) (Nat.not_lt_zero _)
  · rw [hfd]
    rcases (hkeys 0).mp hzero with ht | hk
    · have hj0 : j = 0 := by omega
      exact hZ (hj0 ▸ hj)
    · exact hZ hk

theorem Timer.reset_reset (t : Timer) (now : ℕ) : (t.reset now).reset now = t.reset now := rfl

theorem readd_cases {now : ℕ} {r r' : State κ × ℕ} (h : State.readd clock now r id = some r') :
    (∀ k, k ∈ r'.1.activeTimers.keys ↔ k = r.1.nextTime now id ∨ k ∈ r.1.activeTimers.keys) ∧
      r'.2 = min r.2 (r.1.nextTime now id) ∧ r'.1.nextTime now = r.1.nextTime now ∧
      (ZeroArmed r.1 → ZeroArmed r'.1) := by
  obtain ⟨s', hadd, rfl⟩ := Option.map_eq_some_iff.mp h
  have htimer := addTimerInLoop_timer hadd
  obtain ⟨hkeys, -⟩ := addTimerInLoop_cases hadd
  simp only [Function.update_self] at hkeys
  refine ⟨hkeys, ?_, ?_, fun hZ => ?_⟩
  · simp only [htimer, Function.update_self, State.nextTime]
  · funext j
    by_cases hj : j = id
    · subst hj
      simp only [State.nextTime, htimer, Function.update_self, Timer.reset_reset]
    · simp only [State.nextTime, htimer, Function.update_of_ne hj]
  · refine ZeroArmed.addTimerInLoop ?_ hadd
    exact hZ

/-- **The loop of `reset`.**  `earliest` ends up at the earliest next time; every new key is a next
time. -/
theorem readd_fold {now : ℕ} {ids : List κ} {r r' : State κ × ℕ}
    (h : ids.foldlM (State.readd clock now) r = some r') :
    r'.2 = (ids.map (r.1.nextTime now)).foldl min r.2 ∧ r'.2 ≤ r.2 ∧
      (∀ k ∈ r'.1.activeTimers.keys, k ∈ r.1.activeTimers.keys ∨ r'.2 ≤ k) ∧
      (r'.2 = 0 → r.2 = 0 ∨ 0 ∈ r'.1.activeTimers.keys) ∧
      (∀ k ∈ r.1.activeTimers.keys, k ∈ r'.1.activeTimers.keys) ∧
      (ZeroArmed r.1 → ZeroArmed r'.1) := by
  induction ids generalizing r with
  | nil =>
    cases h
    exact ⟨rfl, Nat.le_refl _, fun k hk => .inl hk, .inl, fun k hk => hk, id⟩
  | cons id ids ih =>
    rw [List.foldlM_cons] at h
    obtain ⟨r₁, hstep, hrest⟩ := Option.bind_eq_some_iff.mp h
    obtain ⟨hkeys, hmin, hnext, hzero⟩ := readd_cases hstep
    obtain ⟨hfold, hle, hnew, hnull, hkeep, hzero'⟩ := ih hrest
    refine ⟨?_, ?_, fun k hk => ?_, fun hz => ?_, fun k hk => hkeep k ((hkeys k).mpr (.inr hk)),
      hzero' ∘ hzero⟩
    · rw [hfold, hnext, hmin]
      rfl
    · exact hle.trans (hmin ▸ min_le_left _ _)
    · rcases hnew k hk with hk' | hle'
      · rcases (hkeys k).mp hk' with rfl | hk''
        · exact .inr (hle.trans (hmin ▸ min_le_right _ _))
        · exact .inl hk''
      · exact .inr hle'
    · rcases hnull hz with hz' | hin
      · rw [hmin] at hz'
        rcases Nat.le_total r.2 (r.1.nextTime now id) with hl | hl
        · rw [min_eq_left hl] at hz'
          exact .inl hz'
        · rw [min_eq_right hl] at hz'
          exact .inr (hkeep 0 ((hkeys 0).mpr (.inl hz'.symm)))
      · exact .inr hin

/-- **`reset` arms the timerfd**, provided nothing that stays pending comes before what it puts
back. -/
theorem reset_armed {now : ℕ} (h : s.reset clock now = some s')
    (hlater : ∀ k ∈ s.activeTimers.keys, now < k)
    (hrearms : ∀ k ∈ s.activeTimers.keys, s.earliestNext now ≤ max k (s.rearmTime clock now + 100)) :
    ArmedAll s' := by
  obtain ⟨r, hfold, rfl⟩ := Option.map_eq_some_iff.mp h
  obtain ⟨hearliest, -, hnew, hnull, -, hzero⟩ := readd_fold hfold
  have htime : s.rearmTime clock now = clock r.1.reads := by rw [State.rearmTime, hfold]; rfl
  have hZ : ZeroArmed s := fun hin => absurd (hlater 0 hin) (Nat.not_lt_zero _)
  by_cases hr : r.2 = 0
  · -- the timerfd was set when time zero was inserted, and not since
    rw [if_neg (not_not.mpr hr)]
    have hin : 0 ∈ r.1.activeTimers.keys := (hnull hr).resolve_left (Nat.succ_ne_zero _)
    obtain ⟨a, ha, hexp⟩ := hzero hZ hin
    exact fun k _ => ⟨a, ha, hexp.trans (le_max_right _ _)⟩
  · rw [if_pos hr]
    intro k hk
    refine ⟨_, updateFd_timerfd r.1 r.2, max_le ?_ (le_max_right _ _)⟩
    rcases hnew k hk with hk' | hle
    · have hle := hrearms k hk'
      rw [htime, State.earliestNext, ← hearliest] at hle
      exact hle
    · exact hle.trans (le_max_left _ _)

/-! ### Every run -/

/-- The timerfd is armed between the operations; `reset` finds only timers that are not due. -/
structure FdInv (s : State κ) : Prop where
  armed : s.pc = .idle → ArmedAll s
  later : ∀ now, s.pc = .reset now → ∀ k ∈ s.activeTimers.keys, now < k

omit [DecidableEq κ] in
theorem fdInv_init (timer : κ → Timer) : FdInv (State.init timer) where
  armed := by intro _ k hk; cases hk
  later := by intro now h; cases h

omit [DecidableEq κ] in
theorem FdInv.of_busy (hidle : s.pc ≠ .idle) (hreset : ∀ now, s.pc ≠ .reset now) : FdInv s :=
  ⟨fun h => absurd h hidle, fun now h => absurd h (hreset now)⟩

theorem FdInv.move {a : Action κ} (hI : FdInv s) (hP : Rearms clock s a) (h : Move clock s a s') :
    FdInv s' := by
  cases h with
  | @add id noOwner s₁ huser hadd =>
    have hpc := addTimerInLoop_pc hadd
    refine ⟨fun hidle => ?_, fun now hreset => ?_⟩
    · have harmed := (hI.armed (hpc.symm.trans hidle)).addTimerInLoop hadd
      exact harmed
    · rw [hpc.symm.trans hreset] at huser
      cases huser
  | @cancel id huser =>
    have hpc : (s.cancelTimerInLoop id).pc = s.pc := cancelTimerInLoop_pc
    refine ⟨fun hidle => ?_, fun now hreset => ?_⟩
    · have harmed : ArmedAll (s.cancelTimerInLoop id) :=
        (hI.armed (hpc.symm.trans hidle)).cancelTimerInLoop
      exact harmed
    · rw [hpc.symm.trans hreset] at huser
      cases huser
  | handle hpc => exact .of_busy (by simp [State.handleTimers]) (by simp [State.handleTimers])
  | fire hpc hid => exact .of_busy (by simp) (by simp)
  | ret hpc => exact .of_busy (by rw [afterRun_pc]; simp) (by rw [afterRun_pc]; simp)
  | bucket hpc hfirst hle => exact .of_busy (by simp) (by simp)
  | @leave now e hpc hfirst hlt =>
    refine ⟨fun h => absurd h (by simp), fun now' hreset k hk => ?_⟩
    cases hreset
    exact hlt.trans_le (SortedMap.first?_le hfirst hk)
  | sweep hpc hfirst hne => exact .of_busy (by simp) (by simp)
  | sweepLast hpc hfirst hempty =>
    refine ⟨fun h => absurd h (by simp), fun now' hreset k hk => ?_⟩
    change k ∈ (s.activeTimers.erase _).keys at hk
    rw [SortedMap.isEmpty_iff.mp hempty] at hk
    cases hk
  | @reset now s₁ hpc hreset =>
    refine ⟨fun _ => ?_, fun now' h => absurd h (by simp)⟩
    simp only [Rearms, hpc] at hP
    have harmed := reset_armed hreset (hI.later now hpc) hP
    exact harmed

/-- **The timerfd is armed early enough.**  For any timers, any clock and any sequence of operations,
with callbacks that may add and cancel timers themselves: if at the end of each `handle_timers` no
pending timer comes before the earliest repeating timer put back, then whenever no `handle_timers` is
under way and there are timers, the timerfd expires no later than the earliest of them, or 100
microseconds after it was armed. -/
theorem armed_early_enough (timer : κ → Timer) (as : List (Action κ)) (s : State κ)
    (hrearms : Along (step clock) (Rearms clock) (State.init timer) as)
    (hrun : run (step clock) (State.init timer) as = some s) (hidle : s.pc = .idle) : Armed s := by
  have hI : FdInv s :=
    run_induction_along (Rearms clock) FdInv (fdInv_init timer)
      (fun _ _ _ hI hP h => hI.move hP (step_cases h)) hrearms hrun
  exact (hI.armed hidle).armed

instance (clock : ℕ → ℕ) (s : State κ) : (a : Action κ) → Decidable (Rearms clock s a)
  | .addTimer _ _ => .isTrue trivial
  | .cancelTimer _ => .isTrue trivial
  | .handle => .isTrue trivial
  | .fire _ => .isTrue trivial
  | .ret => .isTrue trivial
  | .step =>
    match h : s.pc with
    | .reset now =>
      decidable_of_iff
        (∀ k ∈ s.activeTimers.keys, s.earliestNext now ≤ max k (s.rearmTime clock now + 100))
        (by simp only [Rearms, h])
    | .idle => .isTrue (by simp only [Rearms, h])
    | .loop _ => .isTrue (by simp only [Rearms, h])
    | .firing _ _ _ => .isTrue (by simp only [Rearms, h])
    | .callback _ _ _ _ => .isTrue (by simp only [Rearms, h])

/-- A clock that reads `0` when the first timer is added and `1000` from then on. -/
def twoTimes (k : ℕ) : ℕ := if k = 0 then 0 else 1000

theorem twoTimes_monotone : Monotone twoTimes := by
  intro j k hjk
  unfold twoTimes
  split_ifs <;> omega

/-- Two timers are added, and the first one is handled when it is due. -/
def handleFirst : List (Action Bool) :=
  [.addTimer false false, .addTimer true false, .handle, .step, .fire false, .ret, .step, .step, .step]

/-- A timer at `1000` that repeats every `500`, and a timer at `5000` that runs once. -/
def repeatingTimers : Bool → Timer
  | false => ⟨1000, 500, true⟩
  | true => ⟨5000, 0, false⟩

theorem armed_early_enough_repeating :
    ∃ s, Along (step twoTimes) (Rearms twoTimes) (State.init repeatingTimers) handleFirst ∧
      run (step twoTimes) (State.init repeatingTimers) handleFirst = some s ∧
      s.activeTimers.keys = [1500, 5000] ∧ s.timerfd = some ⟨1000, 1500⟩ ∧ Armed s :=
  have hrearms : Along (step twoTimes) (Rearms twoTimes) (State.init repeatingTimers) handleFirst := by
    decide
  have hrun : run (step twoTimes) (State.init repeatingTimers) handleFirst = some _ := rfl
  ⟨_, hrearms, hrun, rfl, rfl, armed_early_enough repeatingTimers handleFirst _ hrearms hrun rfl⟩

/-- Two timers that run once, at `1000` and `2000`. -/
def oneShotTimers : Bool → Timer
  | false => ⟨1000, 0, false⟩
  | true => ⟨2000, 0, false⟩

/-- **The second of two timers is never armed**: when the first one has run, the timerfd is set for the
largest time there is. -/
theorem one_shot_not_armed :
    ¬ ∀ clock : ℕ → ℕ, Monotone clock → ∀ (timer : Bool → Timer) (as : List (Action Bool))
      (s : State Bool), run (step clock) (State.init timer) as = some s → s.pc = .idle → Armed s := by
  intro hall
  have hrun : run (step twoTimes) (State.init oneShotTimers) handleFirst = some _ := rfl
  obtain ⟨a, ha, hle⟩ := hall twoTimes twoTimes_monotone oneShotTimers handleFirst _ hrun rfl
    (2000, [(true, false)]) rfl
  cases ha
  revert hle
  decide

end KwNet.Timers
