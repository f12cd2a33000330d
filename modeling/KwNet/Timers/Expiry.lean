import KwNet.Timers.Armed

/-!
# The timerfd and an empty map

`handle_timers` reads `activeTimers.begin()->first` before it has looked whether there is a first bucket.  It is
dispatched when `epoll_wait` has reported the timerfd, which only `updateFd` sets: `cancelTimer` takes timers out
of the map and leaves the timerfd as it is.

* `Watched` is the queue with that report, which stands until `handle_timers` is dispatched, whatever is done
  to the timerfd meanwhile;
* `Covered` relates the two: with an empty map, the timerfd was set for `0xffffffffffffffff`, or the last timer
  was cancelled;
* **`begin_of_a_bucket`** — `begin()` is read of an empty map exactly when the timerfd is answered between a
  `cancelTimer` that takes the last timer and the next `addTimer`;
* **`begin_of_empty_map`** — which one timer is enough for.
-/

namespace KwNet.Timers

open KwNet.Lib

/-- The queue and what `epoll_wait` has reported. -/
structure Watched (κ : Type) where
  queue : State κ
  /-- The timerfd is among the active channels, and `handle_timers` has not been dispatched for it. -/
  reported : Bool
  /-- `cancelTimer` has taken the last timer, and none was added since. -/
  emptied : Bool

inductive Watch (κ : Type) where
  /-- `epoll_wait` reports that the timerfd has expired. -/
  | report
  | op (a : Action κ)

/-- `handle_timers` is dispatched. -/
def Action.dispatches {κ : Type} : Action κ → Bool
  | .handle => true
  | _ => false

/-- The loop's thread is outside `handle_timers`. -/
def Pc.outside {κ : Type} : Pc κ → Bool
  | .idle => true
  | _ => false

variable {κ : Type}

/-- The history of `emptied`: an action has led to `q`. -/
def Watched.emptiedBy (w : Watched κ) (q : State κ) : Action κ → Bool
  | .addTimer _ _ => false
  | .cancelTimer _ =>
    w.emptied || (w.queue.pc.outside && !w.queue.activeTimers.isEmpty && q.activeTimers.isEmpty)
  | _ => w.emptied

variable [DecidableEq κ] (clock : ℕ → ℕ)

/-- The transition function.  The timerfd is reported once the next reading of the clock will show its expiry;
`handle_timers` answers a report. -/
def Watched.step (w : Watched κ) : Watch κ → Option (Watched κ)
  | .report =>
    match w.queue.timerfd with
    | some a => if w.queue.pc.outside ∧ a.expiry ≤ clock w.queue.reads then some { w with reported := true } else none
    | none => none
  | .op a =>
    if a.dispatches = true ∧ w.reported = false then none
    else
      (Timers.step clock w.queue a).map fun q =>
        { queue := q, reported := w.reported && !a.dispatches, emptied := w.emptiedBy q a }

omit [DecidableEq κ] in
/-- The queue right after its constructor. -/
def Watched.init (timer : κ → Timer) : Watched κ := { queue := .init timer, reported := false, emptied := false }

omit [DecidableEq κ] in
/-- Where `begin()->first` is read there is a first bucket. -/
def Safe (w : Watched κ) : Prop := ∀ now, w.queue.pc = .loop now → w.queue.activeTimers.isEmpty = false

/-- The time that `reset` takes for never has not come. -/
def BeforeNever (w : Watched κ) : Watch κ → Prop
  | .report => clock w.queue.reads < 0xffffffffffffffff
  | .op _ => True

/-- `handle_timers` is not dispatched between a `cancelTimer` that took the last timer and the next
`addTimer`. -/
def Spared (w : Watched κ) : Watch κ → Prop
  | .report => True
  | .op a => a.dispatches = true → w.emptied = false

/-- The timerfd and the map. -/
structure Covered (w : Watched κ) : Prop where
  outside : w.queue.pc = .idle → w.queue.activeTimers.isEmpty = true → w.emptied = true ∨
    (w.reported = false ∧ ∀ a, w.queue.timerfd = some a → 0xffffffffffffffff ≤ a.expiry)
  inside : w.queue.pc ≠ .idle → w.reported = false
  emptied : w.emptied = true → w.queue.pc = .idle ∧ w.queue.activeTimers.isEmpty = true

variable {clock} {s s' : State κ} {id : κ} {noOwner : Bool}

omit [DecidableEq κ] in
theorem Pc.eq_idle {pc : Pc κ} (h : pc.outside = true) : pc = .idle := by
  cases pc with
  | idle => rfl
  | _ => cases h

/-! ### What the operations do to an empty map -/

omit [DecidableEq κ] in
theorem isEmpty_of_mem {m : SortedMap ℕ (Bucket κ)} {k : ℕ} (h : k ∈ m.keys) : m.isEmpty = false := by
  rw [Bool.eq_false_iff]
  intro hempty
  rw [SortedMap.isEmpty_iff.mp hempty] at h
  cases h

theorem addTimerInLoop_isEmpty (h : s.addTimerInLoop clock id noOwner = some s') :
    s'.activeTimers.isEmpty = false :=
  isEmpty_of_mem (((addTimerInLoop_cases h).1 _).mpr (.inl rfl))

theorem cancelTimerInLoop_isEmpty (h : s.activeTimers.isEmpty = true) :
    (s.cancelTimerInLoop id).activeTimers.isEmpty = true := by
  rw [SortedMap.isEmpty_iff] at h ⊢
  refine List.eq_nil_iff_forall_not_mem.mpr fun k hk => ?_
  have hk' := cancelTimerInLoop_keys hk
  rw [h] at hk'
  cases hk'

theorem readd_isEmpty {now : ℕ} {r r' : State κ × ℕ} (h : State.readd clock now r id = some r') :
    r'.1.activeTimers.isEmpty = false := by
  obtain ⟨s', hadd, rfl⟩ := Option.map_eq_some_iff.mp h
  exact addTimerInLoop_isEmpty hadd

/-- Putting timers back leaves no empty map. -/
theorem readd_fold_isEmpty {now : ℕ} {ids : List κ} {r r' : State κ × ℕ}
    (h : ids.foldlM (State.readd clock now) r = some r') :
    r'.1.activeTimers.isEmpty = false ∨ (ids = [] ∧ r' = r) := by
  induction ids generalizing r with
  | nil =>
    cases h
    exact .inr ⟨rfl, rfl⟩
  | cons id ids ih =>
    rw [List.foldlM_cons] at h
    obtain ⟨r₁, hstep, hrest⟩ := Option.bind_eq_some_iff.mp h
    refine .inl ?_
    rcases ih hrest with hne | ⟨-, rfl⟩
    · exact hne
    · exact readd_isEmpty hstep

/-- **An empty map after `reset`** has the timerfd set for never. -/
theorem reset_isEmpty {now : ℕ} (h : s.reset clock now = some s') (hempty : s'.activeTimers.isEmpty = true) :
    ∀ a, s'.timerfd = some a → 0xffffffffffffffff ≤ a.expiry := by
  obtain ⟨r, hfold, rfl⟩ := Option.map_eq_some_iff.mp h
  have hmap : (if r.2 ≠ 0 then r.1.updateFd clock r.2 else r.1).activeTimers = r.1.activeTimers := by
    split <;> rfl
  rw [hmap] at hempty
  rcases readd_fold_isEmpty hfold with hne | ⟨-, rfl⟩
  · rw [hempty] at hne
    cases hne
  · intro a ha
    have hset : (0xffffffffffffffff : ℕ) ≠ 0 := by decide
    rw [if_pos hset, updateFd_timerfd, Option.some.injEq] at ha
    rw [← ha]
    exact le_max_left _ _

/-! ### The steps -/

variable {w w' : Watched κ}

omit [DecidableEq κ] in
theorem Covered.report (hC : Covered w) {a : Arming} (hfd : w.queue.timerfd = some a)
    (hpc : w.queue.pc.outside = true) (hexpired : a.expiry ≤ clock w.queue.reads)
    (hclock : clock w.queue.reads < 0xffffffffffffffff) : Covered { w with reported := true } where
  outside := by
    intro hidle hempty
    rcases hC.outside hidle hempty with h | ⟨-, hnever⟩
    · exact .inl h
    · have hle := hnever a hfd
      omega
  inside := by
    intro hbusy
    exact absurd (Pc.eq_idle hpc) hbusy
  emptied := hC.emptied

omit [DecidableEq κ] in
/-- In the pass the history of `emptied` stands still. -/
theorem Covered.not_emptied (hC : Covered w) (hbusy : w.queue.pc ≠ .idle) : w.emptied = false := by
  rw [Bool.eq_false_iff]
  intro h
  exact hbusy (hC.emptied h).1

omit [DecidableEq κ] in
/-- A step that stays in the pass. -/
theorem Covered.within (hC : Covered w) (hbusy : w.queue.pc ≠ .idle) {q : State κ} (hq : q.pc ≠ .idle) :
    Covered { queue := q, reported := w.reported && true, emptied := w.emptied } where
  outside := fun hidle => absurd hidle hq
  inside := by
    intro _
    rw [Bool.and_true]
    exact hC.inside hbusy
  emptied := by
    intro h
    rw [hC.not_emptied hbusy] at h
    cases h

theorem Covered.cancel (hC : Covered w) :
    Covered { queue := w.queue.cancelTimer id, reported := w.reported && true
              emptied := w.emptiedBy (w.queue.cancelTimer id) (.cancelTimer id) } := by
  have hpc : (w.queue.cancelTimer id).pc = w.queue.pc := cancelTimerInLoop_pc
  have hfd : (w.queue.cancelTimer id).timerfd = w.queue.timerfd := cancelTimerInLoop_timerfd
  refine ⟨fun hidle hempty => ?_, fun hbusy => ?_, fun h => ?_⟩
  · have hidle' : w.queue.pc = .idle := hpc.symm.trans hidle
    have hout : w.queue.pc.outside = true := by rw [hidle']; rfl
    have hempty' : (w.queue.cancelTimer id).activeTimers.isEmpty = true := hempty
    rw [Watched.emptiedBy, hout, hempty', Bool.true_and, Bool.and_true, Bool.and_true, hfd]
    cases hbefore : w.queue.activeTimers.isEmpty with
    | true =>
      rw [Bool.not_true, Bool.or_false]
      exact hC.outside hidle' hbefore
    | false => exact .inl (Bool.or_true _)
  · rw [Bool.and_true]
    exact hC.inside fun hidle => hbusy (hpc.trans hidle)
  · rw [Watched.emptiedBy, Bool.or_eq_true, Bool.and_eq_true, Bool.and_eq_true] at h
    rw [hpc]
    rcases h with h | ⟨⟨hout, -⟩, hempty⟩
    · obtain ⟨hidle, hempty⟩ := hC.emptied h
      exact ⟨hidle, cancelTimerInLoop_isEmpty hempty⟩
    · exact ⟨Pc.eq_idle hout, hempty⟩

theorem Covered.add (hC : Covered w) {s₁ : State κ} (hadd : w.queue.addTimerInLoop clock id noOwner = some s₁) :
    Covered { queue := w.queue.record s₁ id, reported := w.reported && true, emptied := false } := by
  have hmap : s₁.activeTimers.isEmpty = false := addTimerInLoop_isEmpty hadd
  have hpc : s₁.pc = w.queue.pc := addTimerInLoop_pc hadd
  refine ⟨fun _ hempty => ?_, fun hbusy => ?_, fun h => ?_⟩
  · have hempty' : s₁.activeTimers.isEmpty = true := hempty
    rw [hmap] at hempty'
    cases hempty'
  · rw [Bool.and_true]
    exact hC.inside fun hidle => hbusy (hpc.trans hidle)
  · cases h

/-- **One step** keeps the timerfd and the map related, and `begin()` safe. -/
theorem Covered.step (hC : Covered w) {a : Watch κ} (hclock : BeforeNever clock w a) (hP : Spared w a)
    (h : w.step clock a = some w') : Covered w' ∧ Safe w' := by
  cases a with
  | report =>
    simp only [Watched.step] at h
    split at h
    · next a hfd =>
      split at h <;> cases h
      next hexp =>
        refine ⟨hC.report hfd hexp.1 hexp.2 hclock, fun now hpc => ?_⟩
        have hpc' : w.queue.pc = .loop now := hpc
        rw [hpc'] at hexp
        cases hexp.1
    · cases h
  | op a =>
    simp only [Watched.step] at h
    split at h
    · cases h
    · next hgo =>
      obtain ⟨q, hq, rfl⟩ := Option.map_eq_some_iff.mp h
      cases step_cases hq with
      | add huser hadd =>
        have hmap := addTimerInLoop_isEmpty hadd
        exact ⟨hC.add hadd, fun now _ => hmap⟩
      | cancel huser =>
        refine ⟨hC.cancel, fun now hpc => ?_⟩
        have hpc' : w.queue.pc = .loop now := cancelTimerInLoop_pc.symm.trans hpc
        rw [hpc'] at huser
        cases huser
      | handle hpc =>
        have hkept : w.emptied = false := hP rfl
        have hreported : w.reported = true := by
          rw [← Bool.not_eq_false]
          exact fun hno => hgo ⟨rfl, hno⟩
        have hmap : w.queue.activeTimers.isEmpty = false := by
          rw [Bool.eq_false_iff]
          intro hempty
          rcases hC.outside hpc hempty with hyes | ⟨hno, -⟩
          · rw [hkept] at hyes
            cases hyes
          · rw [hreported] at hno
            cases hno
        refine ⟨⟨fun hidle => ?_, fun _ => Bool.and_false _, fun hyes => ?_⟩, fun now _ => hmap⟩
        · cases hidle
        · have hyes' : w.emptied = true := hyes
          rw [hkept] at hyes'
          cases hyes'
      | fire hpc hid =>
        refine ⟨hC.within (by rw [hpc]; simp) (by simp), fun now hloop => ?_⟩
        cases hloop
      | ret hpc =>
        refine ⟨hC.within (by rw [hpc]; simp) (by rw [afterRun_pc]; simp), fun now hloop => ?_⟩
        have hloop' := afterRun_pc.symm.trans hloop
        cases hloop'
      | bucket hpc hfirst hle =>
        refine ⟨hC.within (by rw [hpc]; simp) (by simp), fun now hloop => ?_⟩
        cases hloop
      | leave hpc hfirst hlt =>
        refine ⟨hC.within (by rw [hpc]; simp) (by simp), fun now hloop => ?_⟩
        cases hloop
      | sweep hpc hfirst hne => exact ⟨hC.within (by rw [hpc]; simp) (by simp), fun now _ => hne⟩
      | sweepLast hpc hfirst hempty =>
        refine ⟨hC.within (by rw [hpc]; simp) (by simp), fun now hloop => ?_⟩
        cases hloop
      | reset hpc hreset =>
        have hbusy : w.queue.pc ≠ .idle := by rw [hpc]; simp
        have hnever := reset_isEmpty hreset
        refine ⟨⟨fun _ hempty => .inr ⟨?_, hnever hempty⟩, fun hno => absurd rfl hno, fun hyes => ?_⟩,
          fun now hloop => ?_⟩
        · rw [hC.inside hbusy]
          rfl
        · have hyes' : w.emptied = true := hyes
          rw [hC.not_emptied hbusy] at hyes'
          cases hyes'
        · cases hloop

/-- A dispatch that finds a bucket was spared. -/
theorem Covered.spared (hC : Covered w) {a : Watch κ} (h : w.step clock a = some w') (hsafe : Safe w') :
    Spared w a := by
  cases a with
  | report => trivial
  | op a =>
    intro hdispatch
    simp only [Watched.step] at h
    split at h
    · cases h
    · obtain ⟨q, hq, rfl⟩ := Option.map_eq_some_iff.mp h
      cases step_cases hq with
      | handle hpc =>
        have hmap : w.queue.activeTimers.isEmpty = false := hsafe _ rfl
        rw [Bool.eq_false_iff]
        intro hemptied
        rw [(hC.emptied hemptied).2] at hmap
        cases hmap
      | _ => cases hdispatch

omit [DecidableEq κ] in
theorem covered_init (timer : κ → Timer) : Covered (Watched.init timer) where
  outside := by
    intro _ _
    refine .inr ⟨rfl, fun a ha => ?_⟩
    cases ha
  inside := fun hbusy => absurd rfl hbusy
  emptied := by
    intro h
    cases h

/-- **When `begin()` is safe.**  In every run of additions, cancellations (from callbacks too) and expirations,
whose reports come before the time that stands for never: `begin()->first` is nowhere read of an empty map exactly
when `handle_timers` is never dispatched between a `cancelTimer` that took the last timer and the next
`addTimer`. -/
theorem begin_of_a_bucket (timer : κ → Timer) (ws : List (Watch κ)) (w : Watched κ)
    (hclock : Along (Watched.step clock) (BeforeNever clock) (Watched.init timer) ws)
    (hrun : run (Watched.step clock) (Watched.init timer) ws = some w) :
    Along (Watched.step clock) Spared (Watched.init timer) ws ↔
      Throughout (Watched.step clock) Safe (Watched.init timer) ws := by
  refine along_iff_throughout_of Spared (BeforeNever clock) Covered Safe
    (fun _ _ _ hC hQ hP h => hC.step hQ hP h) (fun _ _ _ hC _ h hJ => hC.spared h hJ) (covered_init timer) ?_
    hclock hrun
  intro now hpc
  cases hpc

instance (clock : ℕ → ℕ) (w : Watched κ) : (a : Watch κ) → Decidable (BeforeNever clock w a)
  | .report => inferInstanceAs (Decidable (_ < _))
  | .op _ => .isTrue trivial

omit [DecidableEq κ] in
instance (w : Watched κ) : (a : Watch κ) → Decidable (Spared w a)
  | .report => .isTrue trivial
  | .op _ => inferInstanceAs (Decidable (_ → _))

/-- One timer, which runs at `1000`. -/
def oneTimer : Unit → Timer := fun _ => ⟨1000, 0, false⟩

/-- The timer is added and expires. -/
def addAndExpire : List (Watch Unit) :=
  [.op (.addTimer () false), .report, .op .handle, .op .step, .op (.fire ()), .op .ret, .op .step, .op .step]

theorem begin_of_a_bucket_expired :
    Throughout (Watched.step twoTimes) Safe (Watched.init oneTimer) addAndExpire :=
  have hrun : run (Watched.step twoTimes) (Watched.init oneTimer) addAndExpire = some _ := rfl
  (begin_of_a_bucket oneTimer addAndExpire _ (by decide) hrun).mp (by decide)

/-- **The timer is cancelled and its timerfd expires.** -/
theorem begin_of_empty_map :
    ¬ ∀ (clock : ℕ → ℕ) (timer : Unit → Timer) (ws : List (Watch Unit)) (w : Watched Unit), Monotone clock →
      run (Watched.step clock) (Watched.init timer) ws = some w → Safe w := by
  intro hall
  have hrun : run (Watched.step twoTimes) (Watched.init oneTimer)
      [.op (.addTimer () false), .op (.cancelTimer ()), .report, .op .handle] = some _ := rfl
  have hsafe := hall twoTimes oneTimer _ _ twoTimes_monotone hrun 1000 rfl
  cases hsafe

end KwNet.Timers
