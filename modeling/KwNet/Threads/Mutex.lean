import KwNet.Lib.Bounded
import KwNet.Lib.Credit
import KwNet.Lib.Monitor

/-!
# `MutexLock` and `Condition`

`Threads/Mutex.h` and `Threads/Condition.h`: a pthread mutex that remembers who holds it, and a condition variable
over it.  What the sources do with the two has one form, a `MutexLockGuard` around a loop `while (..) cond.wait()`
and statements that may call `notifyAll()`: a `Procedure`.

* `Pc` names the accesses of such a piece of code, `step` executes one of them; `pthread_cond_wait` gives the
  mutex back and sleeps in one step, and may wake for no reason (`Action.rouse`);
* `State.view` — the same seen as a monitor; **`reachable_view`** — every access is a step there, or changes nothing;
* **`holder_tells`** — `isLockedByThisThread()` is right at any time, and `~MutexLock` finds `holder == 0`;
* **`comes_to_rest`** — left alone, the threads return or sleep, after a bounded number of accesses.

A thread is named by its `tid()`, which is not zero; `none` stands for the zero of `holder`.
-/

namespace KwNet.Mutex

open KwNet.Lib KwNet.Lib.Monitor

/-- The accesses, by the call they are made in. -/
inductive Pc (π : Type) where
  | outside
  /-- `pthread_mutex_lock` of `lock()`. -/
  | lock (p : π)
  /-- `assignHolder()` of `lock()`. -/
  | assign (p : π)
  /-- The condition of the loop, and what stands behind it. -/
  | test (p : π)
  /-- The constructor of `UnassignGuard` in `wait()`. -/
  | unassignWait (p : π)
  /-- `pthread_cond_wait`. -/
  | condWait (p : π)
  /-- In `pthread_cond_wait`, asleep. -/
  | asleep (p : π)
  /-- In `pthread_cond_wait`, awake and without the mutex. -/
  | relock (p : π)
  /-- The destructor of `UnassignGuard`. -/
  | assignWait (p : π)
  /-- `unassignHolder()` of `unlock()`. -/
  | unassign (p : π)
  /-- `pthread_mutex_unlock`. -/
  | unlock (p : π)
  deriving DecidableEq

structure State (ι π σ : Type) where
  /-- What the mutex protects. -/
  datum : σ
  /-- The owner of the `pthread_mutex_t`. -/
  mutex : Option ι
  holder : Option ι
  pc : ι → Pc π
  /-- The procedures executed, by whom and on which datum (history). -/
  served : List (ι × π × σ)

/-- A thread calls, does its next access, or wakes for no reason. -/
inductive Action (ι π : Type) where
  | call (t : ι) (p : π)
  | step (t : ι)
  | rouse (t : ι)

variable {ι π σ : Type} [DecidableEq ι]

/-- The constructor of `MutexLock`. -/
def State.init (ι π : Type) {σ : Type} (d₀ : σ) : State ι π σ := ⟨d₀, none, none, fun _ => .outside, []⟩

def State.goto (s : State ι π σ) (t : ι) (pc : Pc π) : State ι π σ := { s with pc := Function.update s.pc t pc }

/-- `isLockedByThisThread()`, called by `t`. -/
def State.isLockedByThisThread (s : State ι π σ) (t : ι) : Bool := s.holder == some t

def Pc.notified : Pc π → Pc π
  | .asleep p => .relock p
  | pc => pc

omit [DecidableEq ι] in
/-- `notifyAll()`. -/
def State.notifyAll (s : State ι π σ) : State ι π σ := { s with pc := fun t => (s.pc t).notified }

/-- The statements behind the loop. -/
def State.serve (code : π → Procedure σ) (s : State ι π σ) (t : ι) (p : π) : State ι π σ :=
  { (if (code p).wakes s.datum then s.notifyAll else s).goto t (.unassign p) with
    datum := (code p).body s.datum
    served := s.served ++ [(t, p, s.datum)] }

/-- The next access of `t`. -/
def State.access (code : π → Procedure σ) (s : State ι π σ) (t : ι) : Option (State ι π σ) :=
  match s.pc t with
  | .outside => none
  | .lock p => if s.mutex = none then some { s.goto t (.assign p) with mutex := some t } else none
  | .assign p => some { s.goto t (.test p) with holder := some t }
  | .test p => some (if (code p).guard s.datum then s.serve code t p else s.goto t (.unassignWait p))
  | .unassignWait p => some { s.goto t (.condWait p) with holder := none }
  | .condWait p => some { s.goto t (.asleep p) with mutex := none }
  | .asleep _ => none
  | .relock p => if s.mutex = none then some { s.goto t (.assignWait p) with mutex := some t } else none
  | .assignWait p => some { s.goto t (.test p) with holder := some t }
  | .unassign p => some { s.goto t (.unlock p) with holder := none }
  | .unlock _ => some { s.goto t .outside with mutex := none }

def step (code : π → Procedure σ) (s : State ι π σ) : Action ι π → Option (State ι π σ)
  | .call t p =>
    match s.pc t with
    | .outside => some (s.goto t (.lock p))
    | _ => none
  | .step t => s.access code t
  | .rouse t =>
    match s.pc t with
    | .asleep p => some (s.goto t (.relock p))
    | _ => none

/-! ### As a monitor -/

def Pc.place : Pc π → Place π
  | .outside => .outside
  | .lock p => .entering p
  | .assign p => .testing p
  | .test p => .testing p
  | .unassignWait p => .testing p
  | .condWait p => .testing p
  | .asleep p => .waiting p
  | .relock p => .woken p
  | .assignWait p => .testing p
  | .unassign p => .leaving p
  | .unlock p => .leaving p

omit [DecidableEq ι] in
def State.view (s : State ι π σ) : Monitor.State ι π σ := ⟨s.datum, s.mutex, fun t => (s.pc t).place, s.served⟩

/-- About to sleep. -/
def Pc.sleepy : Pc π → Option π
  | .unassignWait p => some p
  | .condWait p => some p
  | _ => none

/-- Between `assignHolder()` and `unassignHolder()`. -/
def Pc.holds : Pc π → Bool
  | .test _ => true
  | .unassignWait _ => true
  | .unassign _ => true
  | _ => false

/-- What holds beside the view: who is about to sleep has found the guard false, and `holder` is right. -/
structure Tied (code : π → Procedure σ) (s : State ι π σ) : Prop where
  sleepy : ∀ t p, (s.pc t).sleepy = some p → (code p).guard s.datum = false
  holder : ∀ t, s.holder = some t ↔ (s.pc t).holds = true

variable {code : π → Procedure σ} {d₀ : σ} {s s' : State ι π σ}

theorem pc_goto (s : State ι π σ) (t u : ι) (pc : Pc π) : (s.goto t pc).pc u = if u = t then pc else s.pc u :=
  Function.update_apply s.pc t pc u

/-- One thread moves. -/
theorem view_move {t : ι} {pc : Pc π} (hdatum : s'.datum = s.datum) (hserved : s'.served = s.served)
    (hpc : s'.pc = Function.update s.pc t pc) :
    s'.view = { s.view.goto t pc.place with owner := s'.mutex } := by
  have hplace : (fun u => (s'.pc u).place) = Function.update (fun u => (s.pc u).place) t pc.place := by
    funext u
    rw [hpc, Function.update_apply, Function.update_apply, apply_ite Pc.place]
  rw [State.view, hplace, hdatum, hserved]
  rfl

/-- A move that the monitor does not see. -/
theorem view_same {t : ι} {pc : Pc π} (hdatum : s'.datum = s.datum) (hserved : s'.served = s.served)
    (hmutex : s'.mutex = s.mutex) (hpc : s'.pc = Function.update s.pc t pc) (hplace : pc.place = (s.pc t).place) :
    s'.view = s.view := by
  rw [view_move hdatum hserved hpc, hmutex, hplace]
  show ({ s.view with place := Function.update s.view.place t (s.view.place t) } : Monitor.State ι π σ) = s.view
  rw [Function.update_eq_self]

omit [DecidableEq ι] in
theorem view_notifyAll (s : State ι π σ) : s.notifyAll.view = s.view.broadcast := by
  have hplace : (fun u => (s.notifyAll.pc u).place) = fun u => ((s.pc u).place).roused := by
    funext u
    show (s.pc u).notified.place = _
    cases s.pc u <;> rfl
  rw [State.view, hplace]
  rfl

theorem view_serve (s : State ι π σ) (t : ι) (p : π) : (s.serve code t p).view = s.view.serve code t p := by
  have hplace : (fun u => ((s.serve code t p).pc u).place) = (s.view.serve code t p).place := by
    funext u
    rw [place_serve]
    show (((if (code p).wakes s.datum then s.notifyAll else s).goto t (.unassign p)).pc u).place = _
    rw [pc_goto, apply_ite Pc.place]
    refine if_congr Iff.rfl rfl ?_
    by_cases hwakes : (code p).wakes s.datum = true
    · rw [if_pos hwakes, if_pos (show (code p).wakes s.view.datum = true from hwakes)]
      exact congrFun (congrArg Monitor.State.place (view_notifyAll s)) u
    · rw [if_neg hwakes, if_neg (show ¬(code p).wakes s.view.datum = true from hwakes)]
      rfl
  have hmutex : (s.serve code t p).mutex = s.mutex := by
    show (if (code p).wakes s.datum then s.notifyAll else s).mutex = s.mutex
    split <;> rfl
  have howner : (s.view.serve code t p).owner = s.mutex := owner_serve s.view t p
  show Monitor.State.mk _ (s.serve code t p).mutex _ _ = s.view.serve code t p
  rw [hplace, hmutex, ← howner]
  rfl

/-! ### One access -/

/-- The access is a step of the monitor, or none. -/
def Follows (code : π → Procedure σ) (s s' : State ι π σ) : Prop :=
  s'.view = s.view ∨ ∃ a, Monitor.step code s.view a = some s'.view

theorem Follows.reachable (h : Follows code s s') : Reachable (Monitor.step code) s.view s'.view := by
  rcases h with heq | ⟨a, ha⟩
  · rw [heq]
    exact .refl _
  · exact .single ha

theorem Follows.move {t : ι} {pc : Pc π} (a : Monitor.Action ι π) (hdatum : s'.datum = s.datum)
    (hserved : s'.served = s.served) (hpc : s'.pc = Function.update s.pc t pc)
    (h : Monitor.step code s.view a = some { s.view.goto t pc.place with owner := s'.mutex }) : Follows code s s' :=
  .inr ⟨a, h.trans (congrArg some (view_move hdatum hserved hpc).symm)⟩

theorem access_follows (hT : Tied code s) {t : ι} (h : s.access code t = some s') : Follows code s s' := by
  have hplace : ∀ {pc : Pc π}, s.pc t = pc → s.view.place t = pc.place := fun hpc => congrArg Pc.place hpc
  unfold State.access at h
  split at h
  · cases h
  · next p hpc =>
    split at h <;> cases h
    next hfree =>
      have hfree' : s.view.owner = none := hfree
      refine .move (.acquire t) rfl rfl rfl ?_
      simp only [Monitor.step, hplace hpc, hfree', Pc.place]
  · next p hpc =>
    cases h
    exact .inl (view_same rfl rfl rfl rfl (by rw [hpc]; rfl))
  · next p hpc =>
    cases h
    split
    · next hguard =>
      have hguard' : (code p).guard s.view.datum = true := hguard
      refine .inr ⟨.test t, ?_⟩
      simp only [Monitor.step, hplace hpc, Pc.place, hguard', if_true, view_serve]
    · exact .inl (view_same rfl rfl rfl rfl (by rw [hpc]; rfl))
  · next p hpc =>
    cases h
    exact .inl (view_same rfl rfl rfl rfl (by rw [hpc]; rfl))
  · next p hpc =>
    cases h
    have hguard : (code p).guard s.view.datum = false := hT.sleepy t p (by rw [hpc]; rfl)
    refine .move (.test t) rfl rfl rfl ?_
    simp only [Monitor.step, hplace hpc, Pc.place, hguard, Bool.false_eq_true, if_false]
  · cases h
  · next p hpc =>
    split at h <;> cases h
    next hfree =>
      have hfree' : s.view.owner = none := hfree
      refine .move (.acquire t) rfl rfl rfl ?_
      simp only [Monitor.step, hplace hpc, hfree', Pc.place]
  · next p hpc =>
    cases h
    exact .inl (view_same rfl rfl rfl rfl (by rw [hpc]; rfl))
  · next p hpc =>
    cases h
    exact .inl (view_same rfl rfl rfl rfl (by rw [hpc]; rfl))
  · next p hpc =>
    cases h
    refine .move (.leave t) rfl rfl rfl ?_
    simp only [Monitor.step, hplace hpc, Pc.place]

theorem step_follows (hT : Tied code s) {a : Action ι π} (h : step code s a = some s') : Follows code s s' := by
  cases a with
  | call t p =>
    simp only [step] at h
    split at h <;> cases h
    next hpc =>
      have hplace : s.view.place t = .outside := congrArg Pc.place hpc
      refine .move (.call t p) rfl rfl rfl ?_
      simp only [Monitor.step, hplace]
      rfl
  | step t => exact access_follows hT h
  | rouse t =>
    simp only [step] at h
    split at h <;> cases h
    next p hpc =>
      have hplace : s.view.place t = .waiting p := congrArg Pc.place hpc
      refine .move (.rouse t) rfl rfl rfl ?_
      simp only [Monitor.step, hplace]
      rfl

/-! ### What holds beside the view -/

theorem Pc.inside_of_holds {pc : Pc π} (h : pc.holds = true) : pc.place.inside = true := by
  cases pc <;> first | rfl | cases h

theorem Pc.inside_of_sleepy {pc : Pc π} {p : π} (h : pc.sleepy = some p) : pc.place.inside = true := by
  cases pc <;> first | rfl | cases h

@[simp] theorem Pc.holds_notified (pc : Pc π) : pc.notified.holds = pc.holds := by cases pc <;> rfl

@[simp] theorem Pc.sleepy_notified (pc : Pc π) : pc.notified.sleepy = pc.sleepy := by cases pc <;> rfl

/-- One thread moves. -/
theorem Tied.move (hT : Tied code s) {t : ι} {pc : Pc π} (hdatum : s'.datum = s.datum)
    (hpc : s'.pc = Function.update s.pc t pc) (hsleepy : ∀ p, pc.sleepy = some p → (code p).guard s.datum = false)
    (hholder : ∀ u, s'.holder = some u ↔ (if u = t then pc else s.pc u).holds = true) : Tied code s' where
  sleepy := by
    intro u p hu
    rw [hdatum]
    rw [hpc, Function.update_apply] at hu
    split at hu
    · exact hsleepy p hu
    · exact hT.sleepy u p hu
  holder := by
    intro u
    rw [hpc, Function.update_apply]
    exact hholder u

/-- A thread outside `assignHolder()` and `unassignHolder()` moves. -/
theorem Tied.same (hT : Tied code s) {t : ι} {pc : Pc π} (hholds : pc.holds = (s.pc t).holds) (u : ι) :
    s.holder = some u ↔ (if u = t then pc else s.pc u).holds = true := by
  split
  · next hu =>
    rw [hholds, ← hu]
    exact hT.holder u
  · exact hT.holder u

/-- `assignHolder()`: nobody else is inside. -/
theorem Tied.assign (hO : Ok code d₀ s.view) {t : ι} (hin : (s.pc t).place.inside = true) {pc : Pc π}
    (hholds : pc.holds = true) (u : ι) : some t = some u ↔ (if u = t then pc else s.pc u).holds = true := by
  split
  · next hu =>
    rw [hu]
    exact ⟨fun _ => hholds, fun _ => rfl⟩
  · next hu =>
    refine ⟨fun heq => absurd (Option.some.inj heq).symm hu, fun hu' => ?_⟩
    exact absurd (hO.exclusive (Pc.inside_of_holds hu') hin) hu

/-- `unassignHolder()`. -/
theorem Tied.unassign (hO : Ok code d₀ s.view) {t : ι} (hin : (s.pc t).place.inside = true) {pc : Pc π}
    (hholds : pc.holds = false) (u : ι) : none = some u ↔ (if u = t then pc else s.pc u).holds = true := by
  split
  · rw [hholds]
    exact ⟨fun heq => (Option.some_ne_none u heq.symm).elim, fun heq => (Bool.false_ne_true heq).elim⟩
  · next hu =>
    refine ⟨fun heq => (Option.some_ne_none u heq.symm).elim, fun hu' => ?_⟩
    exact absurd (hO.exclusive (Pc.inside_of_holds hu') hin) hu

theorem Tied.serve (hT : Tied code s) (hO : Ok code d₀ s.view) {t : ι} {p : π} (hpc : s.pc t = .test p) :
    Tied code (s.serve code t p) := by
  have hin : (s.pc t).place.inside = true := by
    rw [hpc]
    rfl
  have hother : ∀ u, ((s.serve code t p).pc u).holds = (s.pc u).holds ∧
      (u ≠ t → ((s.serve code t p).pc u).sleepy = (s.pc u).sleepy) := by
    intro u
    show (((if (code p).wakes s.datum then s.notifyAll else s).goto t (.unassign p)).pc u).holds = _ ∧
      (u ≠ t → (((if (code p).wakes s.datum then s.notifyAll else s).goto t (.unassign p)).pc u).sleepy = _)
    rw [pc_goto]
    by_cases hu : u = t
    · rw [if_pos hu, hu, hpc]
      exact ⟨rfl, fun h => absurd rfl h⟩
    · rw [if_neg hu]
      split
      · exact ⟨Pc.holds_notified _, fun _ => Pc.sleepy_notified _⟩
      · exact ⟨rfl, fun _ => rfl⟩
  constructor
  · intro u q hu
    by_cases hut : u = t
    · rw [hut] at hu
      have hpc' : (s.serve code t p).pc t = .unassign p := by
        show ((if (code p).wakes s.datum then s.notifyAll else s).goto t (.unassign p)).pc t = _
        rw [pc_goto, if_pos rfl]
      rw [hpc'] at hu
      cases hu
    · rw [(hother u).2 hut] at hu
      exact absurd (hO.exclusive (Pc.inside_of_sleepy hu) hin) hut
  · intro u
    have hholder : (s.serve code t p).holder = s.holder := by
      show (if (code p).wakes s.datum then s.notifyAll else s).holder = s.holder
      split <;> rfl
    rw [hholder, (hother u).1]
    exact hT.holder u

theorem Tied.access (hT : Tied code s) (hO : Ok code d₀ s.view) {t : ι} (h : s.access code t = some s') :
    Tied code s' := by
  have hnone : ∀ {pc : Pc π}, pc.sleepy = none → ∀ p, pc.sleepy = some p → (code p).guard s.datum = false := by
    intro pc hpc p hp
    rw [hpc] at hp
    cases hp
  unfold State.access at h
  split at h
  · cases h
  · next p hpc =>
    split at h <;> cases h
    exact hT.move rfl rfl (hnone rfl) (hT.same (by rw [hpc]; rfl))
  · next p hpc =>
    cases h
    exact hT.move rfl rfl (hnone rfl) (Tied.assign hO (by rw [hpc]; rfl) rfl)
  · next p hpc =>
    cases h
    split
    · exact hT.serve hO hpc
    · next hguard =>
      refine hT.move rfl rfl (fun q hq => ?_) (hT.same (by rw [hpc]; rfl))
      cases hq
      exact Bool.eq_false_iff.mpr hguard
  · next p hpc =>
    cases h
    have hguard := hT.sleepy t p (by rw [hpc]; rfl)
    refine hT.move rfl rfl (fun q hq => ?_) (Tied.unassign hO (by rw [hpc]; rfl) rfl)
    cases hq
    exact hguard
  · next p hpc =>
    cases h
    exact hT.move rfl rfl (hnone rfl) (hT.same (by rw [hpc]; rfl))
  · cases h
  · next p hpc =>
    split at h <;> cases h
    exact hT.move rfl rfl (hnone rfl) (hT.same (by rw [hpc]; rfl))
  · next p hpc =>
    cases h
    exact hT.move rfl rfl (hnone rfl) (Tied.assign hO (by rw [hpc]; rfl) rfl)
  · next p hpc =>
    cases h
    exact hT.move rfl rfl (hnone rfl) (Tied.unassign hO (by rw [hpc]; rfl) rfl)
  · next p hpc =>
    cases h
    exact hT.move rfl rfl (hnone rfl) (hT.same (by rw [hpc]; rfl))

theorem Tied.step (hT : Tied code s) (hO : Ok code d₀ s.view) {a : Action ι π} (h : step code s a = some s') :
    Tied code s' := by
  have hnone : ∀ {pc : Pc π}, pc.sleepy = none → ∀ p, pc.sleepy = some p → (code p).guard s.datum = false := by
    intro pc hpc p hp
    rw [hpc] at hp
    cases hp
  cases a with
  | call t p =>
    simp only [Mutex.step] at h
    split at h <;> cases h
    next hpc => exact hT.move rfl rfl (hnone rfl) (hT.same (by rw [hpc]; rfl))
  | step t => exact hT.access hO h
  | rouse t =>
    simp only [Mutex.step] at h
    split at h <;> cases h
    next p hpc => exact hT.move rfl rfl (hnone rfl) (hT.same (by rw [hpc]; rfl))

/-! ### Whole runs -/

/-- **The code is a monitor.** -/
theorem reachable_view {as : List (Action ι π)} (hrun : run (step code) (State.init ι π d₀) as = some s) :
    Reachable (Monitor.step code) (Monitor.State.init ι π d₀) s.view ∧ Tied code s := by
  refine run_induction
    (fun s => Reachable (Monitor.step code) (Monitor.State.init ι π d₀) s.view ∧ Tied code s) ⟨.refl _, ?_⟩ ?_ hrun
  · constructor
    · rintro t p ⟨⟩
    · intro t
      constructor
      · rintro ⟨⟩
      · rintro ⟨⟩
  · rintro s a s' ⟨hreach, hT⟩ hs
    exact ⟨hreach.trans (step_follows hT hs).reachable, hT.step (ok_of_reachable hreach) hs⟩

/-- The same with accesses alone. -/
theorem reachable_left {as : List (Action ι π)} (hrun : run (step code) (State.init ι π d₀) as = some s)
    {ts : List ι} (hleft : run (State.access code) s ts = some s') :
    Reachable (Monitor.step code) (Monitor.State.init ι π d₀) s'.view ∧ Tied code s' :=
  run_induction
    (fun s => Reachable (Monitor.step code) (Monitor.State.init ι π d₀) s.view ∧ Tied code s) (reachable_view hrun)
    (fun _ _ _ ⟨hreach, hT⟩ hs => ⟨hreach.trans (access_follows hT hs).reachable, hT.access (ok_of_reachable hreach) hs⟩)
    hleft

/-- What `holder` is good for. -/
structure HolderTells (s : State ι π σ) : Prop where
  /-- Two threads are never between `lock()` and `unlock()` at once. -/
  exclusive : ∀ t u, (s.pc t).place.inside = true → (s.pc u).place.inside = true → t = u
  /-- `isLockedByThisThread()` tells a thread whether it has locked the mutex, also around a `wait()`. -/
  locked : ∀ t, s.isLockedByThisThread t = true ↔ (s.pc t).holds = true
  /-- The assertion of `~MutexLock`. -/
  unlocked : (∀ t, (s.pc t).place.inside = false) → s.holder = none

/-- **`holder` is right** in every run of any procedures on any threads. -/
theorem holder_tells {as : List (Action ι π)} (hrun : run (step code) (State.init ι π d₀) as = some s) :
    HolderTells s := by
  obtain ⟨hreach, hT⟩ := reachable_view hrun
  refine ⟨fun t u => (ok_of_reachable hreach).exclusive, fun t => ?_, fun hout => ?_⟩
  · rw [State.isLockedByThisThread, beq_iff_eq]
    exact hT.holder t
  · cases hholder : s.holder with
    | none => rfl
    | some t =>
      have hin := Pc.inside_of_holds ((hT.holder t).mp hholder)
      rw [hout t] at hin
      cases hin

/-! ### Stages -/

/-- How far a thread is in a procedure. -/
inductive Stage (π : Type) where
  | out
  /-- The statements behind the loop are still to be executed. -/
  | pending (p : π)
  | done (p : π)
  deriving DecidableEq

def Pc.stage : Pc π → Stage π
  | .outside => .out
  | .unassign p => .done p
  | .unlock p => .done p
  | .lock p => .pending p
  | .assign p => .pending p
  | .test p => .pending p
  | .unassignWait p => .pending p
  | .condWait p => .pending p
  | .asleep p => .pending p
  | .relock p => .pending p
  | .assignWait p => .pending p

omit [DecidableEq ι] in
def State.stage (s : State ι π σ) (t : ι) : Stage π := (s.pc t).stage

/-- What an access can do, as far as the datum is concerned. -/
inductive Advance (code : π → Procedure σ) (s : State ι π σ) (t : ι) (s' : State ι π σ) : Prop
  | silent (hstage : s'.stage = s.stage) (hdatum : s'.datum = s.datum)
  | serves (p : π) (ht : s.stage t = .pending p) (hguard : (code p).guard s.datum = true)
      (hstage : s'.stage = Function.update s.stage t (.done p)) (hdatum : s'.datum = (code p).body s.datum)
  | leaves (p : π) (ht : s.stage t = .done p) (hstage : s'.stage = Function.update s.stage t .out)
      (hdatum : s'.datum = s.datum)

theorem stage_move {t : ι} (pc : Pc π) (hpc : s'.pc = Function.update s.pc t pc) :
    s'.stage = Function.update s.stage t pc.stage := by
  funext u
  rw [State.stage, hpc, Function.update_apply, Function.update_apply, apply_ite Pc.stage]
  rfl

theorem stage_same {t : ι} (pc : Pc π) (hpc : s'.pc = Function.update s.pc t pc)
    (hstage : pc.stage = (s.pc t).stage) : s'.stage = s.stage := by
  rw [stage_move pc hpc, hstage]
  exact Function.update_eq_self t s.stage

theorem stage_serve (s : State ι π σ) (t : ι) (p : π) :
    (s.serve code t p).stage = Function.update s.stage t (.done p) := by
  funext u
  show (((if (code p).wakes s.datum then s.notifyAll else s).goto t (.unassign p)).pc u).stage = _
  rw [pc_goto, Function.update_apply, apply_ite Pc.stage]
  refine if_congr Iff.rfl rfl ?_
  split
  · show (s.pc u).notified.stage = (s.pc u).stage
    cases s.pc u <;> rfl
  · rfl

theorem access_advance {t : ι} (h : s.access code t = some s') : Advance code s t s' := by
  unfold State.access at h
  split at h
  · cases h
  · next p hpc =>
    split at h <;> cases h
    exact .silent (stage_same (t := t) (.assign p) rfl (by rw [hpc]; rfl)) rfl
  · next p hpc =>
    cases h
    exact .silent (stage_same (t := t) (.test p) rfl (by rw [hpc]; rfl)) rfl
  · next p hpc =>
    cases h
    split
    · next hguard => exact .serves p (congrArg Pc.stage hpc) hguard (stage_serve s t p) rfl
    · exact .silent (stage_same (t := t) (.unassignWait p) rfl (by rw [hpc]; rfl)) rfl
  · next p hpc =>
    cases h
    exact .silent (stage_same (t := t) (.condWait p) rfl (by rw [hpc]; rfl)) rfl
  · next p hpc =>
    cases h
    exact .silent (stage_same (t := t) (.asleep p) rfl (by rw [hpc]; rfl)) rfl
  · cases h
  · next p hpc =>
    split at h <;> cases h
    exact .silent (stage_same (t := t) (.assignWait p) rfl (by rw [hpc]; rfl)) rfl
  · next p hpc =>
    cases h
    exact .silent (stage_same (t := t) (.test p) rfl (by rw [hpc]; rfl)) rfl
  · next p hpc =>
    cases h
    exact .silent (stage_same (t := t) (.unlock p) rfl (by rw [hpc]; rfl)) rfl
  · next p hpc =>
    cases h
    exact .leaves p (congrArg Pc.stage hpc) (stage_move .outside rfl) rfl

/-! ### Coming to rest -/

/-- The accesses left, if the guard turns out false at the next test. -/
def Pc.rank : Pc π → ℕ
  | .outside => 0
  | .lock _ => 5
  | .assign _ => 4
  | .test _ => 3
  | .unassignWait _ => 2
  | .condWait _ => 1
  | .asleep _ => 0
  | .relock _ => 5
  | .assignWait _ => 4
  | .unassign _ => 2
  | .unlock _ => 1

/-- `1` until the statements behind the loop are executed. -/
def Pc.pending : Pc π → ℕ
  | .outside => 0
  | .unassign _ => 0
  | .unlock _ => 0
  | _ => 1

variable [Fintype ι]

/-- What the threads can still do without another call: a procedure that is executed may wake all others. -/
def State.work (s : State ι π σ) : ℕ := weight (fun pc => pc.rank + 5 * Fintype.card ι * pc.pending) s.pc

omit [Fintype ι] in
/-- Everybody has returned, or sleeps with a false guard. -/
def State.AtRest (code : π → Procedure σ) (s : State ι π σ) : Prop :=
  ∀ t, s.pc t = .outside ∨ ∃ p, s.pc t = .asleep p ∧ (code p).guard s.datum = false

/-- One thread moves, past what it had to do. -/
theorem work_move {t : ι} {pc : Pc π} (hpc : s'.pc = Function.update s.pc t pc) (hpending : pc.pending = (s.pc t).pending)
    (hrank : pc.rank < (s.pc t).rank) : s'.work < s.work := by
  have hupdate := weight_update (fun pc : Pc π => pc.rank + 5 * Fintype.card ι * pc.pending) s.pc t pc
  rw [State.work, State.work, hpc]
  simp only [hpending] at hupdate
  omega

theorem work_serve {t : ι} {p : π} (hpc : s.pc t = .test p) : (s.serve code t p).work < s.work := by
  have hpos : 0 < Fintype.card ι := Fintype.card_pos_iff.mpr ⟨t⟩
  -- the pool after the step, with the weights the threads have once they are woken
  have hpool : ∃ f : Pc π → Pc π, (∀ pc, (f pc).rank ≤ pc.rank + 5 ∧ (f pc).pending = pc.pending) ∧
      f (.unassign p) = .unassign p ∧
      (s.serve code t p).pc = fun u => f (Function.update s.pc t (.unassign p) u) := by
    by_cases hwakes : (code p).wakes s.datum = true
    · refine ⟨Pc.notified, fun pc => ?_, rfl, ?_⟩
      · cases pc <;> exact ⟨by simp only [Pc.notified, Pc.rank]; omega, rfl⟩
      · funext u
        show ((if (code p).wakes s.datum then s.notifyAll else s).goto t (.unassign p)).pc u = _
        rw [if_pos hwakes, pc_goto, Function.update_apply, apply_ite Pc.notified]
        rfl
    · refine ⟨id, fun pc => ⟨Nat.le_add_right _ 5, rfl⟩, rfl, ?_⟩
      show ((if (code p).wakes s.datum then s.notifyAll else s).goto t (.unassign p)).pc = _
      rw [if_neg hwakes]
      rfl
  obtain ⟨f, hf, hself, hpool⟩ := hpool
  have hmore : ∀ pc : Pc π, (f pc).rank + 5 * Fintype.card ι * (f pc).pending
      ≤ pc.rank + 5 * Fintype.card ι * pc.pending + 5 := by
    intro pc
    have hrank := (hf pc).1
    rw [(hf pc).2]
    omega
  have hsurge := weight_surge hmore s.pc t (.unassign p)
  rw [hpc, hself] at hsurge
  have hbefore : (Pc.test p).rank + 5 * Fintype.card ι * (Pc.test p).pending = 3 + 5 * Fintype.card ι :=
    congrArg (3 + ·) (Nat.mul_one _)
  have hafter : (Pc.unassign p).rank + 5 * Fintype.card ι * (Pc.unassign p).pending = 2 := rfl
  rw [State.work, State.work, hpool]
  show weight (fun pc => (f pc).rank + 5 * Fintype.card ι * (f pc).pending) (Function.update s.pc t (.unassign p)) < _
  omega

/-- **Every access** takes something off the work. -/
theorem work_access {t : ι} (h : s.access code t = some s') : s'.work < s.work := by
  unfold State.access at h
  split at h
  · cases h
  · next p hpc =>
    split at h <;> cases h
    exact work_move rfl (by rw [hpc]; rfl) (by rw [hpc]; exact Nat.lt_succ_self _)
  · next p hpc =>
    cases h
    exact work_move rfl (by rw [hpc]; rfl) (by rw [hpc]; exact Nat.lt_succ_self _)
  · next p hpc =>
    cases h
    split
    · exact work_serve hpc
    · exact work_move rfl (by rw [hpc]; rfl) (by rw [hpc]; exact Nat.lt_succ_self _)
  · next p hpc =>
    cases h
    exact work_move rfl (by rw [hpc]; rfl) (by rw [hpc]; exact Nat.lt_succ_self _)
  · next p hpc =>
    cases h
    exact work_move rfl (by rw [hpc]; rfl) (by rw [hpc]; exact Nat.lt_succ_self _)
  · cases h
  · next p hpc =>
    split at h <;> cases h
    exact work_move rfl (by rw [hpc]; rfl) (by rw [hpc]; exact Nat.lt_succ_self _)
  · next p hpc =>
    cases h
    exact work_move rfl (by rw [hpc]; rfl) (by rw [hpc]; exact Nat.lt_succ_self _)
  · next p hpc =>
    cases h
    exact work_move rfl (by rw [hpc]; rfl) (by rw [hpc]; exact Nat.lt_succ_self _)
  · next p hpc =>
    cases h
    exact work_move rfl (by rw [hpc]; rfl) (by rw [hpc]; exact Nat.lt_succ_self _)

omit [Fintype ι] in
/-- Where no thread can do an access, nobody is under way. -/
theorem rest_of_stuck (hO : Ok code d₀ s.view) (hawake : Awake code s.view)
    (hstuck : ∀ t, s.access code t = none) : s.AtRest code := by
  have hfree : s.mutex = none := by
    cases hmutex : s.mutex with
    | none => rfl
    | some t =>
      have hin : (s.pc t).place.inside = true := (hO.held t).mp hmutex
      have ht := hstuck t
      unfold State.access at ht
      split at ht
      · next hpc =>
        rw [hpc] at hin
        cases hin
      · next p hpc =>
        rw [hpc] at hin
        cases hin
      · cases ht
      · cases ht
      · cases ht
      · cases ht
      · next p hpc =>
        rw [hpc] at hin
        cases hin
      · next p hpc =>
        rw [hpc] at hin
        cases hin
      · cases ht
      · cases ht
      · cases ht
  intro t
  have ht := hstuck t
  unfold State.access at ht
  cases hpc : s.pc t with
  | outside => exact .inl rfl
  | asleep p => exact .inr ⟨p, rfl, hawake t p (congrArg Pc.place hpc)⟩
  | lock p => simp only [hpc, hfree, if_true, reduceCtorEq] at ht
  | relock p => simp only [hpc, hfree, if_true, reduceCtorEq] at ht
  | _ => simp only [hpc, reduceCtorEq] at ht

/-- **Left alone**, in whatever order they are scheduled, the threads do a bounded number of accesses, and where
none is left each has returned or sleeps because its guard is false. -/
theorem comes_to_rest (hsignals : Signals code) {as : List (Action ι π)}
    (hrun : run (step code) (State.init ι π d₀) as = some s) {ts : List ι}
    (hleft : run (State.access code) s ts = some s') :
    ts.length ≤ s.work ∧ ((∀ t, s'.access code t = none) → s'.AtRest code) := by
  have hlength := run_length_le (fun _ => True) State.work (fun _ _ _ _ hs => ⟨trivial, work_access hs⟩) trivial hleft
  have hreach := (reachable_left hrun hleft).1
  exact ⟨by omega, rest_of_stuck (ok_of_reachable hreach) (awake_of_reachable hsignals hreach)⟩

end KwNet.Mutex
