import KwNet.Loop.Thread

/-!
# The life of an `EventloopThread`

What `startLoop` and the destructor can be relied on for, in every run in which the destructor alone calls `quit_`.

* `State.work` — what the two threads can still do, and **`work_move`**, that every access takes something off it;
* **`life_cycle`** — `startLoop` returns the loop, which exists as long as the user has it, no assertion fails, and
  the destructor returns when the thread has ended; and the threads get so far when left alone;
* **`life_cycle_late`** — the `wakeup()` of `quit_` may come after the end of the loop that it wakes.
-/

namespace KwNet.EventloopThread

open KwNet.Lib KwNet.Lib.Monitor KwNet.Mutex

variable {tid : ℕ} {s s' : State}

/-- What a thread still does outside the critical sections; a call brings the work of a procedure. -/
def UserPc.rank : UserPc → ℕ
  | .latchWait => 18
  | .pidCheck => 17
  | .cellWait => 1
  | .dtorQuit => 3
  | .dtorWake => 2
  | .dtorJoin => 1
  | _ => 0

def OwnPc.rank : OwnPc → ℕ
  | .pidStore => 53
  | .latchDown => 37
  | .construct => 36
  | .callback => 35
  | .publish => 19
  | .loop => 18
  | .finish => 2
  | .destruct => 1
  | _ => 0

def State.work (s : State) : ℕ := s.latch.work + s.cell.work + s.user.rank + s.own.rank

/-- A call is worth its own accesses and those of the other thread, should it be woken. -/
theorem work_call {π σ : Type} {code : π → Procedure σ} {m m' : Mutex.State Who π σ} {t : Who} {p : π}
    (h : Mutex.step code m (.call t p) = some m') : m'.work = m.work + 15 := by
  simp only [Mutex.step] at h
  split at h <;> cases h
  next hpc =>
    have hupdate := weight_update (fun pc : Pc π => pc.rank + 5 * Fintype.card Who * pc.pending) m.pc t (.lock p)
    simp only [hpc] at hupdate
    exact hupdate

theorem work_move (hI : Inv tid s) (htid : 0 < tid) {m : Move} (h : s.move tid m = some s') : s'.work < s.work := by
  cases m with
  | user =>
    simp only [State.move] at h
    have huser := hI.user
    unfold State.userStep at h
    cases hpc : s.user <;> rw [hpc] at h
    case latchWait =>
      simp only at h
      split at h <;> cases h
      simp only [State.work, hpc, UserPc.rank]
      omega
    case pidCheck =>
      simp only [State.UserOk, hpc] at huser
      have hpid : s.pid > 0 := by
        rw [hI.own.pid_of_count huser.2.1]
        exact htid
      simp only [if_pos hpid, Option.map_eq_some_iff] at h
      obtain ⟨cell, hcall, rfl⟩ := h
      simp only [State.work, work_call hcall, hpc, UserPc.rank]
      omega
    case cellWait =>
      simp only at h
      split at h <;> cases h
      simp only [State.work, hpc, UserPc.rank]
      omega
    case dtorQuit =>
      simp only [State.UserOk, hpc] at huser
      have halive := hI.own.alive_of_loop (congrArg Cell.loop huser.2.2.2)
      simp only [State.quitLoop, halive, if_true, Option.some.injEq] at h
      subst h
      simp only [State.work, hpc, UserPc.rank]
      omega
    case dtorWake =>
      cases h
      simp only [State.work, hpc, UserPc.rank]
      omega
    case dtorJoin =>
      simp only at h
      split at h <;> cases h
      simp only [State.work, hpc, UserPc.rank]
      omega
    all_goals cases h
  | own =>
    simp only [State.move] at h
    unfold State.ownStep at h
    cases hpc : s.own <;> rw [hpc] at h
    case pidStore =>
      obtain ⟨latch, hcall, rfl⟩ := Option.map_eq_some_iff.mp h
      simp only [State.work, work_call hcall, hpc, OwnPc.rank]
      omega
    case callback =>
      obtain ⟨cell, hcall, rfl⟩ := Option.map_eq_some_iff.mp h
      simp only [State.work, work_call hcall, hpc, OwnPc.rank]
      omega
    case loop =>
      simp only at h
      split at h
      · obtain ⟨cell, hcall, rfl⟩ := Option.map_eq_some_iff.mp h
        simp only [State.work, work_call hcall, hpc, OwnPc.rank]
        omega
      · cases h
    case construct =>
      cases h
      simp only [State.work, hpc, OwnPc.rank]
      omega
    case destruct =>
      cases h
      simp only [State.work, hpc, OwnPc.rank]
      omega
    case latchDown =>
      simp only at h
      split at h <;> cases h
      simp only [State.work, hpc, OwnPc.rank]
      omega
    case publish =>
      simp only at h
      split at h <;> cases h
      simp only [State.work, hpc, OwnPc.rank]
      omega
    case finish =>
      simp only at h
      split at h <;> cases h
      simp only [State.work, hpc, OwnPc.rank]
      omega
    all_goals cases h
  | latch t =>
    obtain ⟨latch, haccess, rfl⟩ := Option.map_eq_some_iff.mp h
    have hwork := work_access haccess
    simp only [State.work]
    omega
  | cell t =>
    obtain ⟨cell, haccess, rfl⟩ := Option.map_eq_some_iff.mp h
    have hwork := work_access haccess
    simp only [State.work]
    omega

/-- A thread that is not under way in the mutex can call. -/
theorem call_of_outside {π σ : Type} {code : π → Procedure σ} {m : Mutex.State Who π σ} {t : Who}
    (h : m.stage t = .out) (p : π) : Mutex.step code m (.call t p) ≠ none := by
  have hpc : m.pc t = .outside := by
    have hstage : (m.pc t).stage = .out := h
    cases hpc : m.pc t <;> rw [hpc] at hstage <;> first | rfl | cases hstage
  simp only [Mutex.step, hpc]
  exact Option.some_ne_none _

/-- Where the mutex is at rest, who waits has its guard false. -/
theorem out_of_rest {π σ : Type} {code : π → Procedure σ} {m : Mutex.State Who π σ} (hrest : m.AtRest code) {t : Who}
    (hguard : ∀ p, m.stage t = .pending p → (code p).guard m.datum = true) : m.pc t = .outside := by
  rcases hrest t with hout | ⟨p, hpc, hfalse⟩
  · exact hout
  · rw [hguard p (congrArg Pc.stage hpc)] at hfalse
    cases hfalse

theorem Inv.latchRest (hI : Inv tid s) (hstuck : ∀ m, s.move tid m = none) : s.latch.AtRest CountDownLatch.code := by
  obtain ⟨as, hrun⟩ := hI.latch
  refine (comes_to_rest CountDownLatch.signals hrun run_nil).2 fun t => ?_
  simpa only [State.move, Option.map_eq_none_iff] using hstuck (.latch t)

theorem Inv.cellRest (hI : Inv tid s) (hstuck : ∀ m, s.move tid m = none) : s.cell.AtRest code := by
  obtain ⟨as, hrun⟩ := hI.cell
  refine (comes_to_rest signals hrun run_nil).2 fun t => ?_
  simpa only [State.move, Option.map_eq_none_iff] using hstuck (.cell t)

/-- The thread stands still only before its start, in a loop that nobody has told to quit, and at its end. -/
theorem Inv.own_of_stuck (hI : Inv tid s) (hstuck : ∀ m, s.move tid m = none) :
    s.own = .unborn ∨ s.own = .loop ∧ s.quit = false ∨ s.own = .ended := by
  have hown := hI.own
  have hstep : s.ownStep tid = none := hstuck .own
  unfold State.ownStep at hstep
  unfold State.OwnOk at hown
  cases hpc : s.own <;> rw [hpc] at hown hstep
  case unborn => exact .inl rfl
  case pidStore => exact absurd (Option.map_eq_none_iff.mp hstep) (call_of_outside hown.1 _)
  case latchDown =>
    have hout : s.latch.pc .own = .outside := by
      refine out_of_rest (hI.latchRest hstuck) fun m hm => ?_
      rcases hown.1 with ⟨hp, -⟩ | ⟨hd | ho, -⟩
      · cases hp.symm.trans hm
        rfl
      · cases hd.symm.trans hm
      · cases ho.symm.trans hm
    simp only [hout, if_true, reduceCtorEq] at hstep
  case construct => cases hstep
  case callback => exact absurd (Option.map_eq_none_iff.mp hstep) (call_of_outside hown.2.2.1 _)
  case publish =>
    have hout : s.cell.pc .own = .outside := by
      refine out_of_rest (hI.cellRest hstuck) fun p hp => ?_
      rcases hown.2.2.1 with ⟨h, -⟩ | ⟨h | h, -⟩ <;> cases h.symm.trans hp
      rfl
    simp only [hout, if_true, reduceCtorEq] at hstep
  case loop =>
    cases hquit : s.quit with
    | false => exact .inr (.inl ⟨rfl, rfl⟩)
    | true =>
      simp only [hquit, if_true, Option.map_eq_none_iff] at hstep
      exact absurd hstep (call_of_outside hown.2.2.1 _)
  case finish =>
    have hout : s.cell.pc .own = .outside := by
      refine out_of_rest (hI.cellRest hstuck) fun p hp => ?_
      rcases hown.2.2.1 with ⟨h, -⟩ | ⟨h | h, -⟩ <;> cases h.symm.trans hp
      rfl
    simp only [hout, if_true, reduceCtorEq] at hstep
  case destruct => cases hstep
  case ended => exact .inr (.inr rfl)

/-- The user's thread then is not inside a call of this class. -/
theorem Inv.user_of_stuck (htid : 0 < tid) (hI : Inv tid s) (hstuck : ∀ m, s.move tid m = none) :
    s.user = .fresh ∨ s.user = .running ∧ s.own = .loop ∨ s.user = .destroyed := by
  have huser := hI.user
  have hown := hI.own
  have hstep : s.userStep = none := hstuck .user
  have hplace := hI.own_of_stuck hstuck
  have hquits : s.own = .ended → s.user.quits = true := by
    intro hended
    simp only [State.OwnOk, hended] at hown
    exact hI.quit hown.2.2.2.2.2.2
  -- what the thread has done when it is in its loop
  have hloop : s.own ≠ .unborn → s.user.quits = false →
      s.own = .loop ∧ s.latch.datum = 0 ∧ s.cell.datum.loop = .loop := by
    intro hborn hno
    rcases hplace with h | ⟨h, -⟩ | h
    · exact absurd h hborn
    · simp only [State.OwnOk, h] at hown
      exact ⟨h, hown.2.1, hown.2.2.2.1⟩
    · rw [hquits h] at hno
      cases hno
  unfold State.userStep at hstep
  unfold State.UserOk at huser
  cases hpc : s.user <;> rw [hpc] at huser hstep
  case fresh => exact .inl rfl
  case latchWait =>
    obtain ⟨hlatch, -, hborn⟩ := huser
    have hcount := (hloop hborn (by rw [hpc]; rfl)).2.1
    have hout : s.latch.pc .user = .outside := by
      refine out_of_rest (hI.latchRest hstuck) fun m hm => ?_
      rcases hlatch with h | ⟨h | h, -⟩ <;> cases h.symm.trans hm
      rw [hcount]
      rfl
    simp only [hout, if_true, reduceCtorEq] at hstep
  case pidCheck =>
    have hpid : s.pid > 0 := by
      rw [hown.pid_of_count huser.2.1]
      exact htid
    simp only [if_pos hpid, Option.map_eq_none_iff] at hstep
    exact absurd hstep (call_of_outside huser.2.2.1 _)
  case cellWait =>
    obtain ⟨-, hborn, hcell⟩ := huser
    have hptr := (hloop hborn (by rw [hpc]; rfl)).2.2
    have hout : s.cell.pc .user = .outside := by
      refine out_of_rest (hI.cellRest hstuck) fun p hp => ?_
      rcases hcell with h | ⟨h | h, -⟩ <;> cases h.symm.trans hp
      show (s.cell.datum.loop != .null) = true
      rw [hptr]
      rfl
    simp only [hout, if_true, reduceCtorEq] at hstep
  case running => exact .inr (.inl ⟨rfl, (hloop huser.2.2.1 (by rw [hpc]; rfl)).1⟩)
  case dtorQuit => cases hstep
  case dtorWake => cases hstep
  case dtorJoin =>
    rcases hplace with h | ⟨-, hno⟩ | h
    · rw [h] at huser
      cases huser.2.2.1
    · exact absurd (huser.2.2.2.symm.trans hno) (by decide)
    · simp only [h, if_true, reduceCtorEq] at hstep
  case destroyed => exact .inr (.inr rfl)

/-- **The life of the thread.**  In every run in which only the destructor calls `quit_`, what `startLoop` returns is
the loop, which exists and is in `Loop()` or about to be until the destructor is called; no assertion fails, and the
destructor writes `quit` of a loop that exists; when it returns, the thread has ended.  However the two are scheduled
from there, they do a bounded number of accesses, and then the user is in no call of the class. -/
theorem life_cycle (htid : 0 < tid) {as : List Action} (hP : OnlyDestructorQuits as)
    (hrun : run (State.step tid) State.init as = some s) :
    (s.user = .running → s.cell.datum.loop_ = .loop ∧ s.alive = true ∧ (s.own = .publish ∨ s.own = .loop)) ∧
    s.fault = false ∧ (s.late = true → s.own = .ended) ∧
    (s.user = .destroyed → s.own = .unborn ∨ s.own = .ended) ∧
    ∀ (ms : List Move) (s' : State), run (State.move tid) s ms = some s' →
      ms.length ≤ s.work ∧
      ((∀ m, s'.move tid m = none) → s'.user = .fresh ∨ s'.user = .running ∧ s'.own = .loop ∨ s'.user = .destroyed) := by
  have hI := inv_of_run htid hP hrun
  refine ⟨fun hpc => ?_, hI.fault, hI.late, fun hpc => ?_, fun ms s' hleft => ?_⟩
  · have huser := hI.user
    have hown := hI.own
    simp only [State.UserOk, hpc] at huser
    have hloop : s.cell.datum.loop = .loop := congrArg Cell.loop huser.2.2.2
    have hquit : s.quit ≠ true := fun hquit => by
      have hquits := hI.quit hquit
      rw [hpc] at hquits
      cases hquits
    refine ⟨congrArg Cell.loop_ huser.2.2.2, hown.alive_of_loop hloop, ?_⟩
    unfold State.OwnOk at hown
    cases hpc' : s.own <;> rw [hpc'] at hown
    case publish => exact .inl rfl
    case loop => exact .inr rfl
    case latchDown => exact absurd (hloop.symm.trans hown.2.2.1) (by decide)
    case finish => exact absurd hown.2.2.2.2.2 hquit
    all_goals exact absurd (hloop.symm.trans hown.2.2.2.1) (by decide)
  · have huser := hI.user
    simp only [State.UserOk, hpc] at huser
    exact huser.2.2
  · have hlength := run_length_le (Inv tid) State.work (fun _ _ _ hI hs => ⟨hI.move htid hs, work_move hI htid hs⟩) hI hleft
    have hI' : Inv tid s' := run_induction (Inv tid) hI (fun _ _ _ hI hs => hI.move htid hs) hleft
    exact ⟨by omega, hI'.user_of_stuck htid⟩

/-- A critical section without a wait, or up to the wait, or from there on. -/
def fiveMoves (m : Move) : List Move := List.replicate 5 m

/-- From the call of `startLoop` to its return. -/
def startMoves : List Move :=
  List.flatten [fiveMoves (.latch .user), [.own], fiveMoves (.latch .own), [.own, .own, .own], fiveMoves (.latch .user),
    [.user, .user], fiveMoves (.cell .own), [.own], fiveMoves (.cell .user), [.user]]

/-- From the call of the destructor to its return, with the `wakeup()` behind the end of the thread. -/
def lateMoves : List Move := List.flatten [[.user, .own], fiveMoves (.cell .own), [.own, .own, .user, .user]]

def lateRun : List Action := List.flatten [[.startLoop], startMoves.map .move, [.destroy], lateMoves.map .move]

/-- Between the two statements of `quit_` the loop may end. -/
theorem life_cycle_late : ∃ s, run (State.step 7) State.init lateRun = some s ∧ s.user = .destroyed ∧ s.late = true ∧
    s.fault = false ∧ (s.own = .unborn ∨ s.own = .ended) := by
  have hlast : (run (State.step 7) State.init lateRun).map (fun s => (s.user, s.late)) = some (.destroyed, true) := by
    decide +kernel
  obtain ⟨s, hrun, hs⟩ := Option.map_eq_some_iff.mp hlast
  obtain ⟨hdestroyed, hlate⟩ := Prod.mk.inj hs
  obtain ⟨-, hfault, -, hended, -⟩ := life_cycle (by decide) (by decide : OnlyDestructorQuits lateRun) hrun
  exact ⟨s, hrun, hdestroyed, hlate, hfault, hended hdestroyed⟩

end KwNet.EventloopThread
