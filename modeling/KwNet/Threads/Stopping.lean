import KwNet.Lib.Credit
import KwNet.Queue.Blocking
import KwNet.Threads.Drain

/-!
# `ThreadPool::stop` returns

`stop()` lowers `running` and joins the workers one after the other.  A worker that sees the flag down empties the
queue and leaves; a `submit` of its tasks gives up after a bounded number of attempts, so nothing goes on for ever
unless a task does.

* `Stopping` — what `Counted` and `Orderly` leave out: the flag stays down, every worker is started, and `push` is in
  its loop;
* `State.work` — what is left to do in `stop()`; **`Stopping.paid`** — each step takes it down, and only a `submit`
  called by a task brings it up;
* **`stop_returns`** — `stop()` returns when the tasks do.
-/

namespace KwNet.ThreadPool

open KwNet.Lib KwNet.Mpmc

variable {n : ℕ} {ι T : Type} [DecidableEq ι] {s s' : State n ι T} {w : Fin n}

/-! ### The invariant -/

structure Stopping (s : State n ι T) : Prop where
  counted : Counted s
  orderly : Orderly s
  down : s.owner.stopping = true → s.running = false
  born : ∀ w : Fin n, s.worker w = .unborn → s.owner = .created ∨ ∃ i ≤ w.val, s.owner = .starting i
  loops : ∀ w final v a, s.worker w = .push final v a → a.Ok

omit [DecidableEq ι] in
theorem stopping_init (hn : 1 ≤ n) (capacity : ℕ) : Stopping (State.init n ι T capacity) where
  counted := counted_init capacity
  orderly := orderly_init hn capacity
  down := fun h => by cases h
  born := fun _ _ => .inl rfl
  loops := fun _ _ _ _ h => by cases h

omit [DecidableEq ι] in
/-- A worker that moves stays in the loop of `push`, and is not unborn. -/
theorem Works.loops (hloops : ∀ w final v a, s.worker w = .push final v a → a.Ok) (h : Works s w s') :
    (∀ u final v a, s'.worker u = .push final v a → a.Ok) ∧ s'.worker w ≠ .unborn := by
  obtain ⟨-, -, -, hothers⟩ := h.frame
  have hself : (∀ final v a, s'.worker w = .push final v a → a.Ok) ∧ s'.worker w ≠ .unborn := by
    cases h with
    | nested hw =>
      simp only [State.goto, Function.update_self]
      refine ⟨fun final v a ha => ?_, by simp⟩
      cases ha
      exact Attempt.first_ok.1
    | retry hw hnext =>
      simp only [State.goto, Function.update_self]
      refine ⟨fun final v a ha => ?_, by simp⟩
      cases ha
      rcases (hloops _ _ _ _ hw).next with ⟨hnone, -⟩ | ⟨b, hb, hok, -⟩
      · cases hnone.symm.trans hnext
      · cases hb.symm.trans hnext
        exact hok
    | _ =>
      simp only [State.goto, Function.update_self]
      exact ⟨fun _ _ _ h => (by cases h), fun h => (by cases h)⟩
  refine ⟨fun u final v a hu => ?_, hself.2⟩
  by_cases huw : u = w
  · subst huw
    exact hself.1 final v a hu
  · rw [hothers u huw] at hu
    exact hloops u final v a hu

omit [DecidableEq ι] in
/-- `start()` is over when every worker is started. -/
theorem born_own (hborn : ∀ w : Fin n, s.worker w = .unborn → s.owner = .created ∨ ∃ i ≤ w.val, s.owner = .starting i)
    (h : s.ownerAccess = some s') :
    ∀ w : Fin n, s'.worker w = .unborn → s'.owner = .created ∨ ∃ i ≤ w.val, s'.owner = .starting i := by
  intro u hu
  unfold State.ownerAccess at h
  split at h
  · cases h
    exact .inr ⟨0, Nat.zero_le _, rfl⟩
  · next i ho =>
    have hearly : s.worker u = .unborn → i ≤ u.val := by
      intro hu
      rcases hborn u hu with hc | ⟨j, hj, hs⟩
      · cases ho.symm.trans hc
      · cases ho.symm.trans hs
        exact hj
    split at h
    · next hi =>
      cases h
      have hne : u ≠ ⟨i, hi⟩ := by
        rintro rfl
        cases (Function.update_self _ _ _).symm.trans hu
      have hle := hearly ((Function.update_of_ne hne _ _).symm.trans hu)
      have hne' : u.val ≠ i := fun heq => hne (Fin.ext heq)
      exact .inr ⟨i + 1, by omega, rfl⟩
    · next hi =>
      cases h
      have hle := hearly hu
      have hlt := u.isLt
      omega
  · next ho =>
    cases h
    rcases hborn u hu with hc | ⟨j, -, hs⟩
    · cases ho.symm.trans hc
    · cases ho.symm.trans hs
  · next i ho =>
    have hnot : s.worker u ≠ .unborn := by
      intro hu
      rcases hborn u hu with hc | ⟨j, -, hs⟩
      · cases ho.symm.trans hc
      · cases ho.symm.trans hs
    split at h
    · split at h <;> cases h
      exact absurd hu hnot
    · cases h
      exact absurd hu hnot
  · cases h

omit [DecidableEq ι] in
theorem Owns.loops (hloops : ∀ w final v a, s.worker w = .push final v a → a.Ok) (h : Owns s s') :
    ∀ u final v a, s'.worker u = .push final v a → a.Ok := by
  intro u final v a hu
  cases h with
  | @spawn w ho =>
    have hne : u ≠ w := by
      rintro rfl
      cases (Function.update_self _ _ _).symm.trans hu
    exact hloops u final v a ((Function.update_of_ne hne _ _).symm.trans hu)
  | _ => exact hloops u final v a hu

/-- **A step keeps the invariant.** -/
theorem Stopping.step (hn : 1 ≤ n) (hS : Stopping s) {a : Action n ι T} (hP : Contract s a)
    (h : ThreadPool.step s a = some s') : Stopping s' := by
  obtain ⟨hC, hO, hdown, hborn, hloops⟩ := hS
  rcases step_cases h with ⟨t, hmove, ha⟩ | ⟨w, hmove⟩ | ⟨hmove, rfl⟩
  · obtain ⟨hworker, howner, hrunning, -⟩ := hmove.frame
    refine ⟨hC.fromOutside hmove, hO.fromOutside hn hP ha hmove, ?_, ?_, ?_⟩
    · rw [howner, hrunning]
      exact hdown
    · rw [hworker, howner]
      exact hborn
    · rw [hworker]
      exact hloops
  · obtain ⟨-, howner, hrunning, hothers⟩ := hmove.frame
    obtain ⟨hloops', hself⟩ := hmove.loops hloops
    refine ⟨hC.works hmove, hO.works hC hmove, ?_, fun u hu => ?_, hloops'⟩
    · rw [howner, hrunning]
      exact hdown
    · have huw : u ≠ w := fun heq => hself (heq ▸ hu)
      rw [howner]
      exact hborn u (hothers u huw ▸ hu)
  · refine ⟨hC.owns hO hmove, hO.owns hP hmove, fun hstop => ?_, born_own hborn h, hmove.loops hloops⟩
    cases hmove with
    | stop ho => rfl
    | join ho hw => exact hdown (by rw [ho]; rfl)
    | joined ho hi => exact hdown (by rw [ho]; rfl)
    | _ => cases hstop

/-! ### What is left to do -/

/-- In a task. -/
def taskWork (final : Bool) : ℕ := if final then 2 else 3

/-- The steps left to a worker that sees the flag down, if it finds the queue empty. -/
def Worker.work : Worker T → ℕ
  | .unborn => 0
  | .test => 2
  | .pop final => if final then 1 else 3
  | .release final _ _ => taskWork final + 1
  | .task final => taskWork final
  | .push final _ a => taskWork final + 5 + a.left
  | .publish final _ => taskWork final + 1
  | .exited => 0

/-- The joins that are left, and the return of `stop()`. -/
def Owner.work (n : ℕ) : Owner → ℕ
  | .joining i => n - i + 1
  | _ => 0

/-- An element of the queue takes three steps: it is taken, called and returns. -/
def State.work (s : State n ι T) : ℕ :=
  3 * (s.queue.tail - s.queue.head) + weight Worker.work s.worker + s.owner.work n

/-- A `submit` that a task calls takes up to 322 attempts, and adds an element. -/
def Action.grant : Action n ι T → ℕ
  | .nested _ _ => 327
  | _ => 0

omit [DecidableEq ι] in
/-- One worker moves, and perhaps the queue. -/
theorem work_of_move {pc : Worker T} {c : ℕ} (hworker : s'.worker = Function.update s.worker w pc)
    (howner : s'.owner = s.owner)
    (hless : 1 + pc.work + 3 * (s'.queue.tail - s'.queue.head) ≤
      (s.worker w).work + 3 * (s.queue.tail - s.queue.head) + c) : 1 + s'.work ≤ s.work + c := by
  have hweight := weight_update Worker.work s.worker w pc
  rw [← hworker] at hweight
  rw [State.work, State.work, howner]
  omega

omit [DecidableEq ι] in
/-- **A worker's access.** -/
theorem Works.paid (hS : Stopping s) (hstop : s.owner.stopping = true) (hnot : ∀ final, s.worker w ≠ .task final)
    (h : Works s w s') : 1 + s'.work ≤ s.work + 0 := by
  have hle := hS.counted.queue.head_le
  cases h with
  | test hw =>
    refine work_of_move rfl rfl ?_
    rw [hw, hS.down hstop]
    exact Nat.le_refl _
  | @take final v hw hf =>
    obtain ⟨-, hlt, -⟩ := Tickets.front_eq_some hf
    refine work_of_move rfl rfl ?_
    rw [hw]
    show 1 + (taskWork final + 1) + 3 * (s.queue.take.tail - s.queue.take.head) ≤ (if final then 1 else 3) + _ + 0
    rw [Tickets.tail_take, Tickets.head_take]
    cases final
    · show 1 + (3 + 1) + _ ≤ 3 + _ + 0
      omega
    · show 1 + (2 + 1) + _ ≤ 1 + _ + 0
      omega
  | yield hw =>
    refine work_of_move rfl rfl ?_
    rw [hw]
    exact Nat.le_refl _
  | exit hw hf =>
    refine work_of_move rfl rfl ?_
    rw [hw]
    exact Nat.le_refl _
  | @execute final v pos hw =>
    refine work_of_move rfl rfl ?_
    rw [hw]
    show 1 + taskWork final + 3 * ((s.queue.release pos).tail - (s.queue.release pos).head) ≤ taskWork final + 1 + _ + 0
    rw [Tickets.tail_release, Tickets.head_release]
    omega
  | nested hw => exact absurd hw (hnot _)
  | again hw => exact absurd hw (hnot _)
  | drain hw => exact absurd hw (hnot _)
  | @claim final v a hw hroom =>
    refine work_of_move rfl rfl ?_
    rw [hw]
    show 1 + (taskWork final + 1) + 3 * ((s.queue.claim v).tail - (s.queue.claim v).head) ≤
      taskWork final + 5 + a.left + _ + 0
    rw [Tickets.tail_claim, Tickets.head_claim]
    omega
  | @retry final v a a' hw hnext =>
    have hleft : a'.left + 1 = a.left := by
      rcases (hS.loops _ _ _ _ hw).next with ⟨hnone, -⟩ | ⟨b, hb, -, hleft⟩
      · cases hnone.symm.trans hnext
      · cases hb.symm.trans hnext
        exact hleft
    refine work_of_move rfl rfl ?_
    rw [hw]
    show 1 + (taskWork final + 5 + a'.left) + 3 * (s.queue.tail - s.queue.head) ≤ taskWork final + 5 + a.left + _ + 0
    omega
  | @giveUp final v a hw =>
    refine work_of_move rfl rfl ?_
    rw [hw]
    show 1 + taskWork final + 3 * (s.queue.tail - s.queue.head) ≤ taskWork final + 5 + a.left + _ + 0
    omega
  | @publish final pos hw =>
    refine work_of_move rfl rfl ?_
    rw [hw]
    show 1 + taskWork final + 3 * ((s.queue.publish pos).tail - (s.queue.publish pos).head) ≤ taskWork final + 1 + _ + 0
    rw [Tickets.tail_publish, Tickets.head_publish]
    omega

/-- **A step after the call of `stop()`.** -/
theorem Stopping.paid (hS : Stopping s) (hstop : s.owner.stopping = true) {a : Action n ι T} (hP : Contract s a)
    (h : ThreadPool.step s a = some s') : s'.owner.stopping = true ∧ 1 + s'.work ≤ s.work + a.grant := by
  cases a with
  | submit t v => cases (show s.owner.stopping = false from hP).symm.trans hstop
  | outside t =>
    have hidle := hS.orderly.returned hstop t
    simp only [ThreadPool.step, State.outsideAccess, hidle, reduceCtorEq] at h
  | nested w v =>
    simp only [ThreadPool.step] at h
    split at h <;> cases h
    next final hw =>
      refine ⟨hstop, work_of_move rfl rfl ?_⟩
      rw [hw]
      show 1 + (taskWork final + 5 + Attempt.first.left) + 3 * (s.queue.tail - s.queue.head) ≤ taskWork final + _ + 327
      rw [Attempt.first_ok.2]
      omega
  | finish w =>
    simp only [ThreadPool.step] at h
    split at h <;> cases h
    next final hw =>
      refine ⟨hstop, work_of_move rfl rfl ?_⟩
      rw [hw]
      cases final <;> exact Nat.le_refl _
  | work w =>
    have hmove := workerAccess_cases h
    obtain ⟨-, howner, -⟩ := hmove.frame
    refine ⟨by rw [howner]; exact hstop, hmove.paid hS hstop fun final hw => ?_⟩
    have haccess : s.workerAccess w = some s' := h
    rw [State.workerAccess, hw] at haccess
    cases haccess
  | own =>
    have hmove := ownerAccess_cases h
    cases hmove with
    | start ho => cases (congrArg Owner.stopping ho).symm.trans hstop
    | spawn ho => cases (congrArg Owner.stopping ho).symm.trans hstop
    | ready ho => cases (congrArg Owner.stopping ho).symm.trans hstop
    | stop ho => cases (congrArg Owner.stopping ho).symm.trans hstop
    | @join w ho hw =>
      refine ⟨rfl, ?_⟩
      have hlt := w.isLt
      rw [State.work, State.work, ho]
      show 1 + (3 * (s.queue.tail - s.queue.head) + weight Worker.work s.worker + (n - (w + 1) + 1)) ≤ _ + (n - w + 1) + 0
      omega
    | @joined i ho hi =>
      refine ⟨rfl, ?_⟩
      rw [State.work, State.work, ho]
      show 1 + (3 * (s.queue.tail - s.queue.head) + weight Worker.work s.worker + 0) ≤ _ + (n - i + 1) + 0
      omega

omit [DecidableEq ι] in
/-- Where no access is possible, `stop()` has returned or waits for a task. -/
theorem Stopping.rest (hS : Stopping s) (hstop : s.owner.stopping = true) (hown : s.ownerAccess = none)
    (hwork : ∀ w, s.workerAccess w = none) : s.owner = .stopped ∨ ∃ w final, s.worker w = .task final := by
  unfold State.ownerAccess at hown
  cases ho : s.owner with
  | created => rw [ho] at hstop; cases hstop
  | starting i => rw [ho] at hstop; cases hstop
  | started => rw [ho] at hstop; cases hstop
  | stopped => exact .inl rfl
  | joining i =>
    rw [ho] at hown
    simp only at hown
    split at hown
    · next hi =>
      -- the worker to be joined has not left
      have hw := hwork ⟨i, hi⟩
      have hborn := hS.born ⟨i, hi⟩
      unfold State.workerAccess at hw
      cases hpc : s.worker ⟨i, hi⟩ with
      | task final => exact .inr ⟨⟨i, hi⟩, final, hpc⟩
      | unborn =>
        rcases hborn hpc with hc | ⟨j, -, hs⟩
        · cases ho.symm.trans hc
        · cases ho.symm.trans hs
      | exited =>
        rw [hpc] at hown
        cases hown
      | test => rw [hpc] at hw; cases hw
      | pop final =>
        rw [hpc] at hw
        simp only at hw
        split at hw <;> cases hw
      | release final v pos => rw [hpc] at hw; cases hw
      | push final v a =>
        rw [hpc] at hw
        simp only at hw
        split at hw
        · cases hw
        · split at hw <;> cases hw
      | publish final pos => rw [hpc] at hw; cases hw
    · cases hown

/-- **`stop()` returns.**  For every number of workers, every capacity and every run in which the threads outside keep
to the contract: from the call of `stop()` on, whatever the schedule, the steps that are taken are bounded by what was
left to do at some moment and what the tasks have submitted since; and where the pool can do no access, `stop()` has
returned, or it waits for a task that has not. -/
theorem stop_returns (hn : 1 ≤ n) (capacity : ℕ) {as bs : List (Action n ι T)}
    (hcontract : Along step Contract (State.init n ι T capacity) as) (hrun : run step (State.init n ι T capacity) as = some s)
    (hstop : s.owner.stopping = true) (hcontract' : Along step Contract s bs) (hlater : run step s bs = some s') :
    bs.length ≤ s.work + (bs.map Action.grant).sum ∧
      (s'.ownerAccess = none → (∀ w, s'.workerAccess w = none) →
        s'.owner = .stopped ∨ ∃ w final, s'.worker w = .task final) := by
  have hS : Stopping s := run_induction_along Contract Stopping (stopping_init hn capacity)
    (fun _ _ _ hS hP h => hS.step hn hP h) hcontract hrun
  obtain ⟨hS', hstop'⟩ := run_induction_along Contract (fun s => Stopping s ∧ s.owner.stopping = true) ⟨hS, hstop⟩
    (fun _ _ _ hI hP h => ⟨hI.1.step hn hP h, (hI.1.paid hI.2 hP h).1⟩) hcontract' hlater
  refine ⟨?_, hS'.rest hstop'⟩
  have hpaid := run_cost_le_along Contract (fun s => Stopping s ∧ s.owner.stopping = true) (fun _ => True) State.work
    (fun _ => 0) (fun _ => 1) Action.grant (fun _ _ _ _ _ => trivial) (fun s a s' hI _ hP h => by
      obtain ⟨hstop', hle⟩ := hI.1.paid hI.2 hP h
      exact ⟨⟨hI.1.step hn hP h, hstop'⟩, by omega⟩) ⟨hS, hstop⟩ hcontract' hlater trivial
  rw [List.map_const', List.sum_replicate, smul_eq_mul, Nat.mul_one] at hpaid
  omega

/-- Two workers, one of them in a task when `stop()` is called; -/
def stoppingRun : List (Action 2 Unit ℕ) :=
  [.own, .own, .own, .own, .submit () 7, .outside (), .outside (), .work worker₁, .work worker₁, .work worker₁, .own]

/-- its task submits another one, which is executed too. -/
def leavingRun : List (Action 2 Unit ℕ) :=
  [.nested worker₁ 8, .work worker₁, .work worker₁, .finish worker₁, .work worker₁, .work worker₁, .work worker₁,
    .finish worker₁, .work worker₁, .work worker₀, .work worker₀, .own, .own, .own]

theorem stop_returns_nested :
    ∃ s s', run step (State.init 2 Unit ℕ 2) stoppingRun = some s ∧ s.owner.stopping = true ∧
      run step s leavingRun = some s' ∧ s'.owner = .stopped ∧
      leavingRun.length ≤ s.work + (leavingRun.map Action.grant).sum := by
  have hreturns := @stop_returns 2 Unit ℕ _ _ _ (by decide) 2 stoppingRun leavingRun (by decide) rfl rfl (by decide) rfl
  exact ⟨_, _, rfl, rfl, rfl, rfl, hreturns.1⟩

end KwNet.ThreadPool
