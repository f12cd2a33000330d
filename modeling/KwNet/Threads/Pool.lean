import Mathlib
import KwNet.Lib.Run
import KwNet.Queue.Ticket

/-!
# `ThreadPool`: workers on one bounded queue

`ThreadPool.cpp` as its owner (`start`, `stop`), `threadNum` workers (`worker_loop`) and any number of
threads that `submit`.  Every access to `running` and to `taskQueue` is one step.  What a task does is
left open: on its worker it may submit, submit again and return.

* `Submitter`, `Worker`, `Owner` say where each of them stands;
* `FromOutside`, `Works`, `Owns` invert the steps once, and **`step_cases`** says that these are all.

`executed` is history, never read by the code.
-/

namespace KwNet.ThreadPool

open KwNet.Mpmc

/-- Where a thread outside the pool stands in `submit`. -/
inductive Submitter (T : Type) where
  | idle
  /-- `try_push` of `taskQueue.push(task_)`. -/
  | push (v : T) (a : Attempt)
  /-- The store that ends the `try_push` that claimed `pos`. -/
  | publish (pos : ℕ)
  deriving DecidableEq

/-- Where a worker stands in `worker_loop`.  `final` tells the loop `while (taskQueue.try_pop(task))`
after `running` from the loop `while (running)`. -/
inductive Worker (T : Type) where
  /-- `threads[i]->start()` has not been executed. -/
  | unborn
  /-- `while (running)`. -/
  | test
  /-- `taskQueue.try_pop(task)`. -/
  | pop (final : Bool)
  /-- The store that ends the `try_pop` that took `v` from `pos`. -/
  | release (final : Bool) (v : T) (pos : ℕ)
  /-- In `task()`. -/
  | task (final : Bool)
  /-- In `submit`, called by the task. -/
  | push (final : Bool) (v : T) (a : Attempt)
  | publish (final : Bool) (pos : ℕ)
  | exited

/-- Where the thread that starts and stops the pool stands. -/
inductive Owner where
  | created
  /-- In `start()`, about to start thread `i`. -/
  | starting (i : ℕ)
  | started
  /-- In `stop()`, about to join thread `i`. -/
  | joining (i : ℕ)
  /-- `stop()` has returned. -/
  | stopped
  deriving DecidableEq

/-- `stop()` has been called. -/
def Owner.stopping : Owner → Bool
  | .joining _ => true
  | .stopped => true
  | _ => false

/-- The pool, the threads that submit and the history of the run. -/
structure State (n : ℕ) (ι T : Type) where
  queue : Tickets T
  running : Bool
  outside : ι → Submitter T
  worker : Fin n → Worker T
  owner : Owner
  /-- The tasks called, with their positions, in the order of the calls. -/
  executed : List (T × ℕ)

/-- One step of the system. -/
inductive Action (n : ℕ) (ι T : Type) where
  /-- A thread outside the pool calls `submit`. -/
  | submit (t : ι) (v : T)
  /-- The next access of a thread outside the pool. -/
  | outside (t : ι)
  /-- The task on worker `w` calls `submit`. -/
  | nested (w : Fin n) (v : T)
  /-- The task on worker `w` returns. -/
  | finish (w : Fin n)
  /-- The next access of worker `w`. -/
  | work (w : Fin n)
  /-- The owner's next action in `start()` or `stop()`. -/
  | own

variable {n : ℕ} {ι T : Type} [DecidableEq ι]

def State.outsideGoto (s : State n ι T) (t : ι) (pc : Submitter T) : State n ι T :=
  { s with outside := Function.update s.outside t pc }

def State.goto (s : State n ι T) (w : Fin n) (pc : Worker T) : State n ι T :=
  { s with worker := Function.update s.worker w pc }

/-- The next access of a thread outside the pool. -/
def State.outsideAccess (s : State n ι T) (t : ι) : Option (State n ι T) :=
  match s.outside t with
  | .idle => none
  | .push v a =>
    if s.queue.Room then
      some { s.outsideGoto t (.publish s.queue.tail) with queue := s.queue.claim v }
    else
      match a.next with
      | some a => some (s.outsideGoto t (.push v a))
      | none => some (s.outsideGoto t .idle)
  | .publish pos => some { s.outsideGoto t .idle with queue := s.queue.publish pos }

/-- The next access of worker `w`. -/
def State.workerAccess (s : State n ι T) (w : Fin n) : Option (State n ι T) :=
  match s.worker w with
  | .unborn => none
  | .test => some (s.goto w (.pop (!s.running)))
  | .pop final =>
    match s.queue.front with
    | some v => some { s.goto w (.release final v s.queue.head) with queue := s.queue.take }
    | none => some (s.goto w (if final then .exited else .test))
  | .release final v pos =>
    some { s.goto w (.task final) with
      queue := s.queue.release pos
      executed := s.executed ++ [(v, pos)] }
  | .task _ => none
  | .push final v a =>
    if s.queue.Room then
      some { s.goto w (.publish final s.queue.tail) with queue := s.queue.claim v }
    else
      match a.next with
      | some a => some (s.goto w (.push final v a))
      | none => some (s.goto w (.task final))
  | .publish final pos => some { s.goto w (.task final) with queue := s.queue.publish pos }
  | .exited => none

/-- The owner's next action.  `join` returns when the thread has ended. -/
def State.ownerAccess (s : State n ι T) : Option (State n ι T) :=
  match s.owner with
  | .created => some { s with running := true, owner := .starting 0 }
  | .starting i =>
    if h : i < n then some { s.goto ⟨i, h⟩ .test with owner := .starting (i + 1) }
    else some { s with owner := .started }
  | .started => some { s with running := false, owner := .joining 0 }
  | .joining i =>
    if h : i < n then
      match s.worker ⟨i, h⟩ with
      | .exited => some { s with owner := .joining (i + 1) }
      | _ => none
    else some { s with owner := .stopped }
  | .stopped => none

/-- The transition function of the system. -/
def step (s : State n ι T) : Action n ι T → Option (State n ι T)
  | .submit t v =>
    match s.outside t with
    | .idle => some (s.outsideGoto t (.push v .first))
    | _ => none
  | .outside t => s.outsideAccess t
  | .nested w v =>
    match s.worker w with
    | .task final => some (s.goto w (.push final v .first))
    | _ => none
  | .finish w =>
    match s.worker w with
    | .task final => some (s.goto w (if final then .pop true else .test))
    | _ => none
  | .work w => s.workerAccess w
  | .own => s.ownerAccess

/-- The pool right after its constructor. -/
def State.init (n : ℕ) (ι T : Type) (capacity : ℕ) : State n ι T :=
  { queue := .init T capacity
    running := false
    outside := fun _ => .idle
    worker := fun _ => .unborn
    owner := .created
    executed := [] }

/-! ### The steps, inverted once -/

/-- What a thread outside the pool can do. -/
inductive FromOutside (s : State n ι T) (t : ι) : State n ι T → Prop
  | submit {v : T} (ht : s.outside t = .idle) : FromOutside s t (s.outsideGoto t (.push v .first))
  | claim {v : T} {a : Attempt} (ht : s.outside t = .push v a) (hroom : s.queue.Room) :
      FromOutside s t
        { s.outsideGoto t (.publish s.queue.tail) with queue := s.queue.claim v }
  | retry {v : T} {a a' : Attempt} (ht : s.outside t = .push v a) (ha : a.next = some a') :
      FromOutside s t (s.outsideGoto t (.push v a'))
  | giveUp {v : T} {a : Attempt} (ht : s.outside t = .push v a) :
      FromOutside s t (s.outsideGoto t .idle)
  | publish {pos : ℕ} (ht : s.outside t = .publish pos) :
      FromOutside s t { s.outsideGoto t .idle with queue := s.queue.publish pos }

/-- What a worker can do. -/
inductive Works (s : State n ι T) (w : Fin n) : State n ι T → Prop
  | test (hw : s.worker w = .test) : Works s w (s.goto w (.pop (!s.running)))
  | take {final : Bool} {v : T} (hw : s.worker w = .pop final) (hf : s.queue.front = some v) :
      Works s w { s.goto w (.release final v s.queue.head) with queue := s.queue.take }
  | yield (hw : s.worker w = .pop false) : Works s w (s.goto w .test)
  | exit (hw : s.worker w = .pop true) (hf : s.queue.front = none) : Works s w (s.goto w .exited)
  | execute {final : Bool} {v : T} {pos : ℕ} (hw : s.worker w = .release final v pos) :
      Works s w { s.goto w (.task final) with
        queue := s.queue.release pos
        executed := s.executed ++ [(v, pos)] }
  | nested {final : Bool} {v : T} (hw : s.worker w = .task final) :
      Works s w (s.goto w (.push final v .first))
  | again (hw : s.worker w = .task false) : Works s w (s.goto w .test)
  | drain (hw : s.worker w = .task true) : Works s w (s.goto w (.pop true))
  | claim {final : Bool} {v : T} {a : Attempt} (hw : s.worker w = .push final v a)
      (hroom : s.queue.Room) :
      Works s w { s.goto w (.publish final s.queue.tail) with queue := s.queue.claim v }
  | retry {final : Bool} {v : T} {a a' : Attempt} (hw : s.worker w = .push final v a)
      (ha : a.next = some a') : Works s w (s.goto w (.push final v a'))
  | giveUp {final : Bool} {v : T} {a : Attempt} (hw : s.worker w = .push final v a) :
      Works s w (s.goto w (.task final))
  | publish {final : Bool} {pos : ℕ} (hw : s.worker w = .publish final pos) :
      Works s w { s.goto w (.task final) with queue := s.queue.publish pos }

/-- What the owner can do. -/
inductive Owns (s : State n ι T) : State n ι T → Prop
  | start (ho : s.owner = .created) : Owns s { s with running := true, owner := .starting 0 }
  | spawn {w : Fin n} (ho : s.owner = .starting w) :
      Owns s { s.goto w .test with owner := .starting (w + 1) }
  | ready {i : ℕ} (ho : s.owner = .starting i) : Owns s { s with owner := .started }
  | stop (ho : s.owner = .started) : Owns s { s with running := false, owner := .joining 0 }
  | join {w : Fin n} (ho : s.owner = .joining w) (hw : s.worker w = .exited) :
      Owns s { s with owner := .joining (w + 1) }
  | joined {i : ℕ} (ho : s.owner = .joining i) (hi : n ≤ i) : Owns s { s with owner := .stopped }

variable {s s' : State n ι T}

theorem outsideAccess_cases {t : ι} (h : s.outsideAccess t = some s') : FromOutside s t s' := by
  unfold State.outsideAccess at h
  split at h
  · cases h
  · next v a ht =>
    split at h
    · next hroom =>
      cases h
      exact .claim ht hroom
    · split at h
      · next a' ha =>
        cases h
        exact .retry ht ha
      · cases h
        exact .giveUp ht
  · next pos ht =>
    cases h
    exact .publish ht

omit [DecidableEq ι] in
theorem workerAccess_cases {w : Fin n} (h : s.workerAccess w = some s') : Works s w s' := by
  unfold State.workerAccess at h
  split at h
  · cases h
  · next hw =>
    cases h
    exact .test hw
  · next final hw =>
    split at h
    · next v hf =>
      cases h
      exact .take hw hf
    · next hf =>
      cases h
      cases final with
      | false => exact .yield hw
      | true => exact .exit hw hf
  · next final v pos hw =>
    cases h
    exact .execute hw
  · cases h
  · next final v a hw =>
    split at h
    · next hroom =>
      cases h
      exact .claim hw hroom
    · split at h
      · next a' ha =>
        cases h
        exact .retry hw ha
      · cases h
        exact .giveUp hw
  · next final pos hw =>
    cases h
    exact .publish hw
  · cases h

omit [DecidableEq ι] in
theorem ownerAccess_cases (h : s.ownerAccess = some s') : Owns s s' := by
  unfold State.ownerAccess at h
  split at h
  · next ho =>
    cases h
    exact .start ho
  · next i ho =>
    split at h
    · next hi =>
      cases h
      exact Owns.spawn (w := ⟨i, hi⟩) ho
    · cases h
      exact .ready ho
  · next ho =>
    cases h
    exact .stop ho
  · next i ho =>
    split at h
    · next hi =>
      split at h
      · next hw =>
        cases h
        exact Owns.join (w := ⟨i, hi⟩) ho hw
      · cases h
    · next hi =>
      cases h
      exact .joined ho (Nat.le_of_not_lt hi)
  · cases h

/-- **What an action can do to the pool.** -/
theorem step_cases {a : Action n ι T} (h : step s a = some s') :
    (∃ t, FromOutside s t s' ∧ ((∃ v, a = .submit t v) ∨ s.outside t ≠ .idle)) ∨
      (∃ w, Works s w s') ∨ (Owns s s' ∧ a = .own) := by
  cases a with
  | submit t v =>
    simp only [step] at h
    split at h <;> cases h
    next ht => exact .inl ⟨t, .submit ht, .inl ⟨v, rfl⟩⟩
  | outside t =>
    refine .inl ⟨t, outsideAccess_cases h, .inr fun ht => ?_⟩
    simp [step, State.outsideAccess, ht] at h
  | nested w v =>
    simp only [step] at h
    split at h <;> cases h
    next final hw => exact .inr (.inl ⟨w, .nested hw⟩)
  | finish w =>
    simp only [step] at h
    split at h <;> cases h
    next final hw =>
    cases final with
    | false => exact .inr (.inl ⟨w, .again hw⟩)
    | true => exact .inr (.inl ⟨w, .drain hw⟩)
  | work w => exact .inr (.inl ⟨w, workerAccess_cases h⟩)
  | own => exact .inr (.inr ⟨ownerAccess_cases h, rfl⟩)

end KwNet.ThreadPool
