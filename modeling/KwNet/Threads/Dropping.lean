import KwNet.Loop.Moves
import KwNet.Queue.Blocking
import KwNet.Threads.Drain

/-!
# What `queueInLoop` and `submit` do with a full queue

Both end in `push` of their argument, on the loop's own thread and on a worker too, where nobody else may be there
to make room.

* `Loop.Queues`, `ThreadPool.Queues` — a thread in that `push` stays there until its argument stands in the queue;
* `Loop.Admits`, `ThreadPool.Admits` — no thread finds the queue full with its last attempt;
* **`calls_transfer`** — for `push` and `pop` themselves and for the two callers: the one holds along a run exactly
  when the other does.
-/

namespace KwNet.Mpmc

theorem mem_tickets_claim {T : Type} (q : Tickets T) (v : T) : (v, q.tail) ∈ (q.claim v).tickets := by
  rw [Tickets.tickets_claim]
  exact List.mem_append_right _ (List.mem_singleton.mpr rfl)

end KwNet.Mpmc

namespace KwNet.Loop

open KwNet.Mpmc

variable {ι F : Type} [DecidableEq ι]

/-- The functor of a `queueInLoop` is not dropped: its thread is still in `push`, or has claimed a position for
it. -/
def Queues (s : State ι F) (a : Action ι F) : Prop :=
  ∀ s', step s a = some s' →
    (∀ t f b, s.thread t = .push f b → (∃ b', s'.thread t = .push f b') ∨
      ∃ pos, s'.thread t = .publish pos ∧ (f, pos) ∈ s'.queue.tickets) ∧
    ∀ w f b, s.loop = .push w f b → (∃ b', s'.loop = .push w f b') ∨
      ∃ pos, s'.loop = .publish w pos ∧ (f, pos) ∈ s'.queue.tickets

/-- The last attempt of a `push` does not find `pendingFunctors` full. -/
def Admits (s : State ι F) : Action ι F → Prop
  | .step t => ∀ f b, s.thread t = .push f b → b.next = none → s.queue.Room
  | .loopStep => ∀ w f b, s.loop = .push w f b → b.next = none → s.queue.Room
  | _ => True

variable {s s' : State ι F}

/-- A thread in `push` is moved by its own accesses only. -/
theorem thread_kept {a : Action ι F} (h : step s a = some s') {t : ι} {f : F} {b : Attempt}
    (ht : s.thread t = .push f b) (ha : a ≠ .step t) : s'.thread t = .push f b := by
  rcases step_cases h with ⟨u, hu, hO⟩ | ⟨-, hO⟩
  · obtain ⟨-, -, -, -, -, hothers⟩ := hO.frame
    have hne : t ≠ u := by
      rintro rfl
      rcases hu with rfl | hidle
      · exact ha rfl
      · rw [ht] at hidle
        cases hidle
    rw [hothers t hne, ht]
  · rw [hO.frame, ht]

theorem loop_kept {a : Action ι F} (h : step s a = some s') {w : Place} {f : F} {b : Attempt}
    (hl : s.loop = .push w f b) (ha : a ≠ .loopStep) : s'.loop = .push w f b := by
  rcases step_cases h with ⟨u, -, hO⟩ | ⟨hu, -⟩
  · rw [hO.frame.1, hl]
  · rcases hu with rfl | ⟨w', huser⟩ | hpoll
    · exact absurd rfl ha
    · rw [hl] at huser
      cases huser
    · rw [hl] at hpoll
      cases hpoll

/-- An attempt of another thread. -/
theorem access_push {t : ι} {f : F} {b : Attempt} (ht : s.thread t = .push f b) :
    (s.queue.Room ∧ s.access t = some { s.goto t (.publish s.queue.tail) with queue := s.queue.claim f }) ∨
      (¬s.queue.Room ∧ ((∃ b', b.next = some b' ∧ s.access t = some (s.goto t (.push f b'))) ∨
        (b.next = none ∧ s.access t = some (s.goto t (.wake none))))) := by
  unfold State.access
  rw [ht]
  by_cases hroom : s.queue.Room
  · exact .inl ⟨hroom, if_pos hroom⟩
  · refine .inr ⟨hroom, ?_⟩
    cases hnext : b.next with
    | some b' => exact .inl ⟨b', rfl, by simp [hroom, hnext]⟩
    | none => exact .inr ⟨rfl, by simp [hroom, hnext]⟩

omit [DecidableEq ι] in
/-- An attempt on the loop's own thread. -/
theorem loopAccess_push {w : Place} {f : F} {b : Attempt} (hl : s.loop = .push w f b) :
    (s.queue.Room ∧ s.loopAccess = some { s.loopGoto (.publish w s.queue.tail) with
        queue := s.queue.claim f, early := s.early || w == .before }) ∨
      (¬s.queue.Room ∧ ((∃ b', b.next = some b' ∧ s.loopAccess = some (s.loopGoto (.push w f b'))) ∨
        (b.next = none ∧ s.loopAccess = some (s.loopGoto (.user w))))) := by
  unfold State.loopAccess
  rw [hl]
  by_cases hroom : s.queue.Room
  · exact .inl ⟨hroom, if_pos hroom⟩
  · refine .inr ⟨hroom, ?_⟩
    cases hnext : b.next with
    | some b' => exact .inl ⟨b', rfl, by simp [hroom, hnext]⟩
    | none => exact .inr ⟨rfl, by simp [hroom, hnext]⟩

/-- **One step of the loop.** -/
theorem queues_iff (s : State ι F) (a : Action ι F) : Queues s a ↔ Admits s a := by
  constructor
  · intro hqueues
    cases a with
    | step t =>
      intro f b ht hnext
      rcases access_push ht with ⟨hroom, -⟩ | ⟨-, ⟨b', hb', -⟩ | ⟨-, hs'⟩⟩
      · exact hroom
      · rw [hnext] at hb'
        cases hb'
      · have hself : (s.goto t (.wake none)).thread t = .wake none := Function.update_self _ _ _
        rcases (hqueues _ hs').1 t f b ht with ⟨b', hb'⟩ | ⟨pos, hpos, -⟩
        · rw [hself] at hb'
          cases hb'
        · rw [hself] at hpos
          cases hpos
    | loopStep =>
      intro w f b hl hnext
      rcases loopAccess_push hl with ⟨hroom, -⟩ | ⟨-, ⟨b', hb', -⟩ | ⟨-, hs'⟩⟩
      · exact hroom
      · rw [hnext] at hb'
        cases hb'
      · rcases (hqueues _ hs').2 w f b hl with ⟨b', hb'⟩ | ⟨pos, hpos, -⟩
        · cases hb'
        · cases hpos
    | _ => trivial
  · intro hadmits s' h
    refine ⟨fun t f b ht => ?_, fun w f b hl => ?_⟩
    · by_cases ha : a = .step t
      · subst ha
        rcases access_push ht with ⟨-, hs'⟩ | ⟨hfull, ⟨b', -, hs'⟩ | ⟨hnext, -⟩⟩
        · cases h.symm.trans hs'
          exact .inr ⟨s.queue.tail, Function.update_self _ _ _, mem_tickets_claim _ _⟩
        · cases h.symm.trans hs'
          exact .inl ⟨b', Function.update_self _ _ _⟩
        · exact absurd (hadmits f b ht hnext) hfull
      · exact .inl ⟨b, thread_kept h ht ha⟩
    · by_cases ha : a = .loopStep
      · subst ha
        rcases loopAccess_push hl with ⟨-, hs'⟩ | ⟨hfull, ⟨b', -, hs'⟩ | ⟨hnext, -⟩⟩
        · cases h.symm.trans hs'
          exact .inr ⟨s.queue.tail, rfl, mem_tickets_claim _ _⟩
        · cases h.symm.trans hs'
          exact .inl ⟨b', rfl⟩
        · exact absurd (hadmits w f b hl hnext) hfull
      · exact .inl ⟨b, loop_kept h hl ha⟩

end KwNet.Loop

namespace KwNet.ThreadPool

open KwNet.Lib KwNet.Mpmc

variable {n : ℕ} {ι T : Type} [DecidableEq ι]

/-- The task of a `submit` is not dropped: its thread is still in `push`, or has claimed a position for it. -/
def Queues (s : State n ι T) (a : Action n ι T) : Prop :=
  ∀ s', step s a = some s' →
    (∀ t v b, s.outside t = .push v b → (∃ b', s'.outside t = .push v b') ∨
      ∃ pos, s'.outside t = .publish pos ∧ (v, pos) ∈ s'.queue.tickets) ∧
    ∀ w final v b, s.worker w = .push final v b → (∃ b', s'.worker w = .push final v b') ∨
      ∃ pos, s'.worker w = .publish final pos ∧ (v, pos) ∈ s'.queue.tickets

/-- The last attempt of a `push` does not find `taskQueue` full. -/
def Admits (s : State n ι T) : Action n ι T → Prop
  | .outside t => ∀ v b, s.outside t = .push v b → b.next = none → s.queue.Room
  | .work w => ∀ final v b, s.worker w = .push final v b → b.next = none → s.queue.Room
  | _ => True

variable {s s' : State n ι T}

/-- The threads that `start()` has still to start. -/
structure Unborn (s : State n ι T) : Prop where
  created : s.owner = .created → ∀ w, s.worker w = .unborn
  starting : ∀ i, s.owner = .starting i → ∀ w : Fin n, i ≤ w → s.worker w = .unborn

omit [DecidableEq ι] in
theorem unborn_init (capacity : ℕ) : Unborn (State.init n ι T capacity) where
  created := fun _ _ => rfl
  starting := by
    intro i hi
    cases hi

omit [DecidableEq ι] in
theorem Unborn.owns (hU : Unborn s) (h : Owns s s') : Unborn s' := by
  cases h with
  | start ho =>
    refine ⟨fun hc => ?_, fun i _ w _ => hU.created ho w⟩
    cases hc
  | @spawn u ho =>
    refine ⟨fun hc => ?_, fun i hi w hw => ?_⟩
    · cases hc
    · cases hi
      have hne : w ≠ u := by
        rintro rfl
        omega
      exact (Function.update_of_ne hne _ _).trans (hU.starting _ ho w (by omega))
  | _ =>
    refine ⟨fun hc => ?_, fun i hi => ?_⟩
    · cases hc
    · cases hi

theorem Unborn.step (hU : Unborn s) {a : Action n ι T} (h : ThreadPool.step s a = some s') : Unborn s' := by
  rcases step_cases h with ⟨t, hO, -⟩ | ⟨u, hW⟩ | ⟨hO, -⟩
  · obtain ⟨hworker, howner, -⟩ := hO.frame
    refine ⟨fun hc w => ?_, fun i hi w hw => ?_⟩
    · rw [hworker]
      exact hU.created (howner.symm.trans hc) w
    · rw [hworker]
      exact hU.starting i (howner.symm.trans hi) w hw
  · obtain ⟨-, howner, -, hothers⟩ := hW.frame
    have hkeep : ∀ w, s.worker w = .unborn → s'.worker w = .unborn := by
      intro w hw
      have hne : w ≠ u := by
        rintro rfl
        exact hW.alive.1 hw
      rw [hothers w hne, hw]
    refine ⟨fun hc w => hkeep w (hU.created (howner.symm.trans hc) w), fun i hi w hw => ?_⟩
    exact hkeep w (hU.starting i (howner.symm.trans hi) w hw)
  · exact hU.owns hO

/-- A thread outside the pool that is in `push` is moved by its own accesses only. -/
theorem outside_kept {a : Action n ι T} (h : step s a = some s') {t : ι} {v : T} {b : Attempt}
    (ht : s.outside t = .push v b) (ha : a ≠ .outside t) : s'.outside t = .push v b := by
  have hsame : s'.outside = s.outside → s'.outside t = .push v b := fun heq => by rw [heq, ht]
  cases a with
  | submit u x =>
    simp only [step] at h
    split at h <;> cases h
    next hidle =>
      have hne : t ≠ u := by
        rintro rfl
        rw [ht] at hidle
        cases hidle
      exact (Function.update_of_ne hne _ _).trans ht
  | outside u =>
    have hne : t ≠ u := by
      rintro rfl
      exact ha rfl
    obtain ⟨-, -, -, -, -, hothers⟩ := (outsideAccess_cases h).frame
    rw [hothers t hne, ht]
  | nested u x =>
    simp only [step] at h
    split at h <;> cases h
    exact ht
  | finish u =>
    simp only [step] at h
    split at h <;> cases h
    exact ht
  | work u => exact hsame (workerAccess_cases h).frame.1
  | own =>
    have hO := ownerAccess_cases h
    cases hO <;> exact ht

/-- A worker in `push` is moved by its own accesses only. -/
theorem worker_kept (hU : Unborn s) {a : Action n ι T} (h : step s a = some s') {w : Fin n} {final : Bool} {v : T}
    {b : Attempt} (hw : s.worker w = .push final v b) (ha : a ≠ .work w) : s'.worker w = .push final v b := by
  cases a with
  | submit u x =>
    simp only [step] at h
    split at h <;> cases h
    exact hw
  | outside u => rw [(outsideAccess_cases h).frame.1, hw]
  | nested u x =>
    simp only [step] at h
    split at h <;> cases h
    next htask =>
      have hne : w ≠ u := by
        rintro rfl
        rw [hw] at htask
        cases htask
      exact (Function.update_of_ne hne _ _).trans hw
  | finish u =>
    simp only [step] at h
    split at h <;> cases h
    next htask =>
      have hne : w ≠ u := by
        rintro rfl
        rw [hw] at htask
        cases htask
      exact (Function.update_of_ne hne _ _).trans hw
  | work u =>
    have hne : w ≠ u := by
      rintro rfl
      exact ha rfl
    obtain ⟨-, -, -, hothers⟩ := (workerAccess_cases h).frame
    rw [hothers w hne, hw]
  | own =>
    have hO := ownerAccess_cases h
    cases hO with
    | @spawn u ho =>
      have hne : w ≠ u := by
        rintro rfl
        rw [hU.starting _ ho w (Nat.le_refl _)] at hw
        cases hw
      exact (Function.update_of_ne hne _ _).trans hw
    | _ => exact hw

/-- An attempt of a thread outside the pool. -/
theorem outsideAccess_push {t : ι} {v : T} {b : Attempt} (ht : s.outside t = .push v b) :
    (s.queue.Room ∧
        s.outsideAccess t = some { s.outsideGoto t (.publish s.queue.tail) with queue := s.queue.claim v }) ∨
      (¬s.queue.Room ∧ ((∃ b', b.next = some b' ∧ s.outsideAccess t = some (s.outsideGoto t (.push v b'))) ∨
        (b.next = none ∧ s.outsideAccess t = some (s.outsideGoto t .idle)))) := by
  unfold State.outsideAccess
  rw [ht]
  by_cases hroom : s.queue.Room
  · exact .inl ⟨hroom, if_pos hroom⟩
  · refine .inr ⟨hroom, ?_⟩
    cases hnext : b.next with
    | some b' => exact .inl ⟨b', rfl, by simp [hroom, hnext]⟩
    | none => exact .inr ⟨rfl, by simp [hroom, hnext]⟩

omit [DecidableEq ι] in
/-- An attempt of a worker. -/
theorem workerAccess_push {w : Fin n} {final : Bool} {v : T} {b : Attempt} (hw : s.worker w = .push final v b) :
    (s.queue.Room ∧
        s.workerAccess w = some { s.goto w (.publish final s.queue.tail) with queue := s.queue.claim v }) ∨
      (¬s.queue.Room ∧ ((∃ b', b.next = some b' ∧ s.workerAccess w = some (s.goto w (.push final v b'))) ∨
        (b.next = none ∧ s.workerAccess w = some (s.goto w (.task final))))) := by
  unfold State.workerAccess
  rw [hw]
  by_cases hroom : s.queue.Room
  · exact .inl ⟨hroom, if_pos hroom⟩
  · refine .inr ⟨hroom, ?_⟩
    cases hnext : b.next with
    | some b' => exact .inl ⟨b', rfl, by simp [hroom, hnext]⟩
    | none => exact .inr ⟨rfl, by simp [hroom, hnext]⟩

/-- **One step of the pool.** -/
theorem queues_iff (hU : Unborn s) (a : Action n ι T) : Queues s a ↔ Admits s a := by
  constructor
  · intro hqueues
    cases a with
    | outside t =>
      intro v b ht hnext
      rcases outsideAccess_push ht with ⟨hroom, -⟩ | ⟨-, ⟨b', hb', -⟩ | ⟨-, hs'⟩⟩
      · exact hroom
      · rw [hnext] at hb'
        cases hb'
      · have hself : (s.outsideGoto t .idle).outside t = .idle := Function.update_self _ _ _
        rcases (hqueues _ hs').1 t v b ht with ⟨b', hb'⟩ | ⟨pos, hpos, -⟩
        · rw [hself] at hb'
          cases hb'
        · rw [hself] at hpos
          cases hpos
    | work w =>
      intro final v b hw hnext
      rcases workerAccess_push hw with ⟨hroom, -⟩ | ⟨-, ⟨b', hb', -⟩ | ⟨-, hs'⟩⟩
      · exact hroom
      · rw [hnext] at hb'
        cases hb'
      · have hself : (s.goto w (.task final)).worker w = .task final := Function.update_self _ _ _
        rcases (hqueues _ hs').2 w final v b hw with ⟨b', hb'⟩ | ⟨pos, hpos, -⟩
        · rw [hself] at hb'
          cases hb'
        · rw [hself] at hpos
          cases hpos
    | _ => trivial
  · intro hadmits s' h
    refine ⟨fun t v b ht => ?_, fun w final v b hw => ?_⟩
    · by_cases ha : a = .outside t
      · subst ha
        rcases outsideAccess_push ht with ⟨-, hs'⟩ | ⟨hfull, ⟨b', -, hs'⟩ | ⟨hnext, -⟩⟩
        · cases h.symm.trans hs'
          exact .inr ⟨s.queue.tail, Function.update_self _ _ _, mem_tickets_claim _ _⟩
        · cases h.symm.trans hs'
          exact .inl ⟨b', Function.update_self _ _ _⟩
        · exact absurd (hadmits v b ht hnext) hfull
      · exact .inl ⟨b, outside_kept h ht ha⟩
    · by_cases ha : a = .work w
      · subst ha
        rcases workerAccess_push hw with ⟨-, hs'⟩ | ⟨hfull, ⟨b', -, hs'⟩ | ⟨hnext, -⟩⟩
        · cases h.symm.trans hs'
          exact .inr ⟨s.queue.tail, Function.update_self _ _ _, mem_tickets_claim _ _⟩
        · cases h.symm.trans hs'
          exact .inl ⟨b', Function.update_self _ _ _⟩
        · exact absurd (hadmits final v b hw hnext) hfull
      · exact .inl ⟨b, worker_kept hU h hw ha⟩

/-- **`push` and `pop`, `queueInLoop`, `submit`.**  For every state of the queue, every capacity of the two queues
that are in use, any threads and every schedule: the calls of a run transfer their element, no `queueInLoop` drops
its functor and no `submit` its task, exactly when no call finds the queue full (or empty) with its last attempt,
the 322nd. -/
theorem calls_transfer :
    (∀ (q : Queue T) (as : List (Act ι T)),
      Along Blocking.step Completes (Blocking.init ι q) as ↔ Along Blocking.step Served (Blocking.init ι q) as) ∧
    (∀ (s : Loop.State ι T) (as : List (Loop.Action ι T)),
      Along Loop.step Loop.Queues s as ↔ Along Loop.step Loop.Admits s as) ∧
    ∀ (capacity : ℕ) (as : List (Action n ι T)),
      Along step Queues (State.init n ι T capacity) as ↔ Along step Admits (State.init n ι T capacity) as :=
  ⟨completes_iff_served,
    fun _ as => along_congr (fun _ => True) trivial (fun _ _ _ _ _ => trivial) (fun s a _ => Loop.queues_iff s a) as,
    fun capacity as =>
      along_congr Unborn (unborn_init capacity) (fun _ _ _ hU h => hU.step h) (fun _ a hU => queues_iff hU a) as⟩

end KwNet.ThreadPool
