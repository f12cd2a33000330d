import KwNet.Loop.Model

/-!
# The steps of the loop, inverted once

* `Other s t s'` — what thread `t`, not the loop's, can do;
* `Own s s'` — what the loop's own thread can do;
* **`step_cases`** — every step is one of these;
* **`Other.frame`**, **`Own.frame`** — what each of the two leaves alone.
-/

namespace KwNet.Loop

open KwNet.Mpmc

variable {ι F : Type} [DecidableEq ι]

/-- What a thread other than the loop's can do. -/
inductive Other (s : State ι F) (t : ι) : State ι F → Prop
  | queue {f : F} (ht : s.thread t = .idle) : Other s t (s.goto t (.push f .first))
  | callQuit (ht : s.thread t = .idle) : Other s t (s.callQuit.goto t .quitStore)
  | claim {f : F} {a : Attempt} (ht : s.thread t = .push f a) (hroom : s.queue.Room) :
      Other s t { s.goto t (.publish s.queue.tail) with queue := s.queue.claim f }
  | retry {f : F} {a a' : Attempt} (ht : s.thread t = .push f a) (ha : a.next = some a') :
      Other s t (s.goto t (.push f a'))
  | giveUp {f : F} {a : Attempt} (ht : s.thread t = .push f a) : Other s t (s.goto t (.wake none))
  | publish {pos : ℕ} (ht : s.thread t = .publish pos) :
      Other s t { s.goto t (.wake (some pos)) with queue := s.queue.publish pos }
  | wake {pos : ℕ} (ht : s.thread t = .wake (some pos)) :
      Other s t ((s.wakeup.returns pos).goto t .idle)
  | wakeNone (ht : s.thread t = .wake none) : Other s t (s.wakeup.goto t .idle)
  | quitStore (ht : s.thread t = .quitStore) :
      Other s t { s.goto t .quitWake with quit := true }
  | quitWake (ht : s.thread t = .quitWake) : Other s t (s.wakeup.goto t .idle)

/-- What the loop's own thread can do. -/
inductive Own (s : State ι F) : State ι F → Prop
  /-- `runInLoop` on the loop's own thread. -/
  | stay {w : Place} (hl : s.loop = .user w) : Own s s
  | queue {w : Place} {f : F} (hl : s.loop = .user w) : Own s (s.loopGoto (.push w f .first))
  | callQuit {w : Place} (hl : s.loop = .user w) : Own s (s.callQuit.loopGoto (.quitStore w))
  | enter (hl : s.loop = .user .before) : Own s (s.loopGoto .check)
  | eventsDone (hl : s.loop = .user .events) (hr : s.reported = false) : Own s (s.loopGoto .head)
  | taskDone (hl : s.loop = .user .task) : Own s (s.loopGoto .head)
  | handleWakeup (hl : s.loop = .user .events) :
      Own s { s with counter := 0, reported := false }
  | claim {w : Place} {f : F} {a : Attempt} (hl : s.loop = .push w f a) (hroom : s.queue.Room) :
      Own s { s.loopGoto (.publish w s.queue.tail) with
        queue := s.queue.claim f
        early := s.early || w == .before }
  | retry {w : Place} {f : F} {a a' : Attempt} (hl : s.loop = .push w f a)
      (ha : a.next = some a') : Own s (s.loopGoto (.push w f a'))
  | giveUp {w : Place} {f : F} {a : Attempt} (hl : s.loop = .push w f a) :
      Own s (s.loopGoto (.user w))
  | publish {w : Place} {pos : ℕ} (hl : s.loop = .publish w pos) :
      Own s { (s.returns pos).loopGoto (.user w) with queue := s.queue.publish pos }
  | quitStore {w : Place} (hl : s.loop = .quitStore w) :
      Own s { s.loopGoto (.user w) with quit := true }
  | leave (hl : s.loop = .check) (hq : s.quit = true) : Own s (s.loopGoto .done)
  | block (hl : s.loop = .check) (hq : s.quit = false) : Own s (s.loopGoto .poll)
  | loadHead (hl : s.loop = .head) : Own s (s.loopGoto (.tail s.queue.head))
  | empty {h : ℕ} (hl : s.loop = .tail h) (hh : h = s.queue.tail) : Own s (s.loopGoto .check)
  | nonempty {h : ℕ} (hl : s.loop = .tail h) (hh : h ≠ s.queue.tail) : Own s (s.loopGoto .pop)
  | take {f : F} (hl : s.loop = .pop) (hf : s.queue.front = some f) :
      Own s { s.loopGoto (.release f s.queue.head) with queue := s.queue.take }
  | popFailed (hl : s.loop = .pop) (hf : s.queue.front = none) : Own s (s.loopGoto .head)
  | execute {f : F} {pos : ℕ} (hl : s.loop = .release f pos) :
      Own s { s.loopGoto (.user .task) with
        queue := s.queue.release pos
        executed := s.executed ++ [(f, pos)] }
  | woken (hl : s.loop = .poll) :
      Own s { s.loopGoto (.user .events) with
        edge := false, reported := true, polls := s.polls + 1 }
  | polled (hl : s.loop = .poll) : Own s { s.loopGoto (.user .events) with polls := s.polls + 1 }

variable {s s' : State ι F} {t : ι}

theorem access_cases (h : s.access t = some s') : Other s t s' := by
  unfold State.access at h
  split at h
  · cases h
  · next f a ht =>
    split at h
    · next hroom =>
      cases h
      exact .claim ht hroom
    · split at h
      · next a' ha =>
        cases h
        exact .retry ht ha
      · cases h
        exact .giveUp ht
  · next pos ht =>
    cases h
    exact .publish ht
  · next pos ht =>
    cases h
    exact .wake ht
  · next ht =>
    cases h
    exact .wakeNone ht
  · next ht =>
    cases h
    exact .quitStore ht
  · next ht =>
    cases h
    exact .quitWake ht

omit [DecidableEq ι] in
theorem loopAccess_cases (h : s.loopAccess = some s') : Own s s' := by
  unfold State.loopAccess at h
  split at h
  · cases h
  · next w f a hl =>
    split at h
    · next hroom =>
      cases h
      exact .claim hl hroom
    · split at h
      · next a' ha =>
        cases h
        exact .retry hl ha
      · cases h
        exact .giveUp hl
  · next w pos hl =>
    cases h
    exact .publish hl
  · next w hl =>
    cases h
    exact .quitStore hl
  · next hl =>
    cases h
    split
    · next hq => exact .leave hl hq
    · next hq => exact .block hl (Bool.eq_false_iff.mpr hq)
  · cases h
  · next hl =>
    cases h
    exact .loadHead hl
  · next h' hl =>
    cases h
    split
    · next hh => exact .empty hl hh
    · next hh => exact .nonempty hl hh
  · next hl =>
    split at h
    · next f hf =>
      cases h
      exact .take hl hf
    · next hf =>
      cases h
      exact .popFailed hl hf
  · next f pos hl =>
    cases h
    exact .execute hl
  · cases h

/-- **What an action can do.**  Another thread makes an access of its own (`step`) or is outside the
loop's code; the loop's own thread makes an access of its own (`loopStep`) or stands in user code or in
`epoll_wait`. -/
theorem step_cases {a : Action ι F} (h : step s a = some s') :
    (∃ t, (a = .step t ∨ s.thread t = .idle) ∧ Other s t s') ∨
      ((a = .loopStep ∨ (∃ w, s.loop = .user w) ∨ s.loop = .poll) ∧ Own s s') := by
  cases a with
  | call t c =>
    simp only [step] at h
    split at h <;> cases h
    next ht =>
    refine .inl ⟨t, .inr ht, ?_⟩
    cases c with
    | runInLoop f => exact .queue ht
    | queueInLoop f => exact .queue ht
    | quit => exact .callQuit ht
  | step t => exact .inl ⟨t, .inl rfl, access_cases h⟩
  | loopCall c =>
    simp only [step] at h
    split at h <;> cases h
    next w hl =>
    refine .inr ⟨.inr (.inl ⟨w, hl⟩), ?_⟩
    cases c with
    | runInLoop f => exact .stay hl
    | queueInLoop f => exact .queue hl
    | quit => exact .callQuit hl
  | loopReturn =>
    simp only [step] at h
    split at h
    · next w hl =>
      refine .inr ⟨.inr (.inl ⟨w, hl⟩), ?_⟩
      cases w with
      | before =>
        cases h
        exact .enter hl
      | events =>
        simp only [State.loopReturn] at h
        split at h <;> cases h
        next hr => exact .eventsDone hl (Bool.eq_false_iff.mpr hr)
      | task =>
        cases h
        exact .taskDone hl
    · cases h
  | handleWakeup =>
    simp only [step] at h
    split at h
    · next hl =>
      split at h <;> cases h
      exact .inr ⟨.inr (.inl ⟨.events, hl⟩), .handleWakeup hl⟩
    · cases h
  | loopStep => exact .inr ⟨.inl rfl, loopAccess_cases h⟩
  | poll wake =>
    simp only [step] at h
    split at h
    · next hl =>
      refine .inr ⟨.inr (.inr hl), ?_⟩
      split at h
      · split at h <;> cases h
        exact .woken hl
      · cases h
        exact .polled hl
    · cases h

/-- Another thread moves nothing of the loop's own thread. -/
theorem Other.frame (h : Other s t s') :
    s'.loop = s.loop ∧ s'.polls = s.polls ∧ s'.early = s.early ∧ s'.queue.head = s.queue.head ∧
      s'.executed = s.executed ∧ ∀ u, u ≠ t → s'.thread u = s.thread u := by
  cases h <;> exact ⟨rfl, rfl, rfl, rfl, rfl, fun u hu => Function.update_of_ne hu _ _⟩

omit [DecidableEq ι] in
/-- The loop's own thread moves no other thread. -/
theorem Own.frame (h : Own s s') : s'.thread = s.thread := by
  cases h <;> rfl

end KwNet.Loop
