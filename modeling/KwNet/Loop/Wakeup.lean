import KwNet.Loop.Moves

/-!
# No wake-up is lost

Before the loop's thread blocks in `epoll_wait`, everything it has to wake up for is announced: an edge
of the eventfd is pending, or the thread that made the change has its `wakeup()` still ahead of it.

The loop consumes the edge in `epoll_wait` and reads the counter in the events, but both lie before the
drain, and the drain ends only when `empty()` has found the head it loaded equal to the tail.  The head
moves in this thread alone, so at the second load nothing at all is waiting (`Own.empty`); from there to
`epoll_wait` only other threads publish, and each of them has its `wakeup()` to come.

**`no_lost_wakeup`**: in every state of every run in which the loop is about to block.
-/

namespace KwNet.Loop

open KwNet.Lib KwNet.Mpmc

variable {ι F : Type}

/-! ### What holds in every state -/

/-- Positions and loads are what the code takes them for. -/
structure Basic (s : State ι F) : Prop where
  queue : s.queue.Ok
  /-- A thread publishes a position it has claimed. -/
  threads : ∀ t pos, s.thread t = .publish pos → pos < s.queue.tail
  own : ∀ w pos, s.loop = .publish w pos → pos < s.queue.tail
  /-- Only this thread moves the head, so the head it loaded is still the head. -/
  loaded : ∀ h, s.loop = .tail h → h = s.queue.head

theorem basic_init : Basic (State.init ι F) where
  queue := Tickets.ok_init F 1024
  threads := by intro t pos ht; cases ht
  own := by intro w pos hl; cases hl
  loaded := by intro h hl; cases hl

variable [DecidableEq ι] {s s' : State ι F} {t : ι}

theorem Other.tail_le (h : Other s t s') : s.queue.tail ≤ s'.queue.tail := by
  cases h with
  | claim ht hroom => simp
  | _ => exact Nat.le_refl _

omit [DecidableEq ι] in
theorem Own.tail_le (h : Own s s') : s.queue.tail ≤ s'.queue.tail := by
  cases h with
  | claim hl hroom => simp
  | _ => exact Nat.le_refl _

theorem Basic.other (hB : Basic s) (h : Other s t s') : Basic s' := by
  obtain ⟨hloop, -, -, hhead, -, hothers⟩ := h.frame
  have htail := h.tail_le
  refine ⟨?_, fun u pos hu => ?_, fun w pos hl => ?_, fun n hl => ?_⟩
  · cases h with
    | claim ht hroom => exact hB.queue.claim _
    | publish ht => exact hB.queue.publish (hB.threads t _ ht)
    | _ => exact hB.queue
  · by_cases hut : u = t
    · subst hut
      cases h <;> simp only [State.goto, Function.update_self, reduceCtorEq] at hu
      cases hu
      simp
    · rw [hothers u hut] at hu
      exact Nat.lt_of_lt_of_le (hB.threads u pos hu) htail
  · rw [hloop] at hl
    exact Nat.lt_of_lt_of_le (hB.own w pos hl) htail
  · rw [hloop] at hl
    rw [hhead]
    exact hB.loaded n hl

omit [DecidableEq ι] in
theorem Basic.ownStep (hB : Basic s) (h : Own s s') : Basic s' := by
  have htail := h.tail_le
  refine ⟨?_, fun u pos hu => ?_, fun w pos hl' => ?_, fun n hl' => ?_⟩
  · cases h with
    | claim hl hroom => exact hB.queue.claim _
    | publish hl => exact hB.queue.publish (hB.own _ _ hl)
    | take hl hf => exact hB.queue.take hf
    | execute hl => exact hB.queue.release _
    | _ => exact hB.queue
  · rw [h.frame] at hu
    exact Nat.lt_of_lt_of_le (hB.threads u pos hu) htail
  · cases h with
    | claim hl hroom =>
      cases hl'
      simp
    | stay hl => exact hB.own w pos hl'
    | handleWakeup hl => exact hB.own w pos hl'
    | _ => cases hl'
  · cases h with
    | loadHead hl =>
      cases hl'
      rfl
    | stay hl => exact hB.loaded n hl'
    | handleWakeup hl => exact hB.loaded n hl'
    | _ => cases hl'

theorem Basic.step (hB : Basic s) {a : Action ι F} (h : step s a = some s') : Basic s' := by
  rcases step_cases h with ⟨t, -, hmove⟩ | ⟨-, hmove⟩
  · exact hB.other hmove
  · exact hB.ownStep hmove

/-! ### Announced changes -/

/-- An edge of the eventfd that `epoll_wait` will report. -/
def State.Pending (s : State ι F) : Prop := s.edge = true ∧ s.counter ≠ 0

/-- The functor at `pos` will be noticed: an edge is pending, or the thread that published it has not
executed its `wakeup()`. -/
def State.Announced (s : State ι F) (pos : ℕ) : Prop :=
  s.Pending ∨ ∃ t, s.thread t = .wake (some pos)

/-- The same for `quit`. -/
def State.QuitAnnounced (s : State ι F) : Prop := s.Pending ∨ ∃ t, s.thread t = .quitWake

/-- The loop's thread has not called `Loop()` yet. -/
def LoopPc.before : LoopPc F → Bool
  | .user w => w == .before
  | .push w _ _ => w == .before
  | .publish w _ => w == .before
  | .quitStore w => w == .before
  | _ => false

/-- The loop's thread is between a drain, or the constructor, and `epoll_wait`. -/
def LoopPc.quiet : LoopPc F → Bool
  | .check => true
  | .poll => true
  | pc => pc.before

omit [DecidableEq ι] in
theorem State.pending_wakeup (s : State ι F) : s.wakeup.Pending := ⟨rfl, Nat.succ_ne_zero _⟩

theorem Other.pending (h : Other s t s') (hp : s.Pending) : s'.Pending := by
  cases h with
  | wake ht => exact s.pending_wakeup
  | wakeNone ht => exact s.pending_wakeup
  | quitWake ht => exact s.pending_wakeup
  | _ => exact hp

/-- A thread with a `wakeup()` ahead of it keeps it, or executes it. -/
theorem Other.announced {pos : ℕ} (h : Other s t s') (ha : s.Announced pos) : s'.Announced pos := by
  rcases ha with hp | ⟨u, hu⟩
  · exact .inl (h.pending hp)
  · by_cases hut : u = t
    · subst hut
      cases h with
      | wake ht => exact .inl s.pending_wakeup
      | _ => simp_all
    · exact .inr ⟨u, by rw [h.frame.2.2.2.2.2 u hut]; exact hu⟩

theorem Other.quitAnnounced (h : Other s t s') (ha : s.QuitAnnounced) : s'.QuitAnnounced := by
  rcases ha with hp | ⟨u, hu⟩
  · exact .inl (h.pending hp)
  · by_cases hut : u = t
    · subst hut
      cases h with
      | quitWake ht => exact .inl s.pending_wakeup
      | _ => simp_all
    · exact .inr ⟨u, by rw [h.frame.2.2.2.2.2 u hut]; exact hu⟩

/-- What another thread publishes it also announces. -/
theorem Other.waiting {pos : ℕ} (h : Other s t s') (hw : s'.queue.Waiting pos) :
    s.queue.Waiting pos ∨ s'.Announced pos := by
  cases h with
  | @publish q ht =>
    rcases (Tickets.published_publish s.queue q pos).mp hw.2 with rfl | hpub
    · exact .inr (.inr ⟨t, Function.update_self t _ _⟩)
    · exact .inl ⟨hw.1, hpub⟩
  | _ => exact .inl hw

theorem Other.quit {t : ι} (h : Other s t s') (hq : s'.quit = true) :
    s.quit = true ∨ s'.QuitAnnounced := by
  cases h with
  | quitStore ht => exact .inr (.inr ⟨t, Function.update_self t _ _⟩)
  | _ => exact .inl hq

/-! ### The invariant -/

/-- The loop blocks only on what is announced. -/
structure Wakes (s : State ι F) : Prop where
  basic : Basic s
  entered : s.loop.before = true → s.polls = 0
  placed : ∀ pos, s.loop = .publish .before pos → s.early = true
  /-- What the loop's own thread queued before `Loop()` is announced by nobody, until the first
  `epoll_wait` has returned. -/
  functors : s.loop.quiet = true → (s.polls = 0 → s.early = false) →
    ∀ p, s.queue.Waiting p → s.Announced p
  quits : s.loop = .poll → s.quit = true → s.QuitAnnounced

omit [DecidableEq ι] in
theorem wakes_init : Wakes (State.init ι F) where
  basic := basic_init
  entered := fun _ => rfl
  placed := by intro pos hl; cases hl
  functors := by intro _ _ p hp; cases hp.2
  quits := by intro hl; cases hl

theorem Wakes.other (hW : Wakes s) (h : Other s t s') : Wakes s' := by
  obtain ⟨hloop, hpolls, hearly, -, -, -⟩ := h.frame
  refine ⟨hW.basic.other h, ?_, ?_, ?_, ?_⟩
  · rw [hloop, hpolls]
    exact hW.entered
  · rw [hloop, hearly]
    exact hW.placed
  · intro hquiet hfirst p hp
    rw [hloop] at hquiet
    rw [hpolls, hearly] at hfirst
    rcases h.waiting hp with hp' | ha
    · exact h.announced (hW.functors hquiet hfirst p hp')
    · exact ha
  · intro hl hq
    rw [hloop] at hl
    rcases h.quit hq with hq' | ha
    · exact h.quitAnnounced (hW.quits hl hq')
    · exact ha

omit [DecidableEq ι] in
/-- A step of the loop's own thread into a quiet place: it stays in front of `Loop()`, enters it, ends
the drain or goes on to `epoll_wait`. -/
theorem Wakes.quietStep (hW : Wakes s) (h : Own s s') (hquiet : s'.loop.quiet = true)
    (hfirst : s'.polls = 0 → s'.early = false) : ∀ p, s'.queue.Waiting p → s'.Announced p := by
  cases h with
  | stay hl => exact hW.functors hquiet hfirst
  | queue hl => exact hW.functors (by rw [hl]; exact hquiet) hfirst
  | callQuit hl => exact hW.functors (by rw [hl]; exact hquiet) hfirst
  | enter hl => exact hW.functors (by rw [hl]; rfl) hfirst
  | handleWakeup hl =>
    change s.loop.quiet = true at hquiet
    rw [hl] at hquiet
    cases hquiet
  | @claim w f a hl hroom =>
    -- a functor placed before `Loop()` ends the promise for the first `epoll_wait`
    have hw : w = .before := eq_of_beq hquiet
    subst hw
    have hearly := hfirst (hW.entered (by rw [hl]; rfl))
    rw [Bool.or_eq_false_iff] at hearly
    cases hearly.2
  | retry hl ha => exact hW.functors (by rw [hl]; exact hquiet) hfirst
  | giveUp hl => exact hW.functors (by rw [hl]; exact hquiet) hfirst
  | @publish w pos hl =>
    have hw : w = .before := eq_of_beq hquiet
    subst hw
    have hearly : s.early = false := hfirst (hW.entered (by rw [hl]; rfl))
    rw [hW.placed pos hl] at hearly
    cases hearly
  | quitStore hl => exact hW.functors (by rw [hl]; exact hquiet) hfirst
  | block hl hq => exact hW.functors (by rw [hl]; rfl) hfirst
  | @empty h hl hh =>
    intro p hp
    have hlt := hW.basic.queue.claimed p hp.2
    have hle : s.queue.head ≤ p := hp.1
    have hloaded := hW.basic.loaded h hl
    omega
  | _ => cases hquiet

omit [DecidableEq ι] in
theorem Own.entered (h : Own s s') (hb : s'.loop.before = true) :
    s.loop.before = true ∧ s'.polls = s.polls := by
  cases h with
  | stay hl => exact ⟨hb, rfl⟩
  | handleWakeup hl => exact ⟨hb, rfl⟩
  | queue hl => exact ⟨by rw [hl]; exact hb, rfl⟩
  | callQuit hl => exact ⟨by rw [hl]; exact hb, rfl⟩
  | claim hl hroom => exact ⟨by rw [hl]; exact hb, rfl⟩
  | retry hl ha => exact ⟨by rw [hl]; exact hb, rfl⟩
  | giveUp hl => exact ⟨by rw [hl]; exact hb, rfl⟩
  | publish hl => exact ⟨by rw [hl]; exact hb, rfl⟩
  | quitStore hl => exact ⟨by rw [hl]; exact hb, rfl⟩
  | _ => cases hb

omit [DecidableEq ι] in
theorem Wakes.own (hW : Wakes s) (h : Own s s') : Wakes s' := by
  refine ⟨hW.basic.ownStep h, ?_, ?_, hW.quietStep h, ?_⟩
  · intro hb
    obtain ⟨hb', hpolls⟩ := h.entered hb
    rw [hpolls]
    exact hW.entered hb'
  · intro pos hl'
    cases h with
    | stay hl => exact hW.placed pos hl'
    | handleWakeup hl => exact hW.placed pos hl'
    | claim hl hroom =>
      cases hl'
      exact Bool.or_true _
    | _ => cases hl'
  · intro hl' hq'
    cases h with
    | stay hl => exact hW.quits hl' hq'
    | handleWakeup hl => exact absurd (hl.symm.trans hl') (by simp)
    | block hl hq => exact absurd (hq.symm.trans hq') (by simp)
    | _ => cases hl'

theorem Wakes.step (hW : Wakes s) {a : Action ι F} (h : step s a = some s') : Wakes s' := by
  rcases step_cases h with ⟨t, -, hmove⟩ | ⟨-, hmove⟩
  · exact hW.other hmove
  · exact hW.own hmove

/-- **No lost wake-up.**  Whatever the threads do, when the loop is about to block in `epoll_wait` —
for the first time only if its own thread placed nothing before `Loop()` — every published functor that
is still in `pendingFunctors` and a `quit` that is set are announced. -/
theorem no_lost_wakeup (as : List (Action ι F)) (s : State ι F)
    (hrun : run step (State.init ι F) as = some s) (hpoll : s.loop = .poll)
    (hfirst : 0 < s.polls ∨ s.early = false) :
    (∀ pos, s.queue.Waiting pos → s.Pending ∨ ∃ t, s.thread t = .wake (some pos)) ∧
      (s.quit = true → s.Pending ∨ ∃ t, s.thread t = .quitWake) := by
  have hW : Wakes s := run_induction Wakes wakes_init (fun _ _ _ hI h => hI.step h) hrun
  refine ⟨hW.functors (by rw [hpoll]; rfl) ?_, hW.quits hpoll⟩
  intro hzero
  rcases hfirst with hpos | hearly
  · omega
  · exact hearly

/-- One functor is queued, announced and run; a second one is published between the drain and the next
`epoll_wait`. -/
def stalledRun : List (Action Unit ℕ) :=
  [.loopReturn, .loopStep, .call () (.queueInLoop 7), .step (), .step (), .step (), .poll true,
    .handleWakeup, .loopReturn, .loopStep, .loopStep, .loopStep, .loopStep, .loopReturn, .loopStep,
    .loopStep, .call () (.queueInLoop 8), .step (), .step (), .loopStep]

theorem no_lost_wakeup_stalled :
    ∃ s, run step (State.init Unit ℕ) stalledRun = some s ∧ s.loop = .poll ∧ s.polls = 1 ∧
      s.executed = [(7, 0)] ∧ s.queue.Waiting 1 ∧ s.edge = false ∧
      (s.Pending ∨ ∃ t, s.thread t = .wake (some 1)) :=
  have hrun : run step (State.init Unit ℕ) stalledRun = some _ := rfl
  ⟨_, hrun, rfl, rfl, rfl, ⟨by decide, rfl⟩, rfl,
    (no_lost_wakeup stalledRun _ hrun rfl (.inl (by decide))).1 1 ⟨by decide, rfl⟩⟩

end KwNet.Loop
