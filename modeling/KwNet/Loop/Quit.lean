import KwNet.Loop.Wakeup

/-!
# Which functors run before `Loop()` returns

The drain runs the functors in the order of their positions and leaves only when it has seen the queue
empty.  So a functor that was queued before `quit_` runs, unless the loop's thread does not drain between
the two: after its last `empty()` and before the test `while (!quit)`, or before `Loop()` at all.
`ThreadPool::worker_loop` drains once more after its flag; `Loop()` does not.

* `Timely` — `quit_` does not set the flag in that window while a functor of a `queueInLoop` that had
  returned before the call of `quit_` is still queued;
* **`queued_before_quit_run`** — then they have all run, in queue order, when `Loop()` returns;
* **`quit_loses_functor`** — `queueInLoop(f)` and then `quit_()` from one thread can lose `f`.
-/

namespace KwNet.Loop

open KwNet.Lib KwNet.Mpmc

variable {ι F : Type}

/-- The functor that `try_pop` has taken and the loop has not called yet. -/
def LoopPc.inHand : LoopPc F → List (F × ℕ)
  | .release f pos => [(f, pos)]
  | _ => []

/-- The next thing the loop's thread does with `quit` is to test it, without a drain before. -/
def LoopPc.testing : LoopPc F → Bool
  | .check => true
  | pc => pc.before

/-- The action executes `quit = true`. -/
def State.storesQuit (s : State ι F) : Action ι F → Bool
  | .step t =>
    match s.thread t with
    | .quitStore => true
    | _ => false
  | .loopStep =>
    match s.loop with
    | .quitStore _ => true
    | _ => false
  | _ => false

/-- The flag is not set in the window with a functor of an earlier `queueInLoop` still queued. -/
def Timely (s : State ι F) (a : Action ι F) : Prop :=
  s.storesQuit a = true → s.quit = false → s.loop.testing = true → ∀ p ∈ s.due, p < s.queue.head

instance (s : State ι F) (a : Action ι F) : Decidable (Timely s a) :=
  inferInstanceAs (Decidable (_ → _ → _ → _))

/-- What the drain has done: it calls what it takes, in the order of the positions. -/
structure Drains (s : State ι F) : Prop where
  basic : Basic s
  order : s.executed ++ s.loop.inHand = s.queue.tickets.take s.queue.head
  waking : ∀ t pos, s.thread t = .wake (some pos) → pos < s.queue.tail
  returned : ∀ p ∈ s.returned, p < s.queue.tail
  due : ∀ p ∈ s.due, p < s.queue.tail
  called : s.quit = true ∨ (∃ t, s.thread t = .quitStore) ∨ (∃ w, s.loop = .quitStore w) →
    s.called = true
  returns : s.loop = .done → s.quit = true

/-- When the flag is set and no drain is ahead, nothing that is due is left. -/
def NothingLeft (s : State ι F) : Prop :=
  s.quit = true → s.loop.testing = true ∨ s.loop = .done → ∀ p ∈ s.due, p < s.queue.head

theorem drains_init : Drains (State.init ι F) where
  basic := basic_init
  order := rfl
  waking := by intro t pos ht; cases ht
  returned := List.forall_mem_nil _
  due := List.forall_mem_nil _
  called := by rintro (h | ⟨_, h⟩ | ⟨_, h⟩) <;> cases h
  returns := by intro h; cases h

variable [DecidableEq ι] {s s' : State ι F} {t : ι}

/-! ### The drain keeps the order -/

theorem Other.order (h : Other s t s') (hle : s.queue.head ≤ s.queue.tail) :
    s'.queue.tickets.take s.queue.head = s.queue.tickets.take s.queue.head := by
  cases h with
  | claim ht hroom =>
    rw [Tickets.tickets_claim, List.take_append_of_le_length (by simpa using hle)]
  | _ => rfl

theorem Other.waking {u : ι} {pos : ℕ} (h : Other s t s') (hu : s'.thread u = .wake (some pos)) :
    s.thread u = .wake (some pos) ∨ s.thread u = .publish pos := by
  by_cases hut : u = t
  · subst hut
    cases h with
    | publish ht =>
      simp only [State.goto, Function.update_self, Pc.wake.injEq, Option.some.injEq] at hu
      subst hu
      exact .inr ht
    | _ => simp [State.goto] at hu
  · rw [h.frame.2.2.2.2.2 u hut] at hu
    exact .inl hu

/-- A `queueInLoop` returns after its `wakeup()`. -/
theorem Other.returned {p : ℕ} (h : Other s t s') (hp : p ∈ s'.returned) :
    p ∈ s.returned ∨ s.thread t = .wake (some p) := by
  cases h with
  | wake ht =>
    rcases List.mem_append.mp hp with hp' | hp'
    · exact .inl hp'
    · rw [List.mem_singleton.mp hp']
      exact .inr ht
  | _ => exact .inl hp

omit [DecidableEq ι] in
/-- A call of `quit_` fixes what is due, if it is the first. -/
theorem State.due_callQuit {p : ℕ} (hp : p ∈ s.callQuit.due) :
    p ∈ s.due ∨ p ∈ s.returned := by
  unfold State.callQuit at hp
  cases hc : s.called with
  | true => exact .inl (by simpa [hc] using hp)
  | false => exact .inr (by simpa [hc] using hp)

theorem Other.due {p : ℕ} (h : Other s t s') (hp : p ∈ s'.due) : p ∈ s.due ∨ p ∈ s.returned := by
  cases h with
  | callQuit ht => exact s.due_callQuit hp
  | _ => exact .inl hp

theorem Other.due_called (h : Other s t s') (hc : s.called = true) : s'.due = s.due := by
  cases h with
  | callQuit ht => simp [State.goto, State.callQuit, hc]
  | _ => rfl

theorem Other.called (h : Other s t s') (hc : s.called = true) : s'.called = true := by
  cases h with
  | callQuit ht => rfl
  | _ => exact hc

theorem Other.quit_mono (h : Other s t s') (hq : s.quit = true) : s'.quit = true := by
  cases h with
  | quitStore ht => rfl
  | _ => exact hq

/-- Only `quit_` comes to the store. -/
theorem Other.quits {t : ι} (h : Other s t s') (hq : s'.quit = true ∨ ∃ u, s'.thread u = .quitStore) :
    (s.quit = true ∨ ∃ u, s.thread u = .quitStore) ∨ s'.called = true := by
  rcases hq with hq | ⟨u, hu⟩
  · cases h with
    | quitStore ht => exact .inl (.inr ⟨t, ht⟩)
    | _ => exact .inl (.inl hq)
  · by_cases hut : u = t
    · subst hut
      cases h with
      | callQuit ht => exact .inr rfl
      | _ => simp [State.goto] at hu
    · rw [h.frame.2.2.2.2.2 u hut] at hu
      exact .inl (.inr ⟨u, hu⟩)

theorem Drains.other (hD : Drains s) (h : Other s t s') : Drains s' := by
  obtain ⟨hloop, -, -, hhead, hexec, -⟩ := h.frame
  have htail := h.tail_le
  refine ⟨hD.basic.other h, ?_, fun u pos hu => ?_, fun p hp => ?_, fun p hp => ?_, fun hq => ?_,
    fun hl => ?_⟩
  · rw [hexec, hloop, hhead, h.order hD.basic.queue.head_le]
    exact hD.order
  · rcases h.waking hu with hu' | hu'
    · exact Nat.lt_of_lt_of_le (hD.waking u pos hu') htail
    · exact Nat.lt_of_lt_of_le (hD.basic.threads u pos hu') htail
  · rcases h.returned hp with hp' | ht
    · exact Nat.lt_of_lt_of_le (hD.returned p hp') htail
    · exact Nat.lt_of_lt_of_le (hD.waking t p ht) htail
  · rcases h.due hp with hp' | hp'
    · exact Nat.lt_of_lt_of_le (hD.due p hp') htail
    · exact Nat.lt_of_lt_of_le (hD.returned p hp') htail
  · rw [hloop] at hq
    rcases or_assoc.mpr hq with hq' | hw
    · rcases h.quits hq' with (hq'' | ht) | hc
      · exact h.called (hD.called (.inl hq''))
      · exact h.called (hD.called (.inr (.inl ht)))
      · exact hc
    · exact h.called (hD.called (.inr (.inr hw)))
  · rw [hloop] at hl
    exact h.quit_mono (hD.returns hl)

omit [DecidableEq ι] in
theorem Own.called (h : Own s s') (hc : s.called = true) : s'.called = true := by
  cases h with
  | callQuit hl => rfl
  | _ => exact hc

omit [DecidableEq ι] in
theorem Own.due_called (h : Own s s') (hc : s.called = true) : s'.due = s.due := by
  cases h with
  | callQuit hl => simp [State.loopGoto, State.callQuit, hc]
  | _ => rfl

omit [DecidableEq ι] in
/-- **The drain takes the functors in queue order.** -/
theorem Drains.own_order (hD : Drains s) (h : Own s s') :
    s'.executed ++ s'.loop.inHand = s'.queue.tickets.take s'.queue.head := by
  have hord := hD.order
  cases h with
  | stay hl => exact hord
  | handleWakeup hl => exact hord
  | claim hl hroom =>
    rw [hl] at hord
    have hle := hD.basic.queue.head_le
    simp only [Tickets.tickets_claim, Tickets.head_claim]
    rw [List.take_append_of_le_length (by simpa using hle)]
    exact hord
  | @take f hl hf =>
    rw [hl] at hord
    obtain ⟨-, -, hget⟩ := Tickets.front_eq_some hf
    simp only [LoopPc.inHand, List.append_nil] at hord
    simp only [State.loopGoto, LoopPc.inHand, Tickets.tickets_take, Tickets.head_take]
    rw [List.take_add_one, hget, hord]
    rfl
  | execute hl =>
    rw [hl] at hord
    simp only [State.loopGoto, LoopPc.inHand, List.append_nil]
    exact hord
  | _ hl =>
    rw [hl] at hord
    exact hord

omit [DecidableEq ι] in
theorem Drains.own (hD : Drains s) (h : Own s s') : Drains s' := by
  have htail := h.tail_le
  refine ⟨hD.basic.ownStep h, hD.own_order h, fun u pos hu => ?_, fun p hp => ?_, fun p hp => ?_,
    fun hq => ?_, fun hl' => ?_⟩
  · rw [h.frame] at hu
    exact Nat.lt_of_lt_of_le (hD.waking u pos hu) htail
  · refine Nat.lt_of_lt_of_le ?_ htail
    cases h with
    | publish hl =>
      rcases List.mem_append.mp hp with hp' | hp'
      · exact hD.returned p hp'
      · rw [List.mem_singleton.mp hp']
        exact hD.basic.own _ _ hl
    | _ => exact hD.returned p hp
  · refine Nat.lt_of_lt_of_le ?_ htail
    cases h with
    | callQuit hl =>
      rcases s.due_callQuit hp with hp' | hp'
      · exact hD.due p hp'
      · exact hD.returned p hp'
    | _ => exact hD.due p hp
  · rw [h.frame] at hq
    have hkept : s.quit = true ∨ (∃ u, s.thread u = .quitStore) ∨ (∃ w, s.loop = .quitStore w) →
        s'.called = true := fun hq' => h.called (hD.called hq')
    rcases hq with hq' | hu | ⟨w, hw⟩
    · cases h with
      | quitStore hl => exact hkept (.inr (.inr ⟨_, hl⟩))
      | _ => exact hkept (.inl hq')
    · exact hkept (.inr (.inl hu))
    · cases h with
      | callQuit hl => rfl
      | stay hl => exact hkept (.inr (.inr ⟨w, hw⟩))
      | handleWakeup hl => exact hkept (.inr (.inr ⟨w, hw⟩))
      | _ => cases hw
  · cases h with
    | stay hl => exact hD.returns hl'
    | handleWakeup hl => exact hD.returns hl'
    | leave hl hq => exact hq
    | _ => cases hl'

/-! ### Nothing due is left behind -/

theorem NothingLeft.other {a : Action ι F} (hN : NothingLeft s) (hD : Drains s)
    (ha : a = .step t ∨ s.thread t = .idle) (hP : Timely s a) (h : Other s t s') :
    NothingLeft s' := by
  obtain ⟨hloop, -, -, hhead, -, -⟩ := h.frame
  intro hq hl
  rw [hloop] at hl
  rw [hhead]
  by_cases hquit : s.quit = true
  · rw [h.due_called (hD.called (.inl hquit))]
    exact hN hquit hl
  · have hstore : s.thread t = .quitStore ∧ s'.due = s.due := by
      cases h with
      | quitStore ht => exact ⟨ht, rfl⟩
      | _ => exact absurd hq hquit
    obtain ⟨ht, hdue⟩ := hstore
    have hstep : a = .step t := ha.resolve_right (by rw [ht]; simp)
    have htest : s.loop.testing = true := hl.resolve_right fun hdone => hquit (hD.returns hdone)
    rw [hdue]
    exact hP (by simp only [hstep, State.storesQuit, ht]) (Bool.eq_false_iff.mpr hquit) htest

omit [DecidableEq ι] in
/-- A step of the loop's own thread to a place with no drain ahead comes from such a place, or from the
drain's last `empty()`. -/
theorem Own.testing (h : Own s s') (hl' : s'.loop.testing = true ∨ s'.loop = .done) :
    ((s.loop.testing = true ∨ s.loop = .done) ∧ s'.queue.head = s.queue.head) ∨
      ∃ n, s.loop = .tail n ∧ n = s.queue.tail ∧ s'.queue = s.queue := by
  cases h with
  | stay hl => exact .inl ⟨hl', rfl⟩
  | handleWakeup hl => exact .inl ⟨hl', rfl⟩
  | enter hl => exact .inl ⟨.inl (by rw [hl]; rfl), rfl⟩
  | leave hl hq => exact .inl ⟨.inl (by rw [hl]; rfl), rfl⟩
  | empty hl hh => exact .inr ⟨_, hl, hh, rfl⟩
  | block hl hq => rcases hl' with hl' | hl' <;> cases hl'
  | take hl hf => rcases hl' with hl' | hl' <;> cases hl'
  | _ hl =>
    refine .inl ⟨.inl ?_, rfl⟩
    rw [hl]
    rcases hl' with hl' | hl'
    · exact hl'
    · cases hl'

omit [DecidableEq ι] in
theorem NothingLeft.own {a : Action ι F} (hN : NothingLeft s) (hD : Drains s)
    (ha : a = .loopStep ∨ (∃ w, s.loop = .user w) ∨ s.loop = .poll) (hP : Timely s a)
    (h : Own s s') : NothingLeft s' := by
  intro hq hl'
  by_cases hquit : s.quit = true
  · rw [h.due_called (hD.called (.inl hquit))]
    rcases h.testing hl' with ⟨hl, hhead⟩ | ⟨n, hl, hn, hqueue⟩
    · rw [hhead]
      exact hN hquit hl
    · -- the drain has seen the head at the tail, and everything due lies before the tail
      intro p hp
      have hdue := hD.due p hp
      have hloaded := hD.basic.loaded n hl
      rw [hqueue]
      omega
  · have hstore : (∃ w, s.loop = .quitStore w) ∧ s'.due = s.due ∧ s'.queue = s.queue ∧
        (s'.loop.testing = true ∨ s'.loop = .done → s.loop.testing = true) := by
      cases h with
      | @quitStore w hl =>
        refine ⟨⟨w, hl⟩, rfl, rfl, fun htest => ?_⟩
        rw [hl]
        rcases htest with htest | hdone
        · exact htest
        · cases hdone
      | _ => exact absurd hq hquit
    obtain ⟨hw, hdue, hqueue, htest⟩ := hstore
    obtain ⟨w, hl⟩ := hw
    have hstep : a = .loopStep := ha.resolve_right (by rw [hl]; simp)
    rw [hdue, hqueue]
    exact hP (by simp only [hstep, State.storesQuit, hl]) (Bool.eq_false_iff.mpr hquit) (htest hl')

/-- **Functors queued before `quit_` run.**  In every run in which the flag is never set in the window,
when `Loop()` has returned the drain has called the functors of the queue from the first one on, each
once and in queue order, and among them every functor whose `queueInLoop` had returned before `quit_`
was called. -/
theorem queued_before_quit_run (as : List (Action ι F)) (s : State ι F)
    (htimely : Along step Timely (State.init ι F) as)
    (hrun : run step (State.init ι F) as = some s) (hdone : s.loop = .done) :
    s.executed <+: s.queue.tickets ∧
      ∀ p ∈ s.due, ∃ f, s.queue.tickets[p]? = some (f, p) ∧
        (s.executed.map Prod.snd).count p = 1 ∧ (f, p) ∈ s.executed := by
  obtain ⟨hD, hN⟩ : Drains s ∧ NothingLeft s := by
    refine run_induction_along Timely (fun s => Drains s ∧ NothingLeft s)
      ⟨drains_init, by intro hq; cases hq⟩ ?_ htimely hrun
    intro s a s' hI hP h
    rcases step_cases h with ⟨t, ha, hmove⟩ | ⟨ha, hmove⟩
    · exact ⟨hI.1.other hmove, hI.2.other hI.1 ha hP hmove⟩
    · exact ⟨hI.1.own hmove, hI.2.own hI.1 ha hP hmove⟩
  have hexec : s.executed = s.queue.tickets.take s.queue.head := by
    have hord := hD.order
    rw [hdone] at hord
    simpa [LoopPc.inHand] using hord
  refine ⟨hexec ▸ List.take_prefix _ _, fun p hp => ?_⟩
  have hlt : p < s.queue.head := hN (hD.returns hdone) (.inr hdone) p hp
  obtain ⟨f, hf⟩ := Tickets.exists_ticket (hD.due p hp)
  have hget : s.executed[p]? = some (f, p) := by
    rw [hexec, List.getElem?_take_of_lt hlt, hf]
  have hmem : (f, p) ∈ s.executed := List.mem_of_getElem? hget
  have hnodup : (s.executed.map Prod.snd).Nodup := by
    rw [hexec, List.map_take, Tickets.snd_tickets]
    exact List.nodup_range.sublist (List.take_sublist _ _)
  exact ⟨f, hf, List.count_eq_one_of_mem hnodup (List.mem_map_of_mem hmem), hmem⟩

/-- `queueInLoop(7)` and `quit_()` from one thread while the loop is blocked. -/
def timelyRun : List (Action Unit ℕ) :=
  [.loopReturn, .loopStep, .call () (.queueInLoop 7), .step (), .step (), .step (), .call () .quit,
    .step (), .poll true, .handleWakeup, .loopReturn, .loopStep, .loopStep, .loopStep, .loopStep,
    .loopReturn, .loopStep, .loopStep, .loopStep]

theorem queued_before_quit_run_blocked :
    ∃ s, Along step Timely (State.init Unit ℕ) timelyRun ∧
      run step (State.init Unit ℕ) timelyRun = some s ∧ s.loop = .done ∧ s.due = [0] ∧
      s.executed = [(7, 0)] ∧ s.executed <+: s.queue.tickets :=
  have htimely : Along step Timely (State.init Unit ℕ) timelyRun := by decide
  have hrun : run step (State.init Unit ℕ) timelyRun = some _ := rfl
  ⟨_, htimely, hrun, rfl, rfl, rfl, (queued_before_quit_run timelyRun _ htimely hrun rfl).1⟩

/-- The same two calls, made after the drain has seen the queue empty and before the loop tests
`quit`. -/
def lostRun : List (Action Unit ℕ) :=
  [.loopReturn, .loopStep, .poll false, .loopReturn, .loopStep, .loopStep,
    .call () (.queueInLoop 7), .step (), .step (), .step (), .call () .quit, .step (), .loopStep,
    .step ()]

/-- **A functor queued before `quit_` can be lost**: `Loop()` returns and the functor was never
called. -/
theorem quit_loses_functor :
    ¬ ∀ (as : List (Action Unit ℕ)) (s : State Unit ℕ),
      run step (State.init Unit ℕ) as = some s → s.loop = .done →
        s.executed <+: s.queue.tickets ∧
          ∀ p ∈ s.due, ∃ f, s.queue.tickets[p]? = some (f, p) ∧
            (s.executed.map Prod.snd).count p = 1 ∧ (f, p) ∈ s.executed := by
  intro hall
  have hrun : run step (State.init Unit ℕ) lostRun = some _ := rfl
  obtain ⟨f, -, -, hmem⟩ := (hall lostRun _ hrun rfl).2 0 (by decide)
  exact List.not_mem_nil hmem

end KwNet.Loop
