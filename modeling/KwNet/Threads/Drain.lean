import KwNet.Lib.Pool
import KwNet.Threads.Pool

/-!
# `ThreadPool` runs every task exactly once

A worker leaves when `try_pop` fails, and `try_pop` also fails behind a position that is claimed and not
yet published.  The pusher of such a position is a worker itself once `stop()` is called, and it drains
again after its push; so whatever others leave behind, the last worker out has found the queue empty with
no push under way (`Works.lastOut`).

* `Counted` — every position the workers took is called once or in one worker's hands;
* `Orderly` — the order of `start()`, `stop()` and the workers' ends;
* **`every_task_runs_once`** — when `stop()` has returned, the tasks called are the tasks placed.
-/

namespace KwNet.ThreadPool

open KwNet.Lib KwNet.Mpmc

variable {n : ℕ} {ι T : Type}

/-- The promise of the callers: outside the workers every `submit()` has returned before `stop()` is
called, and none is called after it. -/
def Contract (s : State n ι T) : Action n ι T → Prop
  | .submit _ _ => s.owner.stopping = false
  | .own => s.owner = .started → ∀ t, s.outside t = .idle
  | _ => True

instance [Fintype ι] [DecidableEq T] (s : State n ι T) : (a : Action n ι T) → Decidable (Contract s a)
  | .submit _ _ => inferInstanceAs (Decidable (_ = _))
  | .own => inferInstanceAs (Decidable (_ → _))
  | .outside _ => .isTrue trivial
  | .nested _ _ => .isTrue trivial
  | .finish _ => .isTrue trivial
  | .work _ => .isTrue trivial

/-- Worker `pc` holds the task at position `p`, taken and not called yet. -/
def Worker.holds (p : ℕ) : Worker T → ℕ
  | .release _ _ pos => if pos = p then 1 else 0
  | _ => 0

/-- The worker has seen `running == false`. -/
def Worker.final : Worker T → Bool
  | .pop final => final
  | .release final _ _ => final
  | .task final => final
  | .push final _ _ => final
  | .publish final _ => final
  | .exited => true
  | _ => false

/-- The position a thread outside the pool has claimed and not published. -/
def Submitter.pushPos : Submitter T → Option ℕ
  | .publish pos => some pos
  | _ => none

/-- The same for a worker. -/
def Worker.pushPos : Worker T → Option ℕ
  | .publish _ pos => some pos
  | _ => none

/-- The pushes under way, over all threads. -/
def State.held (s : State n ι T) : ι ⊕ Fin n → Option ℕ :=
  Sum.elim (fun t => (s.outside t).pushPos) fun w => (s.worker w).pushPos

/-- The queue and the tasks taken from it. -/
structure Counted (s : State n ι T) : Prop where
  queue : s.queue.Ok
  pushers : s.queue.Pushers s.held
  once : ∀ p, (s.executed.map Prod.snd).count p + weight (Worker.holds p) s.worker
    = if p < s.queue.head then 1 else 0
  inHand : ∀ w final v pos, s.worker w = .release final v pos → (v, pos) ∈ s.queue.tickets
  executed : ∀ e ∈ s.executed, e ∈ s.queue.tickets

/-- The order of starting, stopping and leaving. -/
structure Orderly (s : State n ι T) : Prop where
  /-- Workers see the flag down only when `stop()` has been called. -/
  running : s.running = true ∨ s.owner = .created ∨ s.owner.stopping = true
  unborn : ∀ w : Fin n, s.owner = .created ∨ (∃ i, s.owner = .starting i ∧ i ≤ w) →
    s.worker w = .unborn
  final : ∀ w, (s.worker w).final = true → s.owner.stopping = true
  returned : s.owner.stopping = true → ∀ t, s.outside t = .idle
  joined : ∀ w : Fin n, s.owner = .stopped ∨ (∃ i, s.owner = .joining i ∧ w < i) →
    s.worker w = .exited
  /-- **The last worker out leaves an empty queue.** -/
  lastOut : (∀ w, s.worker w = .exited) → s.queue.head = s.queue.tail

theorem counted_init (capacity : ℕ) : Counted (State.init n ι T capacity) where
  queue := Tickets.ok_init T capacity
  pushers := by
    refine ⟨fun i p h => ?_, fun p hp => absurd hp (Nat.not_lt_zero p)⟩
    rcases i with t | w
    · cases h
    · cases h
  once := by
    intro p
    show 0 + weight (Worker.holds p) (fun _ : Fin n => Worker.unborn) = if p < 0 then 1 else 0
    rw [if_neg (Nat.not_lt_zero p), Nat.zero_add]
    exact weight_const_zero (Worker.holds p) .unborn rfl
  inHand := by intro w final v pos h; cases h
  executed := List.forall_mem_nil _

/-- There is a worker, so not all of them have left. -/
theorem orderly_init (hn : 1 ≤ n) (capacity : ℕ) : Orderly (State.init n ι T capacity) where
  running := .inr (.inl rfl)
  unborn := fun _ _ => rfl
  final := by intro w h; cases h
  returned := by intro h; cases h
  joined := by rintro w (h | ⟨_, h, _⟩) <;> cases h
  lastOut := by
    intro h
    cases h ⟨0, hn⟩

variable [DecidableEq ι] {s s' : State n ι T} {t : ι} {w : Fin n}

/-! ### What the moves leave alone -/

theorem FromOutside.frame (h : FromOutside s t s') :
    s'.worker = s.worker ∧ s'.owner = s.owner ∧ s'.running = s.running ∧
      s'.queue.head = s.queue.head ∧ s'.executed = s.executed ∧
      ∀ u, u ≠ t → s'.outside u = s.outside u := by
  cases h <;> exact ⟨rfl, rfl, rfl, rfl, rfl, fun u hu => Function.update_of_ne hu _ _⟩

omit [DecidableEq ι] in
theorem Works.frame (h : Works s w s') :
    s'.outside = s.outside ∧ s'.owner = s.owner ∧ s'.running = s.running ∧
      ∀ u, u ≠ w → s'.worker u = s.worker u := by
  cases h <;> exact ⟨rfl, rfl, rfl, fun u hu => Function.update_of_ne hu _ _⟩

theorem State.held_outsideGoto (s : State n ι T) (t : ι) (pc : Submitter T) :
    (s.outsideGoto t pc).held = Function.update s.held (.inl t) pc.pushPos := by
  funext i
  rcases i with u | w
  · by_cases hu : u = t
    · subst hu
      simp [State.held, State.outsideGoto]
    · simp [State.held, State.outsideGoto, hu]
  · simp [State.held, State.outsideGoto]

theorem State.held_goto (s : State n ι T) (w : Fin n) (pc : Worker T) :
    (s.goto w pc).held = Function.update s.held (.inr w) pc.pushPos := by
  funext i
  rcases i with t | u
  · simp [State.held, State.goto]
  · by_cases hu : u = w
    · subst hu
      simp [State.held, State.goto]
    · simp [State.held, State.goto, hu]

theorem State.held_goto_none (s : State n ι T) {w : Fin n} (hw : (s.worker w).pushPos = none)
    (pc : Worker T) (hpc : pc.pushPos = none) : (s.goto w pc).held = s.held := by
  rw [s.held_goto, hpc, ← hw]
  exact Function.update_eq_self (Sum.inr w) s.held

omit [DecidableEq ι] in
theorem State.weight_goto (s : State n ι T) (w : Fin n) (pc : Worker T) (p : ℕ) :
    weight (Worker.holds p) (s.goto w pc).worker + (s.worker w).holds p
      = weight (Worker.holds p) s.worker + pc.holds p :=
  weight_update (Worker.holds p) s.worker w pc

omit [DecidableEq ι] in
theorem State.weight_goto_empty (s : State n ι T) {w : Fin n} {pc : Worker T} {p : ℕ}
    (hw : (s.worker w).holds p = 0) (hpc : pc.holds p = 0) :
    weight (Worker.holds p) (s.goto w pc).worker = weight (Worker.holds p) s.worker := by
  have hweight := s.weight_goto w pc p
  omega

omit [DecidableEq ι] in
theorem State.release_goto (s : State n ι T) {u w : Fin n} {pc : Worker T} {final : Bool} {v : T}
    {pos : ℕ} (hu : (s.goto w pc).worker u = .release final v pos) :
    pc = .release final v pos ∨ s.worker u = .release final v pos := by
  by_cases huw : u = w
  · subst huw
    simp only [State.goto, Function.update_self] at hu
    exact .inl hu
  · simp only [State.goto, Function.update_of_ne huw] at hu
    exact .inr hu

/-! ### Counting -/

theorem Counted.outsideGoto (hC : Counted s) {pc : Submitter T}
    (hpc : pc.pushPos = (s.outside t).pushPos) : Counted (s.outsideGoto t pc) := by
  refine ⟨hC.queue, ?_, hC.once, hC.inHand, hC.executed⟩
  have hsame : (s.outsideGoto t pc).held = s.held := by
    rw [s.held_outsideGoto, hpc]
    exact Function.update_eq_self (Sum.inl t) s.held
  rw [hsame]
  exact hC.pushers

theorem Counted.fromOutside (hC : Counted s) (h : FromOutside s t s') : Counted s' := by
  cases h with
  | submit ht => exact hC.outsideGoto (by rw [ht]; rfl)
  | retry ht ha => exact hC.outsideGoto (by rw [ht]; rfl)
  | giveUp ht => exact hC.outsideGoto (by rw [ht]; rfl)
  | @claim v a ht hroom =>
    have hnone : s.held (.inl t) = none := by simp [State.held, ht, Submitter.pushPos]
    refine ⟨hC.queue.claim v, ?_, hC.once, fun w final v' pos hw => ?_, fun e he => ?_⟩
    · have hp := hC.pushers.claim v hnone
      exact (s.held_outsideGoto t (.publish s.queue.tail)).symm ▸ hp
    · rw [Tickets.tickets_claim]
      exact List.mem_append_left _ (hC.inHand w final v' pos hw)
    · rw [Tickets.tickets_claim]
      exact List.mem_append_left _ (hC.executed e he)
  | @publish pos ht =>
    have hsome : s.held (.inl t) = some pos := by simp [State.held, ht, Submitter.pushPos]
    refine ⟨hC.queue.publish (hC.pushers.claimed _ pos hsome), ?_, hC.once, hC.inHand, hC.executed⟩
    have hp := hC.pushers.publish hsome
    exact (s.held_outsideGoto t .idle).symm ▸ hp

/-- A worker whose hands are empty before and after the move. -/
theorem Counted.goto (hC : Counted s) {pc : Worker T} (hpush : (s.worker w).pushPos = none)
    (hhands : ∀ p, (s.worker w).holds p = 0) (hpush' : pc.pushPos = none)
    (hhands' : ∀ p, pc.holds p = 0) : Counted (s.goto w pc) := by
  refine ⟨hC.queue, ?_, fun p => ?_, fun u final v pos hu => ?_, hC.executed⟩
  · rw [s.held_goto_none hpush pc hpush']
    exact hC.pushers
  · rw [s.weight_goto_empty (hhands p) (hhands' p)]
    exact hC.once p
  · rcases s.release_goto hu with hu' | hu'
    · have hzero := hhands' pos
      rw [hu'] at hzero
      simp [Worker.holds] at hzero
    · exact hC.inHand u final v pos hu'

theorem Counted.works (hC : Counted s) (h : Works s w s') : Counted s' := by
  cases h with
  | test hw => exact hC.goto (by rw [hw]; rfl) (fun p => by rw [hw]; rfl) rfl fun _ => rfl
  | yield hw => exact hC.goto (by rw [hw]; rfl) (fun p => by rw [hw]; rfl) rfl fun _ => rfl
  | exit hw hf => exact hC.goto (by rw [hw]; rfl) (fun p => by rw [hw]; rfl) rfl fun _ => rfl
  | nested hw => exact hC.goto (by rw [hw]; rfl) (fun p => by rw [hw]; rfl) rfl fun _ => rfl
  | again hw => exact hC.goto (by rw [hw]; rfl) (fun p => by rw [hw]; rfl) rfl fun _ => rfl
  | drain hw => exact hC.goto (by rw [hw]; rfl) (fun p => by rw [hw]; rfl) rfl fun _ => rfl
  | retry hw ha => exact hC.goto (by rw [hw]; rfl) (fun p => by rw [hw]; rfl) rfl fun _ => rfl
  | giveUp hw => exact hC.goto (by rw [hw]; rfl) (fun p => by rw [hw]; rfl) rfl fun _ => rfl
  | @take final v hw hf =>
    obtain ⟨-, -, hget⟩ := Tickets.front_eq_some hf
    refine ⟨hC.queue.take hf, ?_, fun p => ?_, fun u final' v' pos hu => ?_, hC.executed⟩
    · exact (s.held_goto_none (by rw [hw]; rfl) (.release final v s.queue.head) rfl).symm ▸
        hC.pushers.take
    · have hweight := s.weight_goto w (.release final v s.queue.head) p
      have honce := hC.once p
      rw [hw] at hweight
      show (s.executed.map Prod.snd).count p
        + weight (Worker.holds p) (s.goto w (.release final v s.queue.head)).worker
        = if p < s.queue.head + 1 then 1 else 0
      simp only [Worker.holds] at hweight
      split_ifs at hweight honce ⊢ <;> omega
    · rcases s.release_goto hu with hpc | hu'
      · cases hpc
        exact List.mem_of_getElem? hget
      · exact hC.inHand u final' v' pos hu'
  | @execute final v pos hw =>
    refine ⟨hC.queue.release pos, ?_, fun p => ?_, fun u final' v' pos' hu => ?_, fun e he => ?_⟩
    · exact (s.held_goto_none (by rw [hw]; rfl) (.task final) rfl).symm ▸ hC.pushers.release pos
    · have hweight := s.weight_goto w (.task final) p
      have honce := hC.once p
      rw [hw] at hweight
      show ((s.executed ++ [(v, pos)]).map Prod.snd).count p
        + weight (Worker.holds p) (s.goto w (.task final)).worker = if p < s.queue.head then 1 else 0
      rw [List.map_append, List.count_append, List.map_singleton, List.count_singleton]
      simp only [Worker.holds, beq_iff_eq] at hweight ⊢
      omega
    · rcases s.release_goto hu with hpc | hu'
      · cases hpc
      · exact hC.inHand u final' v' pos' hu'
    · rcases List.mem_append.mp he with he' | he'
      · exact hC.executed e he'
      · rw [List.mem_singleton.mp he']
        exact hC.inHand w final v pos hw
  | @claim final v a hw hroom =>
    have hnone : s.held (.inr w) = none := by simp [State.held, hw, Worker.pushPos]
    refine ⟨hC.queue.claim v, ?_, fun p => ?_, fun u final' v' pos hu => ?_, fun e he => ?_⟩
    · have hp := hC.pushers.claim v hnone
      exact (s.held_goto w (.publish final s.queue.tail)).symm ▸ hp
    · show _ + weight (Worker.holds p) (s.goto w (.publish final s.queue.tail)).worker = _
      rw [s.weight_goto_empty (by rw [hw]; rfl) rfl]
      exact hC.once p
    · rw [Tickets.tickets_claim]
      rcases s.release_goto hu with hpc | hu'
      · cases hpc
      · exact List.mem_append_left _ (hC.inHand u final' v' pos hu')
    · rw [Tickets.tickets_claim]
      exact List.mem_append_left _ (hC.executed e he)
  | @publish final pos hw =>
    have hsome : s.held (.inr w) = some pos := by simp [State.held, hw, Worker.pushPos]
    refine ⟨hC.queue.publish (hC.pushers.claimed _ pos hsome), ?_, fun p => ?_,
      fun u final' v' pos' hu => ?_, hC.executed⟩
    · have hp := hC.pushers.publish hsome
      exact (s.held_goto w (.task final)).symm ▸ hp
    · show _ + weight (Worker.holds p) (s.goto w (.task final)).worker = _
      rw [s.weight_goto_empty (by rw [hw]; rfl) rfl]
      exact hC.once p
    · rcases s.release_goto hu with hpc | hu'
      · cases hpc
      · exact hC.inHand u final' v' pos' hu'

theorem Counted.owns (hC : Counted s) (hO : Orderly s) (h : Owns s s') : Counted s' := by
  cases h with
  | @spawn w ho =>
    have hunborn := hO.unborn w (.inr ⟨w, ho, Nat.le_refl _⟩)
    have hC' : Counted (s.goto w .test) :=
      hC.goto (by rw [hunborn]; rfl) (fun p => by rw [hunborn]; rfl) rfl fun _ => rfl
    exact ⟨hC'.queue, hC'.pushers, hC'.once, hC'.inHand, hC'.executed⟩
  | _ => exact ⟨hC.queue, hC.pushers, hC.once, hC.inHand, hC.executed⟩

/-! ### Starting and stopping -/

theorem Orderly.fromOutside {a : Action n ι T} (hn : 1 ≤ n) (hO : Orderly s) (hP : Contract s a)
    (ha : (∃ v, a = .submit t v) ∨ s.outside t ≠ .idle) (h : FromOutside s t s') : Orderly s' := by
  obtain ⟨hworker, howner, hrunning, hhead, -, -⟩ := h.frame
  -- after `stop()` there is no such move
  have hnot : s.owner.stopping = false := by
    rcases ha with ⟨v, rfl⟩ | hbusy
    · exact hP
    · rw [Bool.eq_false_iff]
      exact fun hstop => hbusy (hO.returned hstop t)
  refine ⟨?_, ?_, ?_, fun hstop => ?_, ?_, fun hall => ?_⟩
  · rw [hrunning, howner]
    exact hO.running
  · rw [hworker, howner]
    exact hO.unborn
  · rw [hworker, howner]
    exact hO.final
  · rw [howner, hnot] at hstop
    cases hstop
  · rw [hworker, howner]
    exact hO.joined
  · rw [hworker] at hall
    have hstop := hO.final ⟨0, hn⟩ (by rw [hall ⟨0, hn⟩]; rfl)
    rw [hnot] at hstop
    cases hstop

omit [DecidableEq ι] in
/-- A worker sees the flag down only after `stop()`, and remembers it. -/
theorem Works.final (hO : Orderly s) (h : Works s w s') (hfinal : (s'.worker w).final = true) :
    s.owner.stopping = true := by
  have hkeep : (s.worker w).final = true → s.owner.stopping = true := hO.final w
  cases h with
  | test hw =>
    simp only [State.goto, Function.update_self, Worker.final, Bool.not_eq_true'] at hfinal
    rcases hO.running with hrun | hcreated | hstop
    · rw [hrun] at hfinal
      cases hfinal
    · have hunborn := hO.unborn w (.inl hcreated)
      rw [hw] at hunborn
      cases hunborn
    · exact hstop
  | yield hw => simp [State.goto, Worker.final] at hfinal
  | again hw => simp [State.goto, Worker.final] at hfinal
  | exit hw hf => exact hkeep (by rw [hw]; rfl)
  | drain hw => exact hkeep (by rw [hw]; rfl)
  | _ hw =>
    simp only [State.goto, Function.update_self, Worker.final] at hfinal
    exact hkeep (by rw [hw]; exact hfinal)

omit [DecidableEq ι] in
/-- A worker that moves has started and has not left. -/
theorem Works.alive (h : Works s w s') : s.worker w ≠ .unborn ∧ s.worker w ≠ .exited := by
  cases h <;> simp_all

omit [DecidableEq ι] in
/-- **The last worker out.**  The others have left and the threads outside have returned, so no push is
under way when its `try_pop` fails. -/
theorem Works.lastOut (hC : Counted s) (hO : Orderly s) (h : Works s w s')
    (hall : ∀ u, s'.worker u = .exited) : s'.queue.head = s'.queue.tail := by
  have hleft := hall w
  cases h with
  | exit hw hf =>
    have hstop : s.owner.stopping = true := hO.final w (by rw [hw]; rfl)
    refine hC.queue.drained hC.pushers (fun i => ?_) hf
    rcases i with t | u
    · simp [State.held, hO.returned hstop t, Submitter.pushPos]
    · by_cases huw : u = w
      · simp [State.held, huw, hw, Worker.pushPos]
      · have hu := hall u
        simp only [State.goto, Function.update_of_ne huw] at hu
        simp [State.held, hu, Worker.pushPos]
  | _ => simp [State.goto] at hleft

omit [DecidableEq ι] in
theorem Orderly.works (hC : Counted s) (hO : Orderly s) (h : Works s w s') : Orderly s' := by
  obtain ⟨houtside, howner, hrunning, hothers⟩ := h.frame
  obtain ⟨hborn, hstays⟩ := h.alive
  refine ⟨?_, fun u hu => ?_, fun u hu => ?_, ?_, fun u hu => ?_, h.lastOut hC hO⟩
  · rw [hrunning, howner]
    exact hO.running
  · rw [howner] at hu
    have hunborn := hO.unborn u hu
    have huw : u ≠ w := fun heq => hborn (heq ▸ hunborn)
    rw [hothers u huw]
    exact hunborn
  · rw [howner]
    by_cases huw : u = w
    · subst huw
      exact h.final hO hu
    · rw [hothers u huw] at hu
      exact hO.final u hu
  · rw [howner, houtside]
    exact hO.returned
  · rw [howner] at hu
    have hexited := hO.joined u hu
    have huw : u ≠ w := fun heq => hstays (heq ▸ hexited)
    rw [hothers u huw]
    exact hexited

omit [DecidableEq ι] in
theorem Orderly.running_true (hO : Orderly s) {i : ℕ} (ho : s.owner = .starting i) :
    s.running = true := by
  rcases hO.running with hrun | hcreated | hstop
  · exact hrun
  · rw [ho] at hcreated
    cases hcreated
  · rw [ho] at hstop
    cases hstop

omit [DecidableEq ι] in
/-- Before `stop()` no worker has seen the flag down. -/
theorem Orderly.not_final (hO : Orderly s) (hstop : s.owner.stopping = false) (w : Fin n) :
    (s.worker w).final = false := by
  rw [Bool.eq_false_iff]
  intro hfinal
  rw [hO.final w hfinal] at hstop
  cases hstop

omit [DecidableEq ι] in
theorem Orderly.owns (hO : Orderly s) (hP : Contract s .own) (h : Owns s s') : Orderly s' := by
  cases h with
  | start ho =>
    have hearly := hO.not_final (by rw [ho]; rfl)
    exact
      { running := .inl rfl
        unborn := fun w _ => hO.unborn w (.inl ho)
        final := fun w hw => absurd (hearly w) (Bool.ne_false_iff.mpr hw)
        returned := by intro hstop; cases hstop
        joined := by rintro w (hw | ⟨i, hw, -⟩) <;> cases hw
        lastOut := hO.lastOut }
  | @spawn w ho =>
    have hearly := hO.not_final (by rw [ho]; rfl)
    refine ⟨.inl (hO.running_true ho), fun u hu => ?_, fun u hu => ?_, ?_, ?_, fun hall => ?_⟩
    · rcases hu with hu | ⟨i, hi, hle⟩
      · cases hu
      · cases hi
        have huw : u ≠ w := by
          rintro rfl
          omega
        simp only [State.goto, Function.update_of_ne huw]
        exact hO.unborn u (.inr ⟨w, ho, by omega⟩)
    · by_cases huw : u = w
      · subst huw
        simp [State.goto, Worker.final] at hu
      · simp only [State.goto, Function.update_of_ne huw] at hu
        exact absurd (hearly u) (Bool.ne_false_iff.mpr hu)
    · intro hstop
      cases hstop
    · rintro u (hu | ⟨i, hu, -⟩) <;> cases hu
    · have hw := hall w
      simp [State.goto] at hw
  | ready ho =>
    have hearly := hO.not_final (by rw [ho]; rfl)
    exact
      { running := .inl (hO.running_true ho)
        unborn := by rintro w (hw | ⟨i, hw, -⟩) <;> cases hw
        final := fun w hw => absurd (hearly w) (Bool.ne_false_iff.mpr hw)
        returned := by intro hstop; cases hstop
        joined := by rintro w (hw | ⟨i, hw, -⟩) <;> cases hw
        lastOut := hO.lastOut }
  | stop ho =>
    refine ⟨.inr (.inr rfl), ?_, fun _ _ => rfl, fun _ => hP ho, fun u hu => ?_, hO.lastOut⟩
    · rintro w (hw | ⟨i, hw, -⟩) <;> cases hw
    · rcases hu with hu | ⟨i, hi, hlt⟩
      · cases hu
      · cases hi
        exact absurd hlt (Nat.not_lt_zero _)
  | @join w ho hw =>
    have hstop : s.owner.stopping = true := by rw [ho]; rfl
    refine ⟨.inr (.inr rfl), ?_, fun _ _ => rfl, fun _ => hO.returned hstop, fun u hu => ?_,
      hO.lastOut⟩
    · rintro u (hu | ⟨i, hu, -⟩) <;> cases hu
    · rcases hu with hu | ⟨i, hi, hlt⟩
      · cases hu
      · cases hi
        rcases Nat.lt_succ_iff_lt_or_eq.mp hlt with hlt' | heq
        · exact hO.joined u (.inr ⟨w, ho, hlt'⟩)
        · rw [Fin.ext heq]
          exact hw
  | @joined i ho hi =>
    have hstop : s.owner.stopping = true := by rw [ho]; rfl
    refine ⟨.inr (.inr rfl), ?_, fun _ _ => rfl, fun _ => hO.returned hstop, fun u _ => ?_,
      hO.lastOut⟩
    · rintro u (hu | ⟨j, hu, -⟩) <;> cases hu
    · exact hO.joined u (.inr ⟨i, ho, Nat.lt_of_lt_of_le u.isLt hi⟩)

/-! ### The result -/

omit [DecidableEq ι] in
/-- When nothing is in anybody's hands and the queue is empty, the tasks called are the tasks placed. -/
theorem Counted.perm (hC : Counted s) (hexited : ∀ w, s.worker w = .exited)
    (hempty : s.queue.head = s.queue.tail) : s.executed.Perm s.queue.tickets := by
  have hcount : ∀ p, (s.executed.map Prod.snd).count p = if p < s.queue.tail then 1 else 0 := by
    intro p
    have hzero : weight (Worker.holds p) s.worker = 0 := by
      rw [show s.worker = fun _ => .exited from funext hexited]
      exact weight_const_zero (Worker.holds p) .exited rfl
    have honce := hC.once p
    rw [hzero, hempty] at honce
    exact honce
  have hpos : (s.executed.map Prod.snd).Perm (List.range s.queue.tail) := by
    refine List.perm_iff_count.mpr fun p => ?_
    rw [hcount p]
    by_cases hp : p < s.queue.tail
    · rw [if_pos hp, List.count_eq_one_of_mem List.nodup_range (List.mem_range.mpr hp)]
    · rw [if_neg hp, List.count_eq_zero_of_not_mem (by simpa using hp)]
  have hnodup : s.executed.Nodup :=
    List.Nodup.of_map Prod.snd (hpos.nodup_iff.mpr List.nodup_range)
  refine (hnodup.subperm hC.executed).perm_of_length_le ?_
  have hlen := hpos.length_eq
  rw [List.length_map, List.length_range] at hlen
  rw [Tickets.length_tickets, hlen]

/-- **Every task runs exactly once.**  For every number of workers `n ≥ 1`, every capacity and every
run in which the threads outside the workers keep to the contract: when `stop()` has returned, every
worker has ended and the tasks called are exactly the tasks placed in the queue, by threads outside and
by tasks on the workers, each called once. -/
theorem every_task_runs_once (hn : 1 ≤ n) (capacity : ℕ) (as : List (Action n ι T))
    (s : State n ι T) (hcontract : Along step Contract (State.init n ι T capacity) as)
    (hrun : run step (State.init n ι T capacity) as = some s) (hstopped : s.owner = .stopped) :
    (∀ w, s.worker w = .exited) ∧ s.executed.Perm s.queue.tickets := by
  obtain ⟨hC, hO⟩ : Counted s ∧ Orderly s := by
    refine run_induction_along Contract (fun s => Counted s ∧ Orderly s)
      ⟨counted_init capacity, orderly_init hn capacity⟩ ?_ hcontract hrun
    intro s a s' hI hP h
    obtain ⟨hC, hO⟩ := hI
    rcases step_cases h with ⟨t, hmove, ha⟩ | ⟨w, hmove⟩ | ⟨hmove, rfl⟩
    · exact ⟨hC.fromOutside hmove, hO.fromOutside hn hP ha hmove⟩
    · exact ⟨hC.works hmove, hO.works hC hmove⟩
    · exact ⟨hC.owns hO hmove, hO.owns hP hmove⟩
  have hexited : ∀ w, s.worker w = .exited := fun w => hO.joined w (.inl hstopped)
  exact ⟨hexited, hC.perm hexited (hO.lastOut hexited)⟩

/-- The two workers of the run below. -/
def worker₀ : Fin 2 := Fin.castSucc (Fin.last 0)

def worker₁ : Fin 2 := Fin.last 1

/-- Two workers.  The task `7` submits `8` during the final drain, and the other worker's `try_pop` fails
behind the half-finished push. -/
def nestedRun : List (Action 2 Unit ℕ) :=
  [.own, .own, .own, .own, .submit () 7, .outside (), .outside (), .own, .work worker₀,
    .work worker₁, .work worker₁, .work worker₁, .nested worker₁ 8, .work worker₁, .work worker₀,
    .own, .work worker₁, .finish worker₁, .work worker₁, .work worker₁, .finish worker₁,
    .work worker₁, .own, .own]

theorem every_task_runs_once_nested :
    ∃ s, Along step Contract (State.init 2 Unit ℕ 2) nestedRun ∧
      run step (State.init 2 Unit ℕ 2) nestedRun = some s ∧ s.owner = .stopped ∧
      s.executed = [(7, 0), (8, 1)] ∧ s.executed.Perm s.queue.tickets :=
  have hcontract : Along step Contract (State.init 2 Unit ℕ 2) nestedRun := by decide
  have hrun : run step (State.init 2 Unit ℕ 2) nestedRun = some _ := rfl
  ⟨_, hcontract, hrun, rfl, rfl,
    (every_task_runs_once (by decide) 2 nestedRun _ hcontract hrun rfl).2⟩

end KwNet.ThreadPool
