import KwNet.Timers.Armed
import KwNet.Timers.Reentry

/-!
# No timer is lost, if no two have one time

`insert` puts a timer whose time is a key already into a copy of the bucket, and the copy is dropped.

* `Untouched` — callbacks leave the queue alone;
* `Distinct` — a timer is added under a time that is not a key, and the repeating timers that `reset` puts
  back get new times that are not keys and that differ from each other;
* **`no_timer_lost`** — then `activeTimers` holds, between the operations, exactly the timers that were
  added, were not cancelled and either did not run yet or repeat, each under its own time;
* **`second_timer_lost`** — two timers with one time.
-/

namespace KwNet.Timers

open KwNet.Lib

variable {κ : Type} [DecidableEq κ] {clock : ℕ → ℕ}

/-- Timers are added and cancelled outside `handle_timers` only. -/
def Untouched (s : State κ) : Action κ → Prop
  | .addTimer _ _ => s.pc.now? = none
  | .cancelTimer _ => s.pc.now? = none
  | _ => True

/-- No timer is inserted under a time that is taken. -/
def Distinct (s : State κ) : Action κ → Prop
  | .addTimer id _ => (s.timer id).triggerTime ∉ s.activeTimers.keys
  | .step =>
    match s.pc with
    | .reset now =>
      (s.triggeredTimers.map (s.nextTime now)).Nodup ∧
        ∀ id ∈ s.triggeredTimers, s.nextTime now id ∉ s.activeTimers.keys
    | _ => True
  | _ => True

/-- `id` is in the map. -/
def Held (m : SortedMap ℕ (Bucket κ)) (id : κ) : Prop := ∃ k, Holds m id k

/-- Where the timers that are to be kept are, as `handle_timers` goes on. -/
def Place (s : State κ) (id : κ) : Prop :=
  match s.pc with
  | .idle => Held s.activeTimers id
  | .loop _ => Held s.activeTimers id ∨ id ∈ s.triggeredTimers
  | .firing _ key ts =>
    Held (s.activeTimers.erase key) id ∨ id ∈ ts.map Prod.fst ∨ id ∈ s.triggeredTimers
  | .callback _ key run ts =>
    Held (s.activeTimers.erase key) id ∨ (id = run ∨ id ∈ ts.map Prod.fst) ∨
      id ∈ s.triggeredTimers
  | .reset _ => Held s.activeTimers id ∨ id ∈ s.triggeredTimers

/-- No timer is lost, and none is there that should not be. -/
def Complete (s : State κ) : Prop := ∀ id, id ∈ s.kept ↔ Place s id

variable {s s' : State κ} {id j : κ} {noOwner : Bool}

/-- Callbacks that leave the queue alone are tame. -/
theorem Untouched.tame {a : Action κ} (h : Untouched s a) : Tame s a := by
  cases a with
  | addTimer id noOwner =>
    simp only [Untouched] at h
    cases hpc : s.pc with
    | callback now key run ts => rw [hpc] at h; cases h
    | idle => simp only [Tame, hpc]
    | loop now => simp only [Tame, hpc]
    | firing now key ts => simp only [Tame, hpc]
    | reset now => simp only [Tame, hpc]
  | cancelTimer id =>
    simp only [Untouched] at h
    cases hpc : s.pc with
    | callback now key run ts => rw [hpc] at h; cases h
    | idle => simp only [Tame, hpc]
    | loop now => simp only [Tame, hpc]
    | firing now key ts => simp only [Tame, hpc]
    | reset now => simp only [Tame, hpc]
  | handle => trivial
  | fire id => trivial
  | ret => trivial
  | step => trivial

omit [DecidableEq κ] in
theorem Pc.idle_of_now? {pc : Pc κ} (h : pc.now? = none) : pc = .idle := by
  cases pc with
  | idle => rfl
  | loop now => cases h
  | firing now key ts => cases h
  | callback now key run ts => cases h
  | reset now => cases h

/-! ### The operations -/

theorem held_addTimerInLoop (h : s.addTimerInLoop clock id noOwner = some s')
    (hfree : (s.timer id).triggerTime ∉ s.activeTimers.keys) :
    Held s'.activeTimers j ↔ Held s.activeTimers j ∨ j = id := by
  constructor
  · rintro ⟨k, hk⟩
    rcases (holds_addTimerInLoop h).mp hk with hk' | ⟨rfl, -, -⟩
    · exact .inl ⟨k, hk'⟩
    · exact .inr rfl
  · rintro (⟨k, hk⟩ | rfl)
    · exact ⟨k, (holds_addTimerInLoop h).mpr (.inl hk)⟩
    · exact ⟨_, (holds_addTimerInLoop h).mpr (.inr ⟨rfl, rfl, hfree⟩)⟩

theorem held_cancelTimerInLoop (hC : Content s.timer s.activeTimers) :
    Held (s.cancelTimerInLoop id).activeTimers j ↔ Held s.activeTimers j ∧ j ≠ id := by
  constructor
  · rintro ⟨k, hk⟩
    refine ⟨⟨k, (holds_cancelTimerInLoop.mp hk).1⟩, ?_⟩
    rintro rfl
    exact hC.not_holds_cancelled hk
  · rintro ⟨⟨k, hk⟩, hne⟩
    exact ⟨k, (holds_cancelled_other hne).mpr hk⟩

omit [DecidableEq κ] in
/-- The timers of a bucket, and the rest. -/
theorem held_split {e : ℕ × Bucket κ} {m : SortedMap ℕ (Bucket κ)} (he : e ∈ m.entries) :
    Held m j ↔ Held (m.erase e.1) j ∨ j ∈ e.2.map Prod.fst := by
  have hbucket : Holds m j e.1 ↔ j ∈ e.2.map Prod.fst :=
    holds_of_find? (SortedMap.find?_eq_some.mpr he)
  constructor
  · rintro ⟨k, hk⟩
    by_cases hne : k = e.1
    · rw [hne] at hk
      exact .inr (hbucket.mp hk)
    · exact .inl ⟨k, holds_erase.mpr ⟨hk, hne⟩⟩
  · rintro (⟨k, hk⟩ | hj)
    · exact ⟨k, (holds_erase.mp hk).1⟩
    · exact ⟨e.1, hbucket.mpr hj⟩

/-- **The loop of `reset` loses no timer**: the next times differ and are free. -/
theorem held_readd_fold {now : ℕ} {ids : List κ} {r r' : State κ × ℕ} (hids : ids.Nodup)
    (hdistinct : (ids.map (r.1.nextTime now)).Nodup)
    (hfree : ∀ id ∈ ids, r.1.nextTime now id ∉ r.1.activeTimers.keys)
    (h : ids.foldlM (State.readd clock now) r = some r') :
    Held r'.1.activeTimers j ↔ Held r.1.activeTimers j ∨ j ∈ ids := by
  induction ids generalizing r with
  | nil =>
    cases h
    simp
  | cons id ids ih =>
    rw [List.foldlM_cons] at h
    obtain ⟨r₁, hstep, hrest⟩ := Option.bind_eq_some_iff.mp h
    obtain ⟨hid, hids'⟩ := List.nodup_cons.mp hids
    rw [List.map_cons, List.nodup_cons] at hdistinct
    -- the next times of all timers stay as they are
    obtain ⟨hkeys, -, hnext, -⟩ := readd_cases hstep
    have hdistinct₁ : (ids.map (r₁.1.nextTime now)).Nodup := by
      rw [hnext]
      exact hdistinct.2
    have hfree₁ : ∀ i ∈ ids, r₁.1.nextTime now i ∉ r₁.1.activeTimers.keys := by
      intro i hi hk
      rw [hnext] at hk
      rcases (hkeys _).mp hk with heq | hk'
      · exact hdistinct.1 (heq ▸ List.mem_map_of_mem hi)
      · exact hfree i (List.mem_cons_of_mem _ hi) hk'
    rw [ih hids' hdistinct₁ hfree₁ hrest, List.mem_cons]
    have hone : Held r₁.1.activeTimers j ↔ Held r.1.activeTimers j ∨ j = id := by
      constructor
      · rintro ⟨k, hk⟩
        rcases (holds_readd hstep).mp hk with hk' | ⟨rfl, -, -⟩
        · exact .inl ⟨k, hk'⟩
        · exact .inr rfl
      · rintro (⟨k, hk⟩ | rfl)
        · exact ⟨k, (holds_readd hstep).mpr (.inl hk)⟩
        · exact ⟨_, (holds_readd hstep).mpr (.inr ⟨rfl, rfl, hfree _ List.mem_cons_self⟩)⟩
    rw [hone, or_assoc]

theorem held_reset {now : ℕ} (hids : s.triggeredTimers.Nodup)
    (hdistinct : (s.triggeredTimers.map (s.nextTime now)).Nodup)
    (hfree : ∀ id ∈ s.triggeredTimers, s.nextTime now id ∉ s.activeTimers.keys)
    (h : s.reset clock now = some s') :
    Held s'.activeTimers j ↔ Held s.activeTimers j ∨ j ∈ s.triggeredTimers := by
  obtain ⟨r, hfold, rfl⟩ := Option.map_eq_some_iff.mp h
  have hheld := held_readd_fold (j := j) hids hdistinct hfree hfold
  split
  · exact hheld
  · exact hheld

/-! ### The steps -/

theorem mem_insertKept {kept : List κ} :
    j ∈ (if id ∈ kept then kept else kept ++ [id]) ↔ j ∈ kept ∨ j = id := by
  split
  · next hin =>
    refine ⟨.inl, ?_⟩
    rintro (hj | rfl)
    · exact hj
    · exact hin
  · rw [List.mem_append, List.mem_singleton]

theorem Complete.ret {now key : ℕ} {ts : Bucket κ} (hS : Sound s) (hK : Complete s)
    (hpc : s.pc = .callback now key id ts) : Complete (s.afterRun now key id ts) := by
  intro j
  have hj := hK j
  simp only [Place, hpc] at hj
  unfold State.afterRun
  split
  · simp only [Place, List.mem_append, List.mem_singleton]
    rw [hj]
    tauto
  · -- the timer that ran is nowhere else
    have hpass := hS.pass
    unfold PassOk at hpass
    rw [hpc] at hpass
    obtain ⟨hW, hrun, hnot, -⟩ := hpass
    have hts : id ∉ ts.map Prod.fst := fun hin => hW.fresh id hin hrun
    have hheld : ¬ Held (s.activeTimers.erase key) id := by
      rintro ⟨k, hk⟩
      obtain ⟨hk', hne⟩ := holds_erase.mp hk
      obtain ⟨b, hfirst, -⟩ := hW.first
      have hown := hS.content.own id k hk'
      have hle := SortedMap.first?_le hfirst hk'.mem_keys
      have hran := hW.ran id hrun
      exact hne (by omega)
    simp only [Place, List.mem_filter, decide_eq_true_eq]
    rw [hj]
    by_cases hne : j = id
    · subst hne
      simp [hts, hheld, hnot]
    · simp [hne]

theorem Complete.move {a : Action κ} (hS : Sound s) (hK : Complete s) (hU : Untouched s a)
    (hD : Distinct s a) (h : Move clock s a s') : Complete s' := by
  cases h with
  | @add id noOwner s₁ huser hadd =>
    have hpc : s.pc = .idle := Pc.idle_of_now? hU
    intro j
    have hj := hK j
    have hpc₁ : (s.record s₁ id).pc = .idle := (record_frame hadd).2.2.2.1.trans hpc
    simp only [Place, hpc] at hj
    simp only [Place, hpc₁]
    have hheld : Held s₁.activeTimers j ↔ Held s.activeTimers j ∨ j = id :=
      held_addTimerInLoop hadd hD
    show j ∈ (if id ∈ s.kept then s.kept else s.kept ++ [id]) ↔ Held s₁.activeTimers j
    rw [hheld, ← hj]
    exact mem_insertKept
  | @cancel id huser =>
    have hpc : s.pc = .idle := Pc.idle_of_now? hU
    intro j
    have hj := hK j
    have hpc₁ : (s.cancelTimer id).pc = .idle := (cancelTimer_frame s id).2.2.2.1.trans hpc
    simp only [Place, hpc] at hj
    simp only [Place, hpc₁]
    have hheld : Held (s.cancelTimer id).activeTimers j ↔ Held s.activeTimers j ∧ j ≠ id :=
      held_cancelTimerInLoop hS.content
    rw [hheld, ← hj]
    simp only [State.cancelTimer, List.mem_filter, decide_eq_true_eq]
  | handle hpc =>
    intro j
    have hj := hK j
    simp only [Place, hpc] at hj
    simp only [Place, State.handleTimers, List.not_mem_nil, or_false]
    exact hj
  | @fire id now key ts hpc hid =>
    intro j
    have hj := hK j
    simp only [Place, hpc] at hj
    simp only [Place]
    rw [hj, mem_ids_filter]
    by_cases hne : j = id
    · subst hne
      simp [hid]
    · simp [hne]
  | ret hpc => exact hK.ret hS hpc
  | bucket hpc hfirst hle =>
    intro j
    have hj := hK j
    simp only [Place, hpc] at hj
    simp only [Place]
    rw [hj, held_split (SortedMap.first?_mem hfirst), or_assoc]
  | leave hpc hfirst hlt =>
    intro j
    have hj := hK j
    simp only [Place, hpc] at hj
    exact hj
  | @sweep now key e hpc hfirst hne =>
    intro j
    have hj := hK j
    simp only [Place, hpc] at hj
    simp only [Place]
    rw [hj, (hS.erase hpc hfirst).1]
    simp
  | @sweepLast now key e hpc hfirst hempty =>
    intro j
    have hj := hK j
    simp only [Place, hpc] at hj
    simp only [Place]
    rw [hj, (hS.erase hpc hfirst).1]
    simp
  | @reset now s₁ hpc hreset =>
    obtain ⟨hnodup, hmem⟩ := hS.triggered (by rw [hpc]; simp)
    have hnot := hS.not_held_triggered hpc
    obtain ⟨-, ⟨timer, m, fd, n, heq⟩, -⟩ := hS.content.reset hnodup hnot hreset
    simp only [Distinct, hpc] at hD
    intro j
    have hj := hK j
    simp only [Place, hpc] at hj
    simp only [Place]
    have hkept : s₁.kept = s.kept := by rw [heq]
    rw [hkept, held_reset hnodup hD.1 hD.2 hreset]
    exact hj

omit [DecidableEq κ] in
theorem complete_init (timer : κ → Timer) : Complete (State.init timer) := by
  intro j
  show j ∈ [] ↔ Held .empty j
  refine ⟨fun hj => absurd hj List.not_mem_nil, ?_⟩
  rintro ⟨k, b, hb, -⟩
  cases hb

/-- **No timer is lost.**  For any timers, any clock and any sequence of `addTimer`, `cancelTimer` and
`handle_timers` whose callbacks leave the queue alone, in which no timer is inserted under a time that
is taken: between the operations, `activeTimers` holds under each time exactly the timers of that
time which were added, not cancelled, and either did not run yet or repeat. -/
theorem no_timer_lost (timer : κ → Timer) (s : State κ) (as : List (Action κ))
    (huntouched : Along (step clock) Untouched (State.init timer) as)
    (hdistinct : Along (step clock) Distinct (State.init timer) as)
    (hrun : run (step clock) (State.init timer) as = some s) (hidle : s.pc = .idle) (id : κ) (k : ℕ) :
    Holds s.activeTimers id k ↔ id ∈ s.kept ∧ (s.timer id).triggerTime = k := by
  have hinv : Sound s ∧ Complete s :=
    run_induction_along (fun s a => Untouched s a ∧ Distinct s a) (fun s => Sound s ∧ Complete s)
      ⟨(fresh_init timer).sound, complete_init timer⟩
      (fun _ _ _ hI hP h => ⟨hI.1.move hP.1.tame (step_cases h),
        hI.2.move hI.1 hP.1 hP.2 (step_cases h)⟩)
      (huntouched.and hdistinct) hrun
  obtain ⟨hS, hK⟩ := hinv
  have hid := hK id
  simp only [Place, hidle] at hid
  rw [hid]
  constructor
  · intro hk
    exact ⟨⟨k, hk⟩, hS.content.own id k hk⟩
  · rintro ⟨⟨k', hk'⟩, rfl⟩
    rw [hS.content.own id k' hk']
    exact hk'

instance (s : State κ) : (a : Action κ) → Decidable (Untouched s a)
  | .addTimer _ _ => inferInstanceAs (Decidable (s.pc.now? = none))
  | .cancelTimer _ => inferInstanceAs (Decidable (s.pc.now? = none))
  | .handle => .isTrue trivial
  | .fire _ => .isTrue trivial
  | .ret => .isTrue trivial
  | .step => .isTrue trivial

instance (s : State κ) : (a : Action κ) → Decidable (Distinct s a)
  | .addTimer id _ => inferInstanceAs (Decidable ((s.timer id).triggerTime ∉ s.activeTimers.keys))
  | .cancelTimer _ => .isTrue trivial
  | .handle => .isTrue trivial
  | .fire _ => .isTrue trivial
  | .ret => .isTrue trivial
  | .step =>
    match h : s.pc with
    | .reset now =>
      decidable_of_iff ((s.triggeredTimers.map (s.nextTime now)).Nodup ∧
        ∀ id ∈ s.triggeredTimers, s.nextTime now id ∉ s.activeTimers.keys) (by simp only [Distinct, h])
    | .idle => .isTrue (by simp only [Distinct, h])
    | .loop _ => .isTrue (by simp only [Distinct, h])
    | .firing _ _ _ => .isTrue (by simp only [Distinct, h])
    | .callback _ _ _ _ => .isTrue (by simp only [Distinct, h])

/-- Both timers of `repeatingTimers` are added, the first one is run and put back, the second one is
cancelled. -/
def handleThenCancel : List (Action Bool) :=
  [.addTimer false false, .addTimer true false, .handle, .step, .fire false, .ret, .step, .step, .step,
    .cancelTimer true]

theorem no_timer_lost_repeating :
    ∃ s, Along (step fun _ => 1000) Untouched (State.init repeatingTimers) handleThenCancel ∧
      Along (step fun _ => 1000) Distinct (State.init repeatingTimers) handleThenCancel ∧
      run (step fun _ => 1000) (State.init repeatingTimers) handleThenCancel = some s ∧
      s.pc = .idle ∧ s.kept = [false] ∧ s.activeTimers.keys = [1500] ∧
      (Holds s.activeTimers false 1500 ↔ false ∈ s.kept ∧ (s.timer false).triggerTime = 1500) :=
  have huntouched :
      Along (step fun _ => 1000) Untouched (State.init repeatingTimers) handleThenCancel := by decide
  have hdistinct :
      Along (step fun _ => 1000) Distinct (State.init repeatingTimers) handleThenCancel := by decide
  have hrun : run (step fun _ => 1000) (State.init repeatingTimers) handleThenCancel = some _ := rfl
  ⟨_, huntouched, hdistinct, hrun, rfl, rfl, rfl,
    no_timer_lost repeatingTimers _ handleThenCancel huntouched hdistinct hrun rfl false 1500⟩

/-- **The second of two timers with one time is lost.** -/
theorem second_timer_lost :
    ¬ ∀ (clock : ℕ → ℕ) (timer : Bool → Timer) (s : State Bool) (as : List (Action Bool)),
      Along (step clock) Untouched (State.init timer) as →
        run (step clock) (State.init timer) as = some s → s.pc = .idle → ∀ (id : Bool) (k : ℕ),
          Holds s.activeTimers id k ↔ id ∈ s.kept ∧ (s.timer id).triggerTime = k := by
  intro hall
  have hrun : run (step fun _ => 0) (State.init fun _ : Bool => ⟨1000, 0, false⟩)
      [.addTimer false false, .addTimer true false] = some _ := rfl
  obtain ⟨b, hb, hin⟩ :=
    (hall (fun _ => 0) (fun _ => ⟨1000, 0, false⟩) _ _ (by decide) hrun rfl true 1000).mpr
      ⟨by decide, rfl⟩
  have hentries : (1000, b) ∈ [(1000, [(false, false)])] := hb
  rw [List.mem_singleton, Prod.mk.injEq] at hentries
  rw [hentries.2] at hin
  exact absurd hin (by decide)

end KwNet.Timers
