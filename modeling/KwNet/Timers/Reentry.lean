import KwNet.Timers.Content
import KwNet.Timers.Firing

/-!
# Callbacks that add and cancel timers

`handle_timers` walks a copy of the first bucket and then erases `activeTimers.begin()`, whatever that is
by then; what the callbacks cancel is still in the copy, or in `triggeredTimers`.

* `CancelRespected` — a cancelled timer is neither run nor put back;
* `Tame` — what a callback may do without harm: add timers behind the bucket that is being run, and
  cancel timers that were not run and are not in that bucket, without emptying it;
* **`tame_callbacks`** — then cancelled timers stay away, each due timer runs exactly once and only
  buckets that were run are erased;
* **`self_cancel_put_back`** — a repeating timer that cancels itself comes back, and another timer's
  bucket is erased in place of its own.
-/

namespace KwNet.Timers

open KwNet.Lib

variable {κ : Type} [DecidableEq κ] {clock : ℕ → ℕ}

/-! ### Cancelled timers -/

/-- How an event changes whether `id` is cancelled. -/
def Event.mark (id : κ) (gone : Bool) : Event κ → Bool
  | .cancelled j => if j = id then true else gone
  | .added j => if j = id then false else gone
  | .ran _ => gone
  | .reinserted _ => gone

/-- `id` was cancelled and not added since. -/
def gone (log : List (Event κ)) (id : κ) : Bool := log.foldl (Event.mark id) false

/-- A timer for which `cancelTimer` has returned is neither run nor put back. -/
def CancelRespected (log : List (Event κ)) : Prop :=
  ∀ l id, l ++ [.ran id] <+: log ∨ l ++ [.reinserted id] <+: log → gone l id = false

variable {log : List (Event κ)} {id j : κ}

theorem gone_concat (log : List (Event κ)) (e : Event κ) (j : κ) :
    gone (log ++ [e]) j = Event.mark j (gone log j) e := by
  rw [gone, List.foldl_append]
  rfl

theorem gone_added : gone (log ++ [.added id]) j = true ↔ j ≠ id ∧ gone log j = true := by
  rw [gone_concat, Event.mark]
  by_cases h : id = j
  · simp [h]
  · simp [h, Ne.symm h]

theorem gone_cancelled : gone (log ++ [.cancelled id]) j = true ↔ j = id ∨ gone log j = true := by
  rw [gone_concat, Event.mark]
  by_cases h : id = j
  · simp [h]
  · simp [h, Ne.symm h]

theorem gone_ran : gone (log ++ [.ran id]) j = gone log j := by
  rw [gone_concat, Event.mark]

theorem gone_reinserted (ids : List κ) :
    gone (log ++ ids.map .reinserted) j = gone log j := by
  induction ids generalizing log with
  | nil => rw [List.map_nil, List.append_nil]
  | cons i ids ih =>
    rw [List.map_cons, ← List.singleton_append, ← List.append_assoc, ih, gone_concat, Event.mark]

theorem CancelRespected.concat (h : CancelRespected log) (e : Event κ)
    (he : ∀ id, e = .ran id ∨ e = .reinserted id → gone log id = false) :
    CancelRespected (log ++ [e]) := by
  intro l id hl
  have hlast : ∀ e', l ++ [e'] <+: log ++ [e] → (l = log ∧ e' = e) ∨ l ++ [e'] <+: log := by
    intro e' hpre
    rcases List.prefix_concat_iff.mp hpre with heq | hpre'
    · obtain ⟨rfl, heq'⟩ := List.append_inj' heq rfl
      exact .inl ⟨rfl, List.singleton_injective heq'⟩
    · exact .inr hpre'
  rcases hl with hl | hl
  · rcases hlast _ hl with ⟨rfl, heq⟩ | hpre
    · exact he id (.inl heq.symm)
    · exact h l id (.inl hpre)
  · rcases hlast _ hl with ⟨rfl, heq⟩ | hpre
    · exact he id (.inr heq.symm)
    · exact h l id (.inr hpre)

theorem CancelRespected.reinserted (h : CancelRespected log) {ids : List κ}
    (hids : ∀ id ∈ ids, gone log id = false) : CancelRespected (log ++ ids.map .reinserted) := by
  induction ids generalizing log with
  | nil =>
    rw [List.map_nil, List.append_nil]
    exact h
  | cons i ids ih =>
    rw [List.map_cons, ← List.singleton_append, ← List.append_assoc]
    refine ih (h.concat _ ?_) ?_
    · intro j hj
      rcases hj with hj | hj <;> cases hj
      exact hids i List.mem_cons_self
    · intro j hj
      rw [gone_concat, Event.mark]
      exact hids j (List.mem_cons_of_mem _ hj)

/-! ### What a callback may do -/

/-- Adding: behind the bucket that is being run, and, if the timer is due, under a time of its own.
Cancelling: not what is still to come in that bucket, not what was run and repeats, and not the last
timer of that bucket. -/
def Tame (s : State κ) : Action κ → Prop
  | .addTimer id _ =>
    match s.pc with
    | .callback now key _ _ =>
      key < (s.timer id).triggerTime ∧
        ((s.timer id).triggerTime ≤ now → (s.timer id).triggerTime ∉ s.activeTimers.keys)
    | _ => True
  | .cancelTimer id =>
    match s.pc with
    | .callback _ key run ts =>
      id ∉ ts.map Prod.fst ∧ id ∉ s.triggeredTimers ∧
        (id = run → (s.timer run).shouldRepeat = false) ∧
        ((s.timer id).triggerTime = key →
          ∀ b ∈ s.activeTimers.find? key, b.filter (fun e => e.1 ≠ id) ≠ [])
    | _ => True
  | _ => True

/-! ### The invariant -/

/-- While the bucket of `key` is walked. -/
structure Walking (s : State κ) (now key : ℕ) (ts : Bucket κ) : Prop where
  le : key ≤ now
  first : ∃ b, s.activeTimers.first? = some (key, b) ∧ ∀ j ∈ ts.map Prod.fst, j ∈ b.map Prod.fst
  nodup : (ts.map Prod.fst).Nodup
  fresh : ∀ j ∈ ts.map Prod.fst, j ∉ s.passRan
  ran : ∀ j ∈ s.passRan, (s.timer j).triggerTime ≤ key
  due : ∀ j ∈ s.due, j ∈ s.passRan ∨ j ∈ ts.map Prod.fst ∨
    ∃ k, Holds s.activeTimers j k ∧ key < k ∧ k ≤ now
  spared : ∀ j, gone s.log j = true → j ∉ ts.map Prod.fst

/-- Where `handle_timers` stands, what it has run and what it has still to run. -/
def PassOk (s : State κ) : Prop :=
  match s.pc with
  | .idle => ∀ j ∈ s.due, j ∈ s.passRan
  | .loop now =>
    (∀ j ∈ s.passRan, ∀ k ∈ s.activeTimers.keys, (s.timer j).triggerTime < k) ∧
      ∀ j ∈ s.due, j ∈ s.passRan ∨ ∃ k, Holds s.activeTimers j k ∧ k ≤ now
  | .firing now key ts => Walking s now key ts
  | .callback now key run ts =>
    Walking s now key ts ∧ run ∈ s.passRan ∧ run ∉ s.triggeredTimers ∧
      (gone s.log run = true → (s.timer run).shouldRepeat = false)
  | .reset _ =>
    (∀ j ∈ s.passRan, ∀ k ∈ s.activeTimers.keys, (s.timer j).triggerTime < k) ∧
      ∀ j ∈ s.due, j ∈ s.passRan

/-- What holds in every state. -/
structure Sound (s : State κ) : Prop where
  content : Content s.timer s.activeTimers
  spared : ∀ j k, gone s.log j = true → ¬ Holds s.activeTimers j k
  once : s.passRan.Nodup
  log : CancelRespected s.log
  swept : ∀ p ∈ s.swept, p.1 = p.2
  /-- What is to be put back was run in this pass, and is not cancelled. -/
  triggered : s.pc ≠ .idle → s.triggeredTimers.Nodup ∧
    ∀ j ∈ s.triggeredTimers, j ∈ s.passRan ∧ gone s.log j = false
  pass : PassOk s

variable {s s' : State κ} {noOwner : Bool}

/-! ### Adding and cancelling -/

theorem record_frame {s₁ : State κ} (hadd : s.addTimerInLoop clock id noOwner = some s₁) :
    (s.record s₁ id).timer = s.timer ∧ (s.record s₁ id).passRan = s.passRan ∧
      (s.record s₁ id).triggeredTimers = s.triggeredTimers ∧ (s.record s₁ id).pc = s.pc ∧
      (s.record s₁ id).swept = s.swept := by
  obtain ⟨-, -, heq⟩ := addTimerInLoop_frame hadd
  rw [heq]
  exact ⟨rfl, rfl, rfl, rfl, rfl⟩

/-- A key behind the first one leaves the first entry in front. -/
theorem first?_addTimerInLoop {s₁ : State κ} {e : ℕ × Bucket κ}
    (hadd : s.addTimerInLoop clock id noOwner = some s₁) (hfirst : s.activeTimers.first? = some e)
    (hlt : e.1 < (s.timer id).triggerTime) : s₁.activeTimers.first? = some e := by
  obtain ⟨earlier, hins, -⟩ := addTimerInLoop_frame hadd
  rcases insert_cases hins with ⟨b, -, -, heq⟩ | ⟨-, hmap, -⟩
  · rw [(Prod.mk.inj heq).1]
    exact hfirst
  · change s₁.activeTimers = _ at hmap
    obtain ⟨hmem, hle⟩ := SortedMap.first?_eq_some.mp hfirst
    rw [hmap]
    refine SortedMap.first?_eq_some.mpr ⟨SortedMap.mem_set.mpr (.inr ⟨hmem, hlt.ne⟩), fun k hk => ?_⟩
    rcases SortedMap.mem_keys_set.mp hk with rfl | hk'
    · exact hlt.le
    · exact hle k hk'

theorem Walking.add {now key : ℕ} {ts : Bucket κ} {s₁ : State κ} (hW : Walking s now key ts)
    (hkey : key < (s.timer id).triggerTime)
    (hfree : (s.timer id).triggerTime ≤ now → (s.timer id).triggerTime ∉ s.activeTimers.keys)
    (hpc : s.pc.now? = some now) (hadd : s.addTimerInLoop clock id noOwner = some s₁) :
    Walking (s.record s₁ id) now key ts := by
  obtain ⟨htimer, hran, -, -, -⟩ := record_frame hadd
  have hkeep : ∀ {j k}, Holds s.activeTimers j k → Holds s₁.activeTimers j k := fun h =>
    (holds_addTimerInLoop hadd).mpr (.inl h)
  refine ⟨hW.le, ?_, hW.nodup, ?_, ?_, fun j hj => ?_, fun j hj => ?_⟩
  · obtain ⟨b, hfirst, hsub⟩ := hW.first
    have hfirst' : s₁.activeTimers.first? = some (key, b) := first?_addTimerInLoop hadd hfirst hkey
    exact ⟨b, hfirst', hsub⟩
  · rw [hran]
    exact hW.fresh
  · rw [hran, htimer]
    exact hW.ran
  · rw [hran]
    have hold : j ∈ s.due → j ∈ s.passRan ∨ j ∈ ts.map Prod.fst ∨
        ∃ k, Holds s₁.activeTimers j k ∧ key < k ∧ k ≤ now := by
      intro hj'
      rcases hW.due j hj' with h | h | ⟨k, hk, hlt⟩
      · exact .inl h
      · exact .inr (.inl h)
      · exact .inr (.inr ⟨k, hkeep hk, hlt⟩)
    simp only [State.record, hpc, Option.any_some, decide_eq_true_eq] at hj
    split at hj
    · next hdue =>
      rcases List.mem_append.mp hj with hj' | hj'
      · exact hold hj'
      · rw [List.mem_singleton.mp hj']
        have hnew : Holds s₁.activeTimers id (s.timer id).triggerTime :=
          (holds_addTimerInLoop hadd).mpr (.inr ⟨rfl, rfl, hfree hdue⟩)
        exact .inr (.inr ⟨_, hnew, hkey, hdue⟩)
    · exact hold hj
  · exact hW.spared j (gone_added.mp hj).2

theorem Sound.add {s₁ : State κ} (hS : Sound s) (huser : s.pc.user = true)
    (hP : Tame s (.addTimer id noOwner)) (hadd : s.addTimerInLoop clock id noOwner = some s₁) :
    Sound (s.record s₁ id) := by
  obtain ⟨htimer, hran, htriggered, hpc, hswept⟩ := record_frame hadd
  have hcontent : Content s₁.timer s₁.activeTimers := hS.content.addTimerInLoop hadd
  refine ⟨hcontent, fun j k hj hk => ?_, ?_, ?_, ?_, fun hbusy => ?_, ?_⟩
  · obtain ⟨hne, hgone⟩ := gone_added.mp hj
    rcases (holds_addTimerInLoop hadd).mp hk with hk' | ⟨rfl, -, -⟩
    · exact hS.spared j k hgone hk'
    · exact hne rfl
  · rw [hran]
    exact hS.once
  · refine hS.log.concat _ fun j hj => ?_
    rcases hj with hj | hj <;> cases hj
  · rw [hswept]
    exact hS.swept
  · rw [hpc] at hbusy
    rw [htriggered, hran]
    obtain ⟨hnodup, hmem⟩ := hS.triggered hbusy
    refine ⟨hnodup, fun j hj => ⟨(hmem j hj).1, ?_⟩⟩
    rw [Bool.eq_false_iff]
    intro hgone
    have hgone' := (gone_added.mp hgone).2
    rw [(hmem j hj).2] at hgone'
    cases hgone'
  · have hpass := hS.pass
    unfold PassOk at hpass ⊢
    rw [hpc]
    cases hcase : s.pc with
    | idle =>
      rw [hcase] at hpass
      have hdue : (s.record s₁ id).due = s.due := by simp [State.record, hcase, Pc.now?]
      rw [hdue, hran]
      exact hpass
    | callback now key run ts =>
      rw [hcase] at hpass
      obtain ⟨hW, hrun, hnot, hrep⟩ := hpass
      simp only [Tame, hcase] at hP
      refine ⟨hW.add hP.1 hP.2 (by rw [hcase]; rfl) hadd, ?_, ?_, fun hgone => ?_⟩
      · rw [hran]
        exact hrun
      · rw [htriggered]
        exact hnot
      · rw [htimer]
        exact hrep (gone_added.mp hgone).2
    | loop now => rw [hcase] at huser; cases huser
    | firing now key ts => rw [hcase] at huser; cases huser
    | reset now => rw [hcase] at huser; cases huser

/-- A cancellation that does not empty the first bucket leaves that bucket in front. -/
theorem first?_cancelTimerInLoop {key : ℕ} {b : Bucket κ}
    (hfirst : s.activeTimers.first? = some (key, b))
    (hstays : (s.timer id).triggerTime = key → b.filter (fun e => e.1 ≠ id) ≠ []) :
    ∃ b', (s.cancelTimerInLoop id).activeTimers.first? = some (key, b') ∧
      ∀ j ∈ b.map Prod.fst, j ≠ id → j ∈ b'.map Prod.fst := by
  obtain ⟨hmem, hle⟩ := SortedMap.first?_eq_some.mp hfirst
  rcases cancelTimerInLoop_cases s id with ⟨-, heq⟩ | ⟨c, hfind, ⟨hnil, heq⟩ | ⟨-, heq⟩⟩
  · rw [heq]
    exact ⟨b, hfirst, fun j hj _ => hj⟩
  · rw [heq]
    have hc := SortedMap.find?_eq_some.mp hfind
    have hne : key ≠ (s.timer id).triggerTime := by
      intro hk
      have hcb : c = b := (Prod.mk.inj (SortedMap.eq_of_mem hc hmem hk.symm)).2
      exact hstays hk.symm (hcb ▸ hnil)
    refine ⟨b, SortedMap.first?_eq_some.mpr ⟨SortedMap.mem_erase.mpr ⟨hmem, hne⟩, ?_⟩,
      fun j hj _ => hj⟩
    exact fun k hk => hle k (SortedMap.mem_keys_erase.mp hk).1
  · rw [heq]
    have hc := SortedMap.find?_eq_some.mp hfind
    have hle' : ∀ k ∈ (s.activeTimers.set (s.timer id).triggerTime
        (c.filter fun e => e.1 ≠ id)).keys, key ≤ k := by
      intro k hk
      rcases SortedMap.mem_keys_set.mp hk with rfl | hk'
      · exact hle _ (SortedMap.mem_keys.mpr ⟨c, hc⟩)
      · exact hle k hk'
    by_cases hk : key = (s.timer id).triggerTime
    · have hcb : c = b := (Prod.mk.inj (SortedMap.eq_of_mem hc hmem hk.symm)).2
      subst hcb
      refine ⟨c.filter fun e => e.1 ≠ id,
        SortedMap.first?_eq_some.mpr ⟨SortedMap.mem_set.mpr (.inl (by rw [hk])), hle'⟩, ?_⟩
      intro j hj hne
      obtain ⟨e, he, rfl⟩ := List.mem_map.mp hj
      exact List.mem_map_of_mem (List.mem_filter.mpr ⟨he, by simpa using hne⟩)
    · exact ⟨b, SortedMap.first?_eq_some.mpr ⟨SortedMap.mem_set.mpr (.inr ⟨hmem, hk⟩), hle'⟩,
        fun j hj _ => hj⟩

theorem cancelTimer_frame (s : State κ) (id : κ) :
    (s.cancelTimer id).timer = s.timer ∧ (s.cancelTimer id).passRan = s.passRan ∧
      (s.cancelTimer id).triggeredTimers = s.triggeredTimers ∧ (s.cancelTimer id).pc = s.pc ∧
      (s.cancelTimer id).swept = s.swept := by
  obtain ⟨m, heq⟩ := cancelTimerInLoop_frame s id
  rw [State.cancelTimer, heq]
  exact ⟨rfl, rfl, rfl, rfl, rfl⟩

theorem Walking.cancel {now key : ℕ} {ts : Bucket κ} (hW : Walking s now key ts)
    (hts : id ∉ ts.map Prod.fst)
    (hstays : (s.timer id).triggerTime = key →
      ∀ b ∈ s.activeTimers.find? key, b.filter (fun e => e.1 ≠ id) ≠ []) :
    Walking (s.cancelTimer id) now key ts := by
  obtain ⟨htimer, hran, -, -, -⟩ := cancelTimer_frame s id
  refine ⟨hW.le, ?_, hW.nodup, ?_, ?_, fun j hj => ?_, fun j hj => ?_⟩
  · obtain ⟨b, hfirst, hsub⟩ := hW.first
    have hfind : s.activeTimers.find? key = some b :=
      SortedMap.find?_eq_some.mpr (SortedMap.first?_mem hfirst)
    obtain ⟨b', hfirst', hsub'⟩ := first?_cancelTimerInLoop hfirst fun hk => hstays hk b hfind
    refine ⟨b', hfirst', fun j hj => hsub' j (hsub j hj) ?_⟩
    rintro rfl
    exact hts hj
  · rw [hran]
    exact hW.fresh
  · rw [hran, htimer]
    exact hW.ran
  · rw [hran]
    obtain ⟨hj', hne⟩ := List.mem_filter.mp hj
    have hne' : j ≠ id := by simpa using hne
    rcases hW.due j hj' with h | h | ⟨k, hk, hlt⟩
    · exact .inl h
    · exact .inr (.inl h)
    · exact .inr (.inr ⟨k, (holds_cancelled_other hne').mpr hk, hlt⟩)
  · rcases gone_cancelled.mp hj with rfl | hgone
    · exact hts
    · exact hW.spared j hgone

theorem Sound.cancel (hS : Sound s) (huser : s.pc.user = true) (hP : Tame s (.cancelTimer id)) :
    Sound (s.cancelTimer id) := by
  obtain ⟨htimer, hran, htriggered, hpc, hswept⟩ := cancelTimer_frame s id
  refine ⟨?_, fun j k hj => ?_, ?_, ?_, ?_, fun hbusy => ?_, ?_⟩
  · rw [htimer]
    exact hS.content.cancelTimerInLoop
  · rcases gone_cancelled.mp hj with rfl | hgone
    · exact hS.content.not_holds_cancelled
    · exact fun hk => hS.spared j k hgone (holds_cancelTimerInLoop.mp hk).1
  · rw [hran]
    exact hS.once
  · refine hS.log.concat _ fun j hj => ?_
    rcases hj with hj | hj <;> cases hj
  · rw [hswept]
    exact hS.swept
  · rw [hpc] at hbusy
    rw [htriggered, hran]
    obtain ⟨hnodup, hmem⟩ := hS.triggered hbusy
    refine ⟨hnodup, fun j hj => ⟨(hmem j hj).1, ?_⟩⟩
    rw [Bool.eq_false_iff]
    intro hgone
    rcases gone_cancelled.mp hgone with rfl | hgone'
    · cases hcase : s.pc with
      | idle => exact hbusy hcase
      | callback now key run ts =>
        simp only [Tame, hcase] at hP
        exact hP.2.1 hj
      | loop now => rw [hcase] at huser; cases huser
      | firing now key ts => rw [hcase] at huser; cases huser
      | reset now => rw [hcase] at huser; cases huser
    · rw [(hmem j hj).2] at hgone'
      cases hgone'
  · have hpass := hS.pass
    unfold PassOk at hpass ⊢
    rw [hpc]
    cases hcase : s.pc with
    | idle =>
      rw [hcase] at hpass
      intro j hj
      rw [hran]
      exact hpass j (List.mem_filter.mp hj).1
    | callback now key run ts =>
      rw [hcase] at hpass
      obtain ⟨hW, hrun, hnot, hrep⟩ := hpass
      simp only [Tame, hcase] at hP
      obtain ⟨hts, -, hself, hstays⟩ := hP
      refine ⟨hW.cancel hts hstays, ?_, ?_, fun hgone => ?_⟩
      · rw [hran]
        exact hrun
      · rw [htriggered]
        exact hnot
      · rw [htimer]
        rcases gone_cancelled.mp hgone with heq | hgone'
        · exact hself heq.symm
        · exact hrep hgone'
    | loop now => rw [hcase] at huser; cases huser
    | firing now key ts => rw [hcase] at huser; cases huser
    | reset now => rw [hcase] at huser; cases huser

/-! ### The steps of `handle_timers` -/

theorem Sound.handle (hS : Sound s) : Sound (s.handleTimers clock) where
  content := hS.content
  spared := hS.spared
  once := List.nodup_nil
  log := hS.log
  swept := List.forall_mem_nil _
  triggered := fun _ => ⟨List.nodup_nil, List.forall_mem_nil _⟩
  pass := by
    refine ⟨List.forall_mem_nil _, fun j hj => .inr ?_⟩
    obtain ⟨e, he, hj'⟩ := List.mem_flatMap.mp hj
    obtain ⟨he', hle⟩ := List.mem_filter.mp he
    exact ⟨e.1, ⟨e.2, he', hj'⟩, by simpa using hle⟩

theorem Walking.holds {now key : ℕ} {ts : Bucket κ} (hW : Walking s now key ts)
    (hj : j ∈ ts.map Prod.fst) : Holds s.activeTimers j key := by
  obtain ⟨b, hfirst, hsub⟩ := hW.first
  exact ⟨b, SortedMap.first?_mem hfirst, hsub j hj⟩

theorem mem_ids_filter {ts : Bucket κ} :
    j ∈ (ts.filter fun e => e.1 ≠ id).map Prod.fst ↔ j ∈ ts.map Prod.fst ∧ j ≠ id := by
  simp only [List.mem_map, List.mem_filter, decide_eq_true_eq]
  constructor
  · rintro ⟨e, ⟨he, hne⟩, rfl⟩
    exact ⟨⟨e, he, rfl⟩, hne⟩
  · rintro ⟨⟨e, he, rfl⟩, hne⟩
    exact ⟨e, ⟨he, hne⟩, rfl⟩

theorem Sound.fire {now key : ℕ} {ts : Bucket κ} (hS : Sound s) (hpc : s.pc = .firing now key ts)
    (hid : id ∈ ts.map Prod.fst) :
    Sound { s with
      pc := .callback now key id (ts.filter fun e => e.1 ≠ id)
      log := s.log ++ [.ran id]
      passRan := s.passRan ++ [id] } := by
  have hW : Walking s now key ts := by
    have hpass := hS.pass
    unfold PassOk at hpass
    rw [hpc] at hpass
    exact hpass
  have hnot : gone s.log id = false := by
    rw [Bool.eq_false_iff]
    exact fun hgone => hW.spared id hgone hid
  have hfresh : id ∉ s.passRan := hW.fresh id hid
  obtain ⟨hnodup, hmem⟩ := hS.triggered (by rw [hpc]; simp)
  refine ⟨hS.content, fun j k hj => hS.spared j k (gone_ran.symm.trans hj), ?_, ?_, hS.swept,
    fun _ => ⟨hnodup, fun j hj => ?_⟩, ?_⟩
  · exact List.nodup_append.mpr ⟨hS.once, List.nodup_singleton _, by
      intro a ha b hb
      rw [List.mem_singleton.mp hb]
      rintro rfl
      exact hfresh ha⟩
  · refine hS.log.concat _ fun j hj => ?_
    rcases hj with hj | hj
    · cases hj
      exact hnot
    · cases hj
  · exact ⟨List.mem_append_left _ (hmem j hj).1, gone_ran.trans (hmem j hj).2⟩
  · refine ⟨⟨hW.le, ?_, ?_, fun j hj => ?_, fun j hj => ?_, fun j hj => ?_, fun j hj => ?_⟩,
      List.mem_append_right _ (List.mem_singleton_self id), fun hin => hfresh (hmem id hin).1,
      fun hgone => ?_⟩
    · obtain ⟨b, hfirst, hsub⟩ := hW.first
      exact ⟨b, hfirst, fun j hj => hsub j (mem_ids_filter.mp hj).1⟩
    · exact hW.nodup.sublist (List.filter_sublist.map _)
    · obtain ⟨hj', hne⟩ := mem_ids_filter.mp hj
      intro hin
      rcases List.mem_append.mp hin with hin' | hin'
      · exact hW.fresh j hj' hin'
      · exact hne (List.mem_singleton.mp hin')
    · rcases List.mem_append.mp hj with hj' | hj'
      · exact hW.ran j hj'
      · rw [List.mem_singleton.mp hj']
        exact (hS.content.own id key (hW.holds hid)).le
    · rcases hW.due j hj with h | h | h
      · exact .inl (List.mem_append_left _ h)
      · by_cases hne : j = id
        · exact .inl (List.mem_append_right _ (List.mem_singleton.mpr hne))
        · exact .inr (.inl (mem_ids_filter.mpr ⟨h, hne⟩))
      · exact .inr (.inr h)
    · exact fun hin => hW.spared j (gone_ran.symm.trans hj) (mem_ids_filter.mp hin).1
    · have hgone' : gone s.log id = true := gone_ran.symm.trans hgone
      rw [hnot] at hgone'
      cases hgone'

theorem Walking.congr {now key : ℕ} {ts : Bucket κ} (hW : Walking s now key ts)
    (hmap : s'.activeTimers = s.activeTimers) (htimer : s'.timer = s.timer)
    (hran : s'.passRan = s.passRan) (hdue : s'.due = s.due) (hlog : s'.log = s.log) :
    Walking s' now key ts := by
  refine ⟨hW.le, ?_, hW.nodup, ?_, ?_, ?_, ?_⟩
  · rw [hmap]
    exact hW.first
  · rw [hran]
    exact hW.fresh
  · rw [hran, htimer]
    exact hW.ran
  · rw [hdue, hran, hmap]
    exact hW.due
  · rw [hlog]
    exact hW.spared

theorem Sound.ret {now key : ℕ} {ts : Bucket κ} (hS : Sound s)
    (hpc : s.pc = .callback now key id ts) : Sound (s.afterRun now key id ts) := by
  have hpass := hS.pass
  unfold PassOk at hpass
  rw [hpc] at hpass
  obtain ⟨hW, hrun, hnot, hrep⟩ := hpass
  obtain ⟨hnodup, hmem⟩ := hS.triggered (by rw [hpc]; simp)
  unfold State.afterRun
  split
  · next hrepeat =>
    refine ⟨hS.content, hS.spared, hS.once, hS.log, hS.swept, fun _ => ⟨?_, fun j hj => ?_⟩,
      hW.congr rfl rfl rfl rfl rfl⟩
    · exact List.nodup_append.mpr ⟨hnodup, List.nodup_singleton _, by
        intro a ha b hb
        rw [List.mem_singleton.mp hb]
        rintro rfl
        exact hnot ha⟩
    · rcases List.mem_append.mp hj with hj' | hj'
      · exact hmem j hj'
      · rw [List.mem_singleton.mp hj']
        refine ⟨hrun, Bool.eq_false_iff.mpr fun hgone => ?_⟩
        rw [hrep hgone] at hrepeat
        cases hrepeat
  · exact ⟨hS.content, hS.spared, hS.once, hS.log, hS.swept, fun _ => ⟨hnodup, hmem⟩,
      hW.congr rfl rfl rfl rfl rfl⟩

theorem Sound.bucket {now : ℕ} {e : ℕ × Bucket κ} (hS : Sound s) (hpc : s.pc = .loop now)
    (hfirst : s.activeTimers.first? = some e) (hle : e.1 ≤ now) :
    Sound { s with pc := .firing now e.1 e.2 } := by
  have hpass := hS.pass
  unfold PassOk at hpass
  rw [hpc] at hpass
  obtain ⟨hran, hdue⟩ := hpass
  have hmem := SortedMap.first?_mem hfirst
  have hkey : e.1 ∈ s.activeTimers.keys := SortedMap.mem_keys.mpr ⟨e.2, hmem⟩
  have hholds : ∀ j, j ∈ e.2.map Prod.fst ↔ Holds s.activeTimers j e.1 := fun j =>
    (holds_of_find? (SortedMap.find?_eq_some.mpr hmem)).symm
  refine ⟨hS.content, hS.spared, hS.once, hS.log, hS.swept,
    fun _ => hS.triggered (by rw [hpc]; simp), ?_⟩
  refine ⟨hle, ⟨e.2, hfirst, fun j hj => hj⟩, hS.content.nodup e hmem, fun j hj hin => ?_,
    fun j hj => (hran j hj e.1 hkey).le, fun j hj => ?_, fun j hj hin => ?_⟩
  · have hown := hS.content.own j e.1 ((hholds j).mp hj)
    have hlt := hran j hin e.1 hkey
    omega
  · rcases hdue j hj with h | ⟨k, hk, hkn⟩
    · exact .inl h
    · rcases Nat.eq_or_lt_of_le (SortedMap.first?_le hfirst hk.mem_keys) with heq | hlt
      · exact .inr (.inl ((hholds j).mpr (heq ▸ hk)))
      · exact .inr (.inr ⟨k, hk, hlt, hkn⟩)
  · exact hS.spared j e.1 hj ((hholds j).mp hin)

theorem Sound.leave {now : ℕ} {e : ℕ × Bucket κ} (hS : Sound s) (hpc : s.pc = .loop now)
    (hfirst : s.activeTimers.first? = some e) (hlt : now < e.1) :
    Sound { s with pc := .reset now } := by
  have hpass := hS.pass
  unfold PassOk at hpass
  rw [hpc] at hpass
  obtain ⟨hran, hdue⟩ := hpass
  refine ⟨hS.content, hS.spared, hS.once, hS.log, hS.swept,
    fun _ => hS.triggered (by rw [hpc]; simp), hran, fun j hj => ?_⟩
  rcases hdue j hj with h | ⟨k, hk, hkn⟩
  · exact h
  · have hle := SortedMap.first?_le hfirst hk.mem_keys
    omega

/-- **The bucket that is erased is the one that was run**; what stays comes after it. -/
theorem Sound.erase {now key : ℕ} {e : ℕ × Bucket κ} (hS : Sound s)
    (hpc : s.pc = .firing now key []) (hfirst : s.activeTimers.first? = some e) :
    e.1 = key ∧ Content s.timer (s.activeTimers.erase e.1) ∧
      (∀ j ∈ s.passRan, ∀ k ∈ (s.activeTimers.erase e.1).keys, (s.timer j).triggerTime < k) ∧
      ∀ j ∈ s.due, j ∈ s.passRan ∨ ∃ k, Holds (s.activeTimers.erase e.1) j k ∧ k ≤ now := by
  have hW : Walking s now key [] := by
    have hpass := hS.pass
    unfold PassOk at hpass
    rw [hpc] at hpass
    exact hpass
  obtain ⟨b, hfirst', -⟩ := hW.first
  have hkey : e.1 = key := by
    rw [hfirst, Option.some.injEq] at hfirst'
    rw [hfirst']
  refine ⟨hkey, hS.content.erase _, fun j hj k hk => ?_, fun j hj => ?_⟩
  · obtain ⟨hk', hne⟩ := SortedMap.mem_keys_erase.mp hk
    have hle := SortedMap.first?_le hfirst hk'
    have hran := hW.ran j hj
    omega
  · rcases hW.due j hj with h | h | ⟨k, hk, hlt, hkn⟩
    · exact .inl h
    · cases h
    · exact .inr ⟨k, holds_erase.mpr ⟨hk, by omega⟩, hkn⟩

/-- The timers to be put back are not in the map when `reset` is called. -/
theorem Sound.not_held_triggered {now : ℕ} (hS : Sound s) (hpc : s.pc = .reset now) :
    ∀ j ∈ s.triggeredTimers, ∀ k, ¬ Holds s.activeTimers j k := by
  have hpass := hS.pass
  unfold PassOk at hpass
  rw [hpc] at hpass
  intro j hj k hk
  have hran := ((hS.triggered (by rw [hpc]; simp)).2 j hj).1
  have hlt := hpass.1 j hran k hk.mem_keys
  have hown := hS.content.own j k hk
  omega

theorem Sound.move {a : Action κ} (hS : Sound s) (hP : Tame s a) (h : Move clock s a s') :
    Sound s' := by
  cases h with
  | add huser hadd => exact hS.add huser hP hadd
  | cancel huser => exact hS.cancel huser hP
  | handle hpc => exact hS.handle
  | fire hpc hid => exact hS.fire hpc hid
  | ret hpc => exact hS.ret hpc
  | bucket hpc hfirst hle => exact hS.bucket hpc hfirst hle
  | leave hpc hfirst hlt => exact hS.leave hpc hfirst hlt
  | @sweep now key e hpc hfirst hne =>
    obtain ⟨hkey, hcontent, hran, hdue⟩ := hS.erase hpc hfirst
    refine ⟨hcontent, fun j k hj hk => hS.spared j k hj (holds_erase.mp hk).1, hS.once, hS.log,
      fun p hp => ?_, fun _ => hS.triggered (by rw [hpc]; simp), hran, hdue⟩
    rcases List.mem_append.mp hp with hp' | hp'
    · exact hS.swept p hp'
    · rw [List.mem_singleton.mp hp', hkey]
  | @sweepLast now key e hpc hfirst hempty =>
    obtain ⟨hkey, hcontent, hran, hdue⟩ := hS.erase hpc hfirst
    refine ⟨hcontent, fun j k hj hk => hS.spared j k hj (holds_erase.mp hk).1, hS.once, hS.log,
      fun p hp => ?_, fun _ => hS.triggered (by rw [hpc]; simp), hran, fun j hj => ?_⟩
    · rcases List.mem_append.mp hp with hp' | hp'
      · exact hS.swept p hp'
      · rw [List.mem_singleton.mp hp', hkey]
    · refine (hdue j hj).resolve_right ?_
      rintro ⟨k, hk, -⟩
      have hin := hk.mem_keys
      rw [SortedMap.isEmpty_iff.mp hempty] at hin
      cases hin
  | @reset now s₁ hpc hreset =>
    obtain ⟨hnodup, hmem⟩ := hS.triggered (by rw [hpc]; simp)
    have hpass := hS.pass
    unfold PassOk at hpass
    rw [hpc] at hpass
    obtain ⟨-, hdue⟩ := hpass
    obtain ⟨hcontent, ⟨timer, m, fd, n, rfl⟩, hholds⟩ :=
      hS.content.reset hnodup (hS.not_held_triggered hpc) hreset
    refine ⟨hcontent, fun j k hj hk => ?_, hS.once, ?_, hS.swept, fun h => absurd rfl h, hdue⟩
    · have hgone : gone s.log j = true := (gone_reinserted s.triggeredTimers).symm.trans hj
      rcases hholds j k hk with hk' | hin
      · exact hS.spared j k hgone hk'
      · rw [(hmem j hin).2] at hgone
        cases hgone
    · exact hS.log.reinserted fun j hj => (hmem j hj).2

/-- A queue with any well-formed content, between the operations. -/
structure Fresh (s : State κ) : Prop where
  content : Content s.timer s.activeTimers
  idle : s.pc = .idle
  log : s.log = []
  passRan : s.passRan = []
  due : s.due = []
  swept : s.swept = []

theorem Fresh.sound (h : Fresh s) : Sound s where
  content := h.content
  spared := by
    intro j k hj
    rw [h.log] at hj
    cases hj
  once := by
    rw [h.passRan]
    exact List.nodup_nil
  log := by
    intro l j hl
    rw [h.log] at hl
    rcases hl with hl | hl <;> simp at hl
  swept := by
    rw [h.swept]
    exact List.forall_mem_nil _
  triggered := fun hbusy => absurd h.idle hbusy
  pass := by
    unfold PassOk
    rw [h.idle, h.due]
    exact List.forall_mem_nil _

/-- **Tame callbacks may re-enter the queue.**  For every well-formed content of `activeTimers`, any
clock and any sequence of operations whose callbacks add and cancel as `Tame` says, in every state: a
timer for which `cancelTimer` has returned was neither run nor put back afterwards; when
`handle_timers` is over, each timer that was due and not cancelled ran exactly once in that pass; and
only buckets that were run were erased. -/
theorem tame_callbacks (s₀ s : State κ) (hfresh : Fresh s₀) (as : List (Action κ))
    (htame : Along (step clock) Tame s₀ as) (hrun : run (step clock) s₀ as = some s) :
    CancelRespected s.log ∧ (s.pc = .idle → ∀ id ∈ s.due, s.passRan.count id = 1) ∧
      ∀ p ∈ s.swept, p.1 = p.2 := by
  have hS : Sound s :=
    run_induction_along Tame Sound hfresh.sound
      (fun _ _ _ hI hP h => hI.move hP (step_cases h)) htame hrun
  refine ⟨hS.log, fun hidle id hid => ?_, hS.swept⟩
  have hpass := hS.pass
  unfold PassOk at hpass
  rw [hidle] at hpass
  exact List.count_eq_one_of_mem hS.once (hpass id hid)

instance (s : State κ) : (a : Action κ) → Decidable (Tame s a)
  | .addTimer id _ =>
    match h : s.pc with
    | .callback now key _ _ =>
      decidable_of_iff (key < (s.timer id).triggerTime ∧
        ((s.timer id).triggerTime ≤ now → (s.timer id).triggerTime ∉ s.activeTimers.keys))
        (by simp only [Tame, h])
    | .idle => .isTrue (by simp only [Tame, h])
    | .loop _ => .isTrue (by simp only [Tame, h])
    | .firing _ _ _ => .isTrue (by simp only [Tame, h])
    | .reset _ => .isTrue (by simp only [Tame, h])
  | .cancelTimer id =>
    match h : s.pc with
    | .callback _ key run ts =>
      decidable_of_iff (id ∉ ts.map Prod.fst ∧ id ∉ s.triggeredTimers ∧
        (id = run → (s.timer run).shouldRepeat = false) ∧
        ((s.timer id).triggerTime = key →
          ∀ b ∈ s.activeTimers.find? key, b.filter (fun e => e.1 ≠ id) ≠ []))
        (by simp only [Tame, h])
    | .idle => .isTrue (by simp only [Tame, h])
    | .loop _ => .isTrue (by simp only [Tame, h])
    | .firing _ _ _ => .isTrue (by simp only [Tame, h])
    | .reset _ => .isTrue (by simp only [Tame, h])
  | .handle => .isTrue trivial
  | .fire _ => .isTrue trivial
  | .ret => .isTrue trivial
  | .step => .isTrue trivial

omit [DecidableEq κ] in
theorem fresh_init (timer : κ → Timer) : Fresh (State.init timer) :=
  ⟨content_empty timer, rfl, rfl, rfl, rfl, rfl⟩

/-- Timers at `1000`, `2000`, `2500` and `5000` that run once. -/
def fourTimers : Fin 4 → Timer
  | 0 => ⟨1000, 0, false⟩
  | 1 => ⟨2000, 0, false⟩
  | 2 => ⟨2500, 0, false⟩
  | 3 => ⟨5000, 0, false⟩

/-- The timers of the run below. -/
def timer₀ : Fin 4 := Fin.castAdd 3 (Fin.last 0)

def timer₁ : Fin 4 := Fin.castAdd 2 (Fin.last 1)

def timer₂ : Fin 4 := Fin.castAdd 1 (Fin.last 2)

def timer₃ : Fin 4 := Fin.last 3

/-- At `3000` the callback of the first timer cancels the second one and adds the third. -/
def tameRun : List (Action (Fin 4)) :=
  [.addTimer timer₀ false, .addTimer timer₁ false, .addTimer timer₃ false, .handle, .step, .fire timer₀,
    .cancelTimer timer₁, .addTimer timer₂ false, .ret, .step, .step, .fire timer₂, .ret, .step, .step, .step]

theorem tame_callbacks_add_and_cancel :
    ∃ s, Along (step fun _ => 3000) Tame (State.init fourTimers) tameRun ∧
      run (step fun _ => 3000) (State.init fourTimers) tameRun = some s ∧ s.pc = .idle ∧
      s.passRan = [0, 2] ∧ s.due = [0, 2] ∧ s.activeTimers.keys = [5000] ∧ CancelRespected s.log :=
  have htame : Along (step fun _ => 3000) Tame (State.init fourTimers) tameRun := by decide
  have hrun : run (step fun _ => 3000) (State.init fourTimers) tameRun = some _ := rfl
  ⟨_, htame, hrun, rfl, rfl, rfl, rfl,
    (tame_callbacks _ _ (fresh_init fourTimers) tameRun htame hrun).1⟩

/-- A timer at `1000` that repeats every `500`, and one at `5000` that runs once. -/
def selfCancelTimers : Bool → Timer
  | false => ⟨1000, 500, true⟩
  | true => ⟨5000, 0, false⟩

/-- The repeating timer cancels itself. -/
def selfCancelRun : List (Action Bool) :=
  [.addTimer false false, .addTimer true false, .handle, .step, .fire false, .cancelTimer false, .ret,
    .step, .step]

/-- **A timer that cancels itself is put back, and the next bucket is erased in its place.** -/
theorem self_cancel_put_back :
    ¬ ∀ (clock : ℕ → ℕ) (s₀ s : State Bool), Fresh s₀ → ∀ as : List (Action Bool),
      run (step clock) s₀ as = some s →
        CancelRespected s.log ∧ (s.pc = .idle → ∀ id ∈ s.due, s.passRan.count id = 1) ∧
          ∀ p ∈ s.swept, p.1 = p.2 := by
  intro hall
  have hrun : run (step fun _ => 1000) (State.init selfCancelTimers) selfCancelRun = some _ := rfl
  obtain ⟨-, -, hswept⟩ := hall (fun _ => 1000) _ _ (fresh_init selfCancelTimers) selfCancelRun hrun
  exact absurd (hswept (1000, 5000) (by decide)) (by decide)

end KwNet.Timers
