import KwNet.Lib.Observe
import KwNet.Timers.Reentry

/-!
# How often a repeating timer runs

`reset(now)` counts the period from the time at which the pass of `handle_timers` began, and leaves a timer that was
not run where it is.

* `runsTimer` — the timer a step runs, and the time of the pass;
* `Paced` — the times at which a timer was run so far, and when it may be run next;
* **`repeat_paced`** — between two runs of a repeating timer its period passes, whatever the callbacks add and cancel
  in a tame way.
-/

namespace KwNet.Timers

open KwNet.Lib

variable {κ : Type}

/-- The timer that a step runs, and the `now` of the pass. -/
def runsTimer (s : State κ) : Action κ → Option (κ × ℕ)
  | .fire id => s.pc.now?.map fun now => (id, now)
  | _ => none

variable [DecidableEq κ] {clock : ℕ → ℕ} {s s' : State κ} {id : κ}

/-- The times at which `id` was run, oldest first. -/
def timesOf (id : κ) (log : List (κ × ℕ)) : List ℕ := (log.filter fun e => e.1 = id).map Prod.snd

theorem timesOf_concat (log : List (κ × ℕ)) (id j : κ) (t : ℕ) :
    timesOf j (log ++ [(id, t)]) = timesOf j log ++ if id = j then [t] else [] := by
  rw [timesOf, List.filter_append, List.map_append, timesOf]
  by_cases hj : id = j
  · rw [if_pos hj, List.filter_cons_of_pos (by simpa using hj)]
    rfl
  · rw [if_neg hj, List.filter_cons_of_neg (by simpa using hj)]
    rfl

/-- Successive runs leave room for the period. -/
def Spaced (period : ℕ) (times : List ℕ) : Prop := times.IsChain fun t t' => addTime t period ≤ t'

/-- What was run so far, and what that means for the timers; `timer` are the timers of the start. -/
structure Paced (timer : κ → Timer) (s : State κ) (log : List (κ × ℕ)) : Prop where
  period : ∀ id, (s.timer id).repeatCircle = (timer id).repeatCircle ∧
    (s.timer id).shouldRepeat = (timer id).shouldRepeat
  spaced : ∀ id, (timer id).shouldRepeat = true → Spaced (timer id).repeatCircle (timesOf id log)
  /-- A timer was last run in the pass under way, or its time has been moved on since. -/
  last : ∀ id, (timer id).shouldRepeat = true → ∀ t ∈ (timesOf id log).getLast?,
    s.pc.now? = some t ∧ id ∈ s.passRan ∨
      (s.pc = .idle ∨ id ∉ s.passRan) ∧ (s.timer id).triggerTime = addTime t (timer id).repeatCircle
  /-- What this pass has run and repeats is put back at its end. -/
  ran : s.pc ≠ .idle → ∀ id ∈ s.passRan, (timer id).shouldRepeat = true →
    id ∈ s.triggeredTimers ∨ ∃ now key ts, s.pc = .callback now key id ts

variable {timer : κ → Timer} {log : List (κ × ℕ)}

/-- A step that runs nothing, and goes on in the same pass. -/
theorem Paced.same (hP : Paced timer s log) (htimer : s'.timer = s.timer) (hran : s'.passRan = s.passRan)
    (hnow : s'.pc.now? = s.pc.now?) (hidle : s'.pc = .idle ↔ s.pc = .idle)
    (hback : s.pc ≠ .idle → ∀ id ∈ s.passRan, (timer id).shouldRepeat = true →
      id ∈ s'.triggeredTimers ∨ ∃ now key ts, s'.pc = .callback now key id ts) : Paced timer s' log where
  period := by
    rw [htimer]
    exact hP.period
  spaced := hP.spaced
  last := by
    rw [hnow, hidle, hran, htimer]
    exact hP.last
  ran := by
    rw [ne_eq, hidle, hran]
    exact hback

/-- The timers that `reset` puts back get their next time. -/
theorem readd_fold_timer {now : ℕ} {ids : List κ} {r r' : State κ × ℕ}
    (h : ids.foldlM (State.readd clock now) r = some r') (j : κ) :
    r'.1.timer j = if j ∈ ids then (r.1.timer j).reset now else r.1.timer j := by
  induction ids generalizing r with
  | nil =>
    cases h
    rfl
  | cons id ids ih =>
    rw [List.foldlM_cons] at h
    obtain ⟨r₁, hstep, hrest⟩ := Option.bind_eq_some_iff.mp h
    obtain ⟨m, fd, n, heq⟩ := readd_frame hstep
    have htimer : r₁.1.timer = Function.update r.1.timer id ((r.1.timer id).reset now) := by rw [heq]
    rw [ih hrest, htimer]
    by_cases hj : j = id
    · rw [hj, Function.update_self, if_pos List.mem_cons_self]
      split <;> rfl
    · rw [Function.update_of_ne hj]
      exact if_congr (by rw [List.mem_cons, or_iff_right hj]) rfl rfl

theorem reset_timer {now : ℕ} (h : s.reset clock now = some s') (j : κ) :
    s'.timer j = if j ∈ s.triggeredTimers then (s.timer j).reset now else s.timer j := by
  obtain ⟨r, hfold, rfl⟩ := Option.map_eq_some_iff.mp h
  have htimer := readd_fold_timer hfold j
  split
  · exact htimer
  · exact htimer

/-- **A timer is run.**  It has not been run in this pass, so its time has been moved on since it was run last, and
the pass has come to that time. -/
theorem Paced.fire {now key : ℕ} {ts : Bucket κ} (hP : Paced timer s log) (hS : Sound s) (hpc : s.pc = .firing now key ts)
    (hid : id ∈ ts.map Prod.fst) :
    Paced timer { s with
      pc := .callback now key id (ts.filter fun e => e.1 ≠ id)
      log := s.log ++ [.ran id]
      passRan := s.passRan ++ [id] } (log ++ [(id, now)]) := by
  have hW : Walking s now key ts := by
    have hpass := hS.pass
    unfold PassOk at hpass
    rw [hpc] at hpass
    exact hpass
  have hbusy : s.pc ≠ .idle := by simp [hpc]
  have hnow : s.pc.now? = some now := by rw [hpc]; rfl
  have hdue : (s.timer id).triggerTime ≤ now := by
    rw [hS.content.own id key (hW.holds hid)]
    exact hW.le
  refine ⟨hP.period, fun j hj => ?_, fun j hj t ht => ?_, fun _ j hj hrep => ?_⟩
  · rw [timesOf_concat]
    split
    · next heq =>
      rw [Spaced, List.isChain_append]
      refine ⟨hP.spaced j hj, List.isChain_singleton now, fun t ht t' ht' => ?_⟩
      obtain rfl : now = t' := by simpa only [List.head?_cons, Option.mem_some_iff] using ht'
      rcases hP.last j hj t ht with ⟨-, hran⟩ | ⟨-, htime⟩
      · exact absurd (heq ▸ hran) (hW.fresh id hid)
      · rw [← htime, ← heq]
        exact hdue
    · rw [List.append_nil]
      exact hP.spaced j hj
  · rw [timesOf_concat] at ht
    split at ht
    · next heq =>
      obtain rfl : now = t := by
        simpa only [List.getLast?_append, List.getLast?_singleton, Option.some_or, Option.mem_some_iff] using ht
      exact .inl ⟨rfl, List.mem_append.mpr (.inr (heq ▸ List.mem_singleton_self id))⟩
    · next hne =>
      rw [List.append_nil] at ht
      rcases hP.last j hj t ht with ⟨hnow', hran⟩ | ⟨hnot, htime⟩
      · exact .inl ⟨hnow.symm.trans hnow', List.mem_append.mpr (.inl hran)⟩
      · refine .inr ⟨.inr fun hmem => ?_, htime⟩
        rcases List.mem_append.mp hmem with hold | hnew
        · exact hnot.elim hbusy fun h => h hold
        · exact hne (List.mem_singleton.mp hnew).symm
  · rcases List.mem_append.mp hj with hold | hnew
    · rcases hP.ran hbusy j hold hrep with hin | ⟨now', key', ts', hpc'⟩
      · exact .inl hin
      · rw [hpc] at hpc'
        cases hpc'
    · rw [List.mem_singleton.mp hnew]
      exact .inr ⟨now, key, _, rfl⟩

/-- **The end of a pass**: what it has run is due again a period after its beginning. -/
theorem Paced.reset {now : ℕ} {s₁ : State κ} (hP : Paced timer s log) (hS : Sound s) (hpc : s.pc = .reset now)
    (hreset : s.reset clock now = some s₁) : Paced timer { s₁ with pc := .idle } log := by
  have hbusy : s.pc ≠ .idle := by simp [hpc]
  have htimer := reset_timer hreset
  refine ⟨fun j => ?_, hP.spaced, fun j hj t ht => .inr ⟨.inl rfl, ?_⟩, fun h => absurd rfl h⟩
  · show (s₁.timer j).repeatCircle = _ ∧ (s₁.timer j).shouldRepeat = _
    rw [htimer j]
    split
    · exact hP.period j
    · exact hP.period j
  · show (s₁.timer j).triggerTime = _
    obtain ⟨hperiod, hrepeat⟩ := hP.period j
    rw [htimer j]
    split
    · next hin =>
      have hran : j ∈ s.passRan := ((hS.triggered hbusy).2 j hin).1
      obtain rfl : now = t := by
        rcases hP.last j hj t ht with ⟨hnow, -⟩ | ⟨hnot, -⟩
        · rw [hpc] at hnow
          exact Option.some.inj hnow
        · exact absurd hran (hnot.resolve_left hbusy)
      rw [Timer.reset, hrepeat, hj, if_pos rfl, hperiod]
    · next hnotin =>
      rcases hP.last j hj t ht with ⟨-, hran⟩ | ⟨-, htime⟩
      · rcases hP.ran hbusy j hran hj with hin | ⟨now', key, ts, hpc'⟩
        · exact absurd hin hnotin
        · rw [hpc] at hpc'
          cases hpc'
      · exact htime

/-- **One step.** -/
theorem Paced.move {a : Action κ} (hP : Paced timer s log) (hS : Sound s) (h : Move clock s a s') :
    Paced timer s' ((runsTimer s a).toList.foldl (fun l e => l ++ [e]) log) := by
  have hkeep : s.pc ≠ .idle → (∀ now key id ts, s.pc ≠ .callback now key id ts) → ∀ id ∈ s.passRan,
      (timer id).shouldRepeat = true → id ∈ s.triggeredTimers := by
    intro hbusy hno j hj hrep
    rcases hP.ran hbusy j hj hrep with hin | ⟨now, key, ts, hpc⟩
    · exact hin
    · exact absurd hpc (hno now key j ts)
  cases h with
  | @add id noOwner s₁ huser hadd =>
    obtain ⟨htimer, hran, htriggered, hpc, -⟩ := record_frame hadd
    refine hP.same htimer hran (congrArg Pc.now? hpc) (by rw [hpc]) ?_
    rw [htriggered, hpc]
    exact hP.ran
  | @cancel id huser =>
    obtain ⟨htimer, hran, htriggered, hpc, -⟩ := cancelTimer_frame s id
    refine hP.same htimer hran (congrArg Pc.now? hpc) (by rw [hpc]) ?_
    rw [htriggered, hpc]
    exact hP.ran
  | handle hpc =>
    refine ⟨hP.period, hP.spaced, fun j hj t ht => ?_, fun _ j hj => absurd hj List.not_mem_nil⟩
    rcases hP.last j hj t ht with ⟨hnow, -⟩ | ⟨-, htime⟩
    · rw [hpc] at hnow
      cases hnow
    · exact .inr ⟨.inr List.not_mem_nil, htime⟩
  | @fire id now key ts hpc hid =>
    have hlog : (runsTimer s (.fire id)).toList.foldl (fun l e => l ++ [e]) log = log ++ [(id, now)] := by
      simp only [runsTimer, hpc, Pc.now?, Option.map_some, Option.toList_some, List.foldl_cons, List.foldl_nil]
    rw [hlog]
    exact hP.fire hS hpc hid
  | @ret id now key ts hpc =>
    have hfields : (s.afterRun now key id ts).timer = s.timer ∧ (s.afterRun now key id ts).passRan = s.passRan := by
      unfold State.afterRun
      split <;> exact ⟨rfl, rfl⟩
    refine hP.same hfields.1 hfields.2 (by rw [afterRun_pc, hpc]; rfl) (by simp [afterRun_pc, hpc])
      fun hbusy j hj hrep => .inl ?_
    unfold State.afterRun
    rcases hP.ran hbusy j hj hrep with hin | ⟨now', key', ts', hpc'⟩
    · split
      · exact List.mem_append.mpr (.inl hin)
      · exact hin
    · rw [hpc] at hpc'
      cases hpc'
      rw [if_pos ((hP.period _).2.trans hrep)]
      exact List.mem_append.mpr (.inr (List.mem_singleton_self _))
  | @bucket now e hpc hfirst hle =>
    exact hP.same rfl rfl (by rw [hpc]; rfl) (by simp [hpc])
      fun hbusy j hj hrep => .inl (hkeep hbusy (by simp [hpc]) j hj hrep)
  | @leave now e hpc hfirst hlt =>
    exact hP.same rfl rfl (by rw [hpc]; rfl) (by simp [hpc])
      fun hbusy j hj hrep => .inl (hkeep hbusy (by simp [hpc]) j hj hrep)
  | @sweep now key e hpc hfirst hne =>
    exact hP.same rfl rfl (by rw [hpc]; rfl) (by simp [hpc])
      fun hbusy j hj hrep => .inl (hkeep hbusy (by simp [hpc]) j hj hrep)
  | @sweepLast now key e hpc hfirst hempty =>
    exact hP.same rfl rfl (by rw [hpc]; rfl) (by simp [hpc])
      fun hbusy j hj hrep => .inl (hkeep hbusy (by simp [hpc]) j hj hrep)
  | reset hpc hreset => exact hP.reset hS hpc hreset

theorem paced_init (timer : κ → Timer) : Paced timer (State.init timer) [] where
  period := fun _ => ⟨rfl, rfl⟩
  spaced := fun _ _ => List.isChain_nil
  last := fun _ _ _ ht => absurd ht (by simp [timesOf])
  ran := fun h => absurd rfl h

/-- A timer that repeats every `500` from `1000` on, and one that is added by its callback. -/
def pacedTimers : Bool → Timer
  | false => ⟨1000, 500, true⟩
  | true => ⟨5000, 0, false⟩

def pass : List (Action Bool) := [.handle, .step, .fire false, .ret, .step, .step, .step]

def pacedRun : List (Action Bool) :=
  [.addTimer false false, .handle, .step, .fire false, .addTimer true false, .ret, .step, .step, .step] ++ pass

end KwNet.Timers
