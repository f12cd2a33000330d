import KwNet.Timers.Model

/-!
# The steps of `TimerQueue`, inverted once

* **`insert_cases`** — what an insertion does to the map, and what it returns;
* `Move` and **`step_cases`** — what an action can do.
-/

namespace KwNet.Timers

open KwNet.Lib

variable {κ : Type} [DecidableEq κ] {clock : ℕ → ℕ} {s s' : State κ} {id : κ} {noOwner : Bool}

/-- **What an insertion does.**  A time that is already a key leaves the map as it is; a new one gets
its bucket, and `insert` returns whether it comes before all others. -/
theorem insert_cases {r : SortedMap ℕ (Bucket κ) × Bool} (h : s.insert id noOwner = some r) :
    (∃ b, s.activeTimers.find? (s.timer id).triggerTime = some b ∧ id ∉ b.map Prod.fst ∧
        r = (s.activeTimers, false)) ∨
      ((s.timer id).triggerTime ∉ s.activeTimers.keys ∧
        r.1 = s.activeTimers.set (s.timer id).triggerTime [(id, noOwner)] ∧
        (r.2 = true ↔ ∀ k ∈ s.activeTimers.keys, (s.timer id).triggerTime < k)) := by
  unfold State.insert at h
  cases hfind : s.activeTimers.find? (s.timer id).triggerTime with
  | some b =>
    have hkey : (s.timer id).triggerTime ∈ s.activeTimers.keys :=
      SortedMap.mem_keys.mpr ⟨b, SortedMap.find?_eq_some.mp hfind⟩
    simp only [hfind] at h
    split at h
    · cases h
    · next hid =>
      cases h
      refine .inl ⟨b, rfl, hid, ?_⟩
      rw [Prod.mk.injEq]
      refine ⟨rfl, ?_⟩
      cases hfirst : s.activeTimers.first? with
      | none => rfl
      | some e =>
        have hle := SortedMap.first?_le hfirst hkey
        simpa using hle
  | none =>
    have hkey := SortedMap.find?_eq_none.mp hfind
    simp only [hfind] at h
    cases h
    refine .inr ⟨hkey, rfl, ?_⟩
    have hmem : ∀ k, k ∈ (s.activeTimers.set (s.timer id).triggerTime [(id, noOwner)]).keys ↔
        k = (s.timer id).triggerTime ∨ k ∈ s.activeTimers.keys := fun k => SortedMap.mem_keys_set
    cases hfirst : (s.activeTimers.set (s.timer id).triggerTime [(id, noOwner)]).first? with
    | none =>
      rw [SortedMap.first?_eq_none] at hfirst
      have hin := (hmem (s.timer id).triggerTime).mpr (.inl rfl)
      rw [hfirst] at hin
      cases hin
    | some e =>
      have hle := SortedMap.first?_le hfirst ((hmem _).mpr (.inl rfl))
      have hcase := (hmem e.1).mp (SortedMap.mem_keys.mpr ⟨e.2, SortedMap.first?_mem hfirst⟩)
      rw [Option.any_some, decide_eq_true_eq]
      constructor
      · intro hge k hk
        have hek := SortedMap.first?_le hfirst ((hmem k).mpr (.inr hk))
        refine Nat.lt_of_le_of_ne (hge.trans hek) ?_
        rintro rfl
        exact hkey hk
      · intro hall
        rcases hcase with heq | hin
        · exact heq.ge
        · exact (hall e.1 hin).le

/-- An addition touches the map, the timerfd and the clock only. -/
theorem addTimerInLoop_frame (h : s.addTimerInLoop clock id noOwner = some s') :
    ∃ earlier, s.insert id noOwner = some (s'.activeTimers, earlier) ∧
      s' = { s with
        activeTimers := s'.activeTimers, timerfd := s'.timerfd, reads := s'.reads } := by
  obtain ⟨⟨m, earlier⟩, hins, rfl⟩ := Option.map_eq_some_iff.mp h
  refine ⟨earlier, ?_⟩
  cases earlier <;> exact ⟨hins, rfl⟩

theorem addTimerInLoop_timer (h : s.addTimerInLoop clock id noOwner = some s') :
    s'.timer = s.timer := by
  obtain ⟨-, -, heq⟩ := addTimerInLoop_frame h
  rw [heq]

theorem addTimerInLoop_pc (h : s.addTimerInLoop clock id noOwner = some s') : s'.pc = s.pc := by
  obtain ⟨-, -, heq⟩ := addTimerInLoop_frame h
  rw [heq]

/-- **What a cancellation does** to the bucket of the timer's time. -/
theorem cancelTimerInLoop_cases (s : State κ) (id : κ) :
    (s.activeTimers.find? (s.timer id).triggerTime = none ∧ s.cancelTimerInLoop id = s) ∨
      ∃ b, s.activeTimers.find? (s.timer id).triggerTime = some b ∧
        ((b.filter (fun e => e.1 ≠ id) = [] ∧ s.cancelTimerInLoop id =
            { s with activeTimers := s.activeTimers.erase (s.timer id).triggerTime }) ∨
          (b.filter (fun e => e.1 ≠ id) ≠ [] ∧ s.cancelTimerInLoop id =
            { s with activeTimers :=
                s.activeTimers.set (s.timer id).triggerTime (b.filter fun e => e.1 ≠ id) })) := by
  cases hfind : s.activeTimers.find? (s.timer id).triggerTime with
  | none => exact .inl ⟨rfl, by simp only [State.cancelTimerInLoop, hfind]⟩
  | some b =>
    refine .inr ⟨b, rfl, ?_⟩
    simp only [State.cancelTimerInLoop, hfind]
    split
    · next hempty => exact .inl ⟨List.isEmpty_iff.mp hempty, rfl⟩
    · next hempty => exact .inr ⟨fun hnil => hempty (List.isEmpty_iff.mpr hnil), rfl⟩

theorem cancelTimerInLoop_keys {k : ℕ} (h : k ∈ (s.cancelTimerInLoop id).activeTimers.keys) :
    k ∈ s.activeTimers.keys := by
  rcases cancelTimerInLoop_cases s id with ⟨-, heq⟩ | ⟨b, hfind, ⟨-, heq⟩ | ⟨-, heq⟩⟩
  · rw [heq] at h
    exact h
  · rw [heq] at h
    exact (SortedMap.mem_keys_erase.mp h).1
  · rw [heq] at h
    rcases SortedMap.mem_keys_set.mp h with rfl | hk
    · exact SortedMap.mem_keys.mpr ⟨b, SortedMap.find?_eq_some.mp hfind⟩
    · exact hk

/-- A cancellation touches the map only. -/
theorem cancelTimerInLoop_frame (s : State κ) (id : κ) :
    ∃ m, s.cancelTimerInLoop id = { s with activeTimers := m } := by
  rcases cancelTimerInLoop_cases s id with ⟨-, heq⟩ | ⟨b, -, ⟨-, heq⟩ | ⟨-, heq⟩⟩
  · exact ⟨s.activeTimers, heq⟩
  · exact ⟨_, heq⟩
  · exact ⟨_, heq⟩

theorem cancelTimerInLoop_pc : (s.cancelTimerInLoop id).pc = s.pc := by
  obtain ⟨m, heq⟩ := cancelTimerInLoop_frame s id
  rw [heq]

theorem cancelTimerInLoop_timerfd : (s.cancelTimerInLoop id).timerfd = s.timerfd := by
  obtain ⟨m, heq⟩ := cancelTimerInLoop_frame s id
  rw [heq]

theorem afterRun_pc {now key : ℕ} {ts : Bucket κ} :
    (s.afterRun now key id ts).pc = .firing now key ts := by
  unfold State.afterRun
  split <;> rfl

/-- What `addTimer` records besides what `addTimerInLoop` does. -/
def State.record (s s₁ : State κ) (id : κ) : State κ :=
  { s₁ with
    kept := if id ∈ s.kept then s.kept else s.kept ++ [id]
    log := s.log ++ [.added id]
    due := if s.pc.now?.any fun now => decide ((s.timer id).triggerTime ≤ now) then s.due ++ [id]
      else s.due }

/-- What an action can do. -/
inductive Move (clock : ℕ → ℕ) (s : State κ) : Action κ → State κ → Prop
  | add {id : κ} {noOwner : Bool} {s₁ : State κ} (huser : s.pc.user = true)
      (hadd : s.addTimerInLoop clock id noOwner = some s₁) :
      Move clock s (.addTimer id noOwner) (s.record s₁ id)
  | cancel {id : κ} (huser : s.pc.user = true) : Move clock s (.cancelTimer id) (s.cancelTimer id)
  | handle (hpc : s.pc = .idle) : Move clock s .handle (s.handleTimers clock)
  | fire {id : κ} {now key : ℕ} {ts : Bucket κ} (hpc : s.pc = .firing now key ts)
      (hid : id ∈ ts.map Prod.fst) :
      Move clock s (.fire id) { s with
        pc := .callback now key id (ts.filter fun e => e.1 ≠ id)
        log := s.log ++ [.ran id]
        passRan := s.passRan ++ [id] }
  | ret {id : κ} {now key : ℕ} {ts : Bucket κ} (hpc : s.pc = .callback now key id ts) :
      Move clock s .ret (s.afterRun now key id ts)
  /-- The first bucket is due and is copied. -/
  | bucket {now : ℕ} {e : ℕ × Bucket κ} (hpc : s.pc = .loop now)
      (hfirst : s.activeTimers.first? = some e) (hle : e.1 ≤ now) :
      Move clock s .step { s with pc := .firing now e.1 e.2 }
  /-- No bucket is due. -/
  | leave {now : ℕ} {e : ℕ × Bucket κ} (hpc : s.pc = .loop now)
      (hfirst : s.activeTimers.first? = some e) (hlt : now < e.1) :
      Move clock s .step { s with pc := .reset now }
  /-- The first bucket is erased. -/
  | sweep {now key : ℕ} {e : ℕ × Bucket κ} (hpc : s.pc = .firing now key [])
      (hfirst : s.activeTimers.first? = some e)
      (hne : (s.activeTimers.erase e.1).isEmpty = false) :
      Move clock s .step { s with
        activeTimers := s.activeTimers.erase e.1
        swept := s.swept ++ [(key, e.1)]
        pc := .loop now }
  /-- The only bucket is erased. -/
  | sweepLast {now key : ℕ} {e : ℕ × Bucket κ} (hpc : s.pc = .firing now key [])
      (hfirst : s.activeTimers.first? = some e)
      (hempty : (s.activeTimers.erase e.1).isEmpty = true) :
      Move clock s .step { s with
        activeTimers := s.activeTimers.erase e.1
        swept := s.swept ++ [(key, e.1)]
        pc := .reset now }
  | reset {now : ℕ} {s₁ : State κ} (hpc : s.pc = .reset now)
      (hreset : s.reset clock now = some s₁) : Move clock s .step { s₁ with pc := .idle }

theorem next_cases (h : s.next clock = some s') : Move clock s .step s' := by
  unfold State.next at h
  split at h
  · cases h
  · next now hpc =>
    split at h
    · cases h
    · next e hfirst =>
      cases h
      split
      · next hle => exact .bucket hpc hfirst hle
      · next hle => exact .leave hpc hfirst (Nat.lt_of_not_le hle)
  · next now key hpc =>
    split at h
    · cases h
    · next e hfirst =>
      cases h
      split
      · next hempty => exact .sweepLast hpc hfirst hempty
      · next hempty => exact .sweep hpc hfirst (Bool.eq_false_iff.mpr hempty)
  · cases h
  · cases h
  · next now hpc =>
    obtain ⟨s₁, hreset, rfl⟩ := Option.map_eq_some_iff.mp h
    exact .reset hpc hreset

/-- **What an action can do to the queue.** -/
theorem step_cases {a : Action κ} (h : step clock s a = some s') : Move clock s a s' := by
  cases a with
  | addTimer id noOwner =>
    simp only [step] at h
    split at h
    · next huser =>
      obtain ⟨s₁, hadd, rfl⟩ := Option.map_eq_some_iff.mp h
      exact .add huser hadd
    · cases h
  | cancelTimer id =>
    simp only [step] at h
    split at h <;> cases h
    next huser => exact .cancel huser
  | handle =>
    simp only [step] at h
    split at h <;> cases h
    next hpc => exact .handle hpc
  | fire id =>
    simp only [step] at h
    split at h
    · next now key ts hpc =>
      split at h <;> cases h
      next hid => exact .fire hpc hid
    · cases h
  | ret =>
    simp only [step] at h
    split at h <;> cases h
    next now key id ts hpc => exact .ret hpc
  | step => exact next_cases h

end KwNet.Timers
