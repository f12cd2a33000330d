import KwNet.Timers.Moves

/-!
# What `activeTimers` holds

* `Content` — every timer of the map is in the bucket of its own `TriggerTime()`, once;
* **`holds_addTimerInLoop`**, **`holds_cancelTimerInLoop`**, **`holds_erase`** — what the operations do to
  the timers held;
* **`Content.reset`** — `reset` keeps a well-formed map, as long as the timers it puts back are not in
  it.
-/

namespace KwNet.Timers

open KwNet.Lib

variable {κ : Type} {clock : ℕ → ℕ}

/-- Timer `id` is in the bucket of `k`. -/
def Holds (m : SortedMap ℕ (Bucket κ)) (id : κ) (k : ℕ) : Prop :=
  ∃ b, (k, b) ∈ m.entries ∧ id ∈ b.map Prod.fst

/-- A well-formed `activeTimers`. -/
structure Content (timer : κ → Timer) (m : SortedMap ℕ (Bucket κ)) : Prop where
  /-- A bucket has each of its timers once. -/
  nodup : ∀ e ∈ m.entries, (e.2.map Prod.fst).Nodup
  /-- A timer is under its own time. -/
  own : ∀ id k, Holds m id k → (timer id).triggerTime = k

variable {m : SortedMap ℕ (Bucket κ)} {timer : κ → Timer} {id j : κ} {k t : ℕ} {noOwner : Bool}

theorem Holds.mem_keys (h : Holds m id k) : k ∈ m.keys := by
  obtain ⟨b, hb, -⟩ := h
  exact SortedMap.mem_keys.mpr ⟨b, hb⟩

theorem content_empty (timer : κ → Timer) : Content timer .empty where
  nodup := List.forall_mem_nil _
  own := by
    rintro id k ⟨b, hb, -⟩
    cases hb

/-! ### The map operations -/

theorem holds_erase : Holds (m.erase t) j k ↔ Holds m j k ∧ k ≠ t := by
  constructor
  · rintro ⟨b, hb, hj⟩
    obtain ⟨hb', hne⟩ := SortedMap.mem_erase.mp hb
    exact ⟨⟨b, hb', hj⟩, hne⟩
  · rintro ⟨⟨b, hb, hj⟩, hne⟩
    exact ⟨b, SortedMap.mem_erase.mpr ⟨hb, hne⟩, hj⟩

theorem holds_set {b : Bucket κ} :
    Holds (m.set t b) j k ↔ (k = t ∧ j ∈ b.map Prod.fst) ∨ (k ≠ t ∧ Holds m j k) := by
  constructor
  · rintro ⟨c, hc, hj⟩
    rcases SortedMap.mem_set.mp hc with heq | ⟨hc', hne⟩
    · obtain ⟨rfl, rfl⟩ := Prod.mk.inj heq
      exact .inl ⟨rfl, hj⟩
    · exact .inr ⟨hne, c, hc', hj⟩
  · rintro (⟨rfl, hj⟩ | ⟨hne, c, hc, hj⟩)
    · exact ⟨b, SortedMap.mem_set.mpr (.inl rfl), hj⟩
    · exact ⟨c, SortedMap.mem_set.mpr (.inr ⟨hc, hne⟩), hj⟩

/-- Within a bucket, the map holds what the bucket has. -/
theorem holds_of_find? {b : Bucket κ} (h : m.find? t = some b) : Holds m j t ↔ j ∈ b.map Prod.fst := by
  have hb := SortedMap.find?_eq_some.mp h
  constructor
  · rintro ⟨c, hc, hj⟩
    have heq := SortedMap.eq_of_mem hc hb rfl
    rw [(Prod.mk.inj heq).2] at hj
    exact hj
  · intro hj
    exact ⟨b, hb, hj⟩

theorem Content.erase (hC : Content timer m) (t : ℕ) : Content timer (m.erase t) where
  nodup := fun e he => hC.nodup e (SortedMap.mem_erase.mp he).1
  own := fun id k h => hC.own id k (holds_erase.mp h).1

/-- The time of a timer that is not held may change. -/
theorem Content.congr {timer' : κ → Timer} (hC : Content timer m)
    (h : ∀ id k, Holds m id k → timer' id = timer id) : Content timer' m where
  nodup := hC.nodup
  own := by
    intro id k hk
    rw [h id k hk]
    exact hC.own id k hk

variable [DecidableEq κ] {s s' : State κ}

/-! ### The operations -/

/-- What `addTimerInLoop` adds: the timer, unless its time is a key already. -/
theorem holds_addTimerInLoop (h : s.addTimerInLoop clock id noOwner = some s') :
    Holds s'.activeTimers j k ↔ Holds s.activeTimers j k ∨
      (j = id ∧ k = (s.timer id).triggerTime ∧ k ∉ s.activeTimers.keys) := by
  obtain ⟨earlier, hins, -⟩ := addTimerInLoop_frame h
  rcases insert_cases hins with ⟨b, hfind, -, heq⟩ | ⟨hkey, hmap, -⟩
  · rw [(Prod.mk.inj heq).1]
    have hkey : (s.timer id).triggerTime ∈ s.activeTimers.keys :=
      SortedMap.mem_keys.mpr ⟨b, SortedMap.find?_eq_some.mp hfind⟩
    refine ⟨.inl, fun hor => hor.resolve_right ?_⟩
    rintro ⟨-, rfl, hnot⟩
    exact hnot hkey
  · change s'.activeTimers = _ at hmap
    rw [hmap, holds_set]
    simp only [List.map_cons, List.map_nil, List.mem_singleton]
    constructor
    · rintro (⟨rfl, rfl⟩ | ⟨-, hj⟩)
      · exact .inr ⟨rfl, rfl, hkey⟩
      · exact .inl hj
    · rintro (hj | ⟨rfl, rfl, -⟩)
      · refine .inr ⟨?_, hj⟩
        rintro rfl
        exact hkey hj.mem_keys
      · exact .inl ⟨rfl, rfl⟩

theorem Content.addTimerInLoop (hC : Content s.timer s.activeTimers)
    (h : s.addTimerInLoop clock id noOwner = some s') : Content s'.timer s'.activeTimers := by
  rw [addTimerInLoop_timer h]
  refine ⟨?_, fun j k hj => ?_⟩
  · obtain ⟨earlier, hins, -⟩ := addTimerInLoop_frame h
    rcases insert_cases hins with ⟨b, hfind, -, heq⟩ | ⟨hkey, hmap, -⟩
    · rw [(Prod.mk.inj heq).1]
      exact hC.nodup
    · intro e he
      change s'.activeTimers = _ at hmap
      rw [hmap] at he
      rcases SortedMap.mem_set.mp he with rfl | ⟨he', -⟩
      · exact List.nodup_singleton _
      · exact hC.nodup e he'
  · rcases (holds_addTimerInLoop h).mp hj with hj' | ⟨rfl, rfl, -⟩
    · exact hC.own j k hj'
    · rfl

/-- What `cancelTimerInLoop` removes: the timer, if it is under its own time. -/
theorem holds_cancelTimerInLoop :
    Holds (s.cancelTimerInLoop id).activeTimers j k ↔
      Holds s.activeTimers j k ∧ ¬ (j = id ∧ k = (s.timer id).triggerTime) := by
  rcases cancelTimerInLoop_cases s id with ⟨hfind, heq⟩ | ⟨b, hfind, ⟨hnil, heq⟩ | ⟨-, heq⟩⟩
  · rw [heq]
    refine ⟨fun hj => ⟨hj, ?_⟩, And.left⟩
    rintro ⟨rfl, rfl⟩
    exact SortedMap.find?_eq_none.mp hfind hj.mem_keys
  · rw [heq, holds_erase]
    refine and_congr_right fun hj => not_congr ⟨fun hk => ⟨?_, hk⟩, And.right⟩
    -- the bucket has no other timer
    subst hk
    obtain ⟨e, he, rfl⟩ := List.mem_map.mp ((holds_of_find? hfind).mp hj)
    by_contra hne
    have hin : e ∈ b.filter fun e => e.1 ≠ id := List.mem_filter.mpr ⟨he, by simpa using hne⟩
    rw [hnil] at hin
    cases hin
  · rw [heq, holds_set]
    by_cases hk : k = (s.timer id).triggerTime
    · subst hk
      rw [holds_of_find? hfind]
      simp [List.mem_map, List.mem_filter]
    · simp [hk]

theorem Content.cancelTimerInLoop (hC : Content s.timer s.activeTimers) :
    Content s.timer (s.cancelTimerInLoop id).activeTimers := by
  refine ⟨?_, fun j k hj => hC.own j k (holds_cancelTimerInLoop.mp hj).1⟩
  rcases cancelTimerInLoop_cases s id with ⟨-, heq⟩ | ⟨b, hfind, ⟨-, heq⟩ | ⟨-, heq⟩⟩
  · rw [heq]
    exact hC.nodup
  · rw [heq]
    exact (hC.erase _).nodup
  · rw [heq]
    intro e he
    rcases SortedMap.mem_set.mp he with rfl | ⟨he', -⟩
    · have hb := hC.nodup _ (SortedMap.find?_eq_some.mp hfind)
      exact hb.sublist (List.filter_sublist.map _)
    · exact hC.nodup e he'

/-- A cancelled timer is nowhere in the map. -/
theorem Content.not_holds_cancelled (hC : Content s.timer s.activeTimers) :
    ¬ Holds (s.cancelTimerInLoop id).activeTimers id k := by
  intro h
  obtain ⟨hk, hnot⟩ := holds_cancelTimerInLoop.mp h
  exact hnot ⟨rfl, (hC.own id k hk).symm⟩

/-- The other timers stay where they are. -/
theorem holds_cancelled_other (hne : j ≠ id) :
    Holds (s.cancelTimerInLoop id).activeTimers j k ↔ Holds s.activeTimers j k := by
  rw [holds_cancelTimerInLoop]
  exact and_iff_left fun h => hne h.1

/-! ### `reset` -/

/-- One timer is put back: its time moves on, it is inserted, and the rest of the state is as before. -/
theorem readd_frame {now : ℕ} {r r' : State κ × ℕ} (h : State.readd clock now r id = some r') :
    ∃ m fd n, r'.1 =
      { r.1 with
        timer := Function.update r.1.timer id ((r.1.timer id).reset now)
        log := r.1.log ++ [.reinserted id]
        activeTimers := m, timerfd := fd, reads := n } := by
  obtain ⟨s', hadd, rfl⟩ := Option.map_eq_some_iff.mp h
  obtain ⟨-, -, heq⟩ := addTimerInLoop_frame hadd
  exact ⟨_, _, _, heq⟩

theorem holds_readd {now : ℕ} {r r' : State κ × ℕ} (h : State.readd clock now r id = some r') :
    Holds r'.1.activeTimers j k ↔ Holds r.1.activeTimers j k ∨
      (j = id ∧ k = ((r.1.timer id).reset now).triggerTime ∧ k ∉ r.1.activeTimers.keys) := by
  obtain ⟨s', hadd, rfl⟩ := Option.map_eq_some_iff.mp h
  have hholds := holds_addTimerInLoop (j := j) (k := k) hadd
  simp only [Function.update_self] at hholds
  exact hholds

theorem Content.readd {now : ℕ} {r r' : State κ × ℕ} (hC : Content r.1.timer r.1.activeTimers)
    (hnot : ∀ k, ¬ Holds r.1.activeTimers id k) (h : State.readd clock now r id = some r') :
    Content r'.1.timer r'.1.activeTimers := by
  obtain ⟨s', hadd, rfl⟩ := Option.map_eq_some_iff.mp h
  refine Content.addTimerInLoop ?_ hadd
  refine hC.congr fun j k hj => Function.update_of_ne ?_ _ _
  rintro rfl
  exact hnot k hj

/-- **The loop of `reset`**, for timers that are not in the map.  Timers it does not put back keep their
time; what it puts back is under its next time, unless that was taken. -/
theorem Content.readd_fold {now : ℕ} {ids : List κ} {r r' : State κ × ℕ}
    (hC : Content r.1.timer r.1.activeTimers) (hids : ids.Nodup)
    (hnot : ∀ id ∈ ids, ∀ k, ¬ Holds r.1.activeTimers id k)
    (h : ids.foldlM (State.readd clock now) r = some r') :
    Content r'.1.timer r'.1.activeTimers ∧
      (∃ timer m fd n, r'.1 = { r.1 with
        timer := timer, log := r.1.log ++ ids.map .reinserted
        activeTimers := m, timerfd := fd, reads := n }) ∧
      (∀ j k, Holds r'.1.activeTimers j k → Holds r.1.activeTimers j k ∨ j ∈ ids) := by
  induction ids generalizing r with
  | nil =>
    cases h
    refine ⟨hC, ⟨r'.1.timer, r'.1.activeTimers, r'.1.timerfd, r'.1.reads, ?_⟩,
      fun j k hj => .inl hj⟩
    rw [List.map_nil, List.append_nil]
  | cons id ids ih =>
    rw [List.foldlM_cons] at h
    obtain ⟨r₁, hstep, hrest⟩ := Option.bind_eq_some_iff.mp h
    obtain ⟨hid, hids'⟩ := List.nodup_cons.mp hids
    have hC₁ := hC.readd (hnot id List.mem_cons_self) hstep
    have hnot₁ : ∀ j ∈ ids, ∀ k, ¬ Holds r₁.1.activeTimers j k := by
      intro j hj k hk
      rcases (holds_readd hstep).mp hk with hk' | ⟨rfl, -, -⟩
      · exact hnot j (List.mem_cons_of_mem _ hj) k hk'
      · exact hid hj
    obtain ⟨hC', ⟨timer', m', fd', n', heq'⟩, hholds⟩ := ih hC₁ hids' hnot₁ hrest
    obtain ⟨m₁, fd₁, n₁, heq₁⟩ := readd_frame hstep
    refine ⟨hC', ⟨timer', m', fd', n', ?_⟩, fun j k hj => ?_⟩
    · rw [heq', heq₁]
      simp only [List.map_cons, List.append_assoc, List.singleton_append]
    · rcases hholds j k hj with hj' | hj'
      · rcases (holds_readd hstep).mp hj' with hj'' | ⟨rfl, -, -⟩
        · exact .inl hj''
        · exact .inr List.mem_cons_self
      · exact .inr (List.mem_cons_of_mem _ hj')

/-- **`reset`**, for timers that are not in the map. -/
theorem Content.reset {now : ℕ} (hC : Content s.timer s.activeTimers) (hids : s.triggeredTimers.Nodup)
    (hnot : ∀ id ∈ s.triggeredTimers, ∀ k, ¬ Holds s.activeTimers id k)
    (h : s.reset clock now = some s') :
    Content s'.timer s'.activeTimers ∧
      (∃ timer m fd n, s' = { s with
        timer := timer, log := s.log ++ s.triggeredTimers.map .reinserted
        activeTimers := m, timerfd := fd, reads := n }) ∧
      (∀ j k, Holds s'.activeTimers j k → Holds s.activeTimers j k ∨ j ∈ s.triggeredTimers) := by
  obtain ⟨r, hfold, rfl⟩ := Option.map_eq_some_iff.mp h
  obtain ⟨hC', ⟨timer', m', fd', n', heq⟩, hholds⟩ := hC.readd_fold hids hnot hfold
  split
  · exact ⟨hC', ⟨timer', m', _, _, by rw [State.updateFd, heq]⟩, hholds⟩
  · exact ⟨hC', ⟨timer', m', fd', n', heq⟩, hholds⟩

end KwNet.Timers
