import KwNet.Lib.Run
import KwNet.Poll.Teardown

/-!
# Events of a closed connection

`Poller` keeps the `Channel` of a descriptor for good: a connection that is created with a number just
closed gets the channel of the closed one, and sets its callbacks in it.  If that channel still waits in
`activeChannels`, its event is dispatched to the new connection.

* `Pending` — who the events still to be dispatched were collected for is whose callbacks are set, or
  nobody's are;
* **`no_stale_dispatch`** — in a run in which no object is created on a descriptor whose channel waits in
  `activeChannels` or is being handled, every callback called belongs to the object its event was
  collected for;
* **`reused_descriptor_dispatch`** — a connection is closed, its number accepted again and the old hang-up
  dispatched to the new connection, in one batch.
-/

namespace KwNet.Poll

open KwNet.Lib

variable {s s' s'' : Loop}

/-- An event collected for an object is dispatched to the callbacks of no other object. -/
def NoStale (s : Loop) : Prop :=
  ∀ d ∈ s.dispatched, ∀ obj, d.collectedFor = some obj → d.target = some obj

/-- No object is created on a descriptor whose event of this batch is still to be dispatched. -/
def FreshDescriptor (s : Loop) (a : LoopAction) : Prop :=
  ∀ fd obj callbacks, a = .create fd obj callbacks →
    (∀ e ∈ s.active, e.1 ≠ fd) ∧ ∀ h, s.current = some h → h.fd ≠ fd

/-- `FreshDescriptor` looks at the descriptors of one batch only. -/
instance FreshDescriptor.decidable (s : Loop) : (a : LoopAction) → Decidable (FreshDescriptor s a)
  | .create fd obj callbacks =>
    decidable_of_iff ((∀ e ∈ s.active, e.1 ≠ fd) ∧ ∀ h ∈ s.current, h.fd ≠ fd) <| by
      constructor
      · rintro h fd' obj' callbacks' heq
        cases heq
        exact h
      · intro h
        exact h fd obj callbacks rfl
  | .poll _ => .isTrue fun _ _ _ h => by cases h
  | .next _ => .isTrue fun _ _ _ h => by cases h
  | .callback => .isTrue fun _ _ _ h => by cases h
  | .finish => .isTrue fun _ _ _ h => by cases h
  | .connectEstablished _ _ => .isTrue fun _ _ _ h => by cases h
  | .call _ _ _ => .isTrue fun _ _ _ h => by cases h
  | .setIoChannel _ => .isTrue fun _ _ _ h => by cases h
  | .handleEpHup _ _ => .isTrue fun _ _ _ h => by cases h
  | .remove _ => .isTrue fun _ _ _ h => by cases h

/-- The callbacks set for `fd` are those of the object the event was collected for, or none are set. -/
def Loop.Owned (s : Loop) (fd : ℕ) (collectedFor : Option ℕ) : Prop :=
  ∀ obj, collectedFor = some obj →
    (s.slot fd).owner = some obj ∨ ∀ cb, (s.slot fd).installed cb = false

/-- What ties the events still to be dispatched to the callbacks that are set. -/
structure Pending (s : Loop) : Prop where
  active : ∀ e ∈ s.active, s.Owned e.1 e.2
  current : ∀ h, s.current = some h → s.Owned h.fd h.collectedFor
  past : NoStale s

/-! ### what leaves the callbacks alone -/

/-- The callbacks set for each descriptor are the same, or gone; nothing is dispatched. -/
structure Quiet (s s' : Loop) : Prop where
  callbacks : ∀ fd, ((s'.slot fd).owner = (s.slot fd).owner ∧
      (s'.slot fd).installed = (s.slot fd).installed) ∨ ∀ cb, (s'.slot fd).installed cb = false
  active : s'.active = s.active
  current : s'.current = s.current
  dispatched : s'.dispatched = s.dispatched

theorem Quiet.of_slot (hslot : s'.slot = s.slot) (hactive : s'.active = s.active)
    (hcurrent : s'.current = s.current) (hdispatched : s'.dispatched = s.dispatched) : Quiet s s' := by
  refine ⟨fun fd => .inl ?_, hactive, hcurrent, hdispatched⟩
  rw [hslot]
  exact ⟨rfl, rfl⟩

theorem Quiet.trans (h : Quiet s s') (h' : Quiet s' s'') : Quiet s s'' := by
  refine ⟨fun fd => ?_, h'.active.trans h.active, h'.current.trans h.current,
    h'.dispatched.trans h.dispatched⟩
  obtain ⟨howner', hinst'⟩ | hnone := h'.callbacks fd
  · obtain ⟨howner, hinst⟩ | hnone := h.callbacks fd
    · exact .inl ⟨howner'.trans howner, hinst'.trans hinst⟩
    · exact .inr fun cb => by rw [hinst']; exact hnone cb
  · exact .inr hnone

/-- The owner of the pending event stays, or is gone. -/
theorem Quiet.owned (h : Quiet s s') {fd : ℕ} {collectedFor : Option ℕ}
    (ho : s.Owned fd collectedFor) : s'.Owned fd collectedFor := by
  intro obj hobj
  obtain ⟨howner, hinst⟩ | hnone := h.callbacks fd
  · rw [howner, hinst]
    exact ho obj hobj
  · exact .inr hnone

theorem Quiet.pending (h : Quiet s s') (hp : Pending s) : Pending s' := by
  refine ⟨fun e he => ?_, fun c hc => ?_, ?_⟩
  · rw [h.active] at he
    exact h.owned (hp.active e he)
  · rw [h.current] at hc
    exact h.owned (hp.current c hc)
  · unfold NoStale
    rw [h.dispatched]
    exact hp.past

/-- A new content of one slot with the same callbacks, or with none. -/
theorem setSlot_quiet {fd : ℕ} {sl : Slot}
    (hsl : (sl.owner = (s.slot fd).owner ∧ sl.installed = (s.slot fd).installed) ∨
      ∀ cb, sl.installed cb = false) : Quiet s (s.setSlot fd sl) := by
  refine ⟨fun fd' => ?_, rfl, rfl, rfl⟩
  by_cases hfd : fd' = fd
  · rw [hfd, setSlot_self]
    exact hsl
  · rw [setSlot_of_ne s hfd]
    exact .inl ⟨rfl, rfl⟩

variable {fd : ℕ} {stack : EpollEvent}

theorem updateChannel_quiet {ch : Channel} (h : s.updateChannel fd ch stack = some s') :
    Quiet s s' := by
  obtain ⟨t, -, rfl⟩ := Option.map_eq_some_iff.mp h
  exact Quiet.of_slot rfl rfl rfl rfl

theorem call_quiet {f : Call} (h : s.call fd f stack = some s') : Quiet s s' := by
  obtain ⟨ch, -, h⟩ := Option.bind_eq_some_iff.mp h
  by_cases hupdates : f.updates = true
  · rw [if_pos hupdates] at h
    have hset : Quiet s (s.setSlot fd { s.slot fd with addedToLoop := true }) :=
      setSlot_quiet (.inl ⟨rfl, rfl⟩)
    exact hset.trans (updateChannel_quiet h)
  · rw [if_neg hupdates] at h
    exact updateChannel_quiet h

theorem connectEstablished_quiet (h : s.connectEstablished fd stack = some s') : Quiet s s' := by
  obtain ⟨t, ht, h⟩ := Option.bind_eq_some_iff.mp h
  have htie : Quiet s t := by
    obtain ⟨ch, -, rfl⟩ := Option.map_eq_some_iff.mp ht
    exact Quiet.of_slot rfl rfl rfl rfl
  exact htie.trans (call_quiet h)

/-- A connection that closes takes its callbacks out. -/
theorem handleEpHup_quiet (h : s.handleEpHup fd stack = some s') : Quiet s s' := by
  obtain ⟨t, ht, h⟩ := Option.bind_eq_some_iff.mp h
  obtain ⟨u, hu, rfl⟩ := Option.map_eq_some_iff.mp h
  obtain ⟨ch, -, rfl⟩ := Option.map_eq_some_iff.mp hu
  have hreset : Quiet t (t.setSlot fd { t.slot fd with owner := none, installed := fun _ => false }) :=
    setSlot_quiet (.inr fun _ => rfl)
  exact ((call_quiet ht).trans hreset).trans (Quiet.of_slot rfl rfl rfl rfl)

theorem remove_quiet (h : s.remove fd = some s') : Quiet s s' := by
  obtain ⟨ch, -, h⟩ := Option.bind_eq_some_iff.mp h
  rw [Option.ite_none_right_eq_some, Option.some.injEq] at h
  rw [← h.2]
  exact Quiet.of_slot rfl rfl rfl rfl

theorem addChannel_quiet : Quiet s (s.addChannel fd) := by
  unfold Loop.addChannel
  cases s.poll.channels fd with
  | some ch => exact Quiet.of_slot rfl rfl rfl rfl
  | none =>
    have hset : Quiet s (s.setSlot fd .new) := setSlot_quiet (.inr fun _ => rfl)
    exact hset.trans (Quiet.of_slot rfl rfl rfl rfl)

/-! ### creating and dispatching -/

/-- An object created on another descriptor than those of the batch disturbs nothing. -/
theorem create_pending {obj : ℕ} {callbacks : Callback → Bool} (hp : Pending s)
    (hfresh : FreshDescriptor s (.create fd obj callbacks)) : Pending (s.create fd obj callbacks) := by
  obtain ⟨hactive, hcurrent⟩ := hfresh fd obj callbacks rfl
  have hadd : Pending (s.addChannel fd) := addChannel_quiet.pending hp
  have hsame : (s.addChannel fd).active = s.active ∧ (s.addChannel fd).current = s.current :=
    ⟨(addChannel_quiet (s := s)).active, (addChannel_quiet (s := s)).current⟩
  have howned : ∀ {fd' : ℕ} {collectedFor : Option ℕ}, fd' ≠ fd →
      (s.addChannel fd).Owned fd' collectedFor → (s.create fd obj callbacks).Owned fd' collectedFor := by
    intro fd' collectedFor hne ho obj' hobj'
    have hslot : (s.create fd obj callbacks).slot fd' = (s.addChannel fd).slot fd' :=
      setSlot_of_ne (s.addChannel fd) hne _
    rw [hslot]
    exact ho obj' hobj'
  refine ⟨fun e he => ?_, fun c hc => ?_, hadd.past⟩
  · have he' : e ∈ (s.addChannel fd).active := he
    exact howned (hactive e (hsame.1 ▸ he')) (hadd.active e he')
  · have hc' : (s.addChannel fd).current = some c := hc
    exact howned (hcurrent c (hsame.2 ▸ hc')) (hadd.current c hc')

/-- The events of a new batch are collected for the objects whose callbacks are set. -/
theorem fill_pending (evs : List (ℕ × Mask)) (hp : Pending s) : Pending (s.fill evs) := by
  refine ⟨fun e he => ?_, fun c hc obj hobj => ?_, hp.past⟩
  · obtain ⟨ev, -, rfl⟩ := List.mem_map.mp he
    obtain ⟨mask, hmask⟩ := fill_slot (s := s) evs ev.1
    intro obj hobj
    rw [hmask]
    exact .inl hobj
  · obtain ⟨mask, hmask⟩ := fill_slot (s := s) evs c.fd
    rw [hmask]
    exact hp.current c hc obj hobj

/-- `HandleEvent` is entered for the event that was next. -/
theorem handleEvent_pending {collectedFor : Option ℕ} {rest : List (ℕ × Option ℕ)} {ch : Channel}
    {locked : Bool} (hactive : s.active = (fd, collectedFor) :: rest) (hp : Pending s) :
    Pending (Loop.handleEvent { s with active := rest } fd collectedFor ch locked) := by
  have htaken : Pending { s with active := rest } := by
    refine ⟨fun e he => hp.active e ?_, hp.current, hp.past⟩
    rw [hactive]
    exact List.mem_cons_of_mem _ he
  have hhead : s.Owned fd collectedFor := by
    have hmem : (fd, collectedFor) ∈ s.active := by
      rw [hactive]
      exact List.mem_cons_self
    exact hp.active _ hmem
  unfold Loop.handleEvent
  by_cases hskip : (ch.tied && !locked) = true
  · rw [if_pos hskip]
    exact htaken
  · rw [if_neg hskip]
    have hset : Quiet { s with active := rest } (Loop.setSlot { s with active := rest } fd
        { s.slot fd with eventHandling := true }) := setSlot_quiet (.inl ⟨rfl, rfl⟩)
    have hset' := hset.pending htaken
    refine ⟨hset'.active, fun c hc => ?_, hset'.past⟩
    obtain rfl := Option.some.inj hc
    exact hset.owned (s := { s with active := rest }) hhead

/-- A callback is called: it belongs to the object the event was collected for. -/
theorem tryCallback_pending {h : Handling} {cb : Callback} {rest : List Callback}
    (hc : s.current = some h) (hp : Pending s) : Pending (s.tryCallback h cb rest) := by
  have hcurrent : ∀ c, some { h with rest := rest } = some c → s.Owned c.fd c.collectedFor := by
    intro c hc'
    obtain rfl := Option.some.inj hc'
    exact hp.current h hc
  unfold Loop.tryCallback
  by_cases hinstalled : (s.slot h.fd).installed cb = true
  · rw [if_pos hinstalled]
    refine ⟨hp.active, hcurrent, fun d hd obj hobj => ?_⟩
    obtain hold | hnew := List.mem_append.mp hd
    · exact hp.past d hold obj hobj
    · obtain rfl := List.mem_singleton.mp hnew
      obtain howner | hnone := hp.current h hc obj hobj
      · exact howner
      · rw [hnone cb] at hinstalled
        cases hinstalled
  · rw [if_neg hinstalled]
    exact ⟨hp.active, hcurrent, hp.past⟩

theorem finish_pending {h : Handling} (hp : Pending s) : Pending (s.finish h) := by
  have hcleared : Pending { s with current := none } := by
    refine ⟨hp.active, fun c hc => ?_, hp.past⟩
    cases hc
  unfold Loop.finish
  by_cases he : h.early = true
  · rw [if_pos he]
    exact hcleared
  · rw [if_neg he]
    have hset : Quiet { s with current := none } (Loop.setSlot { s with current := none } h.fd
        { s.slot h.fd with eventHandling := false }) := setSlot_quiet (.inl ⟨rfl, rfl⟩)
    exact hset.pending hcleared

/-! ### steps and runs -/

theorem step_pending {a : LoopAction} (hp : Pending s) (hfresh : FreshDescriptor s a)
    (h : s.step a = some s') : Pending s' := by
  cases a with
  | poll evs =>
    rw [Loop.step, Option.ite_none_right_eq_some, Option.some.injEq] at h
    rw [← h.2]
    exact fill_pending evs hp
  | next locked =>
    cases hcur : s.current with
    | some c =>
      rw [Loop.step, hcur] at h
      cases h
    | none =>
      cases hactive : s.active with
      | nil =>
        rw [Loop.step, hcur, hactive] at h
        cases h
      | cons e rest =>
        obtain ⟨fd, collectedFor⟩ := e
        have hstep : s.step (.next locked) = (s.poll.channels fd).map fun ch =>
            Loop.handleEvent { s with active := rest } fd collectedFor ch locked := by
          rw [Loop.step, hcur, hactive]
        rw [hstep] at h
        obtain ⟨ch, -, rfl⟩ := Option.map_eq_some_iff.mp h
        exact handleEvent_pending hactive hp
  | callback =>
    cases hcur : s.current with
    | none =>
      rw [Loop.step, hcur] at h
      cases h
    | some c =>
      obtain ⟨fd, collectedFor, rest, early⟩ := c
      cases rest with
      | nil =>
        rw [Loop.step, hcur] at h
        cases h
      | cons cb rest =>
        rw [Loop.step, hcur] at h
        rw [← Option.some.inj h]
        exact tryCallback_pending hcur hp
  | finish =>
    cases hcur : s.current with
    | none =>
      rw [Loop.step, hcur] at h
      cases h
    | some c =>
      obtain ⟨fd, collectedFor, rest, early⟩ := c
      cases rest with
      | cons cb rest =>
        rw [Loop.step, hcur] at h
        cases h
      | nil =>
        rw [Loop.step, hcur] at h
        rw [← Option.some.inj h]
        exact finish_pending hp
  | create fd obj callbacks =>
    rw [Loop.step, Option.ite_none_left_eq_some, Option.some.injEq] at h
    rw [← h.2]
    exact create_pending hp hfresh
  | connectEstablished fd stack => exact (connectEstablished_quiet h).pending hp
  | call fd f stack => exact (call_quiet h).pending hp
  | setIoChannel fd =>
    obtain ⟨ch, -, rfl⟩ := Option.map_eq_some_iff.mp h
    have hset : Quiet s (s.setSlot fd { s.slot fd with isIoChannel := true }) :=
      setSlot_quiet (.inl ⟨rfl, rfl⟩)
    exact hset.pending hp
  | handleEpHup fd stack => exact (handleEpHup_quiet h).pending hp
  | remove fd =>
    rw [Loop.step, Option.ite_none_right_eq_some] at h
    exact (remove_quiet h.2).pending hp

theorem init_pending : Pending Loop.init := by
  refine ⟨fun e he => ?_, fun c hc => ?_, fun d hd => ?_⟩
  · cases he
  · cases hc
  · cases hd

/-- **No stale dispatch.**  In every run of a loop, with any batches of events and any behaviour of the
callbacks, in which no object is created on a descriptor whose channel still waits in `activeChannels` or
is being handled: every event collected for an object was dispatched to the callbacks of that object
only. -/
theorem no_stale_dispatch {as : List LoopAction} (h : run Loop.step Loop.init as = some s)
    (hfresh : Along Loop.step FreshDescriptor Loop.init as) : NoStale s := by
  have hp : Pending s :=
    run_induction_along FreshDescriptor Pending init_pending
      (fun _ _ _ hp hP ht => step_pending hp hP ht) hfresh h
  exact hp.past

/-- The acceptor (object 0) on descriptor 3 and the connections 1 and 2 on descriptors 5 and 6. -/
def twoConnections : List LoopAction :=
  [.create 3 0 fun cb => decide (cb = .input), .call 3 .enableRead ⟨0, 0⟩,
    .create 5 1 fun _ => true, .connectEstablished 5 ⟨0, 0⟩,
    .create 6 2 fun _ => true, .connectEstablished 6 ⟨0, 0⟩]

/-- One batch: the callback of connection 1 closes connection 2, the acceptor accepts a client on
descriptor `fd`, and the hang-up reported for connection 2 is dispatched last. -/
def closeAndAccept (fd : ℕ) : List LoopAction :=
  twoConnections ++
    [.poll [(5, epollIn), (3, epollIn), (6, epollHup)],
      .next true, .callback, .handleEpHup 6 ⟨0, 0⟩, .finish,
      .next true, .callback, .create fd 3 fun _ => true, .connectEstablished fd ⟨0, 0⟩, .finish,
      .next true, .callback]

/-- With another number the old event reaches nobody. -/
theorem no_stale_dispatch_other_number :
    ∃ s, run Loop.step Loop.init (closeAndAccept 7) = some s ∧ NoStale s := by
  have hrun : (run Loop.step Loop.init (closeAndAccept 7)).isSome = true := by decide
  obtain ⟨s, hs⟩ := Option.isSome_iff_exists.mp hrun
  exact ⟨s, hs, no_stale_dispatch hs (by decide)⟩

/-- With the number just closed the hang-up of connection 2 is dispatched to connection 3. -/
theorem reused_descriptor_dispatch :
    ∃ s, run Loop.step Loop.init (closeAndAccept 6) = some s ∧ ¬NoStale s := by
  have hrun : (run Loop.step Loop.init (closeAndAccept 6)).map (fun s => s.dispatched)
      = some [⟨5, .input, some 1, some 1⟩, ⟨3, .input, some 0, some 0⟩, ⟨6, .hup, some 2, some 3⟩] := by
    decide
  obtain ⟨s, hs, hd⟩ := Option.map_eq_some_iff.mp hrun
  refine ⟨s, hs, fun hno => ?_⟩
  have htarget := hno ⟨6, .hup, some 2, some 3⟩ (by rw [hd]; simp) 2 rfl
  simp at htarget

end KwNet.Poll
