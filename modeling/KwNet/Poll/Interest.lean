import KwNet.Lib.Run
import KwNet.Poll.Model

/-!
# The interest set of the kernel mirrors the channels

`Epoller::updateChannel` picks the operation by `idx`, so the interest set is right as long as `idx`
says whether the descriptor is in it (`Inv`): a channel is added exactly while its `listen_events` is
not zero.  A call on a channel that listens for nothing and goes on listening for nothing breaks this:
`idx` says deleted, so the descriptor is added, with an event that was never filled in.

* `interest_mirrors_channels` — the interest set mirrors the channels in every state of a run exactly
  when no call of the run leaves zero a `listen_events` that was zero already.  MOD and ADD then always
  carry a filled event; a DEL never does (the kernel reads none there), and counting that as well, the
  condition is that no call leaves `listen_events` zero.
-/

namespace KwNet.Poll

open KwNet.Lib

variable {s s' : State} {fd : ℕ} {ch : Channel} {f : Call} {stack : EpollEvent}

/-! ### The property -/

/-- The interest set has the descriptor of a channel exactly while the channel listens for something,
then with these events and the channel's own address; no event the kernel reads is uninitialised, and
no `epoll_ctl` has failed. -/
structure Mirrors (s : State) : Prop where
  present : ∀ fd ch, s.channels fd = some ch → ((s.interest fd).isSome ↔ ch.listenEvents ≠ 0)
  events : ∀ fd ch ev, s.channels fd = some ch → s.interest fd = some ev →
    ev.events = ch.listenEvents ||| epollEt ||| epollRdhup
  data : ∀ fd ch ev, s.channels fd = some ch → s.interest fd = some ev →
    ev.data = ch.addr ∧ ∀ fd' ch', s.channels fd' = some ch' → ch'.addr = ev.data → fd' = fd
  initialised : ∀ c ∈ s.issued, c.op ≠ .del → c.event ≠ none
  succeeds : ∀ c ∈ s.issued, c.ok

/-- The call does not leave at zero a `listen_events` that is zero already. -/
def Live (s : State) : Action → Prop
  | .call fd f _ =>
    ∀ ch, s.channels fd = some ch → ch.listenEvents = 0 → f.listen ch.listenEvents ≠ 0
  | _ => True

/-- `Live` looks at the channel of one descriptor only. -/
instance Live.decidable (s : State) : (a : Action) → Decidable (Live s a)
  | .addChannel _ => .isTrue trivial
  | .tie _ => .isTrue trivial
  | .call fd f _ =>
    match h : s.channels fd with
    | none => .isTrue fun ch hch => absurd hch (by simp [h])
    | some ch =>
      decidable_of_iff (ch.listenEvents = 0 → f.listen ch.listenEvents ≠ 0)
        ⟨fun hl ch' hch' => by
          rw [h, Option.some.injEq] at hch'
          exact hch' ▸ hl, fun hl => hl ch h⟩

/-- The call leaves the channel listening for something. -/
def LeavesSome (s : State) : Action → Prop
  | .call fd f _ => ∀ ch, s.channels fd = some ch → f.listen ch.listenEvents ≠ 0
  | _ => True

/-! ### One `epoll_ctl` -/

/-- `idx` says whether the descriptor is in the interest set, and with what. -/
def Registered (ch : Channel) (reg : Option EpollEvent) : Prop :=
  (ch.idx = .chAdded ∧ ch.listenEvents ≠ 0 ∧ reg = ch.event) ∨
    (ch.idx = .chDeleted ∧ ch.listenEvents = 0 ∧ reg = none)

theorem Channel.event_of_ne (h : ch.listenEvents ≠ 0) :
    ch.event = some ⟨ch.listenEvents ||| epollEt ||| epollRdhup, ch.addr⟩ := by
  unfold Channel.event
  rw [if_neg h]

theorem Channel.event_of_eq (h : ch.listenEvents = 0) : ch.event = none := by
  unfold Channel.event
  rw [if_pos h]

theorem Registered.reg_eq {reg : Option EpollEvent} (h : Registered ch reg) : reg = ch.event := by
  rcases h with ⟨-, -, h⟩ | ⟨-, h0, h⟩
  · exact h
  · rw [h, Channel.event_of_eq h0]

/-- `update` leaves the channels alone and issues one call. -/
theorem update_channels (op : CtlOp) :
    (update s op fd ch stack).channels = s.channels ∧ (update s op fd ch stack).next = s.next := by
  unfold update
  cases epollCtl s.interest op fd (ch.event.getD stack) with
  | none => exact ⟨rfl, rfl⟩
  | some interest => exact ⟨rfl, rfl⟩

theorem update_issued (s : State) (op : CtlOp) (fd : ℕ) (ch : Channel) (stack : EpollEvent) :
    ∃ ok, (update s op fd ch stack).issued = s.issued ++ [⟨op, fd, ch.event, ok⟩] := by
  unfold update
  cases epollCtl s.interest op fd (ch.event.getD stack) with
  | none => exact ⟨false, rfl⟩
  | some interest => exact ⟨true, rfl⟩

theorem update_add (h : s.interest fd = none) :
    update s .add fd ch stack =
      { s with
        interest := Function.update s.interest fd (some (ch.event.getD stack))
        issued := s.issued ++ [⟨.add, fd, ch.event, true⟩] } := by
  unfold update epollCtl
  rw [h]

theorem update_mod (h : (s.interest fd).isSome) :
    update s .mod fd ch stack =
      { s with
        interest := Function.update s.interest fd (some (ch.event.getD stack))
        issued := s.issued ++ [⟨.mod, fd, ch.event, true⟩] } := by
  obtain ⟨ev, hev⟩ := Option.isSome_iff_exists.mp h
  unfold update epollCtl
  rw [hev]

theorem update_del (h : (s.interest fd).isSome) :
    update s .del fd ch stack =
      { s with
        interest := Function.update s.interest fd none
        issued := s.issued ++ [⟨.del, fd, ch.event, true⟩] } := by
  obtain ⟨ev, hev⟩ := Option.isSome_iff_exists.mp h
  unfold update epollCtl
  rw [hev]

/-! ### One step -/

/-- What a step does: it makes a channel, ties one, or one call goes through `updateChannel`. -/
theorem step_cases {a : Action} (h : step s a = some s') :
    (∃ fd, a = .addChannel fd ∧ s' = addChannel s fd) ∨
    (∃ fd ch, a = .tie fd ∧ s.channels fd = some ch ∧
      s' = s.setChannel fd { ch with tied := true }) ∨
    (∃ fd f stack ch, a = .call fd f stack ∧ s.channels fd = some ch ∧
      updateChannel s fd { ch with listenEvents := f.listen ch.listenEvents } stack = some s') := by
  cases a with
  | addChannel fd => exact .inl ⟨fd, rfl, (Option.some.inj h).symm⟩
  | tie fd =>
    obtain ⟨ch, hch, hs'⟩ := Option.map_eq_some_iff.mp h
    exact .inr (.inl ⟨fd, ch, rfl, hch, hs'.symm⟩)
  | call fd f stack =>
    obtain ⟨ch, hch, hs'⟩ := Option.bind_eq_some_iff.mp h
    exact .inr (.inr ⟨fd, f, stack, ch, rfl, hch, hs'⟩)

/-- Whatever `updateChannel` picks, it sets the channel of the descriptor, with its address and events
as they are, and issues one call with the channel's event. -/
theorem updateChannel_frame (h : updateChannel s fd ch stack = some s') :
    ∃ ch' op ok, ch'.addr = ch.addr ∧ ch'.listenEvents = ch.listenEvents ∧
      s'.channels = Function.update s.channels fd (some ch') ∧ s'.next = s.next ∧
      s'.issued = s.issued ++ [⟨op, fd, ch.event, ok⟩] := by
  have key : ∀ (ch' : Channel) (op : CtlOp), ch'.addr = ch.addr →
      ch'.listenEvents = ch.listenEvents → s' = update (s.setChannel fd ch') op fd ch' stack →
      ∃ ch' op ok, ch'.addr = ch.addr ∧ ch'.listenEvents = ch.listenEvents ∧
        s'.channels = Function.update s.channels fd (some ch') ∧ s'.next = s.next ∧
        s'.issued = s.issued ++ [⟨op, fd, ch.event, ok⟩] := by
    intro ch' op ha hl hs'
    obtain ⟨ok, hok⟩ := update_issued (s.setChannel fd ch') op fd ch' stack
    have hev : ch'.event = ch.event := by
      unfold Channel.event
      rw [ha, hl]
    rw [hs']
    refine ⟨ch', op, ok, ha, hl, (update_channels op).1, (update_channels op).2, ?_⟩
    rw [hok, hev]
    rfl
  unfold updateChannel at h
  cases hidx : ch.idx with
  | chExtern =>
    rw [hidx] at h
    exact absurd h (by simp)
  | chDeleted =>
    rw [hidx] at h
    exact key { ch with idx := .chAdded } .add rfl rfl (Option.some.inj h).symm
  | chAdded =>
    rw [hidx] at h
    by_cases h0 : ch.listenEvents = 0
    · simp only [if_pos h0] at h
      exact key { ch with idx := .chDeleted, tied := false } .del rfl rfl (Option.some.inj h).symm
    · simp only [if_neg h0] at h
      exact key ch .mod rfl rfl (Option.some.inj h).symm

/-- What `updateChannel` does when a channel whose `idx` tells the truth is to listen for `m`, and that
does not leave at zero what was zero: the call succeeds, and `idx` tells the truth again. -/
theorem updateChannel_registered {m : Mask} (hreg : Registered ch (s.interest fd))
    (hlive : ch.listenEvents = 0 → m ≠ 0)
    (h : updateChannel s fd { ch with listenEvents := m } stack = some s') :
    ∃ ch' op, ch'.addr = ch.addr ∧ Registered ch' ch'.event ∧
      (op ≠ CtlOp.del → ch'.event ≠ none) ∧
      s'.channels = Function.update s.channels fd (some ch') ∧
      s'.interest = Function.update s.interest fd ch'.event ∧
      s'.issued = s.issued ++ [⟨op, fd, ch'.event, true⟩] := by
  unfold updateChannel at h
  rcases hreg with ⟨hidx, hold, hint⟩ | ⟨hidx, hold, hint⟩
  · have hsome : (s.interest fd).isSome := by
      rw [hint, Channel.event_of_ne hold]
      rfl
    by_cases h0 : m = 0
    · -- the descriptor is in the set and leaves it
      simp only [hidx, if_pos h0] at h
      have hev : (⟨ch.addr, .chDeleted, m, false⟩ : Channel).event = none := Channel.event_of_eq h0
      refine ⟨⟨ch.addr, .chDeleted, m, false⟩, .del, rfl, .inr ⟨rfl, h0, hev⟩,
        fun hne => absurd rfl hne, ?_⟩
      rw [← Option.some.inj h, update_del (s := s.setChannel fd _) hsome, hev]
      exact ⟨rfl, rfl, rfl⟩
    · simp only [hidx, if_neg h0] at h
      have hev : (⟨ch.addr, .chAdded, m, ch.tied⟩ : Channel).event = _ := Channel.event_of_ne h0
      refine ⟨⟨ch.addr, .chAdded, m, ch.tied⟩, .mod, rfl, .inl ⟨rfl, h0, rfl⟩,
        fun _ => by simp [hev], ?_⟩
      rw [← Option.some.inj h, update_mod (s := s.setChannel fd _) hsome, hev]
      exact ⟨rfl, rfl, rfl⟩
  · have h0 : m ≠ 0 := hlive hold
    simp only [hidx] at h
    have hev : (⟨ch.addr, .chAdded, m, ch.tied⟩ : Channel).event = _ := Channel.event_of_ne h0
    refine ⟨⟨ch.addr, .chAdded, m, ch.tied⟩, .add, rfl, .inl ⟨rfl, h0, rfl⟩,
      fun _ => by simp [hev], ?_⟩
    rw [← Option.some.inj h, update_add (s := s.setChannel fd _) hint, hev]
    exact ⟨rfl, rfl, rfl⟩

/-! ### The invariant -/

/-- What holds in every state of a run whose calls are `Live`. -/
structure Inv (s : State) : Prop where
  registered : ∀ fd ch, s.channels fd = some ch → Registered ch (s.interest fd)
  absent : ∀ fd, s.channels fd = none → s.interest fd = none
  fresh : ∀ fd ch, s.channels fd = some ch → ch.addr < s.next
  apart : ∀ fd ch fd' ch', s.channels fd = some ch → s.channels fd' = some ch' →
    ch'.addr = ch.addr → fd' = fd
  initialised : ∀ c ∈ s.issued, c.op ≠ .del → c.event ≠ none
  succeeds : ∀ c ∈ s.issued, c.ok

theorem inv_init : Inv init where
  registered := fun fd ch h => absurd h (by simp [init])
  absent := fun _ _ => rfl
  fresh := fun fd ch h => absurd h (by simp [init])
  apart := fun fd ch _ _ h => absurd h (by simp [init])
  initialised := fun c hc => absurd hc (by simp [init])
  succeeds := fun c hc => absurd hc (by simp [init])

theorem Inv.mirrors (h : Inv s) : Mirrors s where
  present := by
    intro fd ch hch
    rcases h.registered fd ch hch with ⟨-, hne, hint⟩ | ⟨-, h0, hint⟩
    · rw [hint, Channel.event_of_ne hne]
      exact ⟨fun _ => hne, fun _ => rfl⟩
    · rw [hint, h0]
      exact ⟨fun hs => absurd hs (by simp), fun hs => absurd rfl hs⟩
  events := by
    intro fd ch ev hch hev
    rw [(h.registered fd ch hch).reg_eq] at hev
    by_cases h0 : ch.listenEvents = 0
    · rw [Channel.event_of_eq h0] at hev
      exact absurd hev (by simp)
    · rw [Channel.event_of_ne h0] at hev
      rw [← Option.some.inj hev]
  data := by
    intro fd ch ev hch hev
    rw [(h.registered fd ch hch).reg_eq] at hev
    by_cases h0 : ch.listenEvents = 0
    · rw [Channel.event_of_eq h0] at hev
      exact absurd hev (by simp)
    · rw [Channel.event_of_ne h0] at hev
      have haddr : ev.data = ch.addr := by rw [← Option.some.inj hev]
      refine ⟨haddr, fun fd' ch' hch' hd => h.apart fd ch fd' ch' hch hch' ?_⟩
      rw [hd, haddr]
  initialised := h.initialised
  succeeds := h.succeeds

/-- Setting the channel of a descriptor that has one, at the same address. -/
theorem Inv.setChannel {ch' : Channel} (h : Inv s) (hch : s.channels fd = some ch)
    (haddr : ch'.addr = ch.addr) (hreg : Registered ch' (s'.interest fd))
    (hchannels : s'.channels = Function.update s.channels fd (some ch'))
    (hinterest : ∀ fd', fd' ≠ fd → s'.interest fd' = s.interest fd') (hnext : s'.next = s.next)
    (hinit : ∀ c ∈ s'.issued, c.op ≠ .del → c.event ≠ none) (hok : ∀ c ∈ s'.issued, c.ok) :
    Inv s' := by
  -- the channels of `s'` are those of `s`, up to what is kept apart from the address
  have hold : ∀ fd₁ ch₁, s'.channels fd₁ = some ch₁ →
      ∃ ch₀, s.channels fd₁ = some ch₀ ∧ ch₁.addr = ch₀.addr := by
    intro fd₁ ch₁ h₁
    rw [hchannels] at h₁
    by_cases hfd : fd₁ = fd
    · subst hfd
      rw [Function.update_self, Option.some.injEq] at h₁
      exact ⟨ch, hch, h₁ ▸ haddr⟩
    · rw [Function.update_of_ne hfd] at h₁
      exact ⟨ch₁, h₁, rfl⟩
  refine ⟨?_, ?_, ?_, ?_, hinit, hok⟩
  · intro fd₁ ch₁ h₁
    by_cases hfd : fd₁ = fd
    · subst hfd
      rw [hchannels, Function.update_self, Option.some.injEq] at h₁
      exact h₁ ▸ hreg
    · rw [hchannels, Function.update_of_ne hfd] at h₁
      rw [hinterest fd₁ hfd]
      exact h.registered fd₁ ch₁ h₁
  · intro fd₁ h₁
    by_cases hfd : fd₁ = fd
    · subst hfd
      rw [hchannels, Function.update_self] at h₁
      exact absurd h₁ (by simp)
    · rw [hchannels, Function.update_of_ne hfd] at h₁
      rw [hinterest fd₁ hfd]
      exact h.absent fd₁ h₁
  · intro fd₁ ch₁ h₁
    obtain ⟨ch₀, h₀, ha⟩ := hold fd₁ ch₁ h₁
    rw [ha, hnext]
    exact h.fresh fd₁ ch₀ h₀
  · intro fd₁ ch₁ fd₂ ch₂ h₁ h₂ ha
    obtain ⟨c₁, hc₁, ha₁⟩ := hold fd₁ ch₁ h₁
    obtain ⟨c₂, hc₂, ha₂⟩ := hold fd₂ ch₂ h₂
    exact h.apart fd₁ c₁ fd₂ c₂ hc₁ hc₂ (by rw [← ha₁, ← ha₂, ha])

theorem Inv.addChannel (h : Inv s) (fd : ℕ) : Inv (addChannel s fd) := by
  unfold Poll.addChannel
  cases hfd : s.channels fd with
  | some ch => exact h
  | none =>
    have hget : ∀ fd₁ ch₁,
        Function.update s.channels fd (some ⟨s.next, .chDeleted, 0, false⟩) fd₁ = some ch₁ →
        (fd₁ = fd ∧ ch₁ = ⟨s.next, .chDeleted, 0, false⟩) ∨ s.channels fd₁ = some ch₁ := by
      intro fd₁ ch₁ h₁
      by_cases hne : fd₁ = fd
      · rw [hne, Function.update_self] at h₁
        exact .inl ⟨hne, (Option.some.inj h₁).symm⟩
      · rw [Function.update_of_ne hne] at h₁
        exact .inr h₁
    refine ⟨?_, ?_, ?_, ?_, h.initialised, h.succeeds⟩
    · intro fd₁ ch₁ h₁
      rcases hget fd₁ ch₁ h₁ with ⟨rfl, rfl⟩ | h₁
      · exact .inr ⟨rfl, rfl, h.absent fd₁ hfd⟩
      · exact h.registered fd₁ ch₁ h₁
    · intro fd₁ h₁
      by_cases hne : fd₁ = fd
      · exact hne ▸ h.absent fd hfd
      · have hsame := Function.update_of_ne hne (some ⟨s.next, .chDeleted, 0, false⟩) s.channels
        exact h.absent fd₁ (hsame ▸ h₁)
    · intro fd₁ ch₁ h₁
      rcases hget fd₁ ch₁ h₁ with ⟨-, rfl⟩ | h₁
      · exact Nat.lt_succ_self s.next
      · exact Nat.lt_succ_of_lt (h.fresh fd₁ ch₁ h₁)
    · intro fd₁ ch₁ fd₂ ch₂ h₁ h₂ ha
      rcases hget fd₁ ch₁ h₁ with ⟨hfd₁, hch₁⟩ | hold₁
      · rcases hget fd₂ ch₂ h₂ with ⟨hfd₂, -⟩ | hold₂
        · rw [hfd₁, hfd₂]
        · rw [hch₁] at ha
          exact absurd ha (h.fresh fd₂ ch₂ hold₂).ne
      · rcases hget fd₂ ch₂ h₂ with ⟨-, hch₂⟩ | hold₂
        · rw [hch₂] at ha
          exact absurd ha.symm (h.fresh fd₁ ch₁ hold₁).ne
        · exact h.apart fd₁ ch₁ fd₂ ch₂ hold₁ hold₂ ha

/-- A call leaves some event for the kernel in every ADD and MOD, as every one before did. -/
theorem issued_append {P : Ctl → Prop} {c : Ctl} (hs : ∀ c ∈ s.issued, P c) (hc : P c)
    (h : s'.issued = s.issued ++ [c]) : ∀ c ∈ s'.issued, P c := by
  intro c' hc'
  rw [h, List.mem_append, List.mem_singleton] at hc'
  rcases hc' with hc' | rfl
  · exact hs c' hc'
  · exact hc

theorem step_inv {a : Action} (h : Inv s) (hlive : Live s a) (hstep : step s a = some s') :
    Inv s' := by
  rcases step_cases hstep with ⟨fd, rfl, rfl⟩ | ⟨fd, ch, rfl, hch, rfl⟩ | ⟨fd, f, stack, ch, rfl, hch, hu⟩
  · exact h.addChannel fd
  · have hreg : Registered { ch with tied := true } (s.interest fd) := h.registered fd ch hch
    have haddr : ({ ch with tied := true } : Channel).addr = ch.addr := rfl
    exact h.setChannel hch haddr hreg rfl (fun _ _ => rfl) rfl h.initialised h.succeeds
  · obtain ⟨ch', op, haddr, hreg, hinit, hchannels, hinterest, hissued⟩ :=
      updateChannel_registered (h.registered fd ch hch) (hlive ch hch) hu
    obtain ⟨-, -, -, -, -, -, hnext, -⟩ := updateChannel_frame hu
    refine h.setChannel hch haddr ?_ hchannels ?_ hnext
      (issued_append h.initialised hinit hissued) (issued_append h.succeeds rfl hissued)
    · rw [hinterest, Function.update_self]
      exact hreg
    · intro fd' hne
      rw [hinterest, Function.update_of_ne hne]

/-! ### The condition is needed -/

/-- A call that leaves zero what was zero adds the descriptor with an event nobody filled in. -/
theorem live_of_mirrors {a : Action} (h : Inv s) (hstep : step s a = some s') (hm : Mirrors s') :
    Live s a := by
  cases a with
  | addChannel fd => trivial
  | tie fd => trivial
  | call fd f stack =>
    intro ch hch hold hnew
    obtain ⟨ch₀, hch₀, hu⟩ := Option.bind_eq_some_iff.mp hstep
    rw [hch, Option.some.injEq] at hch₀
    subst hch₀
    obtain ⟨hidx, -, hint⟩ : ch.idx = .chDeleted ∧ ch.listenEvents = 0 ∧ s.interest fd = none := by
      rcases h.registered fd ch hch with ⟨-, hne, -⟩ | hdel
      · exact absurd hold hne
      · exact hdel
    unfold updateChannel at hu
    simp only [hidx] at hu
    rw [← Option.some.inj hu, update_add (s := s.setChannel fd _) hint] at hm
    have hev := hm.initialised ⟨.add, fd, _, true⟩ (List.mem_append_right _ List.mem_cons_self)
      (by simp)
    exact hev (Channel.event_of_eq hnew)

/-! ### Whole runs -/

/-- A call carries a filled event exactly when it leaves the channel listening for something. -/
theorem leavesSome_iff {a : Action} (hs : ∀ c ∈ s.issued, c.event ≠ none)
    (hstep : step s a = some s') : LeavesSome s a ↔ ∀ c ∈ s'.issued, c.event ≠ none := by
  cases a with
  | addChannel fd =>
    have hissued : s'.issued = s.issued := by
      rw [← Option.some.inj hstep]
      show (addChannel s fd).issued = s.issued
      unfold addChannel
      cases s.channels fd <;> rfl
    rw [hissued]
    exact ⟨fun _ => hs, fun _ => trivial⟩
  | tie fd =>
    obtain ⟨ch, -, hs'⟩ := Option.map_eq_some_iff.mp hstep
    rw [← hs']
    exact ⟨fun _ => hs, fun _ => trivial⟩
  | call fd f stack =>
    obtain ⟨ch, hch, hu⟩ := Option.bind_eq_some_iff.mp hstep
    obtain ⟨-, op, ok, -, -, -, -, hissued⟩ := updateChannel_frame hu
    constructor
    · intro hleaves
      refine issued_append hs ?_ hissued
      rw [Channel.event_of_ne (hleaves ch hch)]
      exact Option.some_ne_none _
    · intro hall ch₀ hch₀ h0
      rw [hch, Option.some.injEq] at hch₀
      subst hch₀
      have hmem : ⟨op, fd, ({ ch with listenEvents := f.listen ch.listenEvents } : Channel).event, ok⟩
          ∈ s'.issued := by
        rw [hissued]
        exact List.mem_append_right _ List.mem_cons_self
      exact hall _ hmem (Channel.event_of_eq h0)

/-- **The interest set mirrors the channels** throughout a run exactly when no call leaves at zero a
`listen_events` that was zero.  Every `epoll_ctl` of the run carries a filled event, a DEL's included,
exactly when no call leaves `listen_events` zero. -/
theorem interest_mirrors_channels {as : List Action} (h : run step init as = some s) :
    (Along step Live init as ↔ Throughout step Mirrors init as) ∧
      (Along step LeavesSome init as ↔
        Throughout step (fun t => ∀ c ∈ t.issued, c.event ≠ none) init as) := by
  refine ⟨?_, ?_⟩
  · refine along_iff_throughout Live Inv Mirrors ?_ ?_ inv_init inv_init.mirrors h
    · intro t a t' hI hlive ht
      have hI' := step_inv hI hlive ht
      exact ⟨hI', hI'.mirrors⟩
    · intro t a t' hI ht hm
      exact live_of_mirrors hI ht hm
  · refine along_iff_throughout LeavesSome (fun t => ∀ c ∈ t.issued, c.event ≠ none) _ ?_ ?_ ?_ ?_ h
    · intro t a t' hI hleaves ht
      exact ⟨(leavesSome_iff hI ht).mp hleaves, (leavesSome_iff hI ht).mp hleaves⟩
    · intro t a t' hI ht hall
      exact (leavesSome_iff hI ht).mpr hall
    · exact fun c hc => absurd hc (by simp [init])
    · exact fun c hc => absurd hc (by simp [init])

/-- A channel that is taken out of the interest set and enabled again afterwards. -/
theorem interest_mirrors_channels_reenabled :
    Throughout step Mirrors init
      [.addChannel 3, .call 3 .enableRead ⟨0, 0⟩, .call 3 .enableWrite ⟨0, 0⟩,
        .call 3 .disableWrite ⟨0, 0⟩, .call 3 .disableRead ⟨0, 0⟩,
        .call 3 .enableWrite ⟨0, 0⟩] :=
  (interest_mirrors_channels rfl).1.mp (by decide)

/-- A channel that reads is stopped, and later disabled altogether: the second call puts its descriptor
back into the interest set, with whatever the stack held. -/
theorem disabled_twice_added :
    ∃ s ch, run step init [.addChannel 3, .call 3 .enableRead ⟨0, 0⟩,
        .call 3 .disableRead ⟨0, 0⟩, .call 3 .disableAll ⟨7, 99⟩] = some s ∧
      s.channels 3 = some ch ∧ ch.listenEvents = 0 ∧ ch.addr = 0 ∧
      s.interest 3 = some ⟨7, 99⟩ ∧ (⟨.add, 3, none, true⟩ : Ctl) ∈ s.issued ∧ ¬ Mirrors s := by
  refine ⟨_, ⟨0, .chAdded, 0, false⟩, rfl, rfl, rfl, rfl, rfl, by decide, fun hm => ?_⟩
  exact (hm.present 3 ⟨0, .chAdded, 0, false⟩ rfl).mp rfl rfl

end KwNet.Poll
