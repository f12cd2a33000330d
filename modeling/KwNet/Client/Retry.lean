import KwNet.Lib.Run
import KwNet.Client.Connector

/-!
# `channel_` between two attempts

An attempt that is refused at once never had a channel; one that succeeds hands its channel over.  Every
other way out leaves `channel_` set: `retry` deletes the `Channel` without resetting the pointer, a success
that finds `connect_` false closes the descriptor only, a failed handshake does nothing.

* `Ready` — what an attempt relies on when it starts: no assertion has failed, `channel_` is null then and
  while no attempt is in flight, and it never refers to a deleted `Channel`;
* `HandedOver` — the step does not end an attempt that has its channel in another way than by handing it
  over, and starts none in its midst;
* **`connector_ready`** — `Ready` holds throughout exactly the runs of such steps;
* **`stopped_attempt_dangles`** — a connector that is stopped while it is connecting.
-/

namespace KwNet.Connector

open KwNet.Lib

variable {tls : Bool} {s s' : State}

/-- An attempt is in flight: its outcome is awaited, or its handshake goes on. -/
def State.InFlight (s : State) : Prop := s.state = .connecting ∨ s.handshaking = true

/-- What an attempt relies on when it starts, and `~Connector`. -/
structure Ready (s : State) : Prop where
  asserts : s.assertFailed = false
  null : s.calling = true ∨ ¬s.InFlight → s.channel = none
  alive : ∀ fd, s.channel = some fd → s.channels fd ≠ some false

/-- The step neither ends an attempt that has its channel in another way than by handing it over, nor
starts one in its midst. -/
def HandedOver (s : State) : Action → Prop
  | .restart => s.channel = none
  | .startFunctor => s.state = .disconnected
  | .stopFunctor => s.state ≠ .connecting
  | .timer _ => s.state = .disconnected
  | .callConnect _ errno => errno.branch = .established → s.connect = true
  | .out _ failed selfConnect =>
    s.state = .connecting → failed = false ∧ selfConnect = false ∧ s.connect = true
  | .err _ => s.state ≠ .connecting
  | .handshake ok => ok = true
  | _ => True

instance (s : State) : (a : Action) → Decidable (HandedOver s a)
  | .restart => inferInstanceAs (Decidable (s.channel = none))
  | .startFunctor => inferInstanceAs (Decidable (s.state = .disconnected))
  | .stopFunctor => inferInstanceAs (Decidable (s.state ≠ .connecting))
  | .timer _ => inferInstanceAs (Decidable (s.state = .disconnected))
  | .callConnect _ errno => inferInstanceAs (Decidable (errno.branch = .established → s.connect = true))
  | .out _ failed selfConnect => inferInstanceAs
      (Decidable (s.state = .connecting → failed = false ∧ selfConnect = false ∧ s.connect = true))
  | .err _ => inferInstanceAs (Decidable (s.state ≠ .connecting))
  | .handshake ok => inferInstanceAs (Decidable (ok = true))
  | .start _ => .isTrue trivial
  | .stop => .isTrue trivial
  | .connectionClosed _ => .isTrue trivial

/-- What holds between the steps: where the connector stands decides whether it has a channel. -/
structure Inv (s : State) : Prop where
  asserts : s.assertFailed = false
  alive : ∀ fd, s.channels fd ≠ some false
  /-- Disconnected: no channel. -/
  disconnected : s.state = .disconnected → s.channel = none ∧ s.handshaking = false
  /-- Connecting: one channel. -/
  connecting : s.state = .connecting → s.channel.isSome = true ∧ s.handshaking = false
  /-- Connected: a channel exactly while the handshake goes on. -/
  connected : s.state = .connected → (s.channel.isSome = true ↔ s.handshaking = true)
  /-- An attempt starts in state `Disconnected`. -/
  calling : s.calling = true → s.state = .disconnected

theorem Inv.ready (h : Inv s) : Ready s := by
  refine ⟨h.asserts, fun hidle => ?_, fun fd _ => h.alive fd⟩
  cases hst : s.state with
  | disconnected => exact (h.disconnected hst).1
  | connecting =>
    obtain hcalling | hnot := hidle
    · rw [h.calling hcalling] at hst
      cases hst
    · exact absurd (.inl hst) hnot
  | connected =>
    obtain hcalling | hnot := hidle
    · rw [h.calling hcalling] at hst
      cases hst
    · rw [← Option.not_isSome_iff_eq_none, h.connected hst]
      exact fun hhand => hnot (.inr hhand)

/-! ### the pieces -/

/-- Only fields the invariant does not speak of change. -/
theorem Inv.of_eq (h : Inv s) (hassert : s'.assertFailed = s.assertFailed)
    (hchannels : s'.channels = s.channels) (hstate : s'.state = s.state)
    (hchannel : s'.channel = s.channel) (hhand : s'.handshaking = s.handshaking)
    (hcalling : s'.calling = s.calling) : Inv s' := by
  constructor
  · rw [hassert]
    exact h.asserts
  · rw [hchannels]
    exact h.alive
  · rw [hstate, hchannel, hhand]
    exact h.disconnected
  · rw [hstate, hchannel, hhand]
    exact h.connecting
  · rw [hstate, hchannel, hhand]
    exact h.connected
  · rw [hcalling, hstate]
    exact h.calling

/-- In state `Disconnected` there is nothing else to say. -/
theorem inv_disconnected (hassert : s.assertFailed = false) (halive : ∀ fd, s.channels fd ≠ some false)
    (hstate : s.state = .disconnected) (hchannel : s.channel = none) (hhand : s.handshaking = false) :
    Inv s := by
  refine ⟨hassert, halive, fun _ => ⟨hchannel, hhand⟩, fun hc => ?_, fun hc => ?_, fun _ => hstate⟩
  · rw [hstate] at hc
    cases hc
  · rw [hstate] at hc
    cases hc

/-- `add_channel` makes a channel that is alive or finds one. -/
theorem addChannel_alive (hs : ∀ fd, s.channels fd ≠ some false) (serverfd fd : ℕ) :
    (s.addChannel serverfd).channels fd ≠ some false := by
  unfold State.addChannel
  cases hfd : s.channels serverfd with
  | some b => exact hs fd
  | none =>
    by_cases heq : fd = serverfd
    · rw [heq]
      show Function.update s.channels serverfd (some true) serverfd ≠ some false
      rw [Function.update_self]
      decide
    · show Function.update s.channels serverfd (some true) fd ≠ some false
      rw [Function.update_of_ne heq]
      exact hs fd

theorem assert_true (s : State) {p : Bool} (hp : p = true) : s.assert p = s := by
  rw [State.assert, if_pos hp]

theorem assert_false (s : State) {p : Bool} (hp : ¬p = true) : (s.assert p).assertFailed = true := by
  rw [State.assert, if_neg hp]

/-- `startInLoop` in state `Disconnected`. -/
theorem startInLoop_inv (hassert : s.assertFailed = false) (halive : ∀ fd, s.channels fd ≠ some false)
    (hstate : s.state = .disconnected) (hchannel : s.channel = none) (hhand : s.handshaking = false) :
    Inv s.startInLoop := by
  unfold State.startInLoop
  rw [assert_true s (decide_eq_true hstate)]
  by_cases hconnect : s.connect = true
  · rw [if_pos hconnect]
    exact inv_disconnected hassert halive hstate hchannel hhand
  · rw [if_neg hconnect]
    exact inv_disconnected hassert halive hstate hchannel hhand

/-- In another state its assertion fails. -/
theorem startInLoop_fails (hstate : s.state ≠ .disconnected) : s.startInLoop.assertFailed = true := by
  have hfail := assert_false s (p := decide (s.state = .disconnected)) (by simpa using hstate)
  unfold State.startInLoop
  by_cases hconnect : (s.assert (decide (s.state = .disconnected))).connect = true
  · rw [if_pos hconnect]
    exact hfail
  · rw [if_neg hconnect]
    exact hfail

/-- A success that finds `connect_` set hands the channel over, or starts the handshake on it. -/
theorem established_inv {fd : ℕ} (hassert : s.assertFailed = false)
    (halive : ∀ fd, s.channels fd ≠ some false) (hchannel : s.channel = some fd)
    (hhand : s.handshaking = false) (hcalling : s.calling = false) (hconnect : s.connect = true) :
    Inv (s.established tls fd) := by
  unfold State.established
  rw [if_pos (show ({ s with state := .connected } : State).connect = true from hconnect)]
  unfold State.newConnectionCallback
  cases tls with
  | true =>
    refine ⟨hassert, halive, fun hc => ?_, fun hc => ?_, fun _ => ?_, fun hc => ?_⟩
    · cases hc
    · cases hc
    · show s.channel.isSome = true ↔ true = true
      rw [hchannel]
      exact iff_of_true rfl rfl
    · exact absurd (hcalling.symm.trans hc) Bool.false_ne_true
  | false =>
    refine ⟨hassert, halive, fun hc => ?_, fun hc => ?_, fun _ => ?_, fun hc => ?_⟩
    · cases hc
    · cases hc
    · show (none : Option ℕ).isSome = true ↔ s.handshaking = true
      rw [hhand]
      decide
    · exact absurd (hcalling.symm.trans hc) Bool.false_ne_true

/-- A success that finds `connect_` false keeps the channel. -/
theorem established_late {fd : ℕ} (hchannel : s.channel = some fd) (hhand : s.handshaking = false)
    (hconnect : s.connect = false) : ¬Ready (s.established tls fd) := by
  intro hready
  unfold State.established at hready
  rw [if_neg (show ¬({ s with state := .connected } : State).connect = true by
    rw [show ({ s with state := .connected } : State).connect = s.connect from rfl, hconnect]
    decide)] at hready
  have hnull : s.channel = none := hready.null (.inr (by
    rintro (hc | hc)
    · cases hc
    · exact absurd (hhand.symm.trans hc) Bool.false_ne_true))
  rw [hchannel] at hnull
  cases hnull

/-- An attempt that is refused at once has no channel: `retry` only sets the timer. -/
theorem retry_inv {fd : ℕ} (hassert : s.assertFailed = false) (halive : ∀ fd, s.channels fd ≠ some false)
    (hchannel : s.channel = none) (hhand : s.handshaking = false) (h : s.retry fd = some s') :
    Inv s' := by
  have hdelete : ({ s.close fd with state := .disconnected } : State).deleteChannel
      = some { s.close fd with state := .disconnected } := by
    have hnone : ({ s.close fd with state := .disconnected } : State).channel = none := hchannel
    rw [State.deleteChannel, hnone]
  rw [State.retry, hdelete, Option.map_some, Option.some.injEq] at h
  rw [← h]
  by_cases hconnect : ({ s.close fd with state := .disconnected } : State).connect = true
  · rw [if_pos hconnect]
    exact inv_disconnected hassert halive rfl hchannel hhand
  · rw [if_neg hconnect]
    exact inv_disconnected hassert halive rfl hchannel hhand

/-- With a channel, `retry` leaves `channel_` pointing to what it has deleted. -/
theorem retry_dangles {fd fd' : ℕ} (hchannel : s.channel = some fd') (h : s.retry fd = some s') :
    ¬Ready s' := by
  obtain ⟨t, ht, rfl⟩ := Option.map_eq_some_iff.mp h
  have hsome : ({ s.close fd with state := .disconnected } : State).channel = some fd' := hchannel
  rw [State.deleteChannel, hsome] at ht
  rw [Option.ite_none_right_eq_some, Option.some.injEq] at ht
  obtain ⟨-, rfl⟩ := ht
  intro hready
  have hdeleted : Function.update s.channels fd' (some false) fd' = some false :=
    Function.update_self fd' _ _
  split at hready
  · exact hready.alive fd' rfl hdeleted
  · exact hready.alive fd' rfl hdeleted

/-! ### steps and runs -/

theorem callConnect_inv {serverfd : ℕ} {errno : Errno} (h : Inv s) (hcalling : s.calling = true)
    (hP : HandedOver s (.callConnect serverfd errno))
    (hs : s.callConnect tls serverfd errno = some s') : Inv s' := by
  have hstate := h.calling hcalling
  obtain ⟨hchannel, hhand⟩ := h.disconnected hstate
  let t := s.socket serverfd
  have hadd : ∀ fd, (t.addChannel serverfd).channels fd ≠ some false :=
    addChannel_alive (s := t) h.alive serverfd
  unfold State.callConnect at hs
  cases hb : errno.branch with
  | established =>
    simp only [hb] at hs
    rw [Option.ite_none_right_eq_some, Option.some.injEq] at hs
    rw [← hs.2]
    exact established_inv h.asserts hadd rfl hhand rfl (hP hb)
  | connecting =>
    simp only [hb] at hs
    rw [Option.ite_none_right_eq_some, Option.some.injEq] at hs
    rw [← hs.2]
    have hnull : t.channel.isNone = true := by
      rw [show t.channel = none from hchannel]
      rfl
    rw [State.connecting, assert_true (s.socket serverfd) hnull]
    refine ⟨h.asserts, addChannel_alive (s := { t with state := .connecting }) h.alive serverfd,
      fun hc => ?_, fun _ => ⟨rfl, hhand⟩, fun hc => ?_, fun hc => ?_⟩
    · cases hc
    · cases hc
    · cases hc
  | retry =>
    simp only [hb] at hs
    exact retry_inv (s := t) h.asserts h.alive hchannel hhand hs
  | close =>
    simp only [hb, Option.some.injEq] at hs
    rw [← hs]
    exact inv_disconnected h.asserts h.alive hstate hchannel hhand

theorem step_inv {a : Action} (h : Inv s) (hP : HandedOver s a) (hs : step tls s a = some s') :
    Inv s' := by
  cases a with
  | start inLoop =>
    rw [step, Option.ite_none_right_eq_some] at hs
    obtain ⟨⟨hstate, -⟩, hs⟩ := hs
    obtain ⟨hchannel, hhand⟩ := h.disconnected hstate
    cases inLoop with
    | true =>
      rw [if_pos rfl, Option.ite_none_left_eq_some, Option.some.injEq] at hs
      rw [← hs.2]
      exact startInLoop_inv h.asserts h.alive hstate hchannel hhand
    | false =>
      rw [if_neg Bool.false_ne_true, Option.some.injEq] at hs
      rw [← hs]
      exact h.of_eq rfl rfl rfl rfl rfl rfl
  | stop =>
    rw [step, Option.some.injEq] at hs
    rw [← hs]
    exact h.of_eq rfl rfl rfl rfl rfl rfl
  | restart =>
    have hchannel : s.channel = none := hP
    rw [step, Option.ite_none_left_eq_some, Option.some.injEq] at hs
    rw [← hs.2]
    have hhand : s.handshaking = false := by
      cases hst : s.state with
      | disconnected => exact (h.disconnected hst).2
      | connecting => exact (h.connecting hst).2
      | connected =>
        rw [← Bool.not_eq_true, ← h.connected hst, hchannel]
        decide
    exact startInLoop_inv h.asserts h.alive rfl hchannel hhand
  | startFunctor =>
    have hstate : s.state = .disconnected := hP
    rw [step, Option.ite_none_right_eq_some, Option.some.injEq] at hs
    rw [← hs.2]
    obtain ⟨hchannel, hhand⟩ := h.disconnected hstate
    exact startInLoop_inv h.asserts h.alive hstate hchannel hhand
  | stopFunctor =>
    rw [step, Option.ite_none_right_eq_some] at hs
    rw [State.stopInLoop, if_neg hP, Option.some.injEq] at hs
    rw [← hs.2]
    exact h.of_eq rfl rfl rfl rfl rfl rfl
  | timer i =>
    have hstate : s.state = .disconnected := hP
    rw [step, Option.ite_none_right_eq_some, Option.some.injEq] at hs
    rw [← hs.2]
    obtain ⟨hchannel, hhand⟩ := h.disconnected hstate
    exact startInLoop_inv h.asserts h.alive hstate hchannel hhand
  | callConnect serverfd errno =>
    rw [step, Option.ite_none_right_eq_some] at hs
    exact callConnect_inv h hs.1.1 hP hs.2
  | out fd failed selfConnect =>
    rw [step, Option.ite_none_right_eq_some] at hs
    obtain ⟨⟨hcalling, -⟩, hs⟩ := hs
    unfold State.checkWhetherConnected at hs
    cases hch : s.channel with
    | none =>
      rw [hch] at hs
      cases hs
    | some fd' =>
      rw [hch] at hs
      rw [Option.ite_none_right_eq_some] at hs
      obtain ⟨-, hs⟩ := hs
      by_cases hconnecting : s.state = .connecting
      · obtain ⟨rfl, rfl, hconnect⟩ := hP hconnecting
        rw [if_pos hconnecting, if_neg (by decide), Option.some.injEq] at hs
        rw [← hs]
        exact established_inv h.asserts h.alive hch (h.connecting hconnecting).2 hcalling hconnect
      · rw [if_neg hconnecting] at hs
        by_cases hhand : s.state = .connected ∧ s.handshaking = true
        · rw [if_pos hhand, Option.some.injEq] at hs
          exact hs ▸ h
        · -- a channel that is set belongs to an attempt
          exfalso
          cases hst : s.state with
          | disconnected =>
            rw [(h.disconnected hst).1] at hch
            cases hch
          | connecting => exact hconnecting hst
          | connected => exact hhand ⟨hst, (h.connected hst).mp (by rw [hch]; rfl)⟩
  | err fd =>
    rw [step, Option.ite_none_right_eq_some] at hs
    rw [State.handleErr, if_neg hP, Option.some.injEq] at hs
    exact hs.2 ▸ h
  | handshake ok =>
    obtain rfl : ok = true := hP
    rw [step, Option.ite_none_right_eq_some, if_pos rfl, Option.some.injEq] at hs
    obtain ⟨⟨-, hhand⟩, rfl⟩ := hs
    refine ⟨h.asserts, h.alive, fun _ => ⟨rfl, rfl⟩, fun hc => ?_, fun _ => ?_, h.calling⟩
    · exact absurd ((h.connecting hc).2.symm.trans hhand) Bool.false_ne_true
    · show (none : Option ℕ).isSome = true ↔ false = true
      decide
  | connectionClosed fd =>
    rw [step, Option.ite_none_right_eq_some, Option.some.injEq] at hs
    rw [← hs.2]
    exact h.of_eq rfl rfl rfl rfl rfl rfl

/-- A step to a state that is ready handed its attempt over. -/
theorem step_back {a : Action} (h : Inv s) (hs : step tls s a = some s') (hready : Ready s') :
    HandedOver s a := by
  cases a with
  | start inLoop => trivial
  | stop => trivial
  | connectionClosed fd => trivial
  | restart =>
    rw [step, Option.ite_none_left_eq_some, Option.some.injEq] at hs
    rw [← hs.2] at hready
    exact hready.null (.inl rfl)
  | startFunctor =>
    rw [step, Option.ite_none_right_eq_some, Option.some.injEq] at hs
    rw [← hs.2] at hready
    by_contra hstate
    have hfail := startInLoop_fails (s := { s with starts := s.starts - 1 }) hstate
    exact Bool.false_ne_true (hready.asserts.symm.trans hfail)
  | timer i =>
    rw [step, Option.ite_none_right_eq_some, Option.some.injEq] at hs
    rw [← hs.2] at hready
    by_contra hstate
    have hfail := startInLoop_fails (s := { s with timers := s.timers.eraseIdx i }) hstate
    exact Bool.false_ne_true (hready.asserts.symm.trans hfail)
  | stopFunctor =>
    intro hconnecting
    rw [step, Option.ite_none_right_eq_some] at hs
    obtain ⟨-, hs⟩ := hs
    rw [State.stopInLoop, if_pos hconnecting] at hs
    obtain ⟨fd, hch⟩ := Option.isSome_iff_exists.mp (h.connecting hconnecting).1
    rw [show ({ s with stops := s.stops - 1 } : State).channel = some fd from hch] at hs
    rw [Option.ite_none_right_eq_some] at hs
    exact retry_dangles rfl hs.2 hready
  | callConnect serverfd errno =>
    intro hb
    rw [step, Option.ite_none_right_eq_some] at hs
    obtain ⟨⟨hcalling, -⟩, hs⟩ := hs
    have hhand := (h.disconnected (h.calling hcalling)).2
    unfold State.callConnect at hs
    simp only [hb] at hs
    rw [Option.ite_none_right_eq_some, Option.some.injEq] at hs
    by_contra hconnect
    rw [← hs.2] at hready
    exact established_late (s := (s.socket serverfd).addChannel serverfd) rfl hhand
      (Bool.eq_false_iff.mpr hconnect) hready
  | out fd failed selfConnect =>
    intro hconnecting
    rw [step, Option.ite_none_right_eq_some] at hs
    obtain ⟨-, hs⟩ := hs
    obtain ⟨hsome, hhand⟩ := h.connecting hconnecting
    obtain ⟨fd', hch⟩ := Option.isSome_iff_exists.mp hsome
    unfold State.checkWhetherConnected at hs
    rw [hch] at hs
    rw [Option.ite_none_right_eq_some, if_pos hconnecting] at hs
    obtain ⟨-, hs⟩ := hs
    by_cases hfailed : (failed || selfConnect) = true
    · rw [if_pos hfailed] at hs
      exact absurd hready (retry_dangles hch hs)
    · rw [if_neg hfailed, Option.some.injEq] at hs
      rw [Bool.or_eq_true, not_or, Bool.not_eq_true, Bool.not_eq_true] at hfailed
      refine ⟨hfailed.1, hfailed.2, ?_⟩
      by_contra hconnect
      rw [← hs] at hready
      exact established_late hch hhand (Bool.eq_false_iff.mpr hconnect) hready
  | err fd =>
    intro hconnecting
    rw [step, Option.ite_none_right_eq_some] at hs
    obtain ⟨-, hs⟩ := hs
    rw [State.handleErr, if_pos hconnecting] at hs
    obtain ⟨fd', hch⟩ := Option.isSome_iff_exists.mp (h.connecting hconnecting).1
    rw [hch] at hs
    rw [Option.ite_none_right_eq_some] at hs
    exact retry_dangles hch hs.2 hready
  | handshake ok =>
    rw [step, Option.ite_none_right_eq_some, Option.some.injEq] at hs
    obtain ⟨⟨-, hhand⟩, rfl⟩ := hs
    show ok = true
    by_contra hok
    rw [if_neg hok] at hready
    have hst : s.state = .connected := by
      cases hst : s.state with
      | disconnected => exact absurd ((h.disconnected hst).2.symm.trans hhand) Bool.false_ne_true
      | connecting => exact absurd ((h.connecting hst).2.symm.trans hhand) Bool.false_ne_true
      | connected => rfl
    have hnull : s.channel = none := hready.null (.inr (by
      rintro (hc | hc)
      · exact absurd (hst.symm.trans hc) (by decide)
      · cases hc))
    have hsome := (h.connected hst).mpr hhand
    rw [hnull] at hsome
    cases hsome

theorem init_inv : Inv init :=
  inv_disconnected rfl (fun _ h => by cases h) rfl rfl rfl

/-- **The connector is ready for the next attempt.**  In a run, with or without TLS, over any answers of
`connect`, events, `SO_ERROR` and self-connect results, timers, `stop` and `restart`: no assertion fails,
`channel_` is null when an attempt starts and while none is in flight, and it never refers to a deleted
`Channel`, throughout the run, exactly when every attempt that has its channel ends by handing it over (a
handshake by succeeding), `startInLoop` is called in state `Disconnected` only, and `restart` only while
`channel_` is null. -/
theorem connector_ready (tls : Bool) {as : List Action} (h : run (step tls) init as = some s) :
    Along (step tls) HandedOver init as ↔ Throughout (step tls) Ready init as := by
  have hkeep : ∀ t a t', Inv t → HandedOver t a → step tls t a = some t' → Inv t' ∧ Ready t' := by
    intro t a t' hI hP ht
    have hI' := step_inv hI hP ht
    exact ⟨hI', hI'.ready⟩
  have hback : ∀ t a t', Inv t → step tls t a = some t' → Ready t' → HandedOver t a := by
    intro t a t' hI ht hready
    exact step_back hI ht hready
  exact along_iff_throughout HandedOver Inv Ready hkeep hback init_inv init_inv.ready h

/-- Refused once, retried, and established after a while; the connection closes and is made again. -/
def refusedThenEstablished : List Action :=
  [.start true, .callConnect 5 .econnrefused, .timer 0, .callConnect 5 .einprogress, .out 5 false false,
    .connectionClosed 5, .restart, .callConnect 5 .zero]

theorem connector_ready_restarted : Throughout (step false) Ready init refusedThenEstablished := by
  have hrun : (run (step false) init refusedThenEstablished).isSome = true := by decide
  obtain ⟨s, hs⟩ := Option.isSome_iff_exists.mp hrun
  exact (connector_ready false hs).mp (by decide)

/-- The connection is being made when `stop` is called. -/
def stoppedWhileConnecting : List Action :=
  [.start true, .callConnect 5 .einprogress, .stop, .stopFunctor]

/-- `retry` deletes the channel and leaves `channel_` pointing to it, in state `Disconnected`. -/
theorem stopped_attempt_dangles :
    ∃ s, run (step false) init stoppedWhileConnecting = some s ∧ s.state = .disconnected ∧
      ¬Ready s := by
  have hrun : (run (step false) init stoppedWhileConnecting).map (fun s => (s.state, s.channel, s.channels 5))
      = some (.disconnected, some 5, some false) := by
    decide
  obtain ⟨s, hs, hend⟩ := Option.map_eq_some_iff.mp hrun
  obtain ⟨hstate, hrest⟩ := Prod.mk.inj hend
  obtain ⟨hchannel, hdeleted⟩ := Prod.mk.inj hrest
  exact ⟨s, hs, hstate, fun hready => hready.alive 5 hchannel hdeleted⟩

end KwNet.Connector
