import KwNet.Client.Retry

/-!
# Each socket of the connector is closed once or handed over once

`connect` creates a socket for every attempt.  It is given to `newConnectionCallback_`, or closed: by the
connector itself, or by `~Channel` when `retry` deletes `channel_`.  `retry` does both.

* `State.uses` — how often a socket was closed or handed over;
* `Linear` — every socket was closed once or handed over once, but for the one whose outcome is awaited;
* **`descriptors_linear`** — `Linear` holds throughout exactly the runs in which `retry` never finds a
  channel that it must not delete, and no attempt is given up for another;
* **`stopped_attempt_closed_twice`** — a connector that is stopped while it is connecting.
-/

namespace KwNet.Connector

open KwNet.Lib

variable {tls : Bool} {s s' : State}

/-- How often the socket `id` was closed or handed over. -/
def State.uses (s : State) (id : ℕ) : ℕ := s.closed.count id + s.passed.count id

/-- The outcome of the socket `id` is awaited. -/
def State.Awaits (s : State) (id : ℕ) : Prop :=
  s.state = .connecting ∧ s.channel.map s.sock = some id

/-- Every socket was closed once or handed over once, but for the one whose outcome is awaited. -/
def Linear (s : State) : Prop :=
  ∀ id, id < s.created → s.uses id ≤ 1 ∧ (¬s.Awaits id → s.uses id = 1)

/-- `connect` may end in this branch: it gives up no attempt that is awaited, and `retry` finds no channel
but the one of such an attempt. -/
def State.MayCall (s : State) : Branch → Prop
  | .established => s.state ≠ .connecting
  | .connecting => s.state ≠ .connecting
  | .retry => s.channel = none ∨ s.state = .connecting
  | .close => True

instance (s : State) : (b : Branch) → Decidable (s.MayCall b)
  | .established => inferInstanceAs (Decidable (s.state ≠ .connecting))
  | .connecting => inferInstanceAs (Decidable (s.state ≠ .connecting))
  | .retry => inferInstanceAs (Decidable (s.channel = none ∨ s.state = .connecting))
  | .close => .isTrue trivial

/-- `retry` deletes no channel but that of an attempt it ends without closing its socket itself, and no
other step gives up an attempt for another. -/
def ClosesOnce (s : State) : Action → Prop
  | .restart => s.state ≠ .connecting
  | .stopFunctor => s.state ≠ .connecting
  | .callConnect _ errno => s.MayCall errno.branch
  | .out _ failed selfConnect => s.state = .connecting → failed = false ∧ selfConnect = false
  | .err _ => s.state ≠ .connecting
  | .handshake ok => ok = true → s.state ≠ .connecting
  | _ => True

instance (s : State) : (a : Action) → Decidable (ClosesOnce s a)
  | .restart => inferInstanceAs (Decidable (s.state ≠ .connecting))
  | .stopFunctor => inferInstanceAs (Decidable (s.state ≠ .connecting))
  | .callConnect _ errno => inferInstanceAs (Decidable (s.MayCall errno.branch))
  | .out _ failed selfConnect => inferInstanceAs
      (Decidable (s.state = .connecting → failed = false ∧ selfConnect = false))
  | .err _ => inferInstanceAs (Decidable (s.state ≠ .connecting))
  | .start _ => .isTrue trivial
  | .stop => .isTrue trivial
  | .startFunctor => .isTrue trivial
  | .timer _ => .isTrue trivial
  | .handshake ok => inferInstanceAs (Decidable (ok = true → s.state ≠ .connecting))
  | .connectionClosed _ => .isTrue trivial

/-- What holds between the steps. -/
structure Owned (s : State) : Prop where
  unborn : ∀ id, s.created ≤ id → s.uses id = 0
  known : ∀ fd, s.channel = some fd → s.sock fd < s.created
  resolved : ∀ id, id < s.created → ¬s.Awaits id → s.uses id = 1
  /-- While connecting, `channel_` is the open socket's, which nobody has closed or got. -/
  awaited : s.state = .connecting → ∃ fd, s.channel = some fd ∧ s.isOpen fd = true ∧
    s.callbacks fd = true ∧ s.uses (s.sock fd) = 0

theorem Owned.linear (h : Owned s) : Linear s := by
  intro id hid
  refine ⟨?_, h.resolved id hid⟩
  by_cases haw : s.Awaits id
  · obtain ⟨fd, hfd, -, -, hzero⟩ := h.awaited haw.1
    have hsock : s.sock fd = id := by
      have hmap := haw.2
      rw [hfd, Option.map_some, Option.some.injEq] at hmap
      exact hmap
    rw [← hsock, hzero]
    exact Nat.zero_le 1
  · rw [h.resolved id hid haw]

/-! ### the pieces -/

theorem not_awaits (hstate : s.state ≠ .connecting) (id : ℕ) : ¬s.Awaits id := fun haw => hstate haw.1

theorem awaits_iff {c : ℕ} (hstate : s.state = .connecting) (hch : s.channel = some c) (id : ℕ) :
    s.Awaits id ↔ s.sock c = id := by
  rw [State.Awaits, hch, Option.map_some, Option.some.injEq]
  exact ⟨fun h => h.2, fun h => ⟨hstate, h⟩⟩

/-- Only fields the invariant does not speak of change. -/
theorem Owned.of_eq (h : Owned s) (hclosed : s'.closed = s.closed) (hpassed : s'.passed = s.passed)
    (hcreated : s'.created = s.created) (hstate : s'.state = s.state) (hchannel : s'.channel = s.channel)
    (hsock : s'.sock = s.sock) (hopen : s'.isOpen = s.isOpen) (hcallbacks : s'.callbacks = s.callbacks) :
    Owned s' := by
  have huses : ∀ id, s'.uses id = s.uses id := by
    intro id
    rw [State.uses, hclosed, hpassed]
    rfl
  constructor
  · intro id hid
    rw [huses]
    exact h.unborn id (hcreated ▸ hid)
  · rw [hchannel, hsock, hcreated]
    exact h.known
  · intro id hid haw
    rw [huses]
    refine h.resolved id (hcreated ▸ hid) (fun hold => haw ?_)
    rw [State.Awaits, hstate, hchannel, hsock]
    exact hold
  · rw [hstate, hchannel, hopen, hcallbacks, hsock]
    intro hc
    obtain ⟨fd, h1, h2, h3, h4⟩ := h.awaited hc
    exact ⟨fd, h1, h2, h3, (huses _).trans h4⟩

theorem Owned.assert (h : Owned s) {p : Bool} : Owned (s.assert p) := by
  by_cases hp : p = true
  · rw [assert_true s hp]
    exact h
  · rw [State.assert, if_neg hp]
    exact h.of_eq rfl rfl rfl rfl rfl rfl rfl rfl

theorem Owned.startInLoop (h : Owned s) : Owned s.startInLoop := by
  unfold State.startInLoop
  by_cases hconnect : (s.assert (decide (s.state = .disconnected))).connect = true
  · rw [if_pos hconnect]
    exact h.assert.of_eq rfl rfl rfl rfl rfl rfl rfl rfl
  · rw [if_neg hconnect]
    exact h.assert

theorem uses_close (s : State) (fd id : ℕ) :
    (s.close fd).uses id = s.uses id + if s.sock fd = id then 1 else 0 := by
  show (s.closed ++ [s.sock fd]).count id + s.passed.count id = _
  rw [List.count_append, List.count_singleton, State.uses]
  simp only [beq_iff_eq]
  omega

/-- The socket of `fd` gets closed, or handed over. -/
theorem uses_established (s : State) (fd id : ℕ) :
    (s.established tls fd).uses id = s.uses id + if s.sock fd = id then 1 else 0 := by
  unfold State.established
  by_cases hconnect : s.connect = true
  · rw [if_pos (show ({ s with state := .connected } : State).connect = true from hconnect)]
    have hpassed : ∀ t : State, (∀ j, t.closed.count j = s.closed.count j) →
        t.passed = s.passed ++ [s.sock fd] → t.uses id = s.uses id + if s.sock fd = id then 1 else 0 := by
      intro t hclosed hp
      rw [State.uses, hclosed, hp, List.count_append, List.count_singleton, State.uses]
      simp only [beq_iff_eq]
      omega
    unfold State.newConnectionCallback
    cases tls with
    | true => exact hpassed _ (fun _ => rfl) rfl
    | false => exact hpassed _ (fun _ => rfl) rfl
  · rw [if_neg (show ¬({ s with state := .connected } : State).connect = true from hconnect)]
    exact uses_close { s with state := .connected } fd id

/-- The other fields after a success. -/
theorem established_fields (tls : Bool) (s : State) (fd : ℕ) :
    (s.established tls fd).state = .connected ∧ (s.established tls fd).created = s.created ∧
      (s.established tls fd).sock = s.sock ∧
      ∀ fd', (s.established tls fd).channel = some fd' → s.channel = some fd' := by
  unfold State.established
  by_cases hconnect : s.connect = true
  · rw [if_pos (show ({ s with state := .connected } : State).connect = true from hconnect)]
    unfold State.newConnectionCallback
    cases tls with
    | true => exact ⟨rfl, rfl, rfl, fun _ h => h⟩
    | false =>
      refine ⟨rfl, rfl, rfl, fun _ h => ?_⟩
      cases h
  · rw [if_neg (show ¬({ s with state := .connected } : State).connect = true from hconnect)]
    exact ⟨rfl, rfl, rfl, fun _ h => h⟩

/-- `connecting` resolves nothing. -/
theorem connecting_fields (s : State) (serverfd : ℕ) :
    (s.connecting serverfd).created = s.created ∧ (s.connecting serverfd).sock = s.sock ∧
      (s.connecting serverfd).isOpen = s.isOpen := by
  unfold State.connecting State.assert
  by_cases hnull : s.channel.isNone = true
  · rw [if_pos hnull]
    exact ⟨rfl, rfl, rfl⟩
  · rw [if_neg hnull]
    exact ⟨rfl, rfl, rfl⟩

theorem uses_connecting (s : State) (serverfd id : ℕ) : (s.connecting serverfd).uses id = s.uses id := by
  unfold State.connecting State.assert
  by_cases hnull : s.channel.isNone = true
  · rw [if_pos hnull]
    rfl
  · rw [if_neg hnull]
    rfl

/-- `retry` closes its descriptor, and the one of `channel_` when there is a channel. -/
theorem retry_fields {fd : ℕ} (h : s.retry fd = some s') :
    s'.state = .disconnected ∧ s'.created = s.created ∧ s'.sock = s.sock ∧ s'.channel = s.channel ∧
      s'.passed = s.passed ∧
      s'.closed = s.closed ++ s.sock fd :: (s.channel.map s.sock).toList := by
  obtain ⟨t, ht, rfl⟩ := Option.map_eq_some_iff.mp h
  have hfields : t.state = .disconnected ∧ t.created = s.created ∧ t.sock = s.sock ∧
      t.channel = s.channel ∧ t.passed = s.passed ∧
      t.closed = s.closed ++ s.sock fd :: (s.channel.map s.sock).toList := by
    unfold State.deleteChannel at ht
    cases hch : s.channel with
    | none =>
      rw [show ({ s.close fd with state := .disconnected } : State).channel = none from hch,
        Option.some.injEq] at ht
      rw [← ht]
      exact ⟨rfl, rfl, rfl, hch, rfl, rfl⟩
    | some c =>
      rw [show ({ s.close fd with state := .disconnected } : State).channel = some c from hch,
        Option.ite_none_right_eq_some, Option.some.injEq] at ht
      rw [← ht.2]
      refine ⟨rfl, rfl, rfl, rfl, rfl, ?_⟩
      show (s.closed ++ [s.sock fd]) ++ [s.sock c] = _
      rw [List.append_assoc]
      rfl
  split
  · exact hfields
  · exact hfields

theorem uses_retry {fd : ℕ} (h : s.retry fd = some s') (id : ℕ) :
    s'.uses id = s.uses id + (if s.sock fd = id then 1 else 0)
      + if s.channel.map s.sock = some id then 1 else 0 := by
  obtain ⟨-, -, -, -, hpassed, hclosed⟩ := retry_fields h
  rw [State.uses, hpassed, hclosed, List.count_append, List.count_cons, State.uses]
  cases hch : s.channel with
  | none =>
    simp only [Option.map_none, Option.toList_none, List.count_nil, beq_iff_eq, reduceCtorEq, if_false]
    omega
  | some c =>
    simp only [Option.map_some, Option.toList_some, List.count_singleton, beq_iff_eq, Option.some.injEq]
    omega

/-- Every socket but `id` was resolved, and `id` was not. -/
structure AllBut (s : State) (id : ℕ) : Prop where
  unborn : ∀ j, s.created ≤ j → s.uses j = 0
  known : ∀ fd, s.channel = some fd → s.sock fd < s.created
  born : id < s.created
  unused : s.uses id = 0
  others : ∀ j, j < s.created → j ≠ id → s.uses j = 1

/-- What is awaited is the one socket that was not resolved. -/
theorem Owned.allBut (h : Owned s) {fd : ℕ} (hstate : s.state = .connecting) (hch : s.channel = some fd) :
    AllBut s (s.sock fd) := by
  obtain ⟨fd', hfd', -, -, hzero⟩ := h.awaited hstate
  obtain rfl : fd = fd' := Option.some.inj (hch.symm.trans hfd')
  refine ⟨h.unborn, h.known, h.known fd hch, hzero, fun j hj hne => h.resolved j hj ?_⟩
  rw [awaits_iff hstate hch]
  exact fun heq => hne heq.symm

/-- A step that resolves the last socket. -/
theorem AllBut.owned {id : ℕ} (h : AllBut s id) (hstate : s'.state ≠ .connecting)
    (hcreated : s'.created = s.created) (hsock : s'.sock = s.sock)
    (hchannel : ∀ fd, s'.channel = some fd → s.channel = some fd)
    (huses : ∀ j, s'.uses j = s.uses j + if id = j then 1 else 0) : Owned s' := by
  refine ⟨fun j hj => ?_, fun fd hfd => ?_, fun j hj _ => ?_, fun hc => absurd hc hstate⟩
  · rw [hcreated] at hj
    have hborn := h.born
    rw [huses, h.unborn j hj, if_neg (by omega)]
  · rw [hsock, hcreated]
    exact h.known fd (hchannel fd hfd)
  · rw [hcreated] at hj
    by_cases heq : id = j
    · rw [huses, if_pos heq, ← heq, h.unused]
    · rw [huses, if_neg heq, h.others j hj (fun hne => heq hne.symm)]

theorem AllBut.established {fd : ℕ} (h : AllBut s (s.sock fd)) : Owned (s.established tls fd) := by
  obtain ⟨hstate, hcreated, hsock, hchannel⟩ := established_fields tls s fd
  refine h.owned ?_ hcreated hsock hchannel (uses_established s fd)
  rw [hstate]
  decide

/-- `retry` without a channel. -/
theorem AllBut.retry {fd : ℕ} (h : AllBut s (s.sock fd)) (hnone : s.channel = none)
    (hs : s.retry fd = some s') : Owned s' := by
  obtain ⟨hstate, hcreated, hsock, hchannel, -, -⟩ := retry_fields hs
  refine h.owned ?_ hcreated hsock (fun _ hfd => hchannel ▸ hfd) (fun j => ?_)
  · rw [hstate]
    decide
  · rw [uses_retry hs, hnone, Option.map_none]
    simp only [reduceCtorEq, if_false, add_zero]

/-- What two uses, or a socket that is given up, do to `Linear`. -/
theorem Linear.once {id : ℕ} (h : Linear s) (hid : id < s.created) : s.uses id < 2 :=
  Nat.lt_succ_of_le (h id hid).1

theorem Linear.kept {id : ℕ} (h : Linear s) (hid : id < s.created) (hzero : s.uses id = 0) :
    s.Awaits id := by
  by_contra haw
  exact absurd ((h id hid).2 haw) (by omega)

/-- With a channel, `retry` closes its socket as well: a socket that is resolved, or the one closed just
before, is closed again. -/
theorem retry_not_linear {fd c : ℕ} (hch : s.channel = some c) (hborn : s.sock c < s.created)
    (hused : s.sock fd = s.sock c ∨ 0 < s.uses (s.sock c)) (hs : s.retry fd = some s') : ¬Linear s' := by
  intro hlin
  have hcreated := (retry_fields hs).2.1
  have honce : s'.uses (s.sock c) < 2 := hlin.once (hcreated ▸ hborn)
  rw [uses_retry hs, hch, Option.map_some, if_pos (c := some (s.sock c) = some (s.sock c)) rfl] at honce
  obtain heq | hpos := hused
  · rw [if_pos heq] at honce
    omega
  · omega

/-! ### one call of `connect` -/

/-- The new socket has a number of its own. -/
theorem Owned.socket (h : Owned s) (serverfd : ℕ) (hstate : s.state ≠ .connecting) :
    AllBut (s.socket serverfd) ((s.socket serverfd).sock serverfd) := by
  have hnew : (s.socket serverfd).sock serverfd = s.created := Function.update_self serverfd _ _
  rw [hnew]
  refine ⟨fun j hj => h.unborn j (Nat.le_of_succ_le hj), fun fd hfd => ?_, Nat.lt_succ_self _,
    h.unborn _ le_rfl, fun j hj hne => h.resolved j ?_ (not_awaits hstate j)⟩
  · by_cases heq : fd = serverfd
    · rw [heq, hnew]
      exact Nat.lt_succ_self _
    · rw [show (s.socket serverfd).sock fd = s.sock fd from Function.update_of_ne heq _ _]
      exact Nat.lt_succ_of_lt (h.known fd hfd)
  · exact lt_of_le_of_ne (Nat.le_of_lt_succ hj) hne

/-- An awaited socket keeps its descriptor and its channel. -/
theorem Owned.socket_awaited (h : Owned s) {serverfd : ℕ} (hclosed : s.isOpen serverfd = false)
    (hstate : s.state = .connecting) :
    ∃ fd, s.channel = some fd ∧ fd ≠ serverfd ∧ (s.socket serverfd).sock fd = s.sock fd ∧
      s.sock fd < s.created ∧ s.uses (s.sock fd) = 0 := by
  obtain ⟨fd, hch, hopen, -, hzero⟩ := h.awaited hstate
  have hne : fd ≠ serverfd := by
    intro heq
    rw [heq, hclosed] at hopen
    exact Bool.false_ne_true hopen
  exact ⟨fd, hch, hne, Function.update_of_ne hne _ _, h.known fd hch, hzero⟩

/-- An attempt that does not start in the midst of another. -/
theorem callConnect_owned {serverfd : ℕ} {errno : Errno} (h : Owned s)
    (hclosed : s.isOpen serverfd = false) (hP : s.MayCall errno.branch)
    (hs : s.callConnect tls serverfd errno = some s') : Owned s' := by
  let t := s.socket serverfd
  unfold State.callConnect at hs
  cases hb : errno.branch with
  | established =>
    simp only [hb] at hs hP
    rw [Option.ite_none_right_eq_some, Option.some.injEq] at hs
    rw [← hs.2]
    have hnew := h.socket serverfd hP
    have hadd : AllBut (t.addChannel serverfd) (t.sock serverfd) :=
      ⟨hnew.unborn, fun fd hfd => Option.some.inj hfd ▸ hnew.born, hnew.born, hnew.unused, hnew.others⟩
    exact AllBut.established (s := t.addChannel serverfd) hadd
  | connecting =>
    simp only [hb] at hs hP
    rw [Option.ite_none_right_eq_some, Option.some.injEq] at hs
    rw [← hs.2]
    have hnew := h.socket serverfd hP
    obtain ⟨hcreated, hsock, hopen⟩ := connecting_fields t serverfd
    have huses := uses_connecting t serverfd
    refine ⟨fun j hj => ?_, fun fd hfd => ?_, fun j hj haw => ?_, fun _ => ⟨serverfd, rfl, ?_, ?_, ?_⟩⟩
    · rw [huses]
      exact hnew.unborn j (hcreated ▸ hj)
    · obtain rfl : serverfd = fd := Option.some.inj hfd
      rw [hsock, hcreated]
      exact hnew.born
    · rw [awaits_iff (c := serverfd) rfl rfl, hsock] at haw
      rw [huses]
      exact hnew.others j (hcreated ▸ hj) (fun heq => haw heq.symm)
    · rw [hopen]
      exact Function.update_self serverfd true s.isOpen
    · show Function.update (t.assert t.channel.isNone).callbacks serverfd true serverfd = true
      rw [Function.update_self]
    · rw [huses, hsock]
      exact hnew.unused
  | retry =>
    simp only [hb] at hs hP
    by_cases hconnecting : s.state = .connecting
    · -- the awaited socket is closed by `~Channel`, the new one by `retry`
      obtain ⟨fd, hch, hne, hsockfd, hborn, hzero⟩ := h.socket_awaited hclosed hconnecting
      obtain ⟨hstate, hcreated, hsock, hchannel, -, -⟩ := retry_fields hs
      have hnew : t.sock serverfd = s.created := Function.update_self serverfd _ _
      have huses : ∀ j, s'.uses j = s.uses j + (if s.created = j then 1 else 0)
          + if s.sock fd = j then 1 else 0 := by
        intro j
        rw [uses_retry hs, show (s.socket serverfd).channel = some fd from hch, Option.map_some, hsockfd]
        simp only [Option.some.injEq]
        rw [show (s.socket serverfd).sock serverfd = s.created from hnew]
        rfl
      refine ⟨fun j hj => ?_, fun fd' hfd' => ?_, fun j hj _ => ?_, fun hc => ?_⟩
      · rw [hcreated] at hj
        have hlt : s.created < j := hj
        rw [huses, h.unborn j hlt.le, if_neg (by omega), if_neg (by omega)]
      · rw [hchannel] at hfd'
        obtain rfl : fd = fd' := Option.some.inj (hch.symm.trans hfd')
        rw [hsock, hcreated, hsockfd]
        exact Nat.lt_succ_of_lt hborn
      · rw [hcreated] at hj
        rw [huses]
        by_cases heq : s.sock fd = j
        · rw [← heq, hzero, if_neg (by omega), if_pos rfl]
        · rw [if_neg heq]
          by_cases hlast : s.created = j
          · rw [if_pos hlast, ← hlast, h.unborn _ le_rfl]
          · have hlt : j < s.created :=
              lt_of_le_of_ne (Nat.le_of_lt_succ hj) (fun hj' => hlast hj'.symm)
            have haw : ¬s.Awaits j := by
              rw [awaits_iff hconnecting hch]
              exact heq
            rw [if_neg hlast, h.resolved j hlt haw]
      · rw [hstate] at hc
        cases hc
    · have hnone := hP.resolve_right hconnecting
      exact (h.socket serverfd hconnecting).retry hnone hs
  | close =>
    simp only [hb, Option.some.injEq] at hs
    rw [← hs]
    by_cases hconnecting : s.state = .connecting
    · -- the new socket is closed; the other one is still awaited
      obtain ⟨fd, hch, hne, hsockfd, hborn, hzero⟩ := h.socket_awaited hclosed hconnecting
      obtain ⟨fd₁, hch₁, hopen, hcallbacks, -⟩ := h.awaited hconnecting
      obtain rfl : fd = fd₁ := Option.some.inj (hch.symm.trans hch₁)
      have hnew : t.sock serverfd = s.created := Function.update_self serverfd _ _
      have huses : ∀ j, (t.close serverfd).uses j = s.uses j + if s.created = j then 1 else 0 := by
        intro j
        rw [uses_close, hnew]
        rfl
      refine ⟨fun j hj => ?_, fun fd' hfd' => ?_, fun j hj haw => ?_, fun _ => ⟨fd, hch, ?_, hcallbacks, ?_⟩⟩
      · have hlt : s.created < j := hj
        rw [huses, h.unborn j hlt.le, if_neg (by omega)]
      · obtain rfl : fd = fd' := Option.some.inj (hch.symm.trans hfd')
        rw [show (t.close serverfd).sock fd = s.sock fd from hsockfd]
        exact Nat.lt_succ_of_lt hborn
      · rw [awaits_iff (s := t.close serverfd) hconnecting hch,
          show (t.close serverfd).sock fd = s.sock fd from hsockfd] at haw
        rw [huses]
        by_cases hlast : s.created = j
        · rw [if_pos hlast, ← hlast, h.unborn _ le_rfl]
        · have hlt : j < s.created :=
            lt_of_le_of_ne (Nat.le_of_lt_succ hj) (fun hj' => hlast hj'.symm)
          rw [if_neg hlast, h.resolved j hlt (by rw [awaits_iff hconnecting hch]; exact haw)]
      · show Function.update (Function.update s.isOpen serverfd true) serverfd false fd = true
        rw [Function.update_of_ne hne, Function.update_of_ne hne]
        exact hopen
      · rw [huses, show (t.close serverfd).sock fd = s.sock fd from hsockfd, hzero, if_neg (by omega)]
    · exact (h.socket serverfd hconnecting).owned hconnecting rfl rfl (fun _ hfd => hfd)
        (uses_close t serverfd)

/-- An attempt that leaves every socket linear did not give up another. -/
theorem callConnect_back {serverfd : ℕ} {errno : Errno} (h : Owned s)
    (hclosed : s.isOpen serverfd = false) (hs : s.callConnect tls serverfd errno = some s')
    (hlin : Linear s') : s.MayCall errno.branch := by
  let t := s.socket serverfd
  have hnew : t.sock serverfd = s.created := Function.update_self serverfd _ _
  unfold State.callConnect at hs
  cases hb : errno.branch with
  | established =>
    intro hconnecting
    simp only [hb] at hs
    rw [Option.ite_none_right_eq_some, Option.some.injEq] at hs
    obtain ⟨fd, -, -, -, hborn, hzero⟩ := h.socket_awaited hclosed hconnecting
    obtain ⟨hstate, hcreated, -, -⟩ := established_fields tls (t.addChannel serverfd) serverfd
    rw [← hs.2] at hlin
    have hlost : ((t.addChannel serverfd).established tls serverfd).uses (s.sock fd) = 0 := by
      rw [uses_established, show (t.addChannel serverfd).sock serverfd = s.created from hnew,
        if_neg (by omega)]
      exact hzero
    have haw := hlin.kept (hcreated ▸ Nat.lt_succ_of_lt hborn) hlost
    rw [State.Awaits, hstate] at haw
    cases haw.1
  | connecting =>
    intro hconnecting
    simp only [hb] at hs
    rw [Option.ite_none_right_eq_some, Option.some.injEq] at hs
    obtain ⟨fd, -, -, -, hborn, hzero⟩ := h.socket_awaited hclosed hconnecting
    rw [← hs.2] at hlin
    have hlost : (t.connecting serverfd).uses (s.sock fd) = 0 := (uses_connecting t serverfd _).trans hzero
    obtain ⟨hcreated, hsock, -⟩ := connecting_fields t serverfd
    have haw := hlin.kept (hcreated ▸ Nat.lt_succ_of_lt hborn) hlost
    rw [awaits_iff (c := serverfd) rfl rfl, hsock, hnew] at haw
    omega
  | retry =>
    simp only [hb] at hs
    by_contra hnot
    obtain ⟨hsome, hconnecting⟩ := not_or.mp hnot
    obtain ⟨c, hch⟩ := Option.ne_none_iff_exists'.mp hsome
    have hall := h.socket serverfd hconnecting
    refine retry_not_linear (s := t) hch (hall.known c hch) ?_ hs hlin
    by_cases heq : t.sock c = t.sock serverfd
    · exact .inl heq.symm
    · exact .inr (by rw [hall.others _ (hall.known c hch) heq]; exact Nat.one_pos)
  | close => trivial

/-! ### steps and runs -/

theorem step_owned {a : Action} (h : Owned s) (hP : ClosesOnce s a) (hs : step tls s a = some s') :
    Owned s' := by
  cases a with
  | start inLoop =>
    rw [step, Option.ite_none_right_eq_some] at hs
    obtain ⟨-, hs⟩ := hs
    cases inLoop with
    | true =>
      rw [if_pos rfl, Option.ite_none_left_eq_some, Option.some.injEq] at hs
      rw [← hs.2]
      exact Owned.startInLoop (s := { s with connect := true })
        (h.of_eq rfl rfl rfl rfl rfl rfl rfl rfl)
    | false =>
      rw [if_neg Bool.false_ne_true, Option.some.injEq] at hs
      rw [← hs]
      exact h.of_eq rfl rfl rfl rfl rfl rfl rfl rfl
  | stop =>
    rw [step, Option.some.injEq] at hs
    rw [← hs]
    exact h.of_eq rfl rfl rfl rfl rfl rfl rfl rfl
  | restart =>
    have hidle : s.state ≠ .connecting := hP
    rw [step, Option.ite_none_left_eq_some, Option.some.injEq] at hs
    rw [← hs.2]
    refine Owned.startInLoop (s := { s with
      state := .disconnected, retryDelayMs := initRetryDelayMs, connect := true }) ?_
    exact ⟨h.unborn, h.known, fun j hj _ => h.resolved j hj (not_awaits hidle j), fun hc => by cases hc⟩
  | startFunctor =>
    rw [step, Option.ite_none_right_eq_some, Option.some.injEq] at hs
    rw [← hs.2]
    exact Owned.startInLoop (s := { s with starts := s.starts - 1 })
      (h.of_eq rfl rfl rfl rfl rfl rfl rfl rfl)
  | stopFunctor =>
    rw [step, Option.ite_none_right_eq_some] at hs
    rw [State.stopInLoop, if_neg hP, Option.some.injEq] at hs
    rw [← hs.2]
    exact h.of_eq rfl rfl rfl rfl rfl rfl rfl rfl
  | timer i =>
    rw [step, Option.ite_none_right_eq_some, Option.some.injEq] at hs
    rw [← hs.2]
    exact Owned.startInLoop (s := { s with timers := s.timers.eraseIdx i })
      (h.of_eq rfl rfl rfl rfl rfl rfl rfl rfl)
  | callConnect serverfd errno =>
    rw [step, Option.ite_none_right_eq_some] at hs
    exact callConnect_owned h hs.1.2 hP hs.2
  | out fd failed selfConnect =>
    rw [step, Option.ite_none_right_eq_some] at hs
    obtain ⟨-, hs⟩ := hs
    unfold State.checkWhetherConnected at hs
    cases hch : s.channel with
    | none =>
      rw [hch] at hs
      cases hs
    | some c =>
      rw [hch] at hs
      rw [Option.ite_none_right_eq_some] at hs
      obtain ⟨-, hs⟩ := hs
      by_cases hconnecting : s.state = .connecting
      · obtain ⟨rfl, rfl⟩ := hP hconnecting
        rw [if_pos hconnecting, if_neg (by decide), Option.some.injEq] at hs
        rw [← hs]
        exact (h.allBut hconnecting hch).established
      · rw [if_neg hconnecting] at hs
        by_cases hhand : s.state = .connected ∧ s.handshaking = true
        · rw [if_pos hhand, Option.some.injEq] at hs
          exact hs ▸ h
        · rw [if_neg hhand, Option.some.injEq] at hs
          rw [← hs]
          exact h.assert
  | err fd =>
    rw [step, Option.ite_none_right_eq_some] at hs
    rw [State.handleErr, if_neg hP, Option.some.injEq] at hs
    exact hs.2 ▸ h
  | handshake ok =>
    rw [step, Option.ite_none_right_eq_some, Option.some.injEq] at hs
    rw [← hs.2]
    cases ok with
    | false => exact h.of_eq rfl rfl rfl rfl rfl rfl rfl rfl
    | true =>
      have hidle : s.state ≠ .connecting := hP rfl
      refine ⟨h.unborn, fun fd hfd => ?_, fun j hj _ => h.resolved j hj (not_awaits hidle j),
        fun hc => absurd hc hidle⟩
      cases hfd
  | connectionClosed fd =>
    rw [step, Option.ite_none_right_eq_some, Option.some.injEq] at hs
    obtain ⟨⟨hopen, hforeign⟩, rfl⟩ := hs
    refine ⟨h.unborn, h.known, h.resolved, fun hc => ?_⟩
    obtain ⟨fd', hch, hopen', hcallbacks, hzero⟩ := h.awaited hc
    have hne : fd' ≠ fd := by
      intro heq
      rw [heq, hforeign] at hcallbacks
      exact Bool.false_ne_true hcallbacks
    exact ⟨fd', hch, (Function.update_of_ne hne _ _).trans hopen', hcallbacks, hzero⟩

/-- An attempt that is given up without a use of its socket. -/
theorem Owned.not_linear (h : Owned s) (hconnecting : s.state = .connecting)
    (hcreated : s'.created = s.created) (huses : ∀ j, s'.uses j = s.uses j) (hlost : ∀ j, ¬s'.Awaits j) :
    ¬Linear s' := by
  intro hlin
  obtain ⟨fd, hch, -, -, hzero⟩ := h.awaited hconnecting
  exact hlost _ (hlin.kept (hcreated ▸ h.known fd hch) ((huses _).trans hzero))

theorem startInLoop_fields (s : State) : s.startInLoop.created = s.created ∧
    s.startInLoop.state = s.state ∧ ∀ j, s.startInLoop.uses j = s.uses j := by
  have hassert : ∀ p, (s.assert p).created = s.created ∧ (s.assert p).state = s.state ∧
      ∀ j, (s.assert p).uses j = s.uses j := by
    intro p
    unfold State.assert
    split
    · exact ⟨rfl, rfl, fun _ => rfl⟩
    · exact ⟨rfl, rfl, fun _ => rfl⟩
  unfold State.startInLoop
  by_cases hconnect : (s.assert (decide (s.state = .disconnected))).connect = true
  · rw [if_pos hconnect]
    exact hassert _
  · rw [if_neg hconnect]
    exact hassert _

/-- A step that leaves every socket linear gave up no attempt. -/
theorem step_back_linear {a : Action} (h : Owned s) (hs : step tls s a = some s') (hlin : Linear s') :
    ClosesOnce s a := by
  cases a with
  | start inLoop => trivial
  | stop => trivial
  | startFunctor => trivial
  | timer i => trivial
  | connectionClosed fd => trivial
  | restart =>
    intro hconnecting
    rw [step, Option.ite_none_left_eq_some, Option.some.injEq] at hs
    rw [← hs.2] at hlin
    obtain ⟨hcreated, hstate, huses⟩ := startInLoop_fields
      { s with state := .disconnected, retryDelayMs := initRetryDelayMs, connect := true }
    refine h.not_linear hconnecting hcreated huses (fun j => not_awaits ?_ j) hlin
    intro hc
    rw [hstate] at hc
    cases hc
  | stopFunctor =>
    intro hconnecting
    rw [step, Option.ite_none_right_eq_some] at hs
    obtain ⟨-, hs⟩ := hs
    rw [State.stopInLoop, if_pos hconnecting] at hs
    obtain ⟨fd, hch, -⟩ := h.awaited hconnecting
    rw [show ({ s with stops := s.stops - 1 } : State).channel = some fd from hch] at hs
    rw [Option.ite_none_right_eq_some] at hs
    refine retry_not_linear (c := fd) ?_ ?_ (.inl ?_) hs.2 hlin
    · rfl
    · exact h.known fd hch
    · rfl
  | callConnect serverfd errno =>
    rw [step, Option.ite_none_right_eq_some] at hs
    exact callConnect_back h hs.1.2 hs.2 hlin
  | out fd failed selfConnect =>
    intro hconnecting
    rw [step, Option.ite_none_right_eq_some] at hs
    obtain ⟨-, hs⟩ := hs
    obtain ⟨fd', hch, -⟩ := h.awaited hconnecting
    unfold State.checkWhetherConnected at hs
    rw [hch] at hs
    rw [Option.ite_none_right_eq_some, if_pos hconnecting] at hs
    obtain ⟨-, hs⟩ := hs
    by_cases hfailed : (failed || selfConnect) = true
    · rw [if_pos hfailed] at hs
      exact absurd hlin (retry_not_linear hch (h.known fd' hch) (.inl rfl) hs)
    · rw [Bool.or_eq_true, not_or, Bool.not_eq_true, Bool.not_eq_true] at hfailed
      exact hfailed
  | err fd =>
    intro hconnecting
    rw [step, Option.ite_none_right_eq_some] at hs
    obtain ⟨-, hs⟩ := hs
    rw [State.handleErr, if_pos hconnecting] at hs
    obtain ⟨fd', hch, -⟩ := h.awaited hconnecting
    rw [hch] at hs
    rw [Option.ite_none_right_eq_some] at hs
    exact retry_not_linear hch (h.known fd' hch) (.inl rfl) hs.2 hlin
  | handshake ok =>
    intro hok hconnecting
    rw [step, Option.ite_none_right_eq_some, if_pos hok, Option.some.injEq] at hs
    refine h.not_linear hconnecting ?_ (fun j => ?_) (fun j haw => ?_) hlin
    · rw [← hs.2]
    · rw [← hs.2]
      rfl
    · rw [← hs.2] at haw
      cases haw.2

theorem init_owned : Owned init :=
  ⟨fun _ _ => rfl, fun _ h => (by cases h), fun j hj => absurd hj (Nat.not_lt_zero j),
    fun h => (by cases h)⟩

/-- **The descriptors of the connector are linear.**  In a run, with or without TLS, over any answers of
`connect`, events, `SO_ERROR` and self-connect results, timers, `stop` and `restart`: every socket that
`connect` created is closed once, and not handed over, or handed over once, and not closed by the connector,
as soon as its outcome is known, throughout the run, exactly when no attempt that is awaited ends by `retry`
(in `check_whether_connected`, `handle_err` or `stopInLoop`) or is given up for another, and an attempt
that is refused at once finds `channel_` null or awaited. -/
theorem descriptors_linear (tls : Bool) {as : List Action} (h : run (step tls) init as = some s) :
    Along (step tls) ClosesOnce init as ↔ Throughout (step tls) Linear init as := by
  have hkeep : ∀ t a t', Owned t → ClosesOnce t a → step tls t a = some t' → Owned t' ∧ Linear t' := by
    intro t a t' hI hP ht
    have hI' := step_owned hI hP ht
    exact ⟨hI', hI'.linear⟩
  have hback : ∀ t a t', Owned t → step tls t a = some t' → Linear t' → ClosesOnce t a := by
    intro t a t' hI ht hlin
    exact step_back_linear hI ht hlin
  exact along_iff_throughout ClosesOnce Owned Linear hkeep hback init_owned init_owned.linear h

theorem descriptors_linear_restarted : Throughout (step false) Linear init refusedThenEstablished := by
  have hrun : (run (step false) init refusedThenEstablished).isSome = true := by decide
  obtain ⟨s, hs⟩ := Option.isSome_iff_exists.mp hrun
  exact (descriptors_linear false hs).mp (by decide)

/-- `retry` closes the socket, and `~Channel` closes its number again. -/
theorem stopped_attempt_closed_twice :
    ∃ s, run (step false) init stoppedWhileConnecting = some s ∧ s.closed = [0, 0] ∧ ¬Linear s := by
  have hrun : (run (step false) init stoppedWhileConnecting).map (fun s => (s.created, s.closed, s.passed))
      = some (1, [0, 0], []) := by
    decide
  obtain ⟨s, hs, hend⟩ := Option.map_eq_some_iff.mp hrun
  obtain ⟨hcreated, hrest⟩ := Prod.mk.inj hend
  obtain ⟨hclosed, hpassed⟩ := Prod.mk.inj hrest
  refine ⟨s, hs, hclosed, fun hlin => ?_⟩
  have honce := (hlin 0 (by omega)).1
  rw [State.uses, hclosed, hpassed] at honce
  exact absurd honce (by decide)

end KwNet.Connector
