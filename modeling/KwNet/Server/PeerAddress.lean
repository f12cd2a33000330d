import KwNet.Lib.Run
import KwNet.Server.Model

/-!
# The peer address of a connection

`Acceptor::handleRead` allocates one `InetAddr` and hands the same pointer to every connection it accepts
before it returns; each successful `accept` overwrites the object.

* `Kept` — what closing, removing and destroying leave alone: the addresses, and what a connection
  remembers of its `accept`;
* **`peer_address_own`** — every connection sees the address its own `accept` returned, from its creation
  until it is destroyed, exactly in the runs in which no `accept` returns another address than the one that
  a connection of the same call of `handleRead`, still alive, was accepted from;
* **`second_client_overwrites`** — two clients that connect between two wake-ups.
-/

namespace KwNet.Server

open KwNet.Lib

variable {ι : Type} [DecidableEq ι] {cfg : Config} {s s' s'' : State ι}

/-! ### what is left alone -/

/-- `c'` is the connection `c` later on. -/
structure Conn.Same (c c' : Conn ι) : Prop where
  peerAddr : c'.peerAddr = c.peerAddr
  accepted : c'.accepted = c.accepted
  call : c'.call = c.call
  destroyed : c'.destroyed = false → c.destroyed = false

omit [DecidableEq ι] in
theorem Conn.Same.refl (c : Conn ι) : c.Same c := ⟨rfl, rfl, rfl, fun h => h⟩

omit [DecidableEq ι] in
theorem Conn.Same.trans {c c' c'' : Conn ι} (h : c.Same c') (h' : c'.Same c'') : c.Same c'' :=
  ⟨h'.peerAddr.trans h.peerAddr, h'.accepted.trans h.accepted, h'.call.trans h.call,
    fun hd => h.destroyed (h'.destroyed hd)⟩

/-- No address is touched and no connection is made. -/
structure Kept (s s' : State ι) : Prop where
  heap : s'.heap = s.heap
  next : s'.next = s.next
  calls : s'.calls = s.calls
  accepting : s'.accepting = s.accepting
  nextConnId : s'.nextConnId = s.nextConnId
  conns : ∀ id c', s'.conns id = some c' → ∃ c, s.conns id = some c ∧ c.Same c'

omit [DecidableEq ι] in
/-- A step that touches none of the fields. -/
theorem Kept.of_eq (hheap : s'.heap = s.heap) (hnext : s'.next = s.next) (hcalls : s'.calls = s.calls)
    (hacc : s'.accepting = s.accepting) (hid : s'.nextConnId = s.nextConnId)
    (hconns : s'.conns = s.conns) : Kept s s' := by
  refine ⟨hheap, hnext, hcalls, hacc, hid, fun id c' hc' => ⟨c', ?_, Conn.Same.refl c'⟩⟩
  rw [← hconns]
  exact hc'

omit [DecidableEq ι] in
theorem Kept.refl (s : State ι) : Kept s s := Kept.of_eq rfl rfl rfl rfl rfl rfl

omit [DecidableEq ι] in
theorem Kept.trans (h : Kept s s') (h' : Kept s' s'') : Kept s s'' := by
  refine ⟨h'.heap.trans h.heap, h'.next.trans h.next, h'.calls.trans h.calls,
    h'.accepting.trans h.accepting, h'.nextConnId.trans h.nextConnId, fun id c'' hc'' => ?_⟩
  obtain ⟨c', hc', hsame'⟩ := h'.conns id c'' hc''
  obtain ⟨c, hc, hsame⟩ := h.conns id c' hc'
  exact ⟨c, hc, hsame.trans hsame'⟩

omit [DecidableEq ι] in
theorem conn?_eq_some {id : ℕ} {c : Conn ι} :
    s.conn? id = some c ↔ s.conns id = some c ∧ c.destroyed = false := by
  rw [State.conn?, Option.filter_eq_some_iff, Bool.not_eq_true']

omit [DecidableEq ι] in
theorem setConn_self (id : ℕ) (c : Conn ι) : (s.setConn id c).conns id = some c := by
  simp only [State.setConn, Function.update_self]

omit [DecidableEq ι] in
theorem setConn_of_ne {id j : ℕ} (hj : j ≠ id) (c : Conn ι) :
    (s.setConn id c).conns j = s.conns j := by
  simp only [State.setConn, Function.update_of_ne hj]

omit [DecidableEq ι] in
theorem setConn_kept {id : ℕ} {c c' : Conn ι} (hc : s.conns id = some c) (hsame : c.Same c') :
    Kept s (s.setConn id c') := by
  refine ⟨rfl, rfl, rfl, rfl, rfl, fun j d hd => ?_⟩
  by_cases hj : j = id
  · subst hj
    rw [setConn_self, Option.some.injEq] at hd
    exact ⟨c, hc, hd ▸ hsame⟩
  · rw [setConn_of_ne hj] at hd
    exact ⟨d, hd, Conn.Same.refl d⟩

theorem queueInLoop_kept (l : LoopId ι) (f : Functor) (room : Bool) :
    Kept s (s.queueInLoop l f room) := by
  unfold State.queueInLoop
  by_cases hroom : room = true
  · rw [if_pos hroom]
    exact Kept.of_eq rfl rfl rfl rfl rfl rfl
  · rw [if_neg hroom]
    exact Kept.refl s

omit [DecidableEq ι] in
theorem erase_kept (name : String) : Kept s (s.erase name) := by
  unfold State.erase
  cases s.connections.find? name with
  | none => exact Kept.refl s
  | some id => exact Kept.of_eq rfl rfl rfl rfl rfl rfl

omit [DecidableEq ι] in
theorem removeConnectionInLoop_kept (c : Conn ι) : Kept s (s.removeConnectionInLoop c) := by
  unfold State.removeConnectionInLoop
  cases s.connections.find? c.name with
  | none => exact Kept.of_eq rfl rfl rfl rfl rfl rfl
  | some id => exact erase_kept c.name

theorem removeConnection_kept (id : ℕ) (c : Conn ι) (room : Bool) :
    Kept s (s.removeConnection id c room) := by
  unfold State.removeConnection
  cases c.ioLoop with
  | none => exact removeConnectionInLoop_kept c
  | some l => exact queueInLoop_kept none _ room

theorem handleEpHup_kept {id : ℕ} {c : Conn ι} (hc : s.conns id = some c) (room : Bool) :
    Kept s (s.handleEpHup id c room) := by
  unfold State.handleEpHup
  by_cases hstate : c.state = .disconnected
  · rw [if_pos hstate]
    exact Kept.refl s
  · rw [if_neg hstate]
    have hset : Kept s (s.setConn id (c.setState .disconnected)) :=
      setConn_kept hc ⟨rfl, rfl, rfl, fun h => h⟩
    exact hset.trans (removeConnection_kept id c room)

theorem forceCloseInLoop_kept {id : ℕ} {c : Conn ι} {room : Bool} (hc : s.conns id = some c)
    (h : s.forceCloseInLoop id c room = some s') : Kept s s' := by
  unfold State.forceCloseInLoop at h
  by_cases hstate : c.state = .connecting
  · rw [if_pos hstate] at h
    cases h
  · rw [if_neg hstate, Option.some.injEq] at h
    exact h ▸ handleEpHup_kept hc room

theorem forceClose_kept {id : ℕ} {c : Conn ι} {inLoop room : Bool} (hc : s.conns id = some c)
    (h : s.forceClose id c inLoop room = some s') : Kept s s' := by
  unfold State.forceClose at h
  by_cases hin : inLoop = true
  · rw [if_pos hin] at h
    exact forceCloseInLoop_kept hc h
  · rw [if_neg hin, Option.some.injEq] at h
    exact h ▸ queueInLoop_kept c.ioLoop _ room

omit [DecidableEq ι] in
theorem connectEstablished_kept {id : ℕ} {c : Conn ι} (hc : s.conns id = some c) :
    Kept s (s.connectEstablished id c) :=
  setConn_kept hc ⟨rfl, rfl, rfl, fun h => h⟩

theorem sigIntLoop_kept {room : ℕ → Bool} (es : List (String × ℕ))
    (h : State.sigIntLoop room es s = some s') : Kept s s' := by
  induction es generalizing s with
  | nil =>
    rw [State.sigIntLoop, Option.some.injEq] at h
    exact h ▸ Kept.refl s
  | cons e es ih =>
    obtain ⟨name, id⟩ := e
    rw [State.sigIntLoop, Option.bind_eq_some_iff] at h
    obtain ⟨c, hc, h⟩ := h
    rw [Option.bind_eq_some_iff] at h
    obtain ⟨t, ht, h⟩ := h
    have hclose : Kept s t := forceClose_kept (conn?_eq_some.mp hc).1 ht
    have herase : Kept s (t.erase name) := hclose.trans (erase_kept name)
    by_cases hfault : (t.erase name).fault.isSome = true
    · rw [if_pos hfault, Option.some.injEq] at h
      exact h ▸ herase
    · rw [if_neg hfault] at h
      by_cases hmem : name ∈ (t.erase name).connections.keys
      · rw [if_pos hmem] at h
        exact herase.trans (ih h)
      · rw [if_neg hmem, Option.some.injEq] at h
        exact h ▸ herase.trans (Kept.of_eq rfl rfl rfl rfl rfl rfl)

theorem handleSigInt_kept {room : ℕ → Bool} (h : s.handleSigInt room = some s') : Kept s s' := by
  obtain ⟨t, ht, rfl⟩ := Option.map_eq_some_iff.mp h
  have hstop : Kept s { s with listening := false } := Kept.of_eq rfl rfl rfl rfl rfl rfl
  have hloop : Kept s t := hstop.trans (sigIntLoop_kept _ ht)
  by_cases hfault : t.fault.isSome = true
  · rw [if_pos hfault]
    exact hloop
  · rw [if_neg hfault]
    exact hloop.trans (Kept.of_eq rfl rfl rfl rfl rfl rfl)

theorem call_kept {f : Functor} {room : Bool} (h : s.call f room = some s') : Kept s s' := by
  cases f with
  | connectEstablished id =>
    obtain ⟨c, hc, rfl⟩ := Option.map_eq_some_iff.mp h
    exact connectEstablished_kept (conn?_eq_some.mp hc).1
  | forceCloseInLoop id =>
    obtain ⟨c, hc, h⟩ := Option.bind_eq_some_iff.mp h
    exact forceCloseInLoop_kept (conn?_eq_some.mp hc).1 h
  | removeConnectionInLoop id =>
    obtain ⟨c, -, rfl⟩ := Option.map_eq_some_iff.mp h
    exact removeConnectionInLoop_kept c

/-- A step outside `handleRead` leaves the addresses alone. -/
theorem move_kept {a : Action ι} (h : s.move cfg a = some s') :
    (Kept s s' ∧ ∀ res ioLoop room, a ≠ .accept res ioLoop room) ∨
      (a = .handleRead ∧ s' = s.handleRead) ∨
      ∃ acc res ioLoop room, a = .accept res ioLoop room ∧ s.accepting = some acc ∧
        s' = s.acceptTurn cfg acc res ioLoop room := by
  cases a with
  | handleRead =>
    rw [State.move, Option.ite_none_right_eq_some] at h
    exact .inr (.inl ⟨rfl, (Option.some.inj h.2).symm⟩)
  | accept res ioLoop room =>
    obtain ⟨acc, hacc, rfl⟩ := Option.map_eq_some_iff.mp h
    exact .inr (.inr ⟨acc, res, ioLoop, room, rfl, hacc, rfl⟩)
  | functor l room =>
    rw [State.move, Option.ite_none_right_eq_some] at h
    obtain ⟨-, h⟩ := h
    cases hp : s.pending l with
    | nil =>
      rw [hp] at h
      cases h
    | cons f fs =>
      rw [hp] at h
      have hpop : Kept s { s with pending := Function.update s.pending l fs } :=
        Kept.of_eq rfl rfl rfl rfl rfl rfl
      exact .inl ⟨hpop.trans (call_kept h), fun _ _ _ ha => by cases ha⟩
  | hup id room =>
    obtain ⟨c, hc, h⟩ := Option.bind_eq_some_iff.mp h
    rw [Option.ite_none_right_eq_some, Option.some.injEq] at h
    exact .inl ⟨h.2 ▸ handleEpHup_kept (conn?_eq_some.mp hc).1 room, fun _ _ _ ha => by cases ha⟩
  | forceClose id inLoop room =>
    obtain ⟨c, hc, h⟩ := Option.bind_eq_some_iff.mp h
    exact .inl ⟨forceClose_kept (conn?_eq_some.mp hc).1 h, fun _ _ _ ha => by cases ha⟩
  | sigInt room =>
    rw [State.move, Option.ite_none_right_eq_some] at h
    exact .inl ⟨handleSigInt_kept h.2, fun _ _ _ ha => by cases ha⟩
  | destroy id =>
    obtain ⟨c, hc, h⟩ := Option.bind_eq_some_iff.mp h
    rw [Option.ite_none_left_eq_some, Option.some.injEq] at h
    obtain ⟨hc, hd⟩ := conn?_eq_some.mp hc
    exact .inl ⟨h.2 ▸ setConn_kept hc ⟨rfl, rfl, rfl, fun _ => hd⟩, fun _ _ _ ha => by cases ha⟩

/-! ### whose address a connection sees -/

/-- Every connection that exists sees the address its own `accept` returned. -/
def OwnAddress (s : State ι) : Prop :=
  ∀ id c, s.conn? id = some c → s.peerAddress c = c.accepted

/-- An `accept` that succeeds does not return another address than the one that a living connection of the
same call of `handleRead` came from. -/
def SameClient (s : State ι) (a : Action ι) : Prop :=
  ∀ acc connfd addr ioLoop room, s.accepting = some acc → a = .accept (some (connfd, addr)) ioLoop room →
    ∀ id c, s.conn? id = some c → c.call = acc.call → c.accepted = addr

/-- Who shares an `InetAddr`: the connections of one call of `handleRead`. -/
structure Pointers (s : State ι) : Prop where
  fresh : ∀ id c, s.conns id = some c → id < s.nextConnId
  below : ∀ id c, s.conns id = some c → c.peerAddr < s.next ∧ c.call ≤ s.calls
  own : ∀ acc, s.accepting = some acc → acc.peerAddr < s.next ∧ acc.call ≤ s.calls
  shared : ∀ acc id c, s.accepting = some acc → s.conns id = some c →
    (c.peerAddr = acc.peerAddr ↔ c.call = acc.call)

omit [DecidableEq ι] in
theorem Kept.pointers (h : Kept s s') (hp : Pointers s) : Pointers s' := by
  constructor
  · intro id c' hc'
    obtain ⟨c, hc, -⟩ := h.conns id c' hc'
    rw [h.nextConnId]
    exact hp.fresh id c hc
  · intro id c' hc'
    obtain ⟨c, hc, hsame⟩ := h.conns id c' hc'
    rw [hsame.peerAddr, hsame.call, h.next, h.calls]
    exact hp.below id c hc
  · intro acc hacc
    rw [h.accepting] at hacc
    rw [h.next, h.calls]
    exact hp.own acc hacc
  · intro acc id c' hacc hc'
    obtain ⟨c, hc, hsame⟩ := h.conns id c' hc'
    rw [h.accepting] at hacc
    rw [hsame.peerAddr, hsame.call]
    exact hp.shared acc id c hacc hc

omit [DecidableEq ι] in
theorem Kept.ownAddress (h : Kept s s') (ho : OwnAddress s) : OwnAddress s' := by
  intro id c' hc'
  obtain ⟨hc', hd'⟩ := conn?_eq_some.mp hc'
  obtain ⟨c, hc, hsame⟩ := h.conns id c' hc'
  have hown := ho id c (conn?_eq_some.mpr ⟨hc, hsame.destroyed hd'⟩)
  show s'.heap c'.peerAddr = c'.accepted
  rw [h.heap, hsame.peerAddr, hsame.accepted]
  exact hown

omit [DecidableEq ι] in
/-- The object of a new call of `handleRead` is shared with no connection. -/
theorem handleRead_pointers (hp : Pointers s) : Pointers s.handleRead := by
  constructor
  · exact hp.fresh
  · intro id c hc
    obtain ⟨hlt, hle⟩ := hp.below id c hc
    exact ⟨Nat.lt_succ_of_lt hlt, Nat.le_succ_of_le hle⟩
  · intro acc hacc
    obtain rfl := Option.some.inj hacc
    exact ⟨Nat.lt_succ_self s.next, le_rfl⟩
  · intro acc id c hacc hc
    obtain rfl := Option.some.inj hacc
    obtain ⟨hlt, hle⟩ := hp.below id c hc
    show c.peerAddr = s.next ↔ c.call = s.calls + 1
    omega

/-! ### one turn of `handleRead` -/

section

variable {acc : Accepting} {connfd : ℕ} {addr : SockAddr} {ioLoop : LoopId ι} {room : Bool}

theorem acceptTurn_none_conns (cfg : Config) (s : State ι) (acc : Accepting) (ioLoop : LoopId ι)
    (room : Bool) :
    (s.acceptTurn cfg acc none ioLoop room).conns = s.conns ∧
      (s.acceptTurn cfg acc none ioLoop room).heap = s.heap := by
  by_cases hk : acc.k - 1 = -32
  · rw [State.acceptTurn, if_pos hk]
    exact ⟨rfl, rfl⟩
  · rw [State.acceptTurn, if_neg hk]
    exact ⟨rfl, rfl⟩

/-- After a failed `accept` the call goes on with the same object, or is over. -/
theorem acceptTurn_none_pointers (hacc : s.accepting = some acc) (hp : Pointers s) :
    Pointers (s.acceptTurn cfg acc none ioLoop room) := by
  by_cases hk : acc.k - 1 = -32
  · rw [State.acceptTurn, if_pos hk]
    refine ⟨hp.fresh, hp.below, fun acc' h' => ?_, fun acc' id c h' hc => ?_⟩
    · cases h'
    · cases h'
  · rw [State.acceptTurn, if_neg hk]
    refine ⟨hp.fresh, hp.below, fun acc' h' => ?_, fun acc' id c h' hc => ?_⟩
    · obtain rfl := Option.some.inj h'
      exact hp.own acc hacc
    · obtain rfl := Option.some.inj h'
      exact hp.shared acc id c hacc hc

/-- What a successful `accept` leaves: the object holds the new address, and one connection more points
to it. -/
theorem acceptTurn_some (cfg : Config) (s : State ι) (acc : Accepting) (connfd : ℕ) (addr : SockAddr)
    (ioLoop : LoopId ι) (room : Bool) :
    ∃ c, (s.acceptTurn cfg acc (some (connfd, addr)) ioLoop room).conns
          = Function.update s.conns s.nextConnId (some c) ∧
      c.peerAddr = acc.peerAddr ∧ c.accepted = addr ∧ c.call = acc.call ∧ c.destroyed = false ∧
      (s.acceptTurn cfg acc (some (connfd, addr)) ioLoop room).heap
          = Function.update s.heap acc.peerAddr addr ∧
      (s.acceptTurn cfg acc (some (connfd, addr)) ioLoop room).next = s.next ∧
      (s.acceptTurn cfg acc (some (connfd, addr)) ioLoop room).calls = s.calls ∧
      (s.acceptTurn cfg acc (some (connfd, addr)) ioLoop room).nextConnId = s.nextConnId + 1 ∧
      (s.acceptTurn cfg acc (some (connfd, addr)) ioLoop room).accepting
          = some { acc with k := acc.k + 1 } := by
  cases ioLoop with
  | none =>
    refine ⟨(Conn.make (cfg.connName s.nextConnId) none connfd acc.peerAddr addr acc.call).setState
      .connected, ?_, rfl, rfl, rfl, rfl, rfl, rfl, rfl, rfl, rfl⟩
    show Function.update (Function.update s.conns s.nextConnId _) s.nextConnId _ = _
    rw [Function.update_idem]
    rfl
  | some l =>
    refine ⟨Conn.make (cfg.connName s.nextConnId) (some l) connfd acc.peerAddr addr acc.call, ?_, rfl,
      rfl, rfl, rfl, ?_⟩
    all_goals
      cases room with
      | false => simp only [State.acceptTurn, State.newConnection, Conn.make, State.queueInLoop,
          State.setSockAddr, State.setConn, Bool.false_eq_true, if_false, and_self]
      | true => simp only [State.acceptTurn, State.newConnection, Conn.make, State.queueInLoop,
          State.setSockAddr, State.setConn, if_true, and_self]

/-- After a successful `accept` the new connection shares the object with those of its call. -/
theorem acceptTurn_some_pointers (hacc : s.accepting = some acc) (hp : Pointers s) :
    Pointers (s.acceptTurn cfg acc (some (connfd, addr)) ioLoop room) := by
  obtain ⟨c, hconns, hptr, -, hcall, -, -, hnext, hcalls, hid, hacc'⟩ :=
    acceptTurn_some cfg s acc connfd addr ioLoop room
  obtain ⟨hlt, hle⟩ := hp.own acc hacc
  -- a connection is the new one or was there before
  have hcases : ∀ id d, (s.acceptTurn cfg acc (some (connfd, addr)) ioLoop room).conns id = some d →
      (id = s.nextConnId ∧ d = c) ∨ s.conns id = some d := by
    intro id d hd
    rw [hconns] at hd
    by_cases hne : id = s.nextConnId
    · rw [hne, Function.update_self, Option.some.injEq] at hd
      exact .inl ⟨hne, hd.symm⟩
    · rw [Function.update_of_ne hne] at hd
      exact .inr hd
  constructor
  · intro id d hd
    rw [hid]
    obtain ⟨rfl, -⟩ | hold := hcases id d hd
    · exact Nat.lt_succ_self s.nextConnId
    · exact Nat.lt_succ_of_lt (hp.fresh id d hold)
  · intro id d hd
    rw [hnext, hcalls]
    obtain ⟨-, rfl⟩ | hold := hcases id d hd
    · exact ⟨hptr ▸ hlt, hcall ▸ hle⟩
    · exact hp.below id d hold
  · intro acc' h'
    rw [hacc', Option.some.injEq] at h'
    subst h'
    rw [hnext, hcalls]
    exact ⟨hlt, hle⟩
  · intro acc' id d h' hd
    rw [hacc', Option.some.injEq] at h'
    subst h'
    obtain ⟨-, rfl⟩ | hold := hcases id d hd
    · exact ⟨fun _ => hcall, fun _ => hptr⟩
    · exact hp.shared acc id d hacc hold

/-- Who sees what after a successful `accept`: the connections of this call see the new address, the others
what they saw. -/
theorem acceptTurn_some_ownAddress (hacc : s.accepting = some acc) (hp : Pointers s)
    (ho : OwnAddress s) :
    OwnAddress (s.acceptTurn cfg acc (some (connfd, addr)) ioLoop room) ↔
      ∀ id c, s.conn? id = some c → c.call = acc.call → c.accepted = addr := by
  obtain ⟨c, hconns, hptr, haddr, -, -, hheap, -⟩ :=
    acceptTurn_some cfg s acc connfd addr ioLoop room
  -- a connection from before stays what it was
  have hold : ∀ id d, s.conn? id = some d →
      (s.acceptTurn cfg acc (some (connfd, addr)) ioLoop room).conn? id = some d := by
    intro id d hd
    obtain ⟨hd, hlive⟩ := conn?_eq_some.mp hd
    have hne : id ≠ s.nextConnId := (hp.fresh id d hd).ne
    refine conn?_eq_some.mpr ⟨?_, hlive⟩
    rw [hconns, Function.update_of_ne hne]
    exact hd
  have hsees : ∀ d : Conn ι, (s.acceptTurn cfg acc (some (connfd, addr)) ioLoop room).peerAddress d
      = if d.peerAddr = acc.peerAddr then addr else s.peerAddress d := by
    intro d
    rw [State.peerAddress, hheap, Function.update_apply]
    rfl
  constructor
  · intro h id d hd hcall
    have hown := h id d (hold id d hd)
    have hsame := (hp.shared acc id d hacc (conn?_eq_some.mp hd).1).mpr hcall
    rw [hsees, if_pos hsame] at hown
    exact hown.symm
  · intro h id d hd
    obtain ⟨hd, hlive⟩ := conn?_eq_some.mp hd
    rw [hsees]
    by_cases hne : id = s.nextConnId
    · rw [hconns, hne, Function.update_self, Option.some.injEq] at hd
      rw [← hd, if_pos hptr, haddr]
    · rw [hconns, Function.update_of_ne hne] at hd
      have hd' := conn?_eq_some.mpr ⟨hd, hlive⟩
      by_cases hsame : d.peerAddr = acc.peerAddr
      · rw [if_pos hsame]
        exact (h id d hd' ((hp.shared acc id d hacc hd).mp hsame)).symm
      · rw [if_neg hsame]
        exact ho id d hd'

end

/-! ### steps and runs -/

theorem step_eq_some {a : Action ι} (h : step cfg s a = some s') : s.move cfg a = some s' := by
  rw [step, Option.ite_none_left_eq_some] at h
  exact h.2

theorem step_pointers {a : Action ι} (hp : Pointers s) (h : step cfg s a = some s') :
    Pointers s' := by
  obtain ⟨hkept, -⟩ | ⟨-, rfl⟩ | ⟨acc, res, ioLoop, room, -, hacc, rfl⟩ := move_kept (step_eq_some h)
  · exact hkept.pointers hp
  · exact handleRead_pointers hp
  · cases res with
    | none => exact acceptTurn_none_pointers hacc hp
    | some r => exact acceptTurn_some_pointers hacc hp

omit [DecidableEq ι] in
theorem sameClient_of_ne {a : Action ι}
    (ha : ∀ connfd addr ioLoop room, a ≠ .accept (some (connfd, addr)) ioLoop room) :
    SameClient s a := by
  intro acc connfd addr ioLoop room _ h
  exact absurd h (ha connfd addr ioLoop room)

/-- A step keeps what every connection sees exactly when it meets the condition. -/
theorem step_ownAddress {a : Action ι} (hp : Pointers s) (ho : OwnAddress s)
    (h : step cfg s a = some s') : OwnAddress s' ↔ SameClient s a := by
  obtain ⟨hkept, hne⟩ | ⟨rfl, rfl⟩ | ⟨acc, res, ioLoop, room, rfl, hacc, rfl⟩ :=
    move_kept (step_eq_some h)
  · exact iff_of_true (hkept.ownAddress ho)
      (sameClient_of_ne fun connfd addr => hne (some (connfd, addr)))
  · exact iff_of_true (fun id c hc => ho id c hc) (sameClient_of_ne fun _ _ _ _ ha => by cases ha)
  · cases res with
    | none =>
      refine iff_of_true (fun id c hc => ?_) (sameClient_of_ne fun _ _ _ _ ha => by cases ha)
      obtain ⟨hconns, hheap⟩ := acceptTurn_none_conns cfg s acc ioLoop room
      obtain ⟨hc, hlive⟩ := conn?_eq_some.mp hc
      rw [hconns] at hc
      rw [State.peerAddress, hheap]
      exact ho id c (conn?_eq_some.mpr ⟨hc, hlive⟩)
    | some r =>
      obtain ⟨connfd, addr⟩ := r
      rw [acceptTurn_some_ownAddress hacc hp ho]
      constructor
      · intro hsame acc' connfd' addr' ioLoop' room' hacc' ha id c hc hcall
        obtain rfl : acc = acc' := Option.some.inj (hacc.symm.trans hacc')
        cases ha
        exact hsame id c hc hcall
      · intro hsame id c hc hcall
        exact hsame acc connfd addr ioLoop room hacc rfl id c hc hcall

omit [DecidableEq ι] in
theorem init_pointers : Pointers (State.init ι) := by
  refine ⟨fun _ _ hc => ?_, fun _ _ hc => ?_, fun _ ha => ?_, fun _ _ _ ha _ => ?_⟩
  · cases hc
  · cases hc
  · cases ha
  · cases ha

/-- **Whose address a connection sees.**  In a run of the server, with any clients, any placing of the
connections on the loops and any order of closes: each connection sees, from its creation until it is
destroyed, the address its own `accept` returned, exactly when no `accept` returns another address than the
one a connection of the same call of `handleRead` that still exists was accepted from. -/
theorem peer_address_own (cfg : Config) {as : List (Action ι)}
    (h : run (step cfg) (State.init ι) as = some s) :
    Along (step cfg) SameClient (State.init ι) as ↔
      Throughout (step cfg) OwnAddress (State.init ι) as := by
  let I : State ι → Prop := fun t => Pointers t ∧ OwnAddress t
  have hkeep : ∀ t a t', I t → SameClient t a → step cfg t a = some t' → I t' ∧ OwnAddress t' := by
    intro t a t' hI hP ht
    have ho' := (step_ownAddress hI.1 hI.2 ht).mpr hP
    exact ⟨⟨step_pointers hI.1 ht, ho'⟩, ho'⟩
  have hback : ∀ t a t', I t → step cfg t a = some t' → OwnAddress t' → SameClient t a := by
    intro t a t' hI ht ho'
    exact (step_ownAddress hI.1 hI.2 ht).mp ho'
  have hinit : OwnAddress (State.init ι) := fun _ _ hc => by cases hc
  exact along_iff_throughout SameClient I OwnAddress hkeep hback ⟨init_pointers, hinit⟩ hinit h

def echoServer : Config := ⟨"echo", "0.0.0.0:7"⟩

def client₁ : SockAddr := ⟨2, 1000, 1⟩

def client₂ : SockAddr := ⟨2, 2000, 2⟩

/-- Two clients, accepted by one call of `handleRead` on a server without further loops. -/
def twoClientsRun : List (Action Unit) :=
  [.handleRead, .accept (some (7, client₁)) none true, .accept (some (8, client₂)) none true]

/-- What the first connection sees at the end of the run, and what its `accept` returned. -/
theorem twoClientsRun_first :
    ((run (step echoServer) (State.init Unit) twoClientsRun).bind fun s =>
      (s.conn? 1).map fun c => (s.peerAddress c, c.accepted)) = some (client₂, client₁) := by
  decide

theorem peer_address_own_two_clients :
    Along (step echoServer) SameClient (State.init Unit) twoClientsRun ↔
      Throughout (step echoServer) OwnAddress (State.init Unit) twoClientsRun := by
  obtain ⟨s, hs, -⟩ := Option.bind_eq_some_iff.mp twoClientsRun_first
  exact peer_address_own echoServer hs

/-- The second client's address overwrites the first one's. -/
theorem second_client_overwrites :
    ∃ s id c, run (step echoServer) (State.init Unit) twoClientsRun = some s ∧
      s.conn? id = some c ∧ s.peerAddress c ≠ c.accepted := by
  obtain ⟨s, hs, hfirst⟩ := Option.bind_eq_some_iff.mp twoClientsRun_first
  obtain ⟨c, hc, hpair⟩ := Option.map_eq_some_iff.mp hfirst
  refine ⟨s, 1, c, hs, hc, ?_⟩
  rw [Prod.mk.injEq] at hpair
  rw [hpair.1, hpair.2]
  decide

end KwNet.Server
