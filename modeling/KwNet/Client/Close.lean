import KwNet.Client.Connector
import KwNet.Https.Handshake
import KwNet.Tcp.Moves

/-!
# How a connection of a `TcpClient` is closed

`handle_ep_hup` of either class, with the closure `TcpClient::newConnection` sets as close callback:
`removeConnection`, which may restart the connector, and then the user's `close_callback`.

* `Closing` — the loop thread inside `handle_ep_hup`.  Its frames are those of the connection machine; the
  frame of `closeCallback_` runs the closure.  An exception leaves through all of them;
* `ClosesCleanly` — it returns, and what it leaves behind is closed;
* `CanAttempt` — the attempt the connector is restarted with finds the channel it needs;
* **`client_closes_cleanly`** — the closes that are clean.

The accesses of other threads to `state_` do not come between those of the loop thread, and the user's
callbacks return and leave client and connection alone.  Failed assertions and uses of a deleted `Channel`
are no steps.
-/

namespace KwNet.Connector

/-- The attempt of a restarted connector, for a socket with this descriptor and this outcome of `::connect`,
finds the channel it needs. -/
def State.CanAttempt (s : State) (serverfd : ℕ) : Branch → Prop
  | .established => s.channels serverfd ≠ some false
  | .connecting => s.channel = none ∧ s.channels serverfd ≠ some false
  | .retry => s.channel = none ∨ s.usable = true
  | .close => True

instance (s : State) (serverfd : ℕ) : (b : Branch) → Decidable (s.CanAttempt serverfd b)
  | .established => inferInstanceAs (Decidable (_ ≠ _))
  | .connecting => inferInstanceAs (Decidable (_ ∧ _))
  | .retry => inferInstanceAs (Decidable (_ ∨ _))
  | .close => .isTrue trivial

variable {s s' : State} {serverfd : ℕ} {errno : Errno}

/-- `add_channel` makes a channel or finds one, which may have been deleted. -/
theorem usable_addChannel (s : State) (serverfd : ℕ) :
    (s.addChannel serverfd).usable = true ↔ s.channels serverfd ≠ some false := by
  show ((s.addChannel serverfd).channels serverfd == some true) = true ↔ _
  unfold State.addChannel
  dsimp only
  cases hfd : s.channels serverfd with
  | none => simp
  | some alive => cases alive <;> simp [hfd]

theorem established_assertFailed (tls : Bool) (s : State) (fd : ℕ) :
    (s.established tls fd).assertFailed = s.assertFailed := by
  unfold State.established
  dsimp only
  split
  · unfold State.newConnectionCallback
    dsimp only
    split <;> rfl
  · rfl

/-- `delete channel_` on a null pointer, or on one whose `Channel` is alive. -/
theorem deleteChannel_goes (s : State) :
    (∃ s', s.deleteChannel = some s' ∧ s'.assertFailed = s.assertFailed) ↔
      s.channel = none ∨ s.usable = true := by
  unfold State.deleteChannel
  cases hchannel : s.channel with
  | none => exact ⟨fun _ => .inl rfl, fun _ => ⟨s, rfl, rfl⟩⟩
  | some fd =>
    dsimp only
    by_cases hlive : s.usable = true
    · rw [if_pos hlive]
      exact ⟨fun _ => .inr hlive, fun _ => ⟨_, rfl, rfl⟩⟩
    · rw [if_neg hlive]
      refine ⟨fun h => ?_, fun h => ?_⟩
      · obtain ⟨s', hs', -⟩ := h
        cases hs'
      · obtain h | h := h
        · cases h
        · exact absurd h hlive

theorem retry_goes (s : State) (serverfd : ℕ) :
    (∃ s', s.retry serverfd = some s' ∧ s'.assertFailed = s.assertFailed) ↔
      s.channel = none ∨ s.usable = true := by
  refine Iff.trans ⟨?_, ?_⟩ (deleteChannel_goes { s.close serverfd with state := .disconnected })
  · rintro ⟨s', hs', hassert⟩
    obtain ⟨t, ht, rfl⟩ := Option.map_eq_some_iff.mp hs'
    refine ⟨t, ht, Eq.trans ?_ hassert⟩
    split <;> rfl
  · rintro ⟨t, ht, hassert⟩
    refine ⟨_, Option.map_eq_some_iff.mpr ⟨t, ht, rfl⟩, Eq.trans ?_ hassert⟩
    split <;> rfl

theorem connecting_assertFailed (s : State) (serverfd : ℕ) :
    (s.connecting serverfd).assertFailed = (s.assertFailed || s.channel.isSome) := by
  unfold State.connecting State.assert
  cases s.channel with
  | none => exact (Bool.or_false s.assertFailed).symm
  | some fd => exact (Bool.or_true s.assertFailed).symm

/-- An assertion that fails does not keep `connecting` from its channel. -/
theorem connecting_usable (s : State) (serverfd : ℕ) :
    (s.connecting serverfd).usable = (s.addChannel serverfd).usable := by
  unfold State.connecting State.assert
  cases s.channel <;> rfl

/-- **What an attempt needs.** -/
theorem callConnect_goes (tls : Bool) (hassert : s.assertFailed = false) :
    (∃ s', s.callConnect tls serverfd errno = some s' ∧ s'.assertFailed = false) ↔
      s.CanAttempt serverfd errno.branch := by
  unfold State.callConnect
  dsimp only
  cases errno.branch with
  | established =>
    dsimp only [State.CanAttempt]
    refine Iff.trans ?_ (usable_addChannel (s.socket serverfd) serverfd)
    split
    · next hlive =>
      exact ⟨fun _ => hlive, fun _ => ⟨_, rfl, (established_assertFailed tls _ serverfd).trans hassert⟩⟩
    · next hdead =>
      refine ⟨fun h => ?_, fun h => absurd h hdead⟩
      obtain ⟨s', hs', -⟩ := h
      cases hs'
  | connecting =>
    dsimp only [State.CanAttempt]
    have hfailed : ((s.socket serverfd).connecting serverfd).assertFailed = s.channel.isSome := by
      rw [connecting_assertFailed]
      show (s.assertFailed || s.channel.isSome) = _
      rw [hassert, Bool.false_or]
    rw [connecting_usable]
    refine Iff.trans ?_ (and_congr_right fun _ => usable_addChannel (s.socket serverfd) serverfd)
    split
    · next hlive =>
      refine ⟨fun h => ?_, fun h => ⟨_, rfl, ?_⟩⟩
      · obtain ⟨s', hs', hs''⟩ := h
        rw [← Option.some.inj hs', hfailed] at hs''
        exact ⟨Option.isNone_iff_eq_none.mp (Option.isSome_eq_false_iff.mp hs''), hlive⟩
      · rw [hfailed, h.1]
        rfl
    · next hdead =>
      refine ⟨fun h => ?_, fun h => absurd h.2 hdead⟩
      obtain ⟨s', hs', -⟩ := h
      cases hs'
  | retry =>
    rw [← hassert]
    exact retry_goes (s.socket serverfd) serverfd
  | close => exact ⟨fun _ => trivial, fun _ => ⟨_, rfl, hassert⟩⟩

end KwNet.Connector

namespace KwNet.TcpClient

open KwNet.Lib KwNet.Tcp
open KwNet.Connector (Errno Branch)
open KwNet.Handshake (Answer)

/-- `TcpClient`.  A connection goes by the number `newConnection` has given it. -/
structure Client where
  /-- `close_callback` is not empty: `set_close_callback` has been called. -/
  closeCallback : Bool
  retry : Bool
  connect : Bool
  enableSsl : Bool
  connection : Option ℕ
  nextConnId : ℕ
  connector : Connector.State
  /-- A thread sits in `disconnect` with `mutex_` held, asleep in `shutdown`. -/
  locked : Bool
  /-- Calls of `Connector::restart` so far. -/
  restarts : ℕ

/-- What the environment answers to an attempt: the descriptor of its socket, `errno` after `::connect`, and the
first `SSL_connect` of a handshake. -/
structure Attempt where
  serverfd : ℕ
  errno : Errno
  handshake : Answer
  deriving DecidableEq, Repr

/-- The callback the handshake calls when it has succeeded. -/
def Client.handshakeDone (c : Client) (id : ℕ) : Client :=
  { c with connection := some id, connector := { c.connector with handshaking := false, channel := none } }

/-- `newConnection`.  Without TLS the connector has let go of its channel already. -/
def Client.newConnection (c : Client) (answer : Answer) : Client :=
  let id := c.nextConnId
  let c := { c with nextConnId := c.nextConnId + 1 }
  if c.enableSsl then
    match answer with
    | .connected => c.handshakeDone id
    | .wantRead | .wantWrite => c
    | .failed =>
      { c with
        connector := { c.connector with handshaking := false }
        retry := c.retry && !c.connect }
  else { c with connection := some id }

/-- `connector_->restart()`, with the assertions of this attempt. -/
def Client.restart (c : Client) (a : Attempt) : Option Client :=
  let before := { c.connector with assertFailed := false }
  (before.restart.callConnect c.enableSsl a.serverfd a.errno).bind fun after =>
    if after.assertFailed then none
    else
      let c := { c with connector := after, restarts := c.restarts + 1 }
      some (if a.errno.branch = .established then c.newConnection a.handshake else c)

/-- `removeConnection`. -/
def Client.removeConnection (c : Client) (a : Attempt) (conn : ℕ) : Option Client :=
  if c.locked then none
  else if c.connection.isSome && c.connection != some conn then none
  else
    let c := { c with connection := none }
    if c.retry && c.connect then c.restart a else some c

/-- The loop thread inside `handle_ep_hup` of the connection `conn`. -/
structure Closing where
  word : Word
  io : Io
  frames : List Frame
  client : Client
  conn : ℕ
  /-- An exception has left `handle_ep_hup`. -/
  threw : Bool

/-- `handle_ep_hup` is called. -/
def Closing.enter (w : Word) (io : Io) (c : Client) (conn : ℕ) : Closing :=
  { word := w, io := io, frames := [.hup .load], client := c, conn := conn, threw := false }

/-- One step.  The call of an empty `close_callback` throws `bad_function_call`. -/
def Closing.step (cfg : Config) (a : Attempt) (s : Closing) (_ : Unit) : Option Closing :=
  if s.threw then none
  else
    match s.frames with
    | [] => none
    | .user :: rest =>
      (s.client.removeConnection a s.conn).map fun c =>
        if c.closeCallback then { s with client := c, frames := rest }
        else { s with client := c, frames := [], threw := true }
    | f :: rest =>
      (frameStep cfg s.word s.io f .none).map fun e =>
        { s with word := e.word, io := e.io, frames := e.frames ++ rest }

/-- The steps of the loop thread lead from `s` to `s'`. -/
def Steps (cfg : Config) (a : Attempt) (s s' : Closing) : Prop := Reachable (Closing.step cfg a) s s'

/-- The client retries when its connection is lost. -/
def Client.retries (c : Client) : Bool := c.retry && c.connect

/-- `handle_ep_hup` returns, no exception has left it, the connection is `Disconnected`, `connection_` is null, and
the connector of a client that retries has been restarted once. -/
def ClosesCleanly (cfg : Config) (a : Attempt) (s : Closing) : Prop :=
  ∃ s', Steps cfg a s s' ∧ s'.frames = [] ∧ s'.threw = false ∧ s'.word = StateE.disconnected.word ∧
    s'.client.connection = none ∧ (s.client.retries = true → s'.client.restarts = s.client.restarts + 1)

/-- The restarted connector is connected at once, and with TLS its handshake done at once: the client has its
next connection. -/
def Client.ConnectsAtOnce (c : Client) (a : Attempt) : Prop :=
  a.errno.branch = .established ∧ (c.enableSsl = true → a.handshake = .connected)

instance (c : Client) (a : Attempt) : Decidable (c.ConnectsAtOnce a) :=
  inferInstanceAs (Decidable (_ ∧ _))

/-- The state in which a client and its connection are closed cleanly. -/
structure Closable (cfg : Config) (a : Attempt) (w : Word) (c : Client) : Prop where
  callback : c.closeCallback = true
  free : c.locked = false
  idle : cfg.kind = .ssl → has w .writing = false
  attempt : c.retries = true → c.connector.CanAttempt a.serverfd a.errno.branch ∧ ¬c.ConnectsAtOnce a

variable {cfg : Config} {a : Attempt} {w : Word} {io : Io} {c : Client} {conn : ℕ}

/-! ### The closure -/

/-- `newConnection` gives a client without a connection its next one exactly when the connection is made, or its
handshake done, at once. -/
theorem Client.newConnection_connection (hnone : c.connection = none) (answer : Answer) :
    (c.newConnection answer).connection = none ↔ c.enableSsl = true ∧ answer ≠ .connected := by
  unfold Client.newConnection
  dsimp only
  split
  · next hssl =>
    cases answer with
    | connected => exact ⟨fun h => (by cases h), fun h => absurd rfl h.2⟩
    | wantRead | wantWrite | failed => exact ⟨fun _ => ⟨hssl, by rintro ⟨⟩⟩, fun _ => hnone⟩
  · next hssl => exact ⟨fun h => (by cases h), fun h => absurd h.1 hssl⟩

theorem Client.newConnection_fields (c : Client) (answer : Answer) :
    (c.newConnection answer).closeCallback = c.closeCallback ∧ (c.newConnection answer).restarts = c.restarts := by
  unfold Client.newConnection
  dsimp only
  split
  · split <;> exact ⟨rfl, rfl⟩
  · exact ⟨rfl, rfl⟩

/-- The connector is restarted: its attempt needs what `callConnect_goes` says. -/
theorem Client.restart_goes (c : Client) (a : Attempt) :
    (∃ c', c.restart a = some c') ↔ c.connector.CanAttempt a.serverfd a.errno.branch := by
  let before : Connector.State := { c.connector with assertFailed := false }
  have hcan : before.restart.CanAttempt a.serverfd a.errno.branch
      ↔ c.connector.CanAttempt a.serverfd a.errno.branch := by
    cases a.errno.branch <;> exact Iff.rfl
  have hassert : before.restart.assertFailed = false := rfl
  rw [← hcan, ← Connector.callConnect_goes c.enableSsl hassert]
  constructor
  · rintro ⟨c', hc'⟩
    obtain ⟨after, hafter, hrest⟩ := Option.bind_eq_some_iff.mp hc'
    rw [Option.ite_none_left_eq_some] at hrest
    exact ⟨after, hafter, Bool.eq_false_iff.mpr hrest.1⟩
  · rintro ⟨after, hafter, hfine⟩
    show ∃ c', (before.restart.callConnect c.enableSsl a.serverfd a.errno).bind _ = some c'
    rw [hafter, Option.bind_some, hfine, if_neg Bool.false_ne_true]
    exact ⟨_, rfl⟩

theorem Client.restart_fields {c' : Client} (hnone : c.connection = none) (h : c.restart a = some c') :
    c'.closeCallback = c.closeCallback ∧ c'.restarts = c.restarts + 1 ∧
      (c'.connection = none ↔ ¬c.ConnectsAtOnce a) := by
  obtain ⟨after, -, hrest⟩ := Option.bind_eq_some_iff.mp h
  rw [Option.ite_none_left_eq_some, Option.some.injEq] at hrest
  obtain ⟨-, rfl⟩ := hrest
  unfold ConnectsAtOnce
  by_cases hbranch : a.errno.branch = .established
  · rw [if_pos hbranch]
    obtain ⟨hcallback, hrestarts⟩ :=
      newConnection_fields { c with connector := after, restarts := c.restarts + 1 } a.handshake
    have hconnection :=
      newConnection_connection (c := { c with connector := after, restarts := c.restarts + 1 }) hnone a.handshake
    refine ⟨hcallback, hrestarts, hconnection.trans ?_⟩
    dsimp only
    tauto
  · rw [if_neg hbranch]
    exact ⟨rfl, rfl, fun _ h => hbranch h.1, fun _ => hnone⟩

/-- `removeConnection` of the client's connection goes through unless it waits for `mutex_` or its restarted
connector gets stuck. -/
theorem Client.removeConnection_goes (hconn : c.connection = some conn) :
    (∃ c', c.removeConnection a conn = some c') ↔
      c.locked = false ∧ (c.retries = true → c.connector.CanAttempt a.serverfd a.errno.branch) := by
  unfold removeConnection retries
  rw [hconn]
  cases c.locked with
  | true => exact ⟨fun ⟨_, h⟩ => (by cases h), fun ⟨h, _⟩ => (by cases h)⟩
  | false =>
    rw [if_neg Bool.false_ne_true, if_neg (by simp)]
    dsimp only
    split
    · next hretries =>
      rw [restart_goes]
      exact ⟨fun h => ⟨rfl, fun _ => h⟩, fun h => h.2 hretries⟩
    · next hretries => exact ⟨fun _ => ⟨rfl, fun h => absurd h hretries⟩, fun _ => ⟨_, rfl⟩⟩

theorem Client.removeConnection_fields {c' : Client} (h : c.removeConnection a conn = some c') :
    c'.closeCallback = c.closeCallback ∧ (c.retries = true → c'.restarts = c.restarts + 1) ∧
      (c'.connection = none ↔ (c.retries = true → ¬c.ConnectsAtOnce a)) := by
  unfold removeConnection at h
  rw [Option.ite_none_left_eq_some, Option.ite_none_left_eq_some] at h
  obtain ⟨-, -, h⟩ := h
  unfold retries
  dsimp only at h
  split at h
  · next hretries =>
    obtain ⟨hcallback, hrestarts, hconnection⟩ := restart_fields rfl h
    exact ⟨hcallback, fun _ => hrestarts, hconnection.trans ⟨fun hne _ => hne, fun hne => hne hretries⟩⟩
  · next hretries =>
    cases h
    exact ⟨rfl, fun h => absurd h hretries, fun _ h => absurd h hretries, fun _ => rfl⟩

/-! ### Around the closure -/

/-- One step of a frame of the connection. -/
theorem Steps.frame {f : Frame} {rest : List Frame} {e : Effect} (hf : f ≠ .user)
    (h : frameStep cfg w io f .none = some e) :
    Steps cfg a ⟨w, io, f :: rest, c, conn, false⟩ ⟨e.word, e.io, e.frames ++ rest, c, conn, false⟩ := by
  refine Reachable.single (a := ()) ?_
  unfold Closing.step
  rw [if_neg Bool.false_ne_true]
  dsimp only
  split
  · next hnil => cases hnil
  · next hcons =>
    cases hcons
    exact absurd rfl hf
  · next hcons =>
    cases hcons
    rw [h]
    rfl

/-- The closure returns. -/
theorem Steps.closure {rest : List Frame} {c' : Client} (h : c.removeConnection a conn = some c')
    (hcallback : c'.closeCallback = true) :
    Steps cfg a ⟨w, io, .user :: rest, c, conn, false⟩ ⟨w, io, rest, c', conn, false⟩ := by
  refine Reachable.single (a := ()) ?_
  unfold Closing.step
  rw [if_neg Bool.false_ne_true]
  dsimp only
  rw [h, Option.map_some, if_pos hcallback]

/-- The closure throws. -/
theorem Steps.throw {rest : List Frame} {c' : Client} (h : c.removeConnection a conn = some c')
    (hcallback : c'.closeCallback = false) :
    Steps cfg a ⟨w, io, .user :: rest, c, conn, false⟩ ⟨w, io, [], c', conn, true⟩ := by
  refine Reachable.single (a := ()) ?_
  unfold Closing.step
  rw [if_neg Bool.false_ne_true]
  dsimp only
  rw [h, Option.map_some, hcallback, if_neg Bool.false_ne_true]

/-- What is left of `handle_ep_hup` after the closure: the TLS class has its state still to store. -/
def afterClosure : Kind → List Frame
  | .plain => []
  | .ssl => [.hup .store]

/-- One step of `handle_ep_hup`. -/
theorem Steps.hup {pc : HupPc} {w' : Word} {frames rest : List Frame}
    (hword : (hupStep cfg w io pc).word = w') (hframes : (hupStep cfg w io pc).frames ++ rest = frames) :
    ∃ io', Steps cfg a ⟨w, io, .hup pc :: rest, c, conn, false⟩ ⟨w', io', frames, c, conn, false⟩ := by
  refine ⟨(hupStep cfg w io pc).io, ?_⟩
  rw [← hword, ← hframes]
  exact Steps.frame (by rintro ⟨⟩) rfl

/-- One access of a call on the state word. -/
theorem Steps.call {call : Call} {k : Cont} {e : CallEffect} {frames : List Frame} (h : callStep w call = some e)
    (hframes : e.next.frames k = frames) :
    Steps cfg a ⟨w, io, [.call call k], c, conn, false⟩ ⟨e.word, io, frames, c, conn, false⟩ := by
  have hframe : frameStep cfg w io (.call call k) .none
      = some { Effect.goto e.word io (e.next.frames k) with wake := e.wake, events := e.next.events } := by
    show (callStep w call).map _ = _
    rw [h]
    rfl
  rw [← hframes, ← List.append_nil (e.next.frames k)]
  exact Steps.frame (by rintro ⟨⟩) hframe

section

variable (cfg a io c conn)

/-- The plain class up to its callback. -/
theorem plain_reaches (hkind : cfg.kind = .plain) (hopen : has w .disconnected = false) :
    ∃ io', Steps cfg a (.enter w io c conn) ⟨StateE.disconnected.word, io', [.user], c, conn, false⟩ := by
  obtain ⟨io₁, h₁⟩ : ∃ io₁, Steps cfg a (.enter w io c conn) ⟨w, io₁, [.hup .close], c, conn, false⟩ := by
    have hload : hupStep cfg w io .load = Effect.goto w io [.hup .close] := by
      simp only [hupStep, hopen, hkind]
      rfl
    exact Steps.hup (by rw [hload]; rfl) (by rw [hload]; rfl)
  obtain ⟨io₂, h₂⟩ : ∃ io₂, Steps cfg a ⟨w, io₁, [.hup .close], c, conn, false⟩
      ⟨w, io₂, [.hup .store], c, conn, false⟩ :=
    Steps.hup (by simp only [hupStep, hkind, Effect.goto]) (by simp only [hupStep, hkind]; rfl)
  obtain ⟨io₃, h₃⟩ : ∃ io₃, Steps cfg a ⟨w, io₂, [.hup .store], c, conn, false⟩
      ⟨StateE.disconnected.word, io₃, [.hup .wake], c, conn, false⟩ :=
    Steps.hup rfl rfl
  obtain ⟨io₄, h₄⟩ : ∃ io₄, Steps cfg a ⟨StateE.disconnected.word, io₃, [.hup .wake], c, conn, false⟩
      ⟨StateE.disconnected.word, io₄, [.hup .callback], c, conn, false⟩ :=
    Steps.hup (by simp only [hupStep, hkind, Effect.goto]) (by simp only [hupStep, hkind]; rfl)
  obtain ⟨io₅, h₅⟩ : ∃ io₅, Steps cfg a ⟨StateE.disconnected.word, io₄, [.hup .callback], c, conn, false⟩
      ⟨StateE.disconnected.word, io₅, [.user], c, conn, false⟩ :=
    Steps.hup (by simp only [hupStep, hkind, Effect.goto]) (by simp only [hupStep, hkind]; rfl)
  exact ⟨io₅, (((h₁.trans h₂).trans h₃).trans h₄).trans h₅⟩

/-- `set_unused` in the TLS class returns where no send is in flight. -/
theorem setUnused_returns {p : Phase} (hidle : has p.word .writing = false) :
    ∃ w', Steps cfg a ⟨p.word, io, [.call (.setUnused .load) .close], c, conn, false⟩
      ⟨w', io, [.hup .close], c, conn, false⟩ := by
  have hload : callStep p.word (.setUnused .load) = some ⟨p.word, unusedHead p.word, false⟩ := by
    show (if has p.word .connecting then _ else _) = _
    rw [phase_not_connecting p, if_neg Bool.false_ne_true]
  by_cases hused : has p.word .used = true
  · have hhead : unusedHead p.word = .goto (.setUnused (.casUnused p.word)) := by
      simp [unusedHead, hused, hidle]
    have hcas : callStep p.word (.setUnused (.casUnused p.word))
        = some ⟨p.word - StateE.used.word, .goto (.setUnused .wake), false⟩ := if_pos rfl
    exact ⟨_, ((Steps.call hload (congrArg _ hhead)).trans (Steps.call hcas rfl)).trans (Steps.call rfl rfl)⟩
  · have hhead : unusedHead p.word = .ret := by
      simp [unusedHead, hused]
    exact ⟨_, Steps.call hload (congrArg _ hhead)⟩

/-- `set_unused` waits where a send is in flight: only the loop thread itself could end it. -/
theorem setUnused_blocks {p : Phase} (hbusy : has p.word .writing = true) :
    ∃ s, Steps cfg a ⟨p.word, io, [.call (.setUnused .load) .close], c, conn, false⟩ s ∧
      s.step cfg a () = none ∧ s.frames ≠ [] := by
  have hload : callStep p.word (.setUnused .load) = some ⟨p.word, unusedHead p.word, false⟩ := by
    show (if has p.word .connecting then _ else _) = _
    rw [phase_not_connecting p, if_neg Bool.false_ne_true]
  have hused : has p.word .used = true := by
    cases p <;> simp at hbusy ⊢
  have hhead : unusedHead p.word = .goto (.setUnused (.await p.word)) := by
    simp [unusedHead, hused, hbusy]
  have hawait : callStep p.word (.setUnused (.await p.word)) = some ⟨p.word, .goto (.setUnused .blocked), false⟩ := by
    simp [callStep, unusedStep, futexBlocks]
  refine ⟨_, (Steps.call hload (congrArg _ hhead)).trans (Steps.call hawait rfl), rfl, ?_⟩
  exact List.cons_ne_nil _ _

/-- The TLS class up to its `set_unused`. -/
theorem ssl_enters (hkind : cfg.kind = .ssl) (hopen : has w .disconnected = false) :
    ∃ io', Steps cfg a (.enter w io c conn) ⟨w, io', [.call (.setUnused .load) .close], c, conn, false⟩ := by
  obtain ⟨io₁, h₁⟩ : ∃ io₁, Steps cfg a (.enter w io c conn) ⟨w, io₁, [.hup .free], c, conn, false⟩ := by
    have hload : hupStep cfg w io .load = Effect.goto w io [.hup .free] := by
      simp only [hupStep, hopen, hkind]
      rfl
    exact Steps.hup (by rw [hload]; rfl) (by rw [hload]; rfl)
  obtain ⟨io₂, h₂⟩ : ∃ io₂, Steps cfg a ⟨w, io₁, [.hup .free], c, conn, false⟩
      ⟨w, io₂, [.call (.setUnused .load) .close], c, conn, false⟩ :=
    Steps.hup rfl rfl
  exact ⟨io₂, h₁.trans h₂⟩

/-- Either class comes to its callback, the TLS class unless a send is in flight. -/
theorem reaches_closure {p : Phase} (hopen : has p.word .disconnected = false)
    (hidle : cfg.kind = .ssl → has p.word .writing = false) :
    ∃ w' io', (cfg.kind = .plain → w' = StateE.disconnected.word) ∧
      Steps cfg a (.enter p.word io c conn) ⟨w', io', .user :: afterClosure cfg.kind, c, conn, false⟩ := by
  cases hkind : cfg.kind with
  | plain =>
    obtain ⟨io', h⟩ := plain_reaches cfg a io c conn hkind hopen
    exact ⟨_, io', fun _ => rfl, h⟩
  | ssl =>
    obtain ⟨io₁, h₁⟩ := ssl_enters cfg a io c conn hkind hopen
    obtain ⟨w₂, h₂⟩ := setUnused_returns cfg a io₁ c conn (hidle hkind)
    obtain ⟨io₃, h₃⟩ : ∃ io₃, Steps cfg a ⟨w₂, io₁, [.hup .close], c, conn, false⟩
        ⟨w₂, io₃, [.hup .callback], c, conn, false⟩ :=
      Steps.hup (by simp only [hupStep, hkind, Effect.goto]) (by simp only [hupStep, hkind]; rfl)
    obtain ⟨io₄, h₄⟩ : ∃ io₄, Steps cfg a ⟨w₂, io₃, [.hup .callback], c, conn, false⟩
        ⟨w₂, io₄, [.user, .hup .store], c, conn, false⟩ :=
      Steps.hup (by simp only [hupStep, hkind, Effect.goto]) (by simp only [hupStep, hkind]; rfl)
    refine ⟨w₂, io₄, ?_, ((h₁.trans h₂).trans h₃).trans h₄⟩
    rintro ⟨⟩

/-- After the closure: the connection is `Disconnected`. -/
theorem returns (hword : cfg.kind = .plain → w = StateE.disconnected.word) :
    ∃ io', Steps cfg a ⟨w, io, afterClosure cfg.kind, c, conn, false⟩
      ⟨StateE.disconnected.word, io', [], c, conn, false⟩ := by
  cases hkind : cfg.kind with
  | plain =>
    rw [hword hkind]
    exact ⟨io, .refl _⟩
  | ssl =>
    obtain ⟨io₁, h₁⟩ : ∃ io₁, Steps cfg a ⟨w, io, [.hup .store], c, conn, false⟩
        ⟨StateE.disconnected.word, io₁, [.hup .wake], c, conn, false⟩ :=
      Steps.hup rfl rfl
    obtain ⟨io₂, h₂⟩ : ∃ io₂, Steps cfg a ⟨StateE.disconnected.word, io₁, [.hup .wake], c, conn, false⟩
        ⟨StateE.disconnected.word, io₂, [], c, conn, false⟩ :=
      Steps.hup (by simp only [hupStep, hkind, Effect.goto]) (by simp only [hupStep, hkind]; rfl)
    exact ⟨io₂, h₁.trans h₂⟩

end

/-- A run that has returned has come to rest. -/
theorem step_returned {s : Closing} (hframes : s.frames = []) : s.step cfg a () = none := by
  unfold Closing.step
  rw [hframes]
  split <;> rfl

/-- **When a client's connection closes cleanly.**  For every client, plain or TLS, with any callbacks set, and
its connection in any phase that is not closed: `handle_ep_hup` returns with the connection `Disconnected`,
`connection_` null and, if the client retries, the connector restarted once, exactly if `close_callback` is set,
nobody sleeps with `mutex_` held, the TLS class has no send in flight, and the restarted connector finds the
channel it needs and is not connected at once. -/
theorem client_closes_cleanly (cfg : Config) (a : Attempt) (p : Phase) (io : Io) (c : Client) (conn : ℕ)
    (hopen : has p.word .disconnected = false) (hconn : c.connection = some conn) :
    ClosesCleanly cfg a (.enter p.word io c conn) ↔ Closable cfg a p.word c := by
  constructor
  · rintro ⟨s, hsteps, hframes, hthrew, -, hconnection, -⟩
    have hrest : s.step cfg a () = none := step_returned hframes
    have hidle : cfg.kind = .ssl → has p.word .writing = false := by
      intro hkind
      by_contra hbusy
      obtain ⟨io₁, h₁⟩ := ssl_enters cfg a io c conn hkind hopen
      obtain ⟨t, h₂, hstuck, hne⟩ :=
        setUnused_blocks cfg a io₁ c conn (Bool.not_eq_false _ ▸ hbusy)
      exact hne (hsteps.unique (h₁.trans h₂) hrest hstuck ▸ hframes)
    obtain ⟨w₁, io₁, hword, hreach⟩ := reaches_closure cfg a io c conn hopen hidle
    cases hremove : c.removeConnection a conn with
    | none =>
      -- the closure gets stuck
      have hstuck : Closing.step cfg a ⟨w₁, io₁, .user :: afterClosure cfg.kind, c, conn, false⟩ () = none := by
        unfold Closing.step
        rw [if_neg Bool.false_ne_true]
        dsimp only
        rw [hremove]
        rfl
      have heq := hsteps.unique hreach hrest hstuck
      rw [heq] at hframes
      cases hframes
    | some c' =>
      obtain ⟨hsame, -, hnull⟩ := Client.removeConnection_fields hremove
      obtain ⟨hfree, hcan⟩ := (Client.removeConnection_goes hconn).mp ⟨c', hremove⟩
      by_cases hcallback : c'.closeCallback = true
      · obtain ⟨io₂, hback⟩ := returns cfg a io₁ c' conn hword
        have heq := hsteps.unique ((hreach.trans (Steps.closure hremove hcallback)).trans hback) hrest
          (step_returned rfl)
        rw [heq] at hconnection
        exact ⟨hsame ▸ hcallback, hfree, hidle, fun h => ⟨hcan h, hnull.mp hconnection h⟩⟩
      · -- the closure throws
        have heq := hsteps.unique (hreach.trans (Steps.throw hremove (Bool.eq_false_iff.mpr hcallback))) hrest
          (step_returned rfl)
        rw [heq] at hthrew
        cases hthrew
  · rintro ⟨hcallback, hfree, hidle, hattempt⟩
    obtain ⟨c', hremove⟩ := (Client.removeConnection_goes hconn).mpr ⟨hfree, fun h => (hattempt h).1⟩
    obtain ⟨hsame, hrestarts, hnull⟩ := Client.removeConnection_fields hremove
    obtain ⟨w₁, io₁, hword, hreach⟩ := reaches_closure cfg a io c conn hopen hidle
    obtain ⟨io₂, hback⟩ := returns cfg a io₁ c' conn hword
    exact ⟨_, (hreach.trans (Steps.closure hremove (hsame.trans hcallback))).trans hback, rfl, rfl, rfl,
      hnull.mpr fun h => (hattempt h).2, hrestarts⟩

/-- A client with a connection that retries; `serverfd` 5 has no `Channel` yet. -/
def connectedClient (closeCallback : Bool) : Client :=
  { closeCallback := closeCallback, retry := true, connect := true, enableSsl := false, connection := some 1,
    nextConnId := 2, connector := { Connector.init with connect := true, state := .connected }, locked := false,
    restarts := 0 }

/-- The next attempt is under way when `::connect` returns. -/
def pendingAttempt : Attempt := ⟨5, .einprogress, .wantRead⟩

/-- `handle_ep_hup` of its connection. -/
def lost (ssl closeCallback : Bool) : Closing :=
  .enter Phase.idle.word (Conn.init Unit false false ssl fun _ => 0).io (connectedClient closeCallback) 1

theorem client_closes_cleanly_plain : ClosesCleanly plainConfig pendingAttempt (lost false true) :=
  (client_closes_cleanly plainConfig pendingAttempt .idle (Conn.init Unit false false false fun _ => 0).io
    (connectedClient true) 1 (by decide) rfl).mpr
    ⟨rfl, rfl, fun h => (by cases h), fun _ => ⟨⟨rfl, by decide⟩, by decide⟩⟩

/-- Without a close callback the exception leaves `handle_ep_hup`, and in the TLS class the connection does not
become `Disconnected`. -/
theorem unset_callback_throws :
    (∃ s, Steps plainConfig pendingAttempt (lost false false) s ∧ s.threw = true) ∧
      (∃ s, Steps sslConfig pendingAttempt (lost true false) s ∧ s.threw = true ∧ s.word = Phase.unused.word) ∧
      ¬ClosesCleanly plainConfig pendingAttempt (lost false false) := by
  refine ⟨⟨_, ⟨List.replicate 6 (), rfl⟩, rfl⟩, ⟨_, ⟨List.replicate 8 (), rfl⟩, rfl, rfl⟩, ?_⟩
  rintro ⟨s, hsteps, hframes, hthrew, -⟩
  have hthrown : Steps plainConfig pendingAttempt (lost false false) _ := ⟨List.replicate 6 (), rfl⟩
  rw [hsteps.unique hthrown (step_returned hframes) rfl] at hthrew
  cases hthrew

end KwNet.TcpClient
