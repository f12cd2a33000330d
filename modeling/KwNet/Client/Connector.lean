import Mathlib

/-!
# `Connector`

`Connector.cpp` on its loop thread, with `start` and `stop` called from any thread, the retry timers, the
answers of the kernel and the callback `TcpClient::newConnection`.

* `connect_`, `state_` and `channel_` are the fields of the source.  A channel is addressed by its
  descriptor, as in the poller's `m_channels`; `channels` says whether the `Channel` there is alive or has
  been deleted behind the poller's back.
* A socket has a number of its own besides its descriptor, since the kernel hands out closed descriptors
  again; `closed` and `passed` record what happened to each socket.
* `startInLoop` and `connect` look at `connect_` one after the other and `stop` may come between, so they
  are two steps (`calling`).
* A failed assertion is recorded and the run goes on, as in a build without assertions.  The use of a
  deleted `Channel` is undefined: no step.

`newConnectionCallback_` is the one of `TcpClient`: without TLS it makes a connection on `channel_` and calls
`resetChannel`; with TLS it starts a handshake, and calls `resetChannel` when that has succeeded.  `start` is
called only in state `Disconnected` with no retry pending.
-/

namespace KwNet.Connector

inductive Status where
  | disconnected
  | connecting
  | connected
  deriving DecidableEq, Repr

/-- `errno` after `connect`, 0 for success. -/
inductive Errno where
  | zero
  | einprogress
  | eintr
  | eisconn
  | eagain
  | eaddrinuse
  | eaddrnotavail
  | econnrefused
  | enetunreach
  | eacces
  | eperm
  | eafnosupport
  | ealready
  | ebadf
  | efault
  | enotsock
  | other
  deriving DecidableEq, Repr

/-- The branches of the switch in `connect`. -/
inductive Branch where
  | established
  | connecting
  | retry
  | close
  deriving DecidableEq, Repr

def Errno.branch : Errno → Branch
  | .zero => .established
  | .einprogress => .connecting
  | .eintr => .connecting
  | .eisconn => .connecting
  | .eagain => .retry
  | .eaddrinuse => .retry
  | .eaddrnotavail => .retry
  | .econnrefused => .retry
  | .enetunreach => .retry
  | .eacces => .close
  | .eperm => .close
  | .eafnosupport => .close
  | .ealready => .close
  | .ebadf => .close
  | .efault => .close
  | .enotsock => .close
  | .other => .close

def maxRetryDelayMs : ℕ := 30 * 1000

def initRetryDelayMs : ℕ := 500

structure State where
  connect : Bool
  state : Status
  /-- `channel_`, by the descriptor of its `Channel`. -/
  channel : Option ℕ
  retryDelayMs : ℕ
  /-- The delays of the retry timers that have not fired. -/
  timers : List ℕ
  /-- `startInLoop` functors that wait. -/
  starts : ℕ
  /-- `stopInLoop` functors that wait. -/
  stops : ℕ
  /-- `startInLoop` has seen `connect_` set and calls `connect`. -/
  calling : Bool
  /-- The handshake that `newConnectionCallback_` started goes on. -/
  handshaking : Bool
  /-- `m_channels`: whether the `Channel` of a descriptor is alive or deleted. -/
  channels : ℕ → Option Bool
  /-- The callbacks set in the channel are the connector's. -/
  callbacks : ℕ → Bool
  isOpen : ℕ → Bool
  /-- The socket a descriptor was last handed out for. -/
  sock : ℕ → ℕ
  /-- Sockets created. -/
  created : ℕ
  /-- The sockets `::close` was called for, by the connector or by `~Channel`. -/
  closed : List ℕ
  /-- The sockets given to `newConnectionCallback_`. -/
  passed : List ℕ
  /-- An assertion of the connector has failed. -/
  assertFailed : Bool

def init : State where
  connect := false
  state := .disconnected
  channel := none
  retryDelayMs := initRetryDelayMs
  timers := []
  starts := 0
  stops := 0
  calling := false
  handshaking := false
  channels := fun _ => none
  callbacks := fun _ => false
  isOpen := fun _ => false
  sock := fun _ => 0
  created := 0
  closed := []
  passed := []
  assertFailed := false

/-- `assert(p)`. -/
def State.assert (s : State) (p : Bool) : State :=
  if p then s else { s with assertFailed := true }

/-- `::close`. -/
def State.close (s : State) (fd : ℕ) : State :=
  { s with isOpen := Function.update s.isOpen fd false, closed := s.closed ++ [s.sock fd] }

/-- `channel_` refers to a `Channel` that is alive. -/
def State.usable (s : State) : Bool :=
  match s.channel with
  | some fd => s.channels fd == some true
  | none => false

/-- `delete channel_`: nothing for the null pointer; `~Channel` closes the descriptor.  The pointer is
kept, in `channel_` and in the poller. -/
def State.deleteChannel (s : State) : Option State :=
  match s.channel with
  | none => some s
  | some fd =>
    if s.usable then
      some ({ s with channels := Function.update s.channels fd (some false) }.close fd)
    else none

/-- `retry`. -/
def State.retry (s : State) (serverfd : ℕ) : Option State :=
  ({ s.close serverfd with state := .disconnected }.deleteChannel).map fun s : State =>
    if s.connect then
      { s with
        timers := s.timers ++ [s.retryDelayMs]
        retryDelayMs := min (s.retryDelayMs * 2) maxRetryDelayMs }
    else s

/-- `channel_ = loop_->add_channel(serverfd)`. -/
def State.addChannel (s : State) (serverfd : ℕ) : State :=
  { s with
    channel := some serverfd
    channels := match s.channels serverfd with
      | none => Function.update s.channels serverfd (some true)
      | some _ => s.channels }

/-- `newConnectionCallback_`; `tls` says whether the client has TLS enabled. -/
def State.newConnectionCallback (tls : Bool) (s : State) (fd : ℕ) : State :=
  let s := { s with
    passed := s.passed ++ [s.sock fd]
    callbacks := Function.update s.callbacks fd false }
  if tls then { s with handshaking := true } else { s with channel := none }

/-- The established branch of `connect` and of `check_whether_connected`. -/
def State.established (tls : Bool) (s : State) (fd : ℕ) : State :=
  let s := { s with state := .connected }
  if s.connect then s.newConnectionCallback tls fd else s.close fd

/-- `connecting`. -/
def State.connecting (s : State) (serverfd : ℕ) : State :=
  let s := s.assert s.channel.isNone
  let s := { s with state := .connecting }.addChannel serverfd
  { s with callbacks := Function.update s.callbacks serverfd true }

/-- `createNonblockingOrDie`, which `connect` begins with: the kernel hands out `serverfd`. -/
def State.socket (s : State) (serverfd : ℕ) : State :=
  { s with
    calling := false
    isOpen := Function.update s.isOpen serverfd true
    sock := Function.update s.sock serverfd s.created
    created := s.created + 1 }

/-- `connect`, whose call of `::connect` ends with `errno`. -/
def State.callConnect (tls : Bool) (s : State) (serverfd : ℕ) (errno : Errno) : Option State :=
  let s := s.socket serverfd
  match errno.branch with
  | .established =>
    let s := s.addChannel serverfd
    if s.usable then some (s.established tls serverfd) else none
  | .connecting =>
    let s := s.connecting serverfd
    if s.usable then some s else none
  | .retry => s.retry serverfd
  | .close => some (s.close serverfd)

/-- `startInLoop`, up to the call of `connect`. -/
def State.startInLoop (s : State) : State :=
  let s := s.assert (s.state = .disconnected)
  if s.connect then { s with calling := true } else s

/-- `restart`. -/
def State.restart (s : State) : State :=
  State.startInLoop { s with
    state := .disconnected
    retryDelayMs := initRetryDelayMs
    connect := true }

/-- `stopInLoop`. -/
def State.stopInLoop (s : State) : Option State :=
  if s.state = .connecting then
    match s.channel with
    | some fd => if s.usable then { s with state := .disconnected }.retry fd else none
    | none => none
  else some s

/-- `check_whether_connected`: `failed` says whether `SO_ERROR` is set, `selfConnect` what `isSelfConnect`
answers.  Only the handshake ties the channel. -/
def State.checkWhetherConnected (tls : Bool) (s : State) (failed selfConnect : Bool) : Option State :=
  match s.channel with
  | none => none
  | some fd =>
    if s.usable then
      if s.state = .connecting then
        if failed || selfConnect then s.retry fd else some (s.established tls fd)
      else if s.state = .connected ∧ s.handshaking then some s
      else some (s.assert (s.state = .disconnected))
    else none

/-- `handle_err`. -/
def State.handleErr (s : State) : Option State :=
  if s.state = .connecting then
    match s.channel with
    | some fd => if s.usable then s.retry fd else none
    | none => none
  else some s

inductive Action where
  /-- `start` is called, on the loop's thread or on another. -/
  | start (inLoop : Bool)
  /-- `stop` is called. -/
  | stop
  | restart
  /-- A functor of `start`. -/
  | startFunctor
  /-- A functor of `stop`. -/
  | stopFunctor
  /-- The retry timer at position `i` fires. -/
  | timer (i : ℕ)
  | callConnect (serverfd : ℕ) (errno : Errno)
  /-- `EPOLLOUT` on the channel of `fd`. -/
  | out (fd : ℕ) (failed selfConnect : Bool)
  /-- `EPOLLERR` on the channel of `fd`. -/
  | err (fd : ℕ)
  /-- The handshake of the connection ends. -/
  | handshake (ok : Bool)
  /-- A descriptor that was handed over is closed by its connection. -/
  | connectionClosed (fd : ℕ)
  deriving DecidableEq, Repr

/-- The events of a channel reach the connector. -/
def State.hears (s : State) (fd : ℕ) : Bool :=
  s.isOpen fd && s.callbacks fd && (s.channels fd == some true)

def step (tls : Bool) (s : State) : Action → Option State
  | .start inLoop =>
    if s.state = .disconnected ∧ s.timers = [] then
      let s := { s with connect := true }
      if inLoop then (if s.calling then none else some s.startInLoop)
      else some { s with starts := s.starts + 1 }
    else none
  | .stop => some { s with connect := false, stops := s.stops + 1 }
  | .restart => if s.calling then none else some s.restart
  | .startFunctor =>
    if s.calling = false ∧ 0 < s.starts then
      some (State.startInLoop { s with starts := s.starts - 1 })
    else none
  | .stopFunctor =>
    if s.calling = false ∧ 0 < s.stops then
      State.stopInLoop { s with stops := s.stops - 1 }
    else none
  | .timer i =>
    if s.calling = false ∧ i < s.timers.length then
      some (State.startInLoop { s with timers := s.timers.eraseIdx i })
    else none
  | .callConnect serverfd errno =>
    if s.calling = true ∧ s.isOpen serverfd = false then s.callConnect tls serverfd errno else none
  | .out fd failed selfConnect =>
    if s.calling = false ∧ s.hears fd then s.checkWhetherConnected tls failed selfConnect else none
  | .err fd => if s.calling = false ∧ s.hears fd then s.handleErr else none
  | .handshake ok =>
    if s.calling = false ∧ s.handshaking then
      some (if ok then { s with handshaking := false, channel := none }
        else { s with handshaking := false })
    else none
  | .connectionClosed fd =>
    if s.isOpen fd ∧ s.callbacks fd = false then
      some { s with isOpen := Function.update s.isOpen fd false }
    else none

end KwNet.Connector
