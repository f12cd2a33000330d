import Mathlib

/-!
# The channel of a connection and the kernel behind it

`Channel` (`basics/Channel.cpp`) keeps the interest of one descriptor and passes it to epoll through
`Epoller::updateChannel`; every registration is edge triggered.  `Kernel` is the environment: the
socket, its place in the epoll interest set and the readiness that edge-triggered polling reports.

A writable edge becomes pending in two ways only:

* an `epoll_ctl` ADD or MOD that includes `EPOLLOUT` while the socket is writable (`Kernel.ctl`);
* space becoming free after a write was refused with would-block (`Kernel.space`), when the interest
  includes `EPOLLOUT`.

What `write`/`SSL_write` answers is chosen by the environment (`WriteOutcome`), within the bounds of
`WriteOutcome.admissible`.
-/

namespace KwNet.Tcp

/-- The `listen_events` of a channel: `READ_EVENT` and `WRITE_EVENT`. -/
structure Interest where
  read : Bool
  write : Bool
  deriving DecidableEq, Repr

def Interest.none : Interest := ⟨false, false⟩

/-- The socket and its registration, as the kernel has them. -/
structure Kernel where
  /-- The descriptor still belongs to this connection. -/
  isOpen : Bool
  /-- The registration in the epoll instance. -/
  interest : Option Interest
  writable : Bool
  /-- A writable edge waits for the next `epoll_wait`. -/
  edge : Bool
  /-- A write was refused and no space has become free since. -/
  armed : Bool
  /-- The most recent write was refused with would-block. -/
  lastRefused : Bool
  deriving DecidableEq, Repr

/-- The `op` of `epoll_ctl`. -/
inductive CtlOp where
  | add
  | mod
  | del
  deriving DecidableEq, Repr

namespace Kernel

/-- `epoll_ctl`; on a descriptor that is closed it fails and changes nothing here. -/
def ctl (k : Kernel) (op : CtlOp) (ev : Interest) : Kernel :=
  if k.isOpen then
    match op with
    | .add | .mod =>
      { k with interest := some ev, edge := ev.write && (k.edge || k.writable) }
    | .del => { k with interest := none, edge := false }
  else k

/-- The interest set includes `EPOLLOUT`. -/
def listensWrite (k : Kernel) : Bool :=
  match k.interest with
  | some ev => ev.write
  | none => false

/-- Space becomes free in the socket's send buffer. -/
def space (k : Kernel) : Kernel :=
  { k with writable := true, edge := k.edge || (k.armed && k.listensWrite), armed := false }

/-- `close(fd)`: the descriptor leaves the epoll instance with its last reference. -/
def close (k : Kernel) : Kernel := { k with isOpen := false, interest := none, edge := false }

end Kernel

/-- What `getSocketError`/`SSL_get_error` reports after a failed call: `EAGAIN` or
`SSL_ERROR_WANT_WRITE`, `EINTR`, `SSL_ERROR_WANT_READ`, or anything else. -/
inductive Err where
  | wouldBlock
  | interrupted
  | wantRead
  | fault
  deriving DecidableEq, Repr

/-- The answer to one `write`/`SSL_write`. -/
structure WriteOutcome where
  ret : ℤ
  /-- The error read afterwards. -/
  err : Err
  /-- The kernel refused the bytes with would-block. -/
  refused : Bool
  /-- The accepted bytes filled the send buffer. -/
  full : Bool
  deriving DecidableEq, Repr

/-- The answers `write(fd, _, count)` can give: at most `count` bytes are taken, some only from a
writable socket, and would-block is reported only for a write that was refused. -/
def WriteOutcome.admissible (o : WriteOutcome) (k : Kernel) (count : ℕ) : Bool :=
  decide (-1 ≤ o.ret) && decide (o.ret ≤ count) &&
    (decide (o.ret ≤ 0) || !k.isOpen || k.writable && !o.refused) &&
    (decide (0 < o.ret) || o.err != .wouldBlock || o.refused)

/-- The socket after a `write`; a write to a descriptor that is closed does not concern it. -/
def Kernel.write (k : Kernel) (o : WriteOutcome) : Kernel :=
  if k.isOpen then
    if o.refused then { k with writable := false, edge := false, armed := true, lastRefused := true }
    else { k with writable := k.writable && !o.full, lastRefused := false }
  else k

/-- `Channel`.  `added` is `idx == ch_added`; `callbacks` says whether the event callbacks are set. -/
structure Channel where
  listen : Interest
  added : Bool
  tied : Bool
  isIoChannel : Bool
  callbacks : Bool
  deriving DecidableEq, Repr

namespace Channel

def isWriting (c : Channel) : Bool := c.listen.write

def isReading (c : Channel) : Bool := c.listen.read

/-- `Epoller::updateChannel` with `Epoller::update`, for a channel its loop knows.  (With an empty
interest the `epoll_event` of an ADD is left uninitialised; it is taken as empty.) -/
def updateChannel (c : Channel) (k : Kernel) : Channel × Kernel :=
  if !c.added then ({ c with added := true }, k.ctl .add c.listen)
  else if c.listen = .none then ({ c with added := false, tied := false }, k.ctl .del c.listen)
  else (c, k.ctl .mod c.listen)

def enableRead (c : Channel) : Kernel → Channel × Kernel :=
  updateChannel { c with listen := { c.listen with read := true } }

def enableWrite (c : Channel) : Kernel → Channel × Kernel :=
  updateChannel { c with listen := { c.listen with write := true } }

def disableRead (c : Channel) : Kernel → Channel × Kernel :=
  updateChannel { c with listen := { c.listen with read := false } }

def disableWrite (c : Channel) : Kernel → Channel × Kernel :=
  updateChannel { c with listen := { c.listen with write := false } }

def disableAll (c : Channel) : Kernel → Channel × Kernel :=
  updateChannel { c with listen := .none }

/-- `reset_callbacks` and `reset_listen_events`. -/
def reset (c : Channel) : Channel := { c with callbacks := false, listen := .none }

end Channel

end KwNet.Tcp
