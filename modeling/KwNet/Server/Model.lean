import Mathlib
import KwNet.Lib.SortedMap

/-!
# `TcpServer`: accepting, closing and the map of connections

`TcpServer.cpp` with what it uses of `Acceptor.cpp` and `TcpConnection.cpp`.  The acceptor, the map
`connections_` and the signal handler belong to one loop, the server's own; every connection belongs to
one loop, the server's own or another of its pool.

* `Acceptor::handleRead` is entered once for a wake-up and accepts until `k` has fallen to `-32`.  The
  `InetAddr` it allocates is an object of `heap`; a connection keeps the pointer.
* A loop calls one handler or functor at a time, so each is one step.  Which loop moves, which client
  connects and which connection closes is chosen by the action, and so is the loop `getNextLoop` returns.
* `pending` holds the functors of each loop in order.  Other users of the loops fill the bounded queue too,
  so whether a `push` finds room before it gives up is chosen by the action.
* Events reach a connection only after `connectEstablished` has enabled its channel, and a call on an
  object that is destroyed is not a step.

Logging, the local address and the callbacks of the user are left out, `EventloopThreadPool::stop` does
nothing.
-/

namespace KwNet.Server

open KwNet.Lib

/-- `sockaddr_in`. -/
structure SockAddr where
  family : BitVec 16
  port : BitVec 16
  addr : BitVec 32
  deriving DecidableEq, Repr

/-- `TcpConnection::state_`, as far as opening and closing go. -/
inductive Status where
  | connecting
  | connected
  | disconnected
  deriving DecidableEq, Repr

/-- A loop: `none` is the server's own `loop_`, the others are the pool's. -/
abbrev LoopId (ι : Type) := Option ι

/-- A `TcpConnection` made by `newConnection`.  The last two fields are history. -/
structure Conn (ι : Type) where
  name : String
  ioLoop : LoopId ι
  sockfd : ℕ
  /-- The pointer `peerAddr_`. -/
  peerAddr : ℕ
  state : Status
  /-- The last `shared_ptr` is gone. -/
  destroyed : Bool
  /-- What the `accept` call of this connection returned. -/
  accepted : SockAddr
  /-- The call of `handleRead` that accepted it. -/
  call : ℕ
  deriving DecidableEq, Repr

/-- `state_` is stored. -/
def Conn.setState {ι : Type} (c : Conn ι) (state : Status) : Conn ι := { c with state := state }

/-- What the server and its connections give to `runInLoop`.  A connection is named by the value
`nextConnId_` had when it was made. -/
inductive Functor where
  /-- Captures the `shared_ptr`. -/
  | connectEstablished (id : ℕ)
  /-- Captures `this`. -/
  | forceCloseInLoop (id : ℕ)
  /-- Captures the `shared_ptr`. -/
  | removeConnectionInLoop (id : ℕ)
  deriving DecidableEq, Repr

/-- What ends a run. -/
inductive Fault where
  /-- `assert(n == 1)` in `removeConnectionInLoop`. -/
  | assertFailed
  /-- `++` on an iterator whose entry was erased. -/
  | erasedIterator
  deriving DecidableEq, Repr

/-- A call of `handleRead` that is going on: its `peerAddr` and `k`, and its number. -/
structure Accepting where
  peerAddr : ℕ
  k : ℤ
  call : ℕ
  deriving DecidableEq, Repr

/-- `name_` and `ipPort_`. -/
structure Config where
  name : String
  ipPort : String

/-- `connName`; an address and an `int` fit into `buf`. -/
def Config.connName (cfg : Config) (id : ℕ) : String :=
  cfg.name ++ "-" ++ cfg.ipPort ++ "#" ++ id.repr

structure State (ι : Type) where
  /-- The `InetAddr` objects. -/
  heap : ℕ → SockAddr
  /-- The address of the next `new InetAddr`. -/
  next : ℕ
  /-- The server's loop is in `handleRead`. -/
  accepting : Option Accepting
  listening : Bool
  quit : Bool
  nextConnId : ℕ
  conns : ℕ → Option (Conn ι)
  /-- `connections_`. -/
  connections : SortedMap String ℕ
  pending : LoopId ι → List Functor
  fault : Option Fault
  /-- Calls of `handleRead` (history). -/
  calls : ℕ
  /-- The connections `connections_.erase` has removed, oldest first (history). -/
  erased : List ℕ

/-- A server that listens. -/
def State.init (ι : Type) : State ι where
  heap := fun _ => ⟨0, 0, 0⟩
  next := 0
  accepting := none
  listening := true
  quit := false
  nextConnId := 1
  conns := fun _ => none
  connections := .empty
  pending := fun _ => []
  fault := none
  calls := 0
  erased := []

variable {ι : Type} [DecidableEq ι]

/-- The connection `id`, as long as it is not destroyed. -/
def State.conn? (s : State ι) (id : ℕ) : Option (Conn ι) :=
  (s.conns id).filter fun c => !c.destroyed

def State.setConn (s : State ι) (id : ℕ) (c : Conn ι) : State ι :=
  { s with conns := Function.update s.conns id (some c) }

/-- `peerAddress()`, read through the pointer. -/
def State.peerAddress (s : State ι) (c : Conn ι) : SockAddr := s.heap c.peerAddr

/-- `queueInLoop`; `room` says whether `push` found room. -/
def State.queueInLoop (s : State ι) (l : LoopId ι) (f : Functor) (room : Bool) : State ι :=
  if room then { s with pending := Function.update s.pending l (s.pending l ++ [f]) } else s

/-- `connections_.erase(name)`. -/
def State.erase (s : State ι) (name : String) : State ι :=
  match s.connections.find? name with
  | some id => { s with connections := s.connections.erase name, erased := s.erased ++ [id] }
  | none => s

/-! ### closing -/

def State.removeConnectionInLoop (s : State ι) (c : Conn ι) : State ι :=
  match s.connections.find? c.name with
  | some _ => s.erase c.name
  | none => { s with fault := some .assertFailed }

/-- `removeConnection`, called on the loop of the connection. -/
def State.removeConnection (s : State ι) (id : ℕ) (c : Conn ι) (room : Bool) : State ι :=
  match c.ioLoop with
  | none => s.removeConnectionInLoop c
  | some _ => s.queueInLoop none (.removeConnectionInLoop id) room

/-- `TcpConnection::handle_ep_hup` and the `closeCallback_` the server has set. -/
def State.handleEpHup (s : State ι) (id : ℕ) (c : Conn ι) (room : Bool) : State ι :=
  if c.state = .disconnected then s
  else
    (s.setConn id (c.setState .disconnected)).removeConnection id c room

/-- `TcpConnection::forceCloseInLoop`: `set_unused` waits as long as the connection is `Connecting`. -/
def State.forceCloseInLoop (s : State ι) (id : ℕ) (c : Conn ι) (room : Bool) : Option (State ι) :=
  if c.state = .connecting then none else some (s.handleEpHup id c room)

/-- `TcpConnection::forceClose`; `inLoop` says whether the caller is the connection's loop. -/
def State.forceClose (s : State ι) (id : ℕ) (c : Conn ι) (inLoop room : Bool) : Option (State ι) :=
  if inLoop then s.forceCloseInLoop id c room
  else some (s.queueInLoop c.ioLoop (.forceCloseInLoop id) room)

/-! ### accepting -/

/-- `TcpConnection::connectEstablished`. -/
def State.connectEstablished (s : State ι) (id : ℕ) (c : Conn ι) : State ι :=
  s.setConn id (c.setState .connected)

/-- What `new TcpConnection` makes of its arguments. -/
def Conn.make (name : String) (ioLoop : LoopId ι) (sockfd peerAddr : ℕ) (accepted : SockAddr)
    (call : ℕ) : Conn ι where
  name := name
  ioLoop := ioLoop
  sockfd := sockfd
  peerAddr := peerAddr
  state := .connecting
  destroyed := false
  accepted := accepted
  call := call

/-- `TcpServer::newConnection` for the connection `c`. -/
def State.newConnection (s : State ι) (c : Conn ι) (room : Bool) : State ι :=
  let id := s.nextConnId
  let s := { s.setConn id c with
    nextConnId := id + 1
    connections := s.connections.set c.name id }
  match c.ioLoop with
  | none => s.connectEstablished id c
  | some _ => s.queueInLoop c.ioLoop (.connectEstablished id) room

/-- `Socket::accept`: only a call that succeeds sets the address. -/
def State.setSockAddr (s : State ι) (peerAddr : ℕ) (addr : SockAddr) : State ι :=
  { s with heap := Function.update s.heap peerAddr addr }

/-- `handleRead` is called. -/
def State.handleRead (s : State ι) : State ι :=
  { s with
    next := s.next + 1
    accepting := some ⟨s.next, 0, s.calls + 1⟩
    calls := s.calls + 1 }

/-- One turn of the loop of `handleRead`.  `res` is what `accept` returns: the descriptor and the address
of the client, or an error; the switch over `errno` only logs. -/
def State.acceptTurn (cfg : Config) (s : State ι) (acc : Accepting) (res : Option (ℕ × SockAddr))
    (ioLoop : LoopId ι) (room : Bool) : State ι :=
  match res with
  | some (connfd, addr) =>
    let s := s.setSockAddr acc.peerAddr addr
    let s := { s with accepting := some { acc with k := acc.k + 1 } }
    s.newConnection
      (Conn.make (cfg.connName s.nextConnId) ioLoop connfd acc.peerAddr addr acc.call) room
  | none =>
    if acc.k - 1 = -32 then { s with accepting := none }
    else { s with accepting := some { acc with k := acc.k - 1 } }

/-! ### SIGINT -/

/-- The loop of `handle_sig_int`.  The list holds the entry the iterator is at and those behind it, which
the body leaves alone. -/
def State.sigIntLoop (room : ℕ → Bool) : List (String × ℕ) → State ι → Option (State ι)
  | [], s => some s
  | (name, id) :: rest, s =>
    (s.conn? id).bind fun c =>
      (s.forceClose id c c.ioLoop.isNone (room id)).bind fun s =>
        let s := s.erase name
        if s.fault.isSome then some s
        else if name ∈ s.connections.keys then State.sigIntLoop room rest s
        else some { s with fault := some .erasedIterator }

/-- `TcpServer::handle_sig_int`. -/
def State.handleSigInt (s : State ι) (room : ℕ → Bool) : Option (State ι) :=
  let s := { s with listening := false }
  (State.sigIntLoop room s.connections.entries s).map fun s =>
    if s.fault.isSome then s else { s with quit := true }

/-! ### the system -/

inductive Action (ι : Type) where
  | handleRead
  | accept (res : Option (ℕ × SockAddr)) (ioLoop : LoopId ι) (room : Bool)
  /-- The loop `l` calls its next functor. -/
  | functor (l : LoopId ι) (room : Bool)
  /-- An event closes the connection `id`. -/
  | hup (id : ℕ) (room : Bool)
  /-- The user calls `forceClose`. -/
  | forceClose (id : ℕ) (inLoop room : Bool)
  | sigInt (room : ℕ → Bool)
  /-- The last `shared_ptr` to the connection `id` goes. -/
  | destroy (id : ℕ)

/-- The functor `f`, called on its loop. -/
def State.call (s : State ι) (f : Functor) (room : Bool) : Option (State ι) :=
  match f with
  | .connectEstablished id => (s.conn? id).map fun c => s.connectEstablished id c
  | .forceCloseInLoop id => (s.conn? id).bind fun c => s.forceCloseInLoop id c room
  | .removeConnectionInLoop id => (s.conn? id).map fun c => s.removeConnectionInLoop c

/-- A `shared_ptr` of the server or of a functor refers to the connection `c`. -/
def State.Holds (s : State ι) (id : ℕ) (c : Conn ι) : Prop :=
  id ∈ s.connections.entries.map Prod.snd ∨ Functor.connectEstablished id ∈ s.pending c.ioLoop ∨
    Functor.removeConnectionInLoop id ∈ s.pending none

instance (s : State ι) (id : ℕ) (c : Conn ι) : Decidable (s.Holds id c) := by
  unfold State.Holds
  infer_instance

/-- The loop `l` is not in the middle of `handleRead`. -/
def State.free (s : State ι) (l : LoopId ι) : Bool := l.isSome || s.accepting.isNone

def State.move (cfg : Config) (s : State ι) : Action ι → Option (State ι)
  | .handleRead => if s.free none then some s.handleRead else none
  | .accept res ioLoop room => s.accepting.map fun acc => s.acceptTurn cfg acc res ioLoop room
  | .functor l room =>
    if s.free l then
      match s.pending l with
      | f :: fs => State.call { s with pending := Function.update s.pending l fs } f room
      | [] => none
    else none
  | .hup id room =>
    (s.conn? id).bind fun c =>
      if s.free c.ioLoop ∧ c.state ≠ .connecting then some (s.handleEpHup id c room) else none
  | .forceClose id inLoop room => (s.conn? id).bind fun c => s.forceClose id c inLoop room
  | .sigInt room => if s.free none then s.handleSigInt room else none
  | .destroy id =>
    (s.conn? id).bind fun c =>
      if s.Holds id c then none else some (s.setConn id { c with destroyed := true })

def step (cfg : Config) (s : State ι) (a : Action ι) : Option (State ι) :=
  if s.fault.isSome then none else s.move cfg a

end KwNet.Server
