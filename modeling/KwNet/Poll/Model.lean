import Mathlib

/-!
# The channels of a loop and its epoll instance

`Poller` (`basics/Poller.cpp`) keeps the channels of a loop in `m_channels`, one for each descriptor;
`Channel` (`basics/Channel.cpp`) keeps the events it listens for.  Each `Enable*` and `Disable*` changes
`listen_events` and calls `Epoller::updateChannel`, which picks the operation for `epoll_ctl` by the
channel's `idx` and fills the `epoll_event` only when `listen_events` is not zero.

A channel is addressed by its descriptor; `addr` is the pointer `new Channel` returned, which is what
`data.ptr` holds.  What an `epoll_event` on the stack contains before it is filled is chosen by the
environment.  Descriptors stay open, so the kernel changes its interest set in `epoll_ctl` only.
-/

namespace KwNet.Poll

/-- A set of epoll events. -/
abbrev Mask := BitVec 32

def epollIn : Mask := 0x001
def epollPri : Mask := 0x002
def epollOut : Mask := 0x004
def epollRdhup : Mask := 0x2000
def epollEt : Mask := 0x80000000

/-- `Channel::READ_EVENT`. -/
def readEvent : Mask := epollIn ||| epollPri

/-- `Channel::WRITE_EVENT`. -/
def writeEvent : Mask := epollOut

/-- `Channel::idx`: `ch_extern`, `ch_added`, `ch_deleted`. -/
inductive Index where
  | chExtern
  | chAdded
  | chDeleted
  deriving DecidableEq, Repr

structure Channel where
  addr : ℕ
  idx : Index
  listenEvents : Mask
  tied : Bool
  deriving DecidableEq, Repr

/-- `struct epoll_event`; `data` is the pointer in it. -/
structure EpollEvent where
  events : Mask
  data : ℕ
  deriving DecidableEq, Repr

inductive CtlOp where
  | add
  | mod
  | del
  deriving DecidableEq, Repr

/-- A call of `epoll_ctl`: its event, `none` where the code has not filled it, and whether the call
succeeded. -/
structure Ctl where
  op : CtlOp
  fd : ℕ
  event : Option EpollEvent
  ok : Bool
  deriving DecidableEq, Repr

structure State where
  /-- `m_channels`. -/
  channels : ℕ → Option Channel
  /-- The interest set of the epoll instance. -/
  interest : ℕ → Option EpollEvent
  /-- The address of the next `new Channel`. -/
  next : ℕ
  /-- The calls of `epoll_ctl`, oldest first. -/
  issued : List Ctl

def init : State where
  channels := fun _ => none
  interest := fun _ => none
  next := 0
  issued := []

/-- `epoll_ctl` in the kernel: ADD of a descriptor that is present fails, and so do MOD and DEL of one
that is absent. -/
def epollCtl (interest : ℕ → Option EpollEvent) (op : CtlOp) (fd : ℕ) (ev : EpollEvent) :
    Option (ℕ → Option EpollEvent) :=
  match op, interest fd with
  | .add, none => some (Function.update interest fd (some ev))
  | .mod, some _ => some (Function.update interest fd (some ev))
  | .del, some _ => some (Function.update interest fd none)
  | _, _ => none

/-- The event `Epoller::update` fills in. -/
def Channel.event (ch : Channel) : Option EpollEvent :=
  if ch.listenEvents = 0 then none
  else some ⟨ch.listenEvents ||| epollEt ||| epollRdhup, ch.addr⟩

/-- `Epoller::update`; `stack` is what the event holds before it is filled. -/
def update (s : State) (op : CtlOp) (fd : ℕ) (ch : Channel) (stack : EpollEvent) : State :=
  match epollCtl s.interest op fd (ch.event.getD stack) with
  | some interest =>
    { s with interest := interest, issued := s.issued ++ [⟨op, fd, ch.event, true⟩] }
  | none => { s with issued := s.issued ++ [⟨op, fd, ch.event, false⟩] }

/-- The channel of `fd`. -/
def State.setChannel (s : State) (fd : ℕ) (ch : Channel) : State :=
  { s with channels := Function.update s.channels fd (some ch) }

/-- `Epoller::updateChannel` for the channel `ch` of `m_channels[fd]`.  A channel that came from outside
must not be in `m_channels` yet: the assertion fails. -/
def updateChannel (s : State) (fd : ℕ) (ch : Channel) (stack : EpollEvent) : Option State :=
  match ch.idx with
  | .chDeleted =>
    let ch := { ch with idx := .chAdded }
    some (update (s.setChannel fd ch) .add fd ch stack)
  | .chExtern => none
  | .chAdded =>
    if ch.listenEvents = 0 then
      let ch := { ch with idx := .chDeleted, tied := false }
      some (update (s.setChannel fd ch) .del fd ch stack)
    else some (update (s.setChannel fd ch) .mod fd ch stack)

/-- The calls that change what a channel listens for. -/
inductive Call where
  | enableRead
  | enableWrite
  | disableRead
  | disableWrite
  | disableAll
  deriving DecidableEq, Repr

/-- `listen_events` after the call. -/
def Call.listen : Call → Mask → Mask
  | .enableRead, m => m ||| readEvent
  | .enableWrite, m => m ||| writeEvent
  | .disableRead, m => m &&& ~~~readEvent
  | .disableWrite, m => m &&& ~~~writeEvent
  | .disableAll, _ => 0

/-- `Poller::add_channel`: a descriptor that has a channel keeps it. -/
def addChannel (s : State) (fd : ℕ) : State :=
  match s.channels fd with
  | none => { s.setChannel fd ⟨s.next, .chDeleted, 0, false⟩ with next := s.next + 1 }
  | some _ => s

inductive Action where
  | addChannel (fd : ℕ)
  /-- `tie_`, by the owner of the channel. -/
  | tie (fd : ℕ)
  | call (fd : ℕ) (f : Call) (stack : EpollEvent)
  deriving DecidableEq, Repr

def step (s : State) : Action → Option State
  | .addChannel fd => some (addChannel s fd)
  | .tie fd => (s.channels fd).map fun ch => s.setChannel fd { ch with tied := true }
  | .call fd f stack =>
    (s.channels fd).bind fun ch =>
      updateChannel s fd { ch with listenEvents := f.listen ch.listenEvents } stack

end KwNet.Poll
