import KwNet.Poll.Model

/-!
# One wake-up of a loop: `activeChannels` and `Channel::HandleEvent`

`EventLoop::Loop` hands the channels `epoll_wait` reported to `HandleEvent`, one after another; the
callbacks called there, and the functors run between two wake-ups, close connections, create others and
call `Enable*` and `Disable*` on any channel of the loop.

* `Slot` is what a `Channel` object has beside its registration: its ready events, its two flags and whose
  callbacks are set in it.  A channel is addressed by its descriptor, since `Poller` keeps one for each.
* `plan` lists the callbacks `HandleEvent_tied` tries for a mask, and whether it returns early.
* `Loop.active` is the rest of `activeChannels`, with the object each event was collected for (history).

What a callback does is left open: between two callbacks any of the other actions may come, from the loop's
own thread or, for a new connection, from the acceptor's.  Whether the object a channel is tied to is
still there is chosen by the action.
-/

namespace KwNet.Poll

def epollErr : Mask := 0x008
def epollHup : Mask := 0x010

/-- The callbacks of a channel; `pri_callback` is never called. -/
inductive Callback where
  | err
  | hup
  | rdhup
  | input
  | output
  deriving DecidableEq, Repr

/-- The rest of a `Channel` object. -/
structure Slot where
  readyEvents : Mask
  addedToLoop : Bool
  isIoChannel : Bool
  eventHandling : Bool
  /-- The object whose callbacks are set. -/
  owner : Option ℕ
  installed : Callback → Bool

/-- `new Channel`. -/
def Slot.new : Slot where
  readyEvents := 0
  addedToLoop := false
  isIoChannel := false
  eventHandling := false
  owner := none
  installed := fun _ => false

/-- A call of `HandleEvent_tied`: the callbacks still to be tried, and whether it returns before its last
line. -/
structure Handling where
  fd : ℕ
  collectedFor : Option ℕ
  rest : List Callback
  early : Bool

/-- A callback was called: the object its event was collected for, and the object it belongs to. -/
structure Dispatch where
  fd : ℕ
  callback : Callback
  collectedFor : Option ℕ
  target : Option ℕ
  deriving DecidableEq, Repr

structure Loop where
  poll : State
  slot : ℕ → Slot
  /-- The descriptor is open. -/
  isOpen : ℕ → Bool
  active : List (ℕ × Option ℕ)
  current : Option Handling
  /-- The callbacks called, oldest first (history). -/
  dispatched : List Dispatch

def Loop.init : Loop where
  poll := Poll.init
  slot := fun _ => .new
  isOpen := fun _ => false
  active := []
  current := none
  dispatched := []

/-- The branches of `HandleEvent_tied`; `drains` is `is_io_channel && !tied`. -/
def plan (mask : Mask) (drains : Bool) : List Callback × Bool :=
  let output := if mask &&& epollOut ≠ 0 then [Callback.output] else []
  if mask &&& epollErr ≠ 0 then ([.err], true)
  else if mask &&& epollHup ≠ 0 then ((if drains then output else []) ++ [.hup], true)
  else if mask &&& epollRdhup ≠ 0 then ((if drains then output else []) ++ [.rdhup], true)
  else ((if mask &&& epollIn ≠ 0 then [.input] else []) ++ output, false)

def Loop.setSlot (s : Loop) (fd : ℕ) (sl : Slot) : Loop :=
  { s with slot := Function.update s.slot fd sl }

/-- No event is being dispatched. -/
def Loop.idle (s : Loop) : Bool := s.active.isEmpty && s.current.isNone

/-! ### the calls a callback can make -/

/-- `EventLoop::updateChannel`; `epoll_ctl` fails for a descriptor that is closed. -/
def Loop.updateChannel (s : Loop) (fd : ℕ) (ch : Channel) (stack : EpollEvent) : Option Loop :=
  (Poll.updateChannel s.poll fd ch stack).map fun poll =>
    { s with poll := if s.isOpen fd then poll else { poll with interest := s.poll.interest } }

/-- `update()` sets `addedToLoop`, and `DisableRead` and `DisableWrite` go through it. -/
def Call.updates : Call → Bool
  | .disableRead => true
  | .disableWrite => true
  | _ => false

def Loop.call (s : Loop) (fd : ℕ) (f : Call) (stack : EpollEvent) : Option Loop :=
  (s.poll.channels fd).bind fun ch =>
    let s := if f.updates then s.setSlot fd { s.slot fd with addedToLoop := true } else s
    s.updateChannel fd { ch with listenEvents := f.listen ch.listenEvents } stack

/-- `Poller::add_channel`: a new channel, or the one the descriptor has. -/
def Loop.addChannel (s : Loop) (fd : ℕ) : Loop :=
  match s.poll.channels fd with
  | none => { s.setSlot fd .new with poll := Poll.addChannel s.poll fd }
  | some _ => s

/-- The object `obj` is made for the descriptor `fd` the kernel has just handed out, as the constructor of
`TcpConnection` does it: `add_channel`, and its callbacks are set. -/
def Loop.create (s : Loop) (fd obj : ℕ) (callbacks : Callback → Bool) : Loop :=
  let s := s.addChannel fd
  { s.setSlot fd { s.slot fd with owner := some obj, installed := callbacks } with
    isOpen := Function.update s.isOpen fd true }

def Loop.tie (s : Loop) (fd : ℕ) : Option Loop :=
  (s.poll.channels fd).map fun ch =>
    { s with poll := s.poll.setChannel fd { ch with tied := true } }

/-- `TcpConnection::connectEstablished`: `tie_` and `EnableRead`. -/
def Loop.connectEstablished (s : Loop) (fd : ℕ) (stack : EpollEvent) : Option Loop :=
  (s.tie fd).bind fun s => s.call fd .enableRead stack

/-- `::close(fd)`: the kernel forgets the registration. -/
def Loop.closeFd (s : Loop) (fd : ℕ) : Loop :=
  { s with
    isOpen := Function.update s.isOpen fd false
    poll := { s.poll with interest := Function.update s.poll.interest fd none } }

/-- `reset_callbacks` and `reset_listen_events`. -/
def Loop.reset (s : Loop) (fd : ℕ) : Option Loop :=
  (s.poll.channels fd).map fun ch =>
    { s.setSlot fd { s.slot fd with owner := none, installed := fun _ => false } with
      poll := s.poll.setChannel fd { ch with listenEvents := 0 } }

/-- What `TcpConnection::handle_ep_hup` does to the channel and its descriptor. -/
def Loop.handleEpHup (s : Loop) (fd : ℕ) (stack : EpollEvent) : Option Loop :=
  (s.call fd .disableAll stack).bind fun s => (s.reset fd).map fun s => s.closeFd fd

/-- The assertions of `~Channel`. -/
def Slot.DtorHolds (sl : Slot) : Prop := sl.eventHandling = false ∧ sl.addedToLoop = false

instance (sl : Slot) : Decidable sl.DtorHolds := by
  unfold Slot.DtorHolds
  infer_instance

/-- The assertions of `~Channel` in `Channel::remove`, which resets `addedToLoop` first. -/
def Slot.RemoveHolds (sl : Slot) : Prop := { sl with addedToLoop := false }.DtorHolds

instance (sl : Slot) : Decidable sl.RemoveHolds := by
  unfold Slot.RemoveHolds
  infer_instance

/-- `Channel::remove` of a disabled channel; a failed assertion ends the run. -/
def Loop.remove (s : Loop) (fd : ℕ) : Option Loop :=
  (s.poll.channels fd).bind fun ch =>
    if ch.listenEvents = 0 ∧ (s.slot fd).RemoveHolds then
      some ({ s with poll := { s.poll with
        channels := Function.update s.poll.channels fd none } }.closeFd fd)
    else none

/-! ### the wake-up -/

/-- `fillActiveChannels`. -/
def Loop.fill (s : Loop) (evs : List (ℕ × Mask)) : Loop :=
  { s with
    slot := evs.foldl (fun slot e => Function.update slot e.1 { slot e.1 with readyEvents := e.2 }) s.slot
    active := evs.map fun e => (e.1, (s.slot e.1).owner) }

/-- `HandleEvent` of the next channel. -/
def Loop.handleEvent (s : Loop) (fd : ℕ) (collectedFor : Option ℕ) (ch : Channel) (locked : Bool) :
    Loop :=
  if ch.tied && !locked then s
  else
    let sl := s.slot fd
    let (rest, early) := plan sl.readyEvents (sl.isIoChannel && !ch.tied)
    { s.setSlot fd { sl with eventHandling := true } with
      current := some ⟨fd, collectedFor, rest, early⟩ }

/-- The next callback `HandleEvent_tied` tries. -/
def Loop.tryCallback (s : Loop) (h : Handling) (cb : Callback) (rest : List Callback) : Loop :=
  let s := { s with current := some { h with rest := rest } }
  if (s.slot h.fd).installed cb then
    { s with dispatched := s.dispatched ++ [⟨h.fd, cb, h.collectedFor, (s.slot h.fd).owner⟩] }
  else s

/-- `HandleEvent_tied` returns; its last line is skipped by the early returns. -/
def Loop.finish (s : Loop) (h : Handling) : Loop :=
  let s := { s with current := none }
  if h.early then s else s.setSlot h.fd { s.slot h.fd with eventHandling := false }

inductive LoopAction where
  /-- `epoll_wait` returns these events. -/
  | poll (evs : List (ℕ × Mask))
  | next (locked : Bool)
  | callback
  | finish
  | create (fd obj : ℕ) (callbacks : Callback → Bool)
  | connectEstablished (fd : ℕ) (stack : EpollEvent)
  | call (fd : ℕ) (f : Call) (stack : EpollEvent)
  | setIoChannel (fd : ℕ)
  | handleEpHup (fd : ℕ) (stack : EpollEvent)
  | remove (fd : ℕ)

def Loop.step (s : Loop) : LoopAction → Option Loop
  | .poll evs =>
    if s.idle ∧ (evs.map Prod.fst).Nodup ∧ ∀ e ∈ evs, (s.poll.channels e.1).isSome then
      some (s.fill evs)
    else none
  | .next locked =>
    match s.current, s.active with
    | none, (fd, collectedFor) :: rest =>
      (s.poll.channels fd).map fun ch =>
        Loop.handleEvent { s with active := rest } fd collectedFor ch locked
    | _, _ => none
  | .callback =>
    match s.current with
    | some ⟨fd, collectedFor, cb :: rest, early⟩ =>
      some (s.tryCallback ⟨fd, collectedFor, cb :: rest, early⟩ cb rest)
    | _ => none
  | .finish =>
    match s.current with
    | some ⟨fd, collectedFor, [], early⟩ => some (s.finish ⟨fd, collectedFor, [], early⟩)
    | _ => none
  | .create fd obj callbacks => if s.isOpen fd then none else some (s.create fd obj callbacks)
  | .connectEstablished fd stack => s.connectEstablished fd stack
  | .call fd f stack => s.call fd f stack
  | .setIoChannel fd =>
    (s.poll.channels fd).map fun _ => s.setSlot fd { s.slot fd with isIoChannel := true }
  | .handleEpHup fd stack => s.handleEpHup fd stack
  | .remove fd => if s.idle then s.remove fd else none

end KwNet.Poll
