import Mathlib
import KwNet.Lib.Run
import KwNet.Queue.Ticket

/-!
# `EventLoop`: the loop thread, its pending functors and its eventfd

`EventLoop.cpp` as one loop thread and any number of other threads.  Every access to what they share —
`quit`, the eventfd, `pendingFunctors` and the two loads of its `empty()` — is one step, and a run is any
list of such steps.

* `Pc` is where another thread stands in `queueInLoop`, `runInLoop` or `quit_`;
* `LoopPc` is where the loop's own thread stands: in code of its user (before `Loop()`, in the callback
  of an event, in a functor), in a call that code makes, or in `Loop()` itself;
* what user code does is left open: it may call, call again and return, in any order.

The eventfd is watched edge-triggered.  Its counter and the edge are kept apart: a write raises both, a
reported edge is gone, and `handle_wakeup` reads the counter back to zero without touching an edge that
came meanwhile.

The fields from `polls` on are history, never read by the code.
-/

namespace KwNet.Loop

open KwNet.Mpmc

/-- Where the loop's own thread runs code of its user. -/
inductive Place where
  /-- Before `Loop()` is called. -/
  | before
  /-- In `HandleEvent` of an active channel. -/
  | events
  /-- In a functor of `pendingFunctors`. -/
  | task
  deriving DecidableEq

/-- The calls that concern the loop. -/
inductive Call (F : Type) where
  | runInLoop (f : F)
  | queueInLoop (f : F)
  | quit

/-- Where a thread other than the loop's stands. -/
inductive Pc (F : Type) where
  | idle
  /-- `try_push` of `pendingFunctors.push(_cb)`. -/
  | push (f : F) (a : Attempt)
  /-- The store that ends the `try_push` that claimed `pos`. -/
  | publish (pos : ℕ)
  /-- `wakeup()` of `queueInLoop`.  `pos` is the position of its functor, `none` when `push` gave up. -/
  | wake (pos : Option ℕ)
  /-- `quit = true`. -/
  | quitStore
  /-- `wakeup()` of `quit_`. -/
  | quitWake

/-- Where the loop's own thread stands. -/
inductive LoopPc (F : Type) where
  /-- In code of its user. -/
  | user (w : Place)
  | push (w : Place) (f : F) (a : Attempt)
  | publish (w : Place) (pos : ℕ)
  | quitStore (w : Place)
  /-- `while (!quit)`. -/
  | check
  /-- `epoller->Poll(..)`: the thread is about to block. -/
  | poll
  /-- `empty()`: the load of `head_pos`. -/
  | head
  /-- `empty()`: the load of `tail_pos` and the comparison with `h`. -/
  | tail (h : ℕ)
  /-- `pendingFunctors.try_pop(task)`. -/
  | pop
  /-- The store that ends the `try_pop` that took `f` from `pos`. -/
  | release (f : F) (pos : ℕ)
  /-- `Loop()` has returned. -/
  | done

/-- The loop, the threads that call it and the history of the run. -/
structure State (ι F : Type) where
  queue : Tickets F
  quit : Bool
  /-- The counter of the eventfd. -/
  counter : ℕ
  /-- The eventfd was written and `epoll_wait` has not reported it since. -/
  edge : Bool
  /-- `wakeupChannel` is in `activeChannels` and `handle_wakeup` has not run. -/
  reported : Bool
  thread : ι → Pc F
  loop : LoopPc F
  /-- Calls of `epoll_wait` that have returned. -/
  polls : ℕ
  /-- The loop's own thread placed a functor before `Loop()`. -/
  early : Bool
  /-- The positions of the `queueInLoop` calls that have returned. -/
  returned : List ℕ
  /-- `quit_` has been called. -/
  called : Bool
  /-- What `returned` was at the first call of `quit_`. -/
  due : List ℕ
  /-- The functors called by the drain, with their positions, in the order of the calls. -/
  executed : List (F × ℕ)

/-- One step of the system. -/
inductive Action (ι F : Type) where
  /-- Another thread calls. -/
  | call (t : ι) (c : Call F)
  /-- The next access of another thread. -/
  | step (t : ι)
  /-- User code on the loop's own thread calls. -/
  | loopCall (c : Call F)
  /-- User code on the loop's own thread returns: `Loop()` is called, the event or the functor is
  over. -/
  | loopReturn
  /-- `handle_wakeup`, in its turn among the active channels. -/
  | handleWakeup
  /-- The next access of the loop's own thread. -/
  | loopStep
  /-- `epoll_wait` returns, with the eventfd among the ready descriptors or without it. -/
  | poll (wake : Bool)

variable {ι F : Type} [DecidableEq ι]

def State.goto (s : State ι F) (t : ι) (pc : Pc F) : State ι F :=
  { s with thread := Function.update s.thread t pc }

def State.loopGoto (s : State ι F) (pc : LoopPc F) : State ι F := { s with loop := pc }

/-- `wakeup()`. -/
def State.wakeup (s : State ι F) : State ι F := { s with counter := s.counter + 1, edge := true }

/-- A `queueInLoop` whose functor is at `pos` returns. -/
def State.returns (s : State ι F) (pos : ℕ) : State ι F := { s with returned := s.returned ++ [pos] }

/-- `quit_` is called. -/
def State.callQuit (s : State ι F) : State ι F :=
  { s with called := true, due := if s.called then s.due else s.returned }

/-- `isInLoopThread()` is `false`: `runInLoop` queues. -/
def State.call (s : State ι F) (t : ι) : Call F → State ι F
  | .runInLoop f => s.goto t (.push f .first)
  | .queueInLoop f => s.goto t (.push f .first)
  | .quit => s.callQuit.goto t .quitStore

/-- The next access of thread `t`. -/
def State.access (s : State ι F) (t : ι) : Option (State ι F) :=
  match s.thread t with
  | .idle => none
  | .push f a =>
    if s.queue.Room then
      some { s.goto t (.publish s.queue.tail) with queue := s.queue.claim f }
    else
      match a.next with
      | some a => some (s.goto t (.push f a))
      | none => some (s.goto t (.wake none))
  | .publish pos => some { s.goto t (.wake (some pos)) with queue := s.queue.publish pos }
  | .wake (some pos) => some ((s.wakeup.returns pos).goto t .idle)
  | .wake none => some (s.wakeup.goto t .idle)
  | .quitStore => some { s.goto t .quitWake with quit := true }
  | .quitWake => some (s.wakeup.goto t .idle)

/-- `isInLoopThread()` is `true`: `runInLoop` runs the functor in place, as user code. -/
def State.loopCall (s : State ι F) (w : Place) : Call F → State ι F
  | .runInLoop _ => s
  | .queueInLoop f => s.loopGoto (.push w f .first)
  | .quit => s.callQuit.loopGoto (.quitStore w)

/-- Where the loop's own thread goes when user code returns.  The events are over only when every
active channel has been handled. -/
def State.loopReturn (s : State ι F) : Place → Option (State ι F)
  | .before => some (s.loopGoto .check)
  | .events => if s.reported then none else some (s.loopGoto .head)
  | .task => some (s.loopGoto .head)

/-- The next access of the loop's own thread. -/
def State.loopAccess (s : State ι F) : Option (State ι F) :=
  match s.loop with
  | .user _ => none
  | .push w f a =>
    if s.queue.Room then
      some { s.loopGoto (.publish w s.queue.tail) with
        queue := s.queue.claim f
        early := s.early || w == .before }
    else
      match a.next with
      | some a => some (s.loopGoto (.push w f a))
      | none => some (s.loopGoto (.user w))
  | .publish w pos =>
    some { (s.returns pos).loopGoto (.user w) with queue := s.queue.publish pos }
  | .quitStore w => some { s.loopGoto (.user w) with quit := true }
  | .check => some (s.loopGoto (if s.quit then .done else .poll))
  | .poll => none
  | .head => some (s.loopGoto (.tail s.queue.head))
  | .tail h => some (s.loopGoto (if h = s.queue.tail then .check else .pop))
  | .pop =>
    match s.queue.front with
    | some f => some { s.loopGoto (.release f s.queue.head) with queue := s.queue.take }
    | none => some (s.loopGoto .head)
  | .release f pos =>
    some { s.loopGoto (.user .task) with
      queue := s.queue.release pos
      executed := s.executed ++ [(f, pos)] }
  | .done => none

/-- The transition function of the system. -/
def step (s : State ι F) : Action ι F → Option (State ι F)
  | .call t c =>
    match s.thread t with
    | .idle => some (s.call t c)
    | _ => none
  | .step t => s.access t
  | .loopCall c =>
    match s.loop with
    | .user w => some (s.loopCall w c)
    | _ => none
  | .loopReturn =>
    match s.loop with
    | .user w => s.loopReturn w
    | _ => none
  | .handleWakeup =>
    match s.loop with
    | .user .events => if s.reported then some { s with counter := 0, reported := false } else none
    | _ => none
  | .loopStep => s.loopAccess
  | .poll wake =>
    match s.loop with
    | .poll =>
      if wake then
        if s.edge ∧ s.counter ≠ 0 then
          some { s.loopGoto (.user .events) with
            edge := false, reported := true, polls := s.polls + 1 }
        else none
      else some { s.loopGoto (.user .events) with polls := s.polls + 1 }
    | _ => none

/-- The loop right after its constructor: `pendingFunctors(1024)`, `quit(false)`, and an eventfd that
was never written. -/
def State.init (ι F : Type) : State ι F :=
  { queue := .init F 1024
    quit := false
    counter := 0
    edge := false
    reported := false
    thread := fun _ => .idle
    loop := .user .before
    polls := 0
    early := false
    returned := []
    called := false
    due := []
    executed := [] }

end KwNet.Loop
