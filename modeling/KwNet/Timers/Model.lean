import Mathlib
import KwNet.Lib.Run
import KwNet.Lib.SortedMap

/-!
# `TimerQueue`: timers bucketed by trigger time, one timerfd

`Timers/TimerQueue.cpp` on the loop's thread.  The calls `addTimerInLoop` and `cancelTimerInLoop` and
the end of `handle_timers` (`reset`) run no code of the user and are one step each; between the
callbacks of `handle_timers` the machine stops, so that a callback may itself call `addTimer` and
`cancelTimer`, which run in place.

* `State.insert`, `State.cancelTimerInLoop`, `State.reset` follow the source;
* `Pc` is where `handle_timers` stands, with the copy of the bucket it walks;
* the timers of a bucket are run in any order (`std::unordered_map`);
* the clock is read where the source reads it: the `k`-th reading of the run is `clock k`.

A step is not enabled where the source has no defined behaviour: `begin()` of an empty map is read or
erased, and the path of `insert` that ends without `return`.

Timers are named by their address.  Times are microseconds; `repeatCircle` is the period after the
conversion `static_cast<uint64_t>(second * 1000000)`.
-/

namespace KwNet.Timers

open KwNet.Lib

/-- `Timer`: what the queue reads of it. -/
structure Timer where
  triggerTime : ℕ
  repeatCircle : ℕ
  shouldRepeat : Bool
  deriving DecidableEq

/-- `addTime`, in `uint64_t`. -/
def addTime (now second : ℕ) : ℕ := (second + now) % 2 ^ 64

/-- `Timer::reset`. -/
def Timer.reset (t : Timer) (now : ℕ) : Timer :=
  { t with triggerTime := if t.shouldRepeat then addTime now t.repeatCircle else 0 }

/-- `it_value` of `struct itimerspec`. -/
structure ItValue where
  tvSec : ℕ
  tvNsec : ℕ

/-- `periodFromNow`, where `now_microsecconds()` returned `t`. -/
def periodFromNow (t triggerTime : ℕ) : ItValue :=
  let period := if triggerTime > t then triggerTime - t else 0
  let period := if period < 100 then 100 else period
  ⟨period / 1000000, period % 1000000 * 1000⟩

/-- A setting of the timerfd: when it was made and when it expires. -/
structure Arming where
  time : ℕ
  expiry : ℕ
  deriving DecidableEq

/-- `timerfd_settime` with a relative time. -/
def ItValue.arm (it : ItValue) (t : ℕ) : Arming := ⟨t, t + (it.tvSec * 1000000 + it.tvNsec / 1000)⟩

/-- `sameTime_timers_t`: timers with their `noOwner` flag, each once. -/
abbrev Bucket (κ : Type) := List (κ × Bool)

/-- Where `handle_timers` stands.  `key` is the key of the bucket whose copy is being walked. -/
inductive Pc (κ : Type) where
  /-- Not in `handle_timers`. -/
  | idle
  /-- `activeTimers.begin()->first <= now`. -/
  | loop (now : ℕ)
  /-- In the loop over the copied bucket; `ts` is what is left of it. -/
  | firing (now key : ℕ) (ts : Bucket κ)
  /-- In `it.first->run()`. -/
  | callback (now key : ℕ) (id : κ) (ts : Bucket κ)
  /-- `reset(now)`. -/
  | reset (now : ℕ)

/-- What happens to a timer. -/
inductive Event (κ : Type) where
  | added (id : κ)
  | cancelled (id : κ)
  | ran (id : κ)
  /-- `reset` hands the timer to `addTimer` again. -/
  | reinserted (id : κ)
  deriving DecidableEq

/-- The queue, its timers and the history of the run. -/
structure State (κ : Type) where
  timer : κ → Timer
  activeTimers : SortedMap ℕ (Bucket κ)
  triggeredTimers : List κ
  timerfd : Option Arming
  /-- Readings of the clock so far. -/
  reads : ℕ
  pc : Pc κ
  /-- The timers added, not cancelled, and either not yet run or repeating. -/
  kept : List κ
  log : List (Event κ)
  /-- The timers run in this pass of `handle_timers`, or in the last one. -/
  passRan : List κ
  /-- The timers that are due in that pass and were not cancelled. -/
  due : List κ
  /-- For each round of the loop the key of the bucket that was run and the key that was erased. -/
  swept : List (ℕ × ℕ)

/-- One step. -/
inductive Action (κ : Type) where
  | addTimer (id : κ) (noOwner : Bool)
  | cancelTimer (id : κ)
  /-- `handle_timers` is called. -/
  | handle
  /-- The loop over the bucket comes to `id`. -/
  | fire (id : κ)
  /-- The callback returns. -/
  | ret
  /-- The next step of `handle_timers` itself. -/
  | step

variable {κ : Type} [DecidableEq κ] (clock : ℕ → ℕ)

/-- `updateFd`. -/
def State.updateFd (s : State κ) (triggerTime : ℕ) : State κ :=
  { s with
    timerfd := some ((periodFromNow (clock s.reads) triggerTime).arm (clock s.reads))
    reads := s.reads + 1 }

/-- `insert`: the map it leaves and the value it returns.  A timer whose time is already a key goes
into a copy of the bucket, and the copy is dropped.  `none` is the path without `return`. -/
def State.insert (s : State κ) (id : κ) (noOwner : Bool) :
    Option (SortedMap ℕ (Bucket κ) × Bool) :=
  let t := (s.timer id).triggerTime
  match s.activeTimers.find? t with
  | some sameTimeTimers =>
    if id ∈ sameTimeTimers.map Prod.fst then none
    else some (s.activeTimers, s.activeTimers.first?.any fun e => decide (e.1 > t))
  | none =>
    let m := s.activeTimers.set t [(id, noOwner)]
    some (m, m.first?.any fun e => decide (e.1 ≥ t))

/-- `addTimerInLoop`. -/
def State.addTimerInLoop (s : State κ) (id : κ) (noOwner : Bool) : Option (State κ) :=
  (s.insert id noOwner).map fun r =>
    let s' := { s with activeTimers := r.1 }
    if r.2 then s'.updateFd clock (s.timer id).triggerTime else s'

/-- `cancelTimerInLoop`. -/
def State.cancelTimerInLoop (s : State κ) (id : κ) : State κ :=
  let t := (s.timer id).triggerTime
  match s.activeTimers.find? t with
  | some timers =>
    let timers := timers.filter fun e => e.1 ≠ id
    if timers.isEmpty then { s with activeTimers := s.activeTimers.erase t }
    else { s with activeTimers := s.activeTimers.set t timers }
  | none => s

/-- One round of the loop of `reset`, with `earliest`. -/
def State.readd (now : ℕ) (r : State κ × ℕ) (id : κ) : Option (State κ × ℕ) :=
  let s : State κ := { r.1 with
    timer := Function.update r.1.timer id ((r.1.timer id).reset now)
    log := r.1.log ++ [.reinserted id] }
  (s.addTimerInLoop clock id false).map fun s' => (s', min r.2 (s'.timer id).triggerTime)

/-- `reset`. -/
def State.reset (s : State κ) (now : ℕ) : Option (State κ) :=
  (s.triggeredTimers.foldlM (State.readd clock now) (s, 0xffffffffffffffff)).map fun r =>
    if r.2 ≠ 0 then r.1.updateFd clock r.2 else r.1

/-- The pass of `handle_timers` that is under way reads `now`; it has none outside. -/
def Pc.now? : Pc κ → Option ℕ
  | .idle => none
  | .loop now => some now
  | .firing now _ _ => some now
  | .callback now _ _ _ => some now
  | .reset now => some now

/-- User code may run: outside `handle_timers`, or in a callback. -/
def Pc.user : Pc κ → Bool
  | .idle => true
  | .callback _ _ _ _ => true
  | _ => false

/-- `addTimer`, on the loop's thread. -/
def State.addTimer (s : State κ) (id : κ) (noOwner : Bool) : Option (State κ) :=
  (s.addTimerInLoop clock id noOwner).map fun s' =>
    { s' with
      kept := if id ∈ s.kept then s.kept else s.kept ++ [id]
      log := s.log ++ [.added id]
      due := if s.pc.now?.any fun now => decide ((s.timer id).triggerTime ≤ now) then s.due ++ [id]
        else s.due }

/-- `cancelTimer`, on the loop's thread. -/
def State.cancelTimer (s : State κ) (id : κ) : State κ :=
  { s.cancelTimerInLoop id with
    kept := s.kept.filter fun j => j ≠ id
    log := s.log ++ [.cancelled id]
    due := s.due.filter fun j => j ≠ id }

/-- The timers of the buckets up to `now`. -/
def State.dueAt (s : State κ) (now : ℕ) : List κ :=
  ((s.activeTimers.entries.filter fun e => e.1 ≤ now).flatMap fun e => e.2.map Prod.fst)

/-- The expiration that `handle_timers` answers is over. -/
def Arming.pending (now : ℕ) (a : Arming) : Bool := decide (now < a.expiry)

/-- Entering `handle_timers`. -/
def State.handleTimers (s : State κ) : State κ :=
  let now := clock s.reads
  { s with
    triggeredTimers := []
    timerfd := s.timerfd.filter (Arming.pending now)
    reads := s.reads + 1
    pc := .loop now
    passRan := []
    due := s.dueAt now
    swept := [] }

/-- The callback of `id` returns: `shouldRepeat()`. -/
def State.afterRun (s : State κ) (now key : ℕ) (id : κ) (ts : Bucket κ) : State κ :=
  if (s.timer id).shouldRepeat then
    { s with triggeredTimers := s.triggeredTimers ++ [id], pc := .firing now key ts }
  else { s with kept := s.kept.filter fun j => j ≠ id, pc := .firing now key ts }

/-- The next step of `handle_timers` itself. -/
def State.next (s : State κ) : Option (State κ) :=
  match s.pc with
  | .idle => none
  | .loop now =>
    match s.activeTimers.first? with
    | none => none
    | some e => some { s with pc := if e.1 ≤ now then .firing now e.1 e.2 else .reset now }
  | .firing now key [] =>
    match s.activeTimers.first? with
    | none => none
    | some e =>
      let m := s.activeTimers.erase e.1
      some { s with
        activeTimers := m
        swept := s.swept ++ [(key, e.1)]
        pc := if m.isEmpty then .reset now else .loop now }
  | .firing _ _ (_ :: _) => none
  | .callback _ _ _ _ => none
  | .reset now => (s.reset clock now).map fun s' => { s' with pc := .idle }

/-- The transition function. -/
def step (s : State κ) : Action κ → Option (State κ)
  | .addTimer id noOwner => if s.pc.user then s.addTimer clock id noOwner else none
  | .cancelTimer id => if s.pc.user then some (s.cancelTimer id) else none
  | .handle =>
    match s.pc with
    | .idle => some (s.handleTimers clock)
    | _ => none
  | .fire id =>
    match s.pc with
    | .firing now key ts =>
      if id ∈ ts.map Prod.fst then
        some { s with
          pc := .callback now key id (ts.filter fun e => e.1 ≠ id)
          log := s.log ++ [.ran id]
          passRan := s.passRan ++ [id] }
      else none
    | _ => none
  | .ret =>
    match s.pc with
    | .callback now key id ts => some (s.afterRun now key id ts)
    | _ => none
  | .step => s.next clock

/-- The queue right after its constructor, over any timers. -/
def State.init (timer : κ → Timer) : State κ :=
  { timer := timer
    activeTimers := .empty
    triggeredTimers := []
    timerfd := none
    reads := 0
    pc := .idle
    kept := []
    log := []
    passRan := []
    due := []
    swept := [] }

end KwNet.Timers
