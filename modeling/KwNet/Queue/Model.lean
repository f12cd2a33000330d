import Mathlib
import KwNet.Lib.Run

/-!
# `mpmc_bounded_Queue`: the bounded multi-producer multi-consumer queue

The queue of `helpers/queue.h`: a power-of-two ring of nodes, each with a 64-bit `sequence` and a
payload, and two free-running 64-bit counters.  `try_push` and `try_pop` are embedded as threads that
move one atomic access at a time — every load, every (weak) CAS, every store and every plain access to
a node's payload is one step — and a run is any list of such steps by any threads.

* `Queue.ctor` is the constructor with its assertion;
* `Pc` is where a thread stands inside `try_push`/`try_pop`, with the locals that are live there;
* `step` moves one thread; a weak CAS may fail although the counter has the expected value
  (`Action.step t true`).

The history variables `calls`, `pushed`, `taken` and `popped` are never read by the code.
-/

namespace KwNet.Mpmc

/-- The type of `head_pos`, `tail_pos` and `sequence` (`uint64_t`). -/
abbrev U64 := BitVec 64

/-- One cell of the ring (`mpmc_bounded_Queue::node`). -/
structure Node (T : Type) where
  sequence : U64
  data : T

/-- The shared memory of the queue.  `buffer_size_` is only needed to build the ring. -/
structure Queue (T : Type) where
  buffer : ℕ → Node T
  bufferMask : U64
  headPos : U64
  tailPos : U64

/-- The constructor: the assertion, then `sequence = i` in every node and both counters at zero.
`none` is the failed assertion; `junk` is the default-constructed payload. -/
def Queue.ctor {T : Type} (junk : T) (bufferSize : U64) : Option (Queue T) :=
  if 2#64 ≤ bufferSize ∧ bufferSize &&& (bufferSize - 1) = 0 then
    some
      { buffer := fun i => ⟨BitVec.ofNat 64 i, junk⟩
        bufferMask := bufferSize - 1
        headPos := 0
        tailPos := 0 }
  else none

/-- `buffer[pos & buffer_mask]`. -/
def Queue.slot {T : Type} (q : Queue T) (pos : U64) : ℕ := (pos &&& q.bufferMask).toNat

def Queue.seqAt {T : Type} (q : Queue T) (pos : U64) : U64 := (q.buffer (q.slot pos)).sequence

def Queue.dataAt {T : Type} (q : Queue T) (pos : U64) : T := (q.buffer (q.slot pos)).data

/-- `buffer[pos & buffer_mask].data = v`. -/
def Queue.setData {T : Type} (q : Queue T) (pos : U64) (v : T) : Queue T :=
  let node := { q.buffer (q.slot pos) with data := v }
  { q with buffer := Function.update q.buffer (q.slot pos) node }

/-- `_store_release(&buffer[pos & buffer_mask].sequence, seq)`. -/
def Queue.setSeq {T : Type} (q : Queue T) (pos seq : U64) : Queue T :=
  let node := { q.buffer (q.slot pos) with sequence := seq }
  { q with buffer := Function.update q.buffer (q.slot pos) node }

/-- `empty()`, when both of its loads see the same queue. -/
def Queue.empty {T : Type} (q : Queue T) : Bool := q.headPos == q.tailPos

/-- Where a thread stands.  The constructors name the access the thread performs next. -/
inductive Pc (T : Type) where
  | idle
  /-- `pos = _load_relaxed(&tail_pos)`, on entry and after a positive `dif`. -/
  | pushLoad (v : T)
  /-- `seq = _load_acquire(&new_data->sequence)`. -/
  | pushSeq (v : T) (pos : U64)
  /-- `_CAS_weak_relaxed(&tail_pos, &pos, pos + 1)`. -/
  | pushCas (v : T) (pos : U64)
  /-- `new_data->data = data`. -/
  | pushWrite (v : T) (pos : U64)
  /-- `_store_release(&new_data->sequence, pos + 1)`. -/
  | pushPublish (v : T) (pos : U64)
  /-- `pos = _load_relaxed(&head_pos)`. -/
  | popLoad
  /-- `seq = _load_acquire(&now_data->sequence)`. -/
  | popSeq (pos : U64)
  /-- `_CAS_weak_relaxed(&head_pos, &pos, pos + 1)`. -/
  | popCas (pos : U64)
  /-- `data = now_data->data`. -/
  | popRead (pos : U64)
  /-- `_store_release(&now_data->sequence, pos + buffer_mask + 1)`. -/
  | popPublish (pos : U64) (v : T)

/-- What a thread may call. -/
inductive Op (T : Type) where
  | tryPush (v : T)
  | tryPop

def Op.enter {T : Type} : Op T → Pc T
  | .tryPush v => .pushLoad v
  | .tryPop => .popLoad

/-- One step of the system: a thread starts a call, or performs its next access (`spurious` is read
by a weak CAS only). -/
inductive Action (ι T : Type) where
  | call (t : ι) (op : Op T)
  | step (t : ι) (spurious : Bool)

/-- The queue, its threads and the history of the run. -/
structure State (ι T : Type) where
  queue : Queue T
  pc : ι → Pc T
  /-- Calls started so far. -/
  calls : ℕ
  /-- Tail positions claimed by `try_push` calls, with the argument of the call, in the order of the
  claims. -/
  pushed : List (ℕ × T)
  /-- Head positions claimed by `try_pop` calls, in the order of the claims. -/
  taken : List ℕ
  /-- Head positions claimed and values returned by the `try_pop` calls that returned `true`, latest
  first. -/
  popped : List (ℕ × T)

/-- `(intptr_t)seq - (intptr_t)pos`, as the two's-complement difference it is compiled to. -/
def dif (seq pos : U64) : ℤ := (seq - pos).toInt

/-- The branch `try_push` takes on `dif`. -/
def pushBranch {T : Type} (v : T) (pos seq : U64) : Pc T :=
  if dif seq pos = 0 then .pushCas v pos
  else if dif seq pos < 0 then .idle
  else .pushLoad v

/-- The branch `try_pop` takes on `dif`. -/
def popBranch {T : Type} (pos seq : U64) : Pc T :=
  if dif seq (pos + 1) = 0 then .popCas pos
  else if dif seq (pos + 1) < 0 then .idle
  else .popLoad

variable {ι T : Type} [DecidableEq ι]

def State.goto (s : State ι T) (t : ι) (pc : Pc T) : State ι T :=
  { s with pc := Function.update s.pc t pc }

/-- The next access of thread `t`. -/
def access (s : State ι T) (t : ι) (spurious : Bool) : Option (State ι T) :=
  match s.pc t with
  | .idle => none
  | .pushLoad v => some (s.goto t (.pushSeq v s.queue.tailPos))
  | .pushSeq v pos => some (s.goto t (pushBranch v pos (s.queue.seqAt pos)))
  | .pushCas v pos =>
    if s.queue.tailPos = pos ∧ spurious = false then
      some { s.goto t (.pushWrite v pos) with
        queue := { s.queue with tailPos := pos + 1 }
        pushed := s.pushed ++ [(pos.toNat, v)] }
    else some (s.goto t (.pushSeq v s.queue.tailPos))
  | .pushWrite v pos =>
    some { s.goto t (.pushPublish v pos) with queue := s.queue.setData pos v }
  | .pushPublish _ pos =>
    some { s.goto t .idle with queue := s.queue.setSeq pos (pos + 1) }
  | .popLoad => some (s.goto t (.popSeq s.queue.headPos))
  | .popSeq pos => some (s.goto t (popBranch pos (s.queue.seqAt pos)))
  | .popCas pos =>
    if s.queue.headPos = pos ∧ spurious = false then
      some { s.goto t (.popRead pos) with
        queue := { s.queue with headPos := pos + 1 }
        taken := s.taken ++ [pos.toNat] }
    else some (s.goto t (.popSeq s.queue.headPos))
  | .popRead pos => some (s.goto t (.popPublish pos (s.queue.dataAt pos)))
  | .popPublish pos v =>
    some { s.goto t .idle with
      queue := s.queue.setSeq pos (pos + s.queue.bufferMask + 1)
      popped := (pos.toNat, v) :: s.popped }

/-- The transition function of the system. -/
def step (s : State ι T) : Action ι T → Option (State ι T)
  | .call t op =>
    match s.pc t with
    | .idle => some { s.goto t op.enter with calls := s.calls + 1 }
    | _ => none
  | .step t spurious => access s t spurious

/-- The system right after the constructor returned `q`: every thread is outside the queue. -/
def State.init (ι : Type) {T : Type} (q : Queue T) : State ι T :=
  { queue := q, pc := fun _ => .idle, calls := 0, pushed := [], taken := [], popped := [] }

end KwNet.Mpmc
