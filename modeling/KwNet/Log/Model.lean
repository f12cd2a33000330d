import Mathlib
import KwNet.Lib.Run

/-!
# `AsyncLogger`: appenders, one backend thread and a state word

`Loggers/AsyncLogger.cpp` as any number of threads that call `append` and `stop`, the backend thread that
runs `threadFunc`, and the thread that calls `start`.  Every access to `state` and to `running` is one
step, and a run is any list of such steps.

* `Pc` is where a thread stands in `append` or `stop`, `BackendPc` where the backend stands;
* between the CAS that sets `appending` or `swaping` and the access that ends it a thread works on
  `cur_buffer`, `next_buffer` and `buffers`: `Pc.inside`, `BackendPc.inside`;
* `futex_wait` may return at any time (it does on a signal), so a sleeping thread may always look again,
  and `futex_wake` changes nothing;
* a step is not enabled where an assertion fails or a null `unique_ptr` would be used.

The messages that the class itself logs are left out.  The fields from `file` on are history.
-/

namespace KwNet.AsyncLogger

/-- `atomic_ulong`, the type of `state`. -/
abbrev Word := BitVec 64

def appending : Word := 1

def full : Word := 2

def swaping : Word := 4

def available : Word := 8

/-- `w & bits`. -/
def has (w bits : Word) : Bool := w &&& bits != 0

/-- `append` and `stop` wait for these. -/
def busy : Word := full ||| appending ||| swaping

/-! ### `LogBuffer` -/

/-- The `SIZE` of `LogBuffer`. -/
def logBufferSize : ℕ := 1024 * 1024

/-- `FixedBuffer<1024 * 1024>`: what was appended since the last `reset`. -/
structure LogBuffer where
  data : List UInt8
  fits : data.length ≤ logBufferSize
  deriving DecidableEq

def LogBuffer.empty : LogBuffer := ⟨[], Nat.zero_le _⟩

def LogBuffer.avail (b : LogBuffer) : ℕ := logBufferSize - b.data.length

/-- `FixedBuffer::append`: what does not fit is dropped. -/
def LogBuffer.append (b : LogBuffer) (logs : List UInt8) : LogBuffer :=
  if h : logs.length ≤ b.avail then
    ⟨b.data ++ logs, by
      have hfits := b.fits
      rw [List.length_append]
      unfold LogBuffer.avail at h
      omega⟩
  else b

theorem LogBuffer.append_data {b : LogBuffer} {logs : List UInt8} (h : logs.length ≤ b.avail) :
    (b.append logs).data = b.data ++ logs := by
  rw [LogBuffer.append, dif_pos h]

/-! ### The threads -/

/-- Where a thread stands. -/
inductive Pc where
  | idle
  /-- `append`: the load of `state`. -/
  | appendLoad (logs : List UInt8)
  | appendWait (logs : List UInt8)
  /-- `append`: the CAS that sets `appending`. -/
  | appendCas (logs : List UInt8) (old : Word)
  /-- `append`: before it touches the buffers. -/
  | appendBody (logs : List UInt8)
  /-- `append`: the store of `v`. -/
  | appendStore (v : Word)
  /-- `stop`: the load of `state`. -/
  | stopLoad
  | stopWait
  | stopCas (old : Word)
  /-- `thread.join()`. -/
  | stopJoin

/-- Where the backend thread stands. -/
inductive BackendPc where
  /-- Not created yet. -/
  | unborn
  /-- Before `latch.countDown()`. -/
  | entry
  /-- `while (running)`. -/
  | test
  /-- The load of `state`. -/
  | load
  | wait
  /-- The weak CAS for `full`. -/
  | casFull (old : Word)
  | cas (old : Word)
  /-- Before it swaps the buffers. -/
  | swap
  /-- `_fetch_sub_release(&state, swaping)`. -/
  | unlock
  /-- In the loop that writes `buffersToWrite`; `todo` is what is left of it. -/
  | write (todo : List LogBuffer)
  /-- After the `while`: `_store_release(&state, 0)`. -/
  | exit
  | ended

/-- Between the CAS of `append` and its store. -/
def Pc.inside : Pc → Bool
  | .appendBody _ => true
  | .appendStore _ => true
  | _ => false

/-- Between the CAS of `threadFunc` and its `fetch_sub`. -/
def BackendPc.inside : BackendPc → Bool
  | .swap => true
  | .unlock => true
  | _ => false

/-- Where `start()` stands. -/
inductive StartPc where
  | fresh
  /-- `latch.wait()`. -/
  | waiting
  | returned
  deriving DecidableEq

/-- The logger, its threads and the history of the run. -/
structure State (τ : Type) where
  running : Bool
  word : Word
  /-- The count of `latch`. -/
  latch : ℕ
  start : StartPc
  curBuffer : LogBuffer
  nextBuffer : Option LogBuffer
  buffers : List LogBuffer
  newBuffer1 : Option LogBuffer
  newBuffer2 : Option LogBuffer
  buffersToWrite : List LogBuffer
  backend : BackendPc
  thread : τ → Pc
  /-- The bytes passed to `log_file.append`. -/
  file : List UInt8
  /-- The records whose `append` set `appending`, in that order. -/
  acquired : List (List UInt8)
  /-- The records whose `append` returned because the logger was not `available`. -/
  refused : List (List UInt8)
  /-- Calls of `stop`, and those that have returned. -/
  stops : ℕ
  stopped : ℕ

inductive Action (τ : Type) where
  /-- `start()` sets `running` and creates the backend. -/
  | start
  /-- `latch.wait()` and with it `start()` returns. -/
  | startReturn
  | append (t : τ) (logs : List UInt8)
  /-- `stop()` clears `running`. -/
  | stop (t : τ)
  /-- The next step of thread `t`. -/
  | step (t : τ)
  /-- The next step of the backend.  A weak CAS may fail for no reason. -/
  | backend (spurious : Bool)

variable {τ : Type} [DecidableEq τ]

def State.goto (s : State τ) (t : τ) (pc : Pc) : State τ :=
  { s with thread := Function.update s.thread t pc }

@[simp] theorem State.goto_self (s : State τ) (t : τ) (pc : Pc) : (s.goto t pc).thread t = pc :=
  Function.update_self _ _ _

theorem State.goto_of_ne (s : State τ) {t u : τ} (pc : Pc) (h : u ≠ t) :
    (s.goto t pc).thread u = s.thread u :=
  Function.update_of_ne h _ _

/-- What `append` does to the buffers, and the word it stores then. -/
def State.fill (s : State τ) (logs : List UInt8) : State τ × Word :=
  if logs.length ≤ s.curBuffer.avail then ({ s with curBuffer := s.curBuffer.append logs }, available)
  else
    ({ s with
        buffers := s.buffers ++ [s.curBuffer]
        curBuffer := (s.nextBuffer.getD .empty).append logs
        nextBuffer := none }, full)

/-- The next step of a thread. -/
def State.stepThread (s : State τ) (t : τ) : Option (State τ) :=
  match s.thread t with
  | .idle => none
  | .appendLoad logs =>
    if !has s.word available then some { s.goto t .idle with refused := s.refused ++ [logs] }
    else if has s.word busy then some (s.goto t (.appendWait logs))
    else some (s.goto t (.appendCas logs s.word))
  | .appendWait logs => some (s.goto t (.appendLoad logs))
  | .appendCas logs old =>
    if s.word = old then
      some { s.goto t (.appendBody logs) with
        word := old ||| appending
        acquired := s.acquired ++ [logs] }
    else some (s.goto t (.appendLoad logs))
  | .appendBody logs => some ((s.fill logs).1.goto t (.appendStore (s.fill logs).2))
  | .appendStore v => some { s.goto t .idle with word := v }
  | .stopLoad =>
    if !has s.word available then some { s.goto t .idle with stopped := s.stopped + 1 }
    else if has s.word busy then some (s.goto t .stopWait)
    else some (s.goto t (.stopCas s.word))
  | .stopWait => some (s.goto t .stopLoad)
  | .stopCas old =>
    if s.word = old then some { s.goto t .stopJoin with word := 0 }
    else some (s.goto t .stopLoad)
  | .stopJoin =>
    match s.backend with
    | .ended => some { s.goto t .idle with stopped := s.stopped + 1 }
    | _ => none

/-- The assertions at the top of the loop of `threadFunc`. -/
def State.asserts (s : State τ) : Bool :=
  (s.newBuffer1.any fun b => b.data.isEmpty) && (s.newBuffer2.any fun b => b.data.isEmpty) &&
    s.buffersToWrite.isEmpty

/-- The buffers are handed to the backend. -/
def State.swapBuffers (s : State τ) (newBuffer1 : LogBuffer) : State τ :=
  { s with
    curBuffer := newBuffer1
    newBuffer1 := none
    buffersToWrite := s.buffers ++ [s.curBuffer]
    buffers := s.buffersToWrite
    nextBuffer := if s.nextBuffer.isNone then s.newBuffer2 else s.nextBuffer
    newBuffer2 := if s.nextBuffer.isNone then none else s.newBuffer2
    backend := .unlock }

/-- After the buffers are written two of them are kept for the next round, the second only if it is
needed; a kept buffer is `reset`, and a missing one is made. -/
def State.recycle (s : State τ) : State τ :=
  { s with
    newBuffer1 := some .empty
    newBuffer2 := some (s.newBuffer2.getD .empty)
    buffersToWrite := []
    backend := .test }

/-- The next step of the backend. -/
def State.stepBackend (s : State τ) (spurious : Bool) : Option (State τ) :=
  match s.backend with
  | .unborn => none
  | .entry =>
    if s.running then
      some { s with
        latch := s.latch - 1
        newBuffer1 := some .empty
        newBuffer2 := some .empty
        buffersToWrite := []
        backend := .test }
    else none
  | .test =>
    if s.running then if s.asserts then some { s with backend := .load } else none
    else some { s with backend := .exit }
  | .load =>
    if !has s.word available then some { s with backend := .ended }
    else if has s.word full then some { s with backend := .casFull s.word }
    else if has s.word appending then some { s with backend := .wait }
    else some { s with backend := .cas s.word }
  | .wait => some { s with backend := .load }
  | .casFull old =>
    if s.word = old ∧ spurious = false then
      some { s with word := (old ^^^ full) ||| swaping, backend := .swap }
    else some { s with backend := .casFull s.word }
  | .cas old =>
    if s.word = old then some { s with word := old ||| swaping, backend := .swap }
    else some { s with backend := .load }
  | .swap => s.newBuffer1.map s.swapBuffers
  | .unlock => some { s with word := s.word - swaping, backend := .write s.buffersToWrite }
  | .write (b :: todo) => some { s with file := s.file ++ b.data, backend := .write todo }
  | .write [] => if s.buffersToWrite.isEmpty then none else some s.recycle
  | .exit => some { s with word := 0, backend := .ended }
  | .ended => none

/-- The transition function. -/
def step (s : State τ) : Action τ → Option (State τ)
  | .start =>
    match s.start, s.backend with
    -- `Thread::start` asserts that the thread was not started
    | .fresh, .unborn => some { s with running := true, backend := .entry, start := .waiting }
    | _, _ => none
  | .startReturn =>
    match s.start with
    | .waiting => if s.latch = 0 then some { s with start := .returned } else none
    | _ => none
  | .append t logs =>
    match s.thread t with
    | .idle => some (s.goto t (.appendLoad logs))
    | _ => none
  | .stop t =>
    match s.thread t with
    | .idle => some { s.goto t .stopLoad with running := false, stops := s.stops + 1 }
    | _ => none
  | .step t => s.stepThread t
  | .backend spurious => s.stepBackend spurious

/-- A logger right after its constructor, with `word` in `state` (which the constructor does not set). -/
def State.init (word : Word) : State τ :=
  { running := false
    word := word
    latch := 1
    start := .fresh
    curBuffer := .empty
    nextBuffer := some .empty
    buffers := []
    newBuffer1 := none
    newBuffer2 := none
    buffersToWrite := []
    backend := .unborn
    thread := fun _ => .idle
    file := []
    acquired := []
    refused := []
    stops := 0
    stopped := 0 }

end KwNet.AsyncLogger
