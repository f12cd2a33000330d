import KwNet.Lib.Run
import KwNet.Memory.Buffer
import KwNet.Tcp.Call
import KwNet.Tcp.Channel

/-!
# `TcpConnection` and `ssl_TcpConnection` as one machine

A connection right after `connectEstablished`, with any pool of threads calling into it and the loop
thread running its event handlers, queued functors, timers and callbacks.  A run is a list of actions,
so every interleaving is one run:

* `Caller` — a thread outside the loop: idle, inside a call on the state word (`Call`), or about to
  push the functor its call ended with;
* `Frame` — one activation of the loop thread, whose stack is `Conn.loop`: user code may re-enter the
  connection from any callback, so activations nest;
* `frameStep` — one step of the top activation, an `Effect`;
* `step` — one step of the whole machine.

Accesses of `state_` are single steps.  What only the loop thread touches (channel, output queue)
moves in blocks between them.  Both classes share the machine; `Config.kind` selects the overrides of
`ssl_TcpConnection` (`handle_ep_in`, `handle_ep_out`, `finish_in_out`, `sendInLoop`,
`handle_ep_hup`).

The connection object is taken to outlive the run and its close and message callbacks to be set.
`Conn.log` and the numbers `Job.id` and `OutBuf.turn` are history: no step reads them.
-/

namespace KwNet.Tcp

open KwNet.Memory

/-- Which of the two classes the connection is. -/
inductive Kind where
  | plain
  | ssl
  deriving DecidableEq, Repr

/-- What does not change over a run: the class and the optional callbacks. -/
structure Config where
  kind : Kind
  highWaterMark : ℕ
  highWaterMarkCallback : Bool
  writeCompleteCallback : Bool
  deriving DecidableEq, Repr

/-- A plain connection with the constructor's `highWaterMark_` and without optional callbacks. -/
def plainConfig : Config :=
  { kind := .plain, highWaterMark := 64 * 1024 * 1024, highWaterMarkCallback := false,
    writeCompleteCallback := false }

def sslConfig : Config := { plainConfig with kind := .ssl }

/-- One element of `outputBuffers_`, with the number of the `sendInLoop` call that queued it. -/
structure OutBuf where
  turn : ℕ
  buf : Buffer
  deriving DecidableEq, Repr

/-- The `ready_events` of a channel. -/
structure Mask where
  err : Bool
  hup : Bool
  rdhup : Bool
  epin : Bool
  epout : Bool
  deriving DecidableEq, Repr

/-- What the loop thread owns of the connection, with the socket behind it and the memory the callers'
pointers refer to. -/
structure Io where
  outputBuffers : List OutBuf
  channel : Channel
  kernel : Kernel
  /-- `ssl_` is not null. -/
  ssl : Bool
  rdhupPhrase : Bool
  reading : Bool
  oldLen : ℕ
  /-- `sendInLoop` calls so far. -/
  turns : ℕ
  mem : ℤ → UInt8

def Io.setChannel (io : Io) (ck : Channel × Kernel) : Io :=
  { io with channel := ck.1, kernel := ck.2 }

/-- The bytes at `data + offset`, from the copy `send(Buffer*)` made or from the caller's storage.  A
read outside the copy hits whatever the heap holds there. -/
def Job.bytes (job : Job) (copy : Option (List UInt8)) (mem : ℤ → UInt8) (offset : ℤ) (n : ℕ) :
    List UInt8 :=
  (List.range n).map fun i =>
    let at_ := offset + i
    match copy with
    | some bytes =>
      if 0 ≤ at_ ∧ at_ < bytes.length then bytes.getD at_.toNat 0 else mem (job.data + at_)
    | none => mem (job.data + at_)

/-- The functors this connection puts into `pendingFunctors`, and tasks of the user. -/
inductive Functor where
  | send (job : Job) (copy : Option (List UInt8))
  | shutdownInLoop
  | forceCloseInLoop
  | startReadInLoop
  | stopReadInLoop
  | writeComplete
  | highWaterMark (len : ℕ)
  | task
  deriving DecidableEq, Repr

/-- `send(Buffer*)` copies its argument before it queues; the other overloads capture the pointer. -/
def Functor.capture (mem : ℤ → UInt8) : Functor → Functor
  | .send job none =>
    match job.kind with
    | .buffer => .send job (some (job.bytes none mem 0 job.size))
    | .piece | .oob => .send job none
  | f => f

/-! ### The loop thread -/

/-- Inside `sendInLoop`, with the `old_state` it loaded on entry. -/
inductive SendLoopPc where
  | load
  | write (old : Word) (turn remaining : ℕ)
  | queue (old : Word) (turn : ℕ) (nwrote : ℤ) (remaining : ℕ)
  /-- The CAS subtracting `1 << senders_offset`. -/
  | cas (old : Word)
  /-- The CAS clearing `writing`, by the last sender. -/
  | clear (old : Word)
  | wake
  deriving DecidableEq, Repr

/-- Inside `handle_ep_hup`. -/
inductive HupPc where
  | load
  /-- `SSL_shutdown`/`SSL_free`. -/
  | free
  /-- `DisableAll` … `socket_->close()`. -/
  | close
  | store
  | wake
  | callback
  deriving DecidableEq, Repr

/-- Inside `forceCloseWithDelay`: the two reads of `state_`, then `setState`. -/
inductive DelayPc where
  | isConnected
  | isDisconnecting
  | store
  deriving DecidableEq, Repr

/-- Whose output loop is running: `handle_ep_out` or `finish_in_out`. -/
inductive DrainMode where
  | out
  | finish
  deriving DecidableEq, Repr

/-- Inside the event handlers. -/
inductive HandlerPc where
  /-- `Channel::HandleEvent_tied`. -/
  | event (m : Mask)
  | eventHup
  | eventRdhup
  | eventOut
  /-- `handle_ep_in`, with the bytes read so far. -/
  | epIn (n : ℕ)
  /-- `handle_ep_out` on entry. -/
  | epOut
  /-- The head of the loop over `outputBuffers_`. -/
  | drain (mode : DrainMode)
  /-- The write of the front buffer; `left` is the local of the plain class. -/
  | drainWrite (mode : DrainMode) (left : ℤ)
  /-- `outputBuffers_.clear()` after a hard error, with `buf` still in use. -/
  | drainClear
  /-- The read loop of `finish_in_out`. -/
  | finishRead (n : ℕ)
  /-- `outputBuffers_.pop_front()` after the inline write-complete callback of the TLS class. -/
  | finishPop
  /-- `handle_ep_rdhup` on entry. -/
  | rdhup
  | rdhupAwait (old : Word)
  | rdhupBlocked
  /-- `rdhup_phrase = true`. -/
  | rdhupEnd
  /-- `handle_ep_err`. -/
  | epErr
  | startReadInLoop
  | stopReadInLoop
  deriving DecidableEq, Repr

/-- What the loop thread goes on with after a call on the state word: nothing, `handle_ep_hup` (in
`forceCloseInLoop`), or the rest of the TLS `handle_ep_hup`. -/
inductive Cont where
  | ret
  | hup
  | close
  deriving DecidableEq, Repr

/-- One activation on the loop thread's stack. -/
inductive Frame where
  /-- Code of the user: a callback or a task. -/
  | user
  | call (c : Call) (k : Cont)
  | sendInLoop (pc : SendLoopPc) (job : Job) (copy : Option (List UInt8))
  | shutdownInLoop
  | hup (pc : HupPc)
  | delay (pc : DelayPc)
  | handler (pc : HandlerPc)
  deriving DecidableEq, Repr

def Cont.frames : Cont → List Frame
  | .ret => []
  | .hup => [.hup .load]
  | .close => [.hup .close]

/-- `forceCloseInLoop`: `set_unused(); handle_ep_hup();`. -/
def forceCloseInLoop : Frame := .call (.setUnused .load) .hup

def Functor.frame : Functor → Frame
  | .send job copy => .sendInLoop .load job copy
  | .shutdownInLoop => .shutdownInLoop
  | .forceCloseInLoop => KwNet.Tcp.forceCloseInLoop
  | .startReadInLoop => .handler .startReadInLoop
  | .stopReadInLoop => .handler .stopReadInLoop
  | .writeComplete | .highWaterMark _ | .task => .user

/-- How a `sendInLoop` returns. -/
inductive Exit where
  /-- "hup already". -/
  | hup
  /-- "send must before set_unused". -/
  | unused
  /-- The final "impossible state", on a word without `writing`. -/
  | impossible
  /-- "impossible state" after a failed CAS. -/
  | failedCas
  | released
  deriving DecidableEq, Repr

/-- The history of a run. -/
inductive Event where
  | called (job : Job)
  | admitted (job : Job)
  | refused (job : Job) (why : Refusal)
  /-- The push of its functor gave up on a full queue. -/
  | dropped (job : Job)
  /-- A `sendInLoop` carrying the job was entered. -/
  | began (job : Job)
  | ended (job : Job) (exit : Exit)
  /-- Bytes queued or sent by this turn were passed to `write`/`SSL_write`. -/
  | handed (turn : ℕ) (isOpen : Bool)
  | shutdownWrite
  | sslFree
  | socketClose
  /-- `closeCallback_` was invoked; it finds this state word. -/
  | closeCallback (seen : Word)
  deriving DecidableEq, Repr

/-- The answer to one `readFd`/`SSL_read`: bytes, end of file (`SSL_ERROR_ZERO_RETURN`), would-block,
`EINTR`, `SSL_ERROR_WANT_WRITE`, or an error. -/
inductive ReadOutcome where
  | bytes (n : ℕ)
  | eof
  | wouldBlock
  | interrupted
  | wantWrite
  | fault
  deriving DecidableEq, Repr

/-- What the environment answers to the step of a frame that asks it something. -/
inductive Input where
  | none
  | write (o : WriteOutcome)
  | read (r : ReadOutcome)
  /-- `getSocketError` in `handle_ep_err` is not `0`. -/
  | sockErr (isError : Bool)
  deriving DecidableEq, Repr

/-- What one step of the top frame does.  `frames` replaces the frame, `posted` is handed to
`queueInLoop`, `crash` is a failed assertion or a use of freed memory. -/
structure Effect where
  word : Word
  io : Io
  frames : List Frame
  posted : Option Functor
  timers : ℕ
  wake : Bool
  events : List Event
  crash : Bool

/-- The effect that only replaces the frame (and the loop's data). -/
def Effect.goto (w : Word) (io : Io) (frames : List Frame) : Effect :=
  { word := w, io := io, frames := frames, posted := none, timers := 0, wake := false, events := [],
    crash := false }

def Effect.crashed (w : Word) (io : Io) : Effect := { Effect.goto w io [] with crash := true }

/-! ### `sendInLoop` -/

/-- The head of the last loop of `sendInLoop`, on the value loaded on entry. -/
def sendEpilogue (w : Word) (io : Io) (old : Word) (job : Job) (copy : Option (List UInt8)) :
    Effect :=
  if unlikelyHas old .disconnected then { Effect.goto w io [] with events := [.ended job .hup] }
  else if !has old .used then { Effect.goto w io [] with events := [.ended job .unused] }
  else if has old .writing then Effect.goto w io [.sendInLoop (.cas old) job copy]
  else { Effect.goto w io [] with events := [.ended job .impossible] }

/-- `if (writeCompleteCallback_) queueInLoop(...)`. -/
def Config.writeComplete (cfg : Config) : Option Functor :=
  if cfg.writeCompleteCallback then some .writeComplete else none

/-- The high-water test, with the bytes it reports (a `size_t`); `oldLen` has already been raised.  The
plain test asks for `oldLen` on both sides of the mark. -/
def Config.highWater (cfg : Config) (oldLen remaining : ℕ) : Option Functor :=
  match cfg.kind with
  | .plain =>
    if oldLen ≥ cfg.highWaterMark ∧ oldLen < cfg.highWaterMark ∧ cfg.highWaterMarkCallback then
      some (.highWaterMark oldLen)
    else none
  | .ssl =>
    let total := (oldLen + remaining) % 2 ^ 64
    if total ≥ cfg.highWaterMark ∧ oldLen < cfg.highWaterMark ∧ cfg.highWaterMarkCallback then
      some (.highWaterMark total)
    else none

/-- The buffer `sendInLoop` constructs for what is left. -/
def Config.freshBuffer (cfg : Config) (remaining : ℕ) : Buffer :=
  match cfg.kind with
  | .plain => Buffer.ctor remaining
  | .ssl => Buffer.ctor Buffer.initialSize

/-- The direct write of `sendInLoop`: always the whole message from its start. -/
def sendWrite (cfg : Config) (w : Word) (io : Io) (old : Word) (turn remaining : ℕ) (job : Job)
    (copy : Option (List UInt8)) (o : WriteOutcome) : Effect :=
  let events := [Event.handed turn io.kernel.isOpen]
  let io' := { io with kernel := io.kernel.write o }
  let queue (io : Io) : Effect :=
    { Effect.goto w io [.sendInLoop (.queue old turn o.ret remaining) job copy] with events := events }
  let fault : Effect :=
    let e := sendEpilogue w io' old job copy
    { e with events := events ++ e.events }
  if 0 ≤ o.ret then
    if job.size - o.ret.toNat = 0 then
      let e := sendEpilogue w io' old job copy
      { e with posted := cfg.writeComplete, events := events ++ e.events }
    else
      let again := SendLoopPc.write old turn (job.size - o.ret.toNat)
      { Effect.goto w io' [.sendInLoop again job copy] with events := events }
  else
    match cfg.kind, o.err with
    | _, .wouldBlock => queue io'
    | .plain, .interrupted =>
      { Effect.goto w io' [.sendInLoop (.write old turn remaining) job copy] with events := events }
    | .ssl, .wantRead => queue (io'.setChannel (io'.channel.enableRead io'.kernel))
    | _, _ => fault

/-- `emplace_front` of what was not written, with `EnableWrite` unless the channel is writing. -/
def sendQueue (cfg : Config) (w : Word) (io : Io) (old : Word) (turn : ℕ) (nwrote : ℤ)
    (remaining : ℕ) (job : Job) (copy : Option (List UInt8)) : Effect :=
  let oldLen := (io.oldLen + remaining) % 2 ^ 64
  match (cfg.freshBuffer remaining).append (job.bytes copy io.mem nwrote remaining) with
  | none => Effect.crashed w io
  | some buf =>
    let io' := { io with oldLen := oldLen, outputBuffers := ⟨turn, buf⟩ :: io.outputBuffers }
    let io'' :=
      if io'.channel.isWriting then io' else io'.setChannel (io'.channel.enableWrite io'.kernel)
    { sendEpilogue w io'' old job copy with posted := cfg.highWater oldLen remaining }

/-- One step of `sendInLoop`. -/
def sendLoopStep (cfg : Config) (w : Word) (io : Io) (job : Job) (copy : Option (List UInt8)) :
    SendLoopPc → Input → Option Effect
  | .load, _ =>
    let io' := { io with turns := io.turns + 1 }
    let e :=
      if !io.channel.isWriting && io.outputBuffers.isEmpty && job.size != 0 then
        Effect.goto w io' [.sendInLoop (.write w io.turns job.size) job copy]
      else if job.size != 0 then
        Effect.goto w io' [.sendInLoop (.queue w io.turns 0 job.size) job copy]
      else sendEpilogue w io' w job copy
    some { e with events := .began job :: e.events }
  | .write old turn remaining, .write o =>
    if o.admissible io.kernel job.size then some (sendWrite cfg w io old turn remaining job copy o)
    else none
  | .write _ _ _, _ => none
  | .queue old turn nwrote remaining, _ =>
    some (sendQueue cfg w io old turn nwrote remaining job copy)
  | .cas old, _ =>
    if w = old then
      if (old >>> sendersOffset) ^^^ 1 = 0 then
        some (Effect.goto (old - oneSender) io [.sendInLoop (.clear (old ^^^ oneSender)) job copy])
      else some { Effect.goto (old - oneSender) io [] with events := [.ended job .released] }
    else some { Effect.goto w io [] with events := [.ended job .failedCas] }
  | .clear old, _ =>
    if w = old then
      some (Effect.goto (old ^^^ StateE.writing.word) io [.sendInLoop .wake job copy])
    else some { Effect.goto w io [] with events := [.ended job .failedCas] }
  | .wake, _ => some { Effect.goto w io [] with wake := true, events := [.ended job .released] }

/-! ### Closing -/

/-- One step of `handle_ep_hup`.  The plain class stores `Disconnected` before its callback, the TLS
class after it. -/
def hupStep (cfg : Config) (w : Word) (io : Io) : HupPc → Effect
  | .load =>
    if has w .disconnected then Effect.goto w io []
    else
      match cfg.kind with
      | .plain => Effect.goto w io [.hup .close]
      | .ssl => Effect.goto w io [.hup .free]
  | .free =>
    { Effect.goto w { io with ssl := false } [.call (.setUnused .load) .close] with
      events := if io.ssl then [.sslFree] else [] }
  | .close =>
    let io' := io.setChannel (io.channel.disableAll io.kernel)
    match cfg.kind with
    | .plain =>
      { Effect.goto w { io' with channel := io'.channel.reset, kernel := io'.kernel.close }
          [.hup .store] with events := [.socketClose] }
    | .ssl =>
      { Effect.goto w { io' with kernel := io'.kernel.close } [.hup .callback] with
        events := [.socketClose] }
  | .store => Effect.goto StateE.disconnected.word io [.hup .wake]
  | .wake =>
    match cfg.kind with
    | .plain => { Effect.goto w io [.hup .callback] with wake := true }
    | .ssl => { Effect.goto w io [] with wake := true }
  | .callback =>
    match cfg.kind with
    | .plain => { Effect.goto w io [.user] with events := [.closeCallback w] }
    | .ssl => { Effect.goto w io [.user, .hup .store] with events := [.closeCallback w] }

/-- One step of `forceCloseWithDelay`. -/
def delayStep (w : Word) (io : Io) : DelayPc → Effect
  | .isConnected =>
    if w = StateE.connected.word then Effect.goto w io [.delay .store]
    else Effect.goto w io [.delay .isDisconnecting]
  | .isDisconnecting =>
    if w = StateE.disconnecting.word then Effect.goto w io [.delay .store] else Effect.goto w io []
  | .store => { Effect.goto StateE.disconnecting.word io [] with timers := 1 }

/-! ### Event handlers -/

/-- `messageCallback_`, when bytes were read. -/
def messageCallback (n : ℕ) : List Frame := if 0 < n then [.user] else []

/-- `Channel::HandleEvent_tied`. -/
def handleEvent (io : Io) (m : Mask) : List Frame :=
  let outFirst := io.channel.isIoChannel && !io.channel.tied && m.epout
  if m.err then
    if io.channel.callbacks then [.handler .epErr] else []
  else if m.hup then
    (if outFirst then [.handler .eventOut] else []) ++ [.handler .eventHup]
  else if m.rdhup then
    (if outFirst then [.handler .eventOut] else []) ++ [.handler .eventRdhup]
  else
    (if m.epin && io.channel.callbacks then [.handler (.epIn 0)] else []) ++
      if m.epout then [.handler .eventOut] else []

/-- What `handle_ep_in` does with one read. -/
def epInStep (cfg : Config) (w : Word) (io : Io) (n : ℕ) : ReadOutcome → Effect
  | .bytes k => Effect.goto w io [.handler (.epIn (n + k))]
  | .eof => Effect.goto w io (messageCallback n ++ [.hup .load])
  | .wouldBlock => Effect.goto w io (messageCallback n)
  | .interrupted =>
    match cfg.kind with
    | .plain => Effect.goto w io [.handler (.epIn n)]
    | .ssl => Effect.goto w io [.hup .load]
  | .wantWrite =>
    match cfg.kind with
    | .plain => Effect.goto w io [.hup .load]
    | .ssl => Effect.goto w (io.setChannel (io.channel.enableWrite io.kernel)) (messageCallback n)
  | .fault => Effect.goto w io [.hup .load]

/-- What `finish_in_out` does with one read. -/
def finishReadStep (cfg : Config) (w : Word) (io : Io) (n : ℕ) : ReadOutcome → Effect
  | .bytes k => Effect.goto w io [.handler (.finishRead (n + k))]
  | .eof => Effect.goto w io (messageCallback n ++ [.handler (.drain .finish)])
  | .interrupted =>
    match cfg.kind with
    | .plain => Effect.goto w io [.handler (.finishRead n)]
    | .ssl => Effect.goto w io [.hup .load, .handler .rdhupEnd]
  | .wouldBlock | .wantWrite | .fault => Effect.goto w io [.hup .load, .handler .rdhupEnd]

/-- `return` in the middle of an output loop. -/
def DrainMode.stop : DrainMode → List Frame
  | .out => []
  | .finish => [.handler .rdhupEnd]

/-- The `left` of the plain loops is an `int`. -/
def leftOf (cfg : Config) (b : Buffer) : ℤ :=
  match cfg.kind with
  | .plain => (BitVec.ofNat 32 b.readableBytes).toInt
  | .ssl => b.readableBytes

/-- After the inner loop has left an empty front buffer. -/
def popFront (cfg : Config) (w : Word) (io : Io) (mode : DrainMode) : Effect :=
  let io' := { io with outputBuffers := io.outputBuffers.tail }
  match cfg.kind, mode with
  | .ssl, .finish =>
    if cfg.writeCompleteCallback then
      Effect.goto w io [.user, .handler .finishPop, .handler (.drain .finish)]
    else Effect.goto w io [.handler (.drain .finish)]
  | _, _ => { Effect.goto w io' [.handler (.drain mode)] with posted := cfg.writeComplete }

/-- The head of the loop over `outputBuffers_`. -/
def drainStep (cfg : Config) (w : Word) (io : Io) (mode : DrainMode) : Effect :=
  match io.outputBuffers with
  | [] =>
    match mode with
    | .out => Effect.goto w io (if io.rdhupPhrase then [.hup .load] else [])
    | .finish => Effect.goto w io [.hup .load, .handler .rdhupEnd]
  | b :: _ =>
    if leftOf cfg b.buf ≠ 0 then Effect.goto w io [.handler (.drainWrite mode (leftOf cfg b.buf))]
    else if b.buf.readableBytes = 0 then popFront cfg w io mode
    else Effect.goto w io [.handler (.drain mode)]

/-- `left` as the `size_t` passed to `write`. -/
def countOf (left : ℤ) : ℕ := (BitVec.ofInt 64 left).toNat

/-- The write of the front buffer in the two output loops, after the kernel's answer. -/
def drainWriteStep (cfg : Config) (w : Word) (io : Io) (mode : DrainMode) (left : ℤ) (b : OutBuf)
    (bs : List OutBuf) (o : WriteOutcome) : Effect :=
  let events := [Event.handed b.turn io.kernel.isOpen]
  let io' := { io with kernel := io.kernel.write o }
  if 0 < o.ret then
    match b.buf.retrieve o.ret.toNat with
    | none => { Effect.crashed w io' with events := events }
    | some buf =>
      let io'' := { io' with outputBuffers := { b with buf := buf } :: bs }
      match cfg.kind with
      | .plain => { Effect.goto w io'' [.handler (.drainWrite mode left)] with events := events }
      | .ssl =>
        if buf.readableBytes = 0 then { popFront cfg w io'' mode with events := events }
        else
          { Effect.goto w io'' [.handler (.drainWrite mode buf.readableBytes)] with events := events }
  else
    match cfg.kind, o.err with
    | .plain, .wouldBlock => { Effect.goto w io' mode.stop with events := events }
    | .plain, .interrupted =>
      { Effect.goto w io' [.handler (.drainWrite mode left)] with events := events }
    | .plain, _ =>
      match mode with
      | .out => { Effect.goto w io' [.hup .load, .handler .drainClear] with events := events }
      | .finish => { Effect.goto w io' [.hup .load, .handler .rdhupEnd] with events := events }
    | .ssl, .wouldBlock =>
      let io'' :=
        match mode with
        | .out => io'
        | .finish =>
          if io'.channel.isWriting then io' else io'.setChannel (io'.channel.enableWrite io'.kernel)
      { Effect.goto w io'' mode.stop with events := events }
    | .ssl, .wantRead =>
      { Effect.goto w (io'.setChannel (io'.channel.enableRead io'.kernel)) mode.stop with
        events := events }
    | .ssl, _ => { Effect.goto w io' (.hup .load :: mode.stop) with events := events }

/-- One step of an event handler. -/
def handlerStep (cfg : Config) (w : Word) (io : Io) : HandlerPc → Input → Option Effect
  | .event m, _ => some (Effect.goto w io (handleEvent io m))
  | .eventHup, _ => some (Effect.goto w io (if io.channel.callbacks then [.hup .load] else []))
  | .eventRdhup, _ =>
    some (Effect.goto w io (if io.channel.callbacks then [.handler .rdhup] else []))
  | .eventOut, _ => some (Effect.goto w io (if io.channel.callbacks then [.handler .epOut] else []))
  | .epIn n, .read r => some (epInStep cfg w io n r)
  | .epIn _, _ => none
  | .epOut, _ =>
    if io.outputBuffers.isEmpty then
      some (Effect.goto w (io.setChannel (io.channel.disableWrite io.kernel)) [])
    else some (Effect.goto w io [.handler (.drain .out)])
  | .drain mode, _ => some (drainStep cfg w io mode)
  | .drainWrite mode left, .write o =>
    match io.outputBuffers with
    | [] => none
    | b :: bs =>
      if o.admissible io.kernel (countOf left) then some (drainWriteStep cfg w io mode left b bs o)
      else none
  | .drainWrite _ _, _ => none
  | .drainClear, _ => some (Effect.crashed w { io with outputBuffers := [] })
  | .finishRead n, .read r => some (finishReadStep cfg w io n r)
  | .finishRead _, _ => none
  | .finishPop, _ =>
    some (Effect.goto w { io with outputBuffers := io.outputBuffers.tail } [])
  | .rdhup, _ =>
    if has w .connecting then some (Effect.goto w io [.handler (.rdhupAwait w)])
    else some (Effect.goto w io [.handler (.finishRead 0)])
  | .rdhupAwait old, _ =>
    if futexBlocks w old then some (Effect.goto w io [.handler .rdhupBlocked])
    else some (Effect.goto w io [.handler (.finishRead 0)])
  | .rdhupBlocked, _ => none
  | .rdhupEnd, _ => some (Effect.goto w { io with rdhupPhrase := true } [])
  | .epErr, .sockErr isError => some (Effect.goto w io (if isError then [.hup .load] else []))
  | .epErr, _ => none
  | .startReadInLoop, _ =>
    some (Effect.goto w
      (if io.channel.isReading then io else io.setChannel (io.channel.enableRead io.kernel)) [])
  | .stopReadInLoop, _ =>
    if io.reading || io.channel.isReading then
      some (Effect.goto w
        { io.setChannel (io.channel.disableRead io.kernel) with reading := false } [])
    else some (Effect.goto w io [])

/-! ### One step of the loop thread -/

/-- The frames a call on the state word leaves on the loop thread: `runInLoop` and the in-loop branch
of `send` run their body at once. -/
def Next.frames (k : Cont) : Next → List Frame
  | .goto c => [.call c k]
  | .refuse _ _ => k.frames
  | .admits job => .sendInLoop .load job none :: k.frames
  | .ret => k.frames
  | .win => .shutdownInLoop :: k.frames

def Next.events : Next → List Event
  | .refuse job why => [.refused job why]
  | .admits job => [.admitted job]
  | _ => []

/-- One step of the top frame; user code moves by `LoopAct.user` and `LoopAct.ret` instead. -/
def frameStep (cfg : Config) (w : Word) (io : Io) : Frame → Input → Option Effect
  | .user, _ => none
  | .call c k, _ =>
    (callStep w c).map fun e =>
      { Effect.goto e.word io (e.next.frames k) with wake := e.wake, events := e.next.events }
  | .sendInLoop pc job copy, inp => sendLoopStep cfg w io job copy pc inp
  | .shutdownInLoop, _ => some { Effect.goto w io [] with events := [.shutdownWrite] }
  | .hup pc, _ => some (hupStep cfg w io pc)
  | .delay pc, _ => some (delayStep w io pc)
  | .handler pc, inp => handlerStep cfg w io pc inp

/-- `futex_wake(&state_)` reaches the frame. -/
def Frame.wake : Frame → Frame
  | .call c k => .call c.wake k
  | .handler .rdhupBlocked => .handler (.finishRead 0)
  | f => f

def Frame.spurious : Frame → Option Frame
  | .call c k => c.spurious.map fun c' => .call c' k
  | .handler .rdhupBlocked => some (.handler (.finishRead 0))
  | _ => none

/-! ### The machine -/

/-- What a thread may call on the connection. -/
inductive Api where
  | send (kind : SendKind) (data : ℤ) (size : ℕ)
  | setUnused
  | shutdown
  | forceClose
  | startRead
  | stopRead
  /-- `queueInLoop` of a task of the user. -/
  | task
  deriving DecidableEq, Repr

/-- Where a thread outside the loop stands. -/
inductive Caller where
  | idle
  | calling (c : Call)
  /-- Inside `queueInLoop`, before its push succeeds. -/
  | queueing (f : Functor)
  deriving DecidableEq, Repr

def Caller.wake : Caller → Caller
  | .calling c => .calling c.wake
  | t => t

/-- Where a call on the state word leaves a thread outside the loop. -/
def Next.caller : Next → Caller
  | .goto c => .calling c
  | .refuse _ _ => .idle
  | .admits job => .queueing (.send job none)
  | .ret => .idle
  | .win => .queueing .shutdownInLoop

/-- What the loop thread does next. -/
inductive LoopAct where
  /-- The top frame moves. -/
  | step (inp : Input)
  /-- The top frame's futex wait returns by itself. -/
  | spurious
  /-- User code calls into the connection. -/
  | user (api : Api)
  /-- User code calls `forceCloseWithDelay`. -/
  | delay
  /-- User code returns. -/
  | ret
  /-- `epoll_wait` reports the channel. -/
  | poll (m : Mask)
  /-- The reported event is dispatched. -/
  | dispatch
  /-- The next pending functor is popped and run. -/
  | functor
  /-- A timer of `forceCloseWithDelay` expires. -/
  | timer
  /-- Code of the user that is no callback of this connection runs. -/
  | foreign
  deriving DecidableEq, Repr

/-- One step of the machine. -/
inductive Action (ι : Type) where
  | invoke (t : ι) (api : Api)
  | move (t : ι)
  | spurious (t : ι)
  /-- `push` returns without having pushed. -/
  | giveUp (t : ι)
  | loop (l : LoopAct)
  /-- Space becomes free in the send buffer. -/
  | space
  /-- The caller's storage changes. -/
  | overwrite (mem : ℤ → UInt8)

structure Conn (ι : Type) where
  word : Word
  io : Io
  /-- The event reported for the channel and not yet dispatched. -/
  ready : Option Mask
  functors : List Functor
  timers : ℕ
  callers : ι → Caller
  loop : List Frame
  nextId : ℕ
  log : List Event
  crashed : Bool

/-- The capacity of `pendingFunctors`. -/
def functorCap : ℕ := 1024

/-- `pendingFunctors.push` by the loop thread: nobody pops meanwhile, so on a full queue it gives up. -/
def post (q : List Functor) : Option Functor → List Functor
  | none => q
  | some f => if q.length < functorCap then q ++ [f] else q

variable {ι : Type}

/-- Apply the effect of the loop thread's top frame to the machine; `rest` is the stack below. -/
def Conn.apply (s : Conn ι) (rest : List Frame) (e : Effect) : Conn ι :=
  { s with
    word := e.word
    io := e.io
    loop := e.frames ++ rest
    functors := post s.functors e.posted
    timers := s.timers + e.timers
    callers := if e.wake then fun t => (s.callers t).wake else s.callers
    log := s.log ++ e.events
    crashed := e.crash }

/-- The loop thread starts these frames on top of the stack. -/
def Conn.enter (s : Conn ι) (frames : List Frame) : Conn ι := { s with loop := frames ++ s.loop }

/-- A call made by user code on the loop thread. -/
def Conn.userCall (s : Conn ι) : Api → Conn ι
  | .send kind data size =>
    let job : Job := ⟨s.nextId, kind, data, size⟩
    { s.enter [.call (.send .load job) .ret] with
      nextId := s.nextId + 1, log := s.log ++ [.called job] }
  | .setUnused => s.enter [.call (.setUnused .load) .ret]
  | .shutdown => s.enter [.call (.shutdown .load) .ret]
  | .forceClose => s.enter [forceCloseInLoop]
  | .startRead => s.enter [.handler .startReadInLoop]
  | .stopRead => s.enter [.handler .stopReadInLoop]
  | .task => { s with functors := post s.functors (some .task) }

/-- One step of the loop thread. -/
def loopStep (cfg : Config) (s : Conn ι) : LoopAct → Option (Conn ι)
  | .step inp =>
    match s.loop with
    | [] => none
    | f :: rest => (frameStep cfg s.word s.io f inp).map (s.apply rest)
  | .spurious =>
    match s.loop with
    | [] => none
    | f :: rest => f.spurious.map fun f' => { s with loop := f' :: rest }
  | .user api =>
    match s.loop with
    | .user :: _ => some (s.userCall api)
    | _ => none
  | .delay =>
    match s.loop with
    | .user :: _ => some (s.enter [.delay .isConnected])
    | _ => none
  | .ret =>
    match s.loop with
    | .user :: rest => some { s with loop := rest }
    | _ => none
  | .poll m =>
    match s.loop, s.ready, s.io.kernel.interest with
    | [], none, some _ =>
      if m.epout && !s.io.kernel.edge then none
      else
        some { s with
          ready := some m
          io := { s.io with
            kernel := { s.io.kernel with edge := s.io.kernel.edge && !m.epout } } }
    | _, _, _ => none
  | .dispatch =>
    match s.loop, s.ready with
    | [], some m => some { s.enter [.handler (.event m)] with ready := none }
    | _, _ => none
  | .functor =>
    match s.loop, s.ready, s.functors with
    | [], none, f :: fs => some { s.enter [f.frame] with functors := fs }
    | _, _, _ => none
  | .timer =>
    match s.loop, s.timers with
    | [], n + 1 => some { s.enter [forceCloseInLoop] with timers := n }
    | _, _ => none
  | .foreign =>
    match s.loop with
    | [] => some (s.enter [.user])
    | _ => none

variable [DecidableEq ι]

def Conn.setCaller (s : Conn ι) (t : ι) (c : Caller) : Conn ι :=
  { s with callers := Function.update s.callers t c }

/-- A thread outside the loop starts a call. -/
def Conn.invoke (s : Conn ι) (t : ι) : Api → Conn ι
  | .send kind data size =>
    let job : Job := ⟨s.nextId, kind, data, size⟩
    { s.setCaller t (.calling (.send .load job)) with
      nextId := s.nextId + 1, log := s.log ++ [.called job] }
  | .setUnused => s.setCaller t (.calling (.setUnused .load))
  | .shutdown => s.setCaller t (.calling (.shutdown .load))
  | .forceClose => s.setCaller t (.queueing .forceCloseInLoop)
  | .startRead => s.setCaller t (.queueing .startReadInLoop)
  | .stopRead => s.setCaller t (.queueing .stopReadInLoop)
  | .task => s.setCaller t (.queueing .task)

/-- A thread outside the loop has performed one access of its call. -/
def Conn.afterCall (s : Conn ι) (t : ι) (e : CallEffect) : Conn ι :=
  let woken : Conn ι :=
    if e.wake then
      { s with callers := fun u => (s.callers u).wake, loop := s.loop.map Frame.wake }
    else s
  { woken.setCaller t e.next.caller with word := e.word, log := s.log ++ e.next.events }

/-- The event of a functor whose push gave up. -/
def Functor.droppedEvents : Functor → List Event
  | .send job _ => [.dropped job]
  | _ => []

/-- The transition function of the machine. -/
def step (cfg : Config) (s : Conn ι) (a : Action ι) : Option (Conn ι) :=
  if s.crashed then none
  else
    match a with
    | .invoke t api =>
      match s.callers t with
      | .idle => some (s.invoke t api)
      | _ => none
    | .move t =>
      match s.callers t with
      | .idle => none
      | .calling c => (callStep s.word c).map (s.afterCall t)
      | .queueing f =>
        if s.functors.length < functorCap then
          some { s.setCaller t .idle with functors := s.functors ++ [f.capture s.io.mem] }
        else none
    | .spurious t =>
      match s.callers t with
      | .calling c => c.spurious.map fun c' => s.setCaller t (.calling c')
      | _ => none
    | .giveUp t =>
      match s.callers t with
      | .queueing f =>
        if functorCap ≤ s.functors.length then
          some { s.setCaller t .idle with log := s.log ++ f.droppedEvents }
        else none
      | _ => none
    | .loop l => loopStep cfg s l
    | .space => some { s with io := { s.io with kernel := s.io.kernel.space } }
    | .overwrite mem => some { s with io := { s.io with mem := mem } }

/-- The socket of a fresh connection: open, registered for reading, writable. -/
def Kernel.fresh : Kernel :=
  { isOpen := true, interest := some ⟨true, false⟩, writable := true, edge := false, armed := false,
    lastRefused := false }

/-- The channel after `tie_` and `EnableRead`. -/
def Channel.fresh (isIoChannel : Bool) : Channel :=
  { listen := ⟨true, false⟩, added := true, tied := true, isIoChannel := isIoChannel,
    callbacks := true }

/-- The connection after `connectEstablished` has stored `Connected | used`, with its connection
callback running.  The constructors leave `rdhup_phrase` unset, and a channel handed over by the
connector is an io channel. -/
def Conn.init (ι : Type) (rdhupPhrase isIoChannel ssl : Bool) (mem : ℤ → UInt8) : Conn ι :=
  { word := established
    io :=
      { outputBuffers := [], channel := Channel.fresh isIoChannel, kernel := Kernel.fresh, ssl := ssl,
        rdhupPhrase := rdhupPhrase, reading := true, oldLen := 0, turns := 0, mem := mem }
    ready := none
    functors := []
    timers := 0
    callers := fun _ => .idle
    loop := [.user]
    nextId := 0
    log := []
    crashed := false }

end KwNet.Tcp
