import Mathlib
import KwNet.Tcp.Word

/-!
# `send`, `set_unused` and `shutdown` on the state word

The three calls any thread may make on a connection, cut into their atomic accesses of `state_`: each
load, each CAS, each futex operation is one step, and the constructors of `SendPc`, `UnusedPc` and
`ShutdownPc` name the access performed next, with the local `old_state` where it is live.  The branch
a loop head takes on `old_state` touches nothing shared, so it belongs to the access that produced
`old_state` (`sendHead`, `unusedHead`, `shutdownHead`).

`callStep` performs one access.  All overloads of `send` and `send_OOB` run the same protocol on the
word (`SendKind` only matters to what is queued afterwards).  Loads whose value is not used (the
reload before a `return`, the ones inside log lines) are left out.

A thread blocked in a futex on `state_` stays there until a wake or a spurious return
(`Call.wake`, `Call.spurious`); `shutdown` waits on the address of its own local `old_state`, which
no wake on `state_` reaches.
-/

namespace KwNet.Tcp

/-- Which overload is running: `send(const stringPiece&)`, `send(Buffer*)` or `send_OOB`. -/
inductive SendKind where
  | piece
  | buffer
  | oob
  deriving DecidableEq, Repr

/-- One call of `send`: its number and its argument, a pointer with a length. -/
structure Job where
  id : ℕ
  kind : SendKind
  data : ℤ
  size : ℕ
  deriving DecidableEq, Repr

inductive SendPc where
  /-- `old_state = _load_acquire(&state_)` on entry. -/
  | load
  /-- `futex_wait(&state_, Connecting)`. -/
  | await
  | blocked
  /-- `old_state = _load_acquire(&state_)` after the wait or a failed CAS of `writing`. -/
  | reload
  /-- The CAS adding `1 << 6` while somebody is writing. -/
  | casAdd (old : Word)
  /-- The CAS setting `writing`. -/
  | casWriting (old : Word)
  /-- The CAS adding `1 << senders_offset` right after it. -/
  | casFirst (old : Word)
  deriving DecidableEq, Repr

inductive UnusedPc where
  | load
  /-- `futex_wait(&state_, expected)`. -/
  | await (expected : Word)
  | blocked
  | reload
  /-- The CAS clearing `used`. -/
  | casUnused (old : Word)
  /-- `futex_wake(&state_)`. -/
  | wake
  deriving DecidableEq, Repr

inductive ShutdownPc where
  | load
  | await
  | blocked
  /-- Inside `futex_wait(&old_state, Connected | used)`, on the address of the local. -/
  | blockedLocal
  | reload
  /-- The CAS storing `Disconnecting`. -/
  | casDisconnecting (old : Word)
  deriving DecidableEq, Repr

/-- A call in progress. -/
inductive Call where
  | send (pc : SendPc) (job : Job)
  | setUnused (pc : UnusedPc)
  | shutdown (pc : ShutdownPc)
  deriving DecidableEq, Repr

/-- How a `send` can return without its `sendInLoop`. -/
inductive Refusal where
  /-- "hup already". -/
  | hup
  /-- "send must before set_unused", having read a word without `used`. -/
  | unused
  /-- "impossible state": the second CAS of the first sender found this word. -/
  | impossible (found : Word)
  deriving DecidableEq, Repr

/-- What a call does after one access. -/
inductive Next where
  | goto (c : Call)
  /-- A `send` gives up its message. -/
  | refuse (job : Job) (why : Refusal)
  /-- A `send` has added itself to the sender field. -/
  | admits (job : Job)
  /-- The call returns. -/
  | ret
  /-- `shutdown` has stored `Disconnecting` and goes on to `runInLoop(shutdownInLoop)`. -/
  | win
  deriving DecidableEq, Repr

/-- The effect of one access: the word it leaves, where the call stands, whether it woke the
waiters. -/
structure CallEffect where
  word : Word
  next : Next
  wake : Bool
  deriving DecidableEq, Repr

/-- `futex_wait` goes to sleep: the words agree on the 32 bits it compares. -/
def futexBlocks (w expected : Word) : Bool := low32 w == low32 expected

/-! ### `send` -/

/-- The head of the loop of `send`, on the value just read. -/
def sendHead (job : Job) (old : Word) : Next :=
  if unlikelyHas old .disconnected then .refuse job .hup
  else if !has old .used then .refuse job .unused
  else if has old .writing then .goto (.send (.casAdd old) job)
  else .goto (.send (.casWriting old) job)

/-- One access of `send`. -/
def sendStep (w : Word) (job : Job) : SendPc → Option CallEffect
  | .load =>
    if has w .connecting then some ⟨w, .goto (.send .await job), false⟩
    else some ⟨w, sendHead job w, false⟩
  | .await =>
    some ⟨w, .goto (.send (if futexBlocks w StateE.connecting.word then .blocked else .reload) job),
      false⟩
  | .blocked => none
  | .reload => some ⟨w, sendHead job w, false⟩
  | .casAdd old =>
    if w = old then some ⟨old + oneSender, .admits job, false⟩ else some ⟨w, sendHead job w, false⟩
  | .casWriting old =>
    if w = old then
      some ⟨old ||| StateE.writing.word, .goto (.send (.casFirst (old ||| StateE.writing.word)) job),
        false⟩
    else some ⟨w, .goto (.send .reload job), false⟩
  | .casFirst old =>
    if w = old then some ⟨old + oneSender, .admits job, false⟩
    else if has w .disconnected then some ⟨w, .refuse job .hup, false⟩
    else some ⟨w, .refuse job (.impossible w), false⟩

/-! ### `set_unused` -/

/-- The head of the loop of `set_unused`. -/
def unusedHead (old : Word) : Next :=
  if unlikelyHas old .disconnected then .ret
  else if !has old .used then .ret
  else if has old .writing then .goto (.setUnused (.await old))
  else .goto (.setUnused (.casUnused old))

/-- One access of `set_unused`. -/
def unusedStep (w : Word) : UnusedPc → Option CallEffect
  | .load =>
    if has w .connecting then some ⟨w, .goto (.setUnused (.await StateE.connecting.word)), false⟩
    else some ⟨w, unusedHead w, false⟩
  | .await expected =>
    some ⟨w, .goto (.setUnused (if futexBlocks w expected then .blocked else .reload)), false⟩
  | .blocked => none
  | .reload => some ⟨w, unusedHead w, false⟩
  | .casUnused old =>
    if w = old then some ⟨old - StateE.used.word, .goto (.setUnused .wake), false⟩
    else some ⟨w, unusedHead w, false⟩
  | .wake => some ⟨w, .ret, true⟩

/-! ### `shutdown` -/

/-- The head of the loop of `shutdown`.  With `used` set it waits on its own local: the comparison is
with the value the local holds, and the wait ends without a wake or not at all. -/
def shutdownHead (old : Word) : Next :=
  if has old .disconnected then .ret
  else if has old .disconnecting then .ret
  else if has old .used then
    .goto (.shutdown (if futexBlocks old established then .blockedLocal else .reload))
  else .goto (.shutdown (.casDisconnecting old))

/-- One access of `shutdown`. -/
def shutdownStep (w : Word) : ShutdownPc → Option CallEffect
  | .load =>
    if has w .connecting then some ⟨w, .goto (.shutdown .await), false⟩
    else some ⟨w, shutdownHead w, false⟩
  | .await =>
    some ⟨w, .goto (.shutdown (if futexBlocks w StateE.connecting.word then .blocked else .reload)),
      false⟩
  | .blocked => none
  | .blockedLocal => none
  | .reload => some ⟨w, shutdownHead w, false⟩
  | .casDisconnecting old =>
    if w = old then some ⟨StateE.disconnecting.word, .win, false⟩
    else some ⟨w, shutdownHead w, false⟩

/-- One access of a call on the word `w`; `none` while the call sleeps in a futex. -/
def callStep (w : Word) : Call → Option CallEffect
  | .send pc job => sendStep w job pc
  | .setUnused pc => unusedStep w pc
  | .shutdown pc => shutdownStep w pc

/-- `futex_wake(&state_)` reaches the call. -/
def Call.wake : Call → Call
  | .send .blocked job => .send .reload job
  | .setUnused .blocked => .setUnused .reload
  | .shutdown .blocked => .shutdown .reload
  | c => c

/-- A futex wait returns without a wake. -/
def Call.spurious : Call → Option Call
  | .send .blocked job => some (.send .reload job)
  | .setUnused .blocked => some (.setUnused .reload)
  | .shutdown .blocked => some (.shutdown .reload)
  | .shutdown .blockedLocal => some (.shutdown .reload)
  | _ => none

end KwNet.Tcp
