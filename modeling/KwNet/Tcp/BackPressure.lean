import KwNet.Tcp.Moves
import KwNet.Tcp.Message

/-!
# Back-pressure in the write loops of `TcpConnection`

`sendInLoop`, `handle_ep_out` and `finish_in_out` ask `sockOption::getSocketError` why a `write` failed,
and that is `getsockopt(SO_ERROR)`, not `errno`.  A write refused with `EAGAIN` or interrupted with
`EINTR` leaves `SO_ERROR` at `0`, which none of the three recognises: they take a full send buffer for a
broken connection.

The loops run alone here, as activations of the loop thread whose writes get a given sequence of
answers: some bytes are accepted, or the write is refused, or interrupted.

* `Activation.step` — one step of the write loops, up to where they are left;
* **`sendRuns_end`**, **`drainRuns_end`** — how a call can end;
* **`back_pressure_kept`** — when the three functions leave the connection open and keep what `write`
  has not accepted: `sendInLoop` exactly when no write is refused or interrupted, the two output loops
  exactly when there is nothing to write.
-/

namespace KwNet.Tcp

open KwNet.Lib KwNet.Memory

/-- `EAGAIN`. -/
def eagain : ℤ := 11

/-- `EINTR`. -/
def eintr : ℤ := 4

/-- The branches the write loops take on the value of `getSocketError`. -/
def errOf (err : ℤ) : Err :=
  if err = eagain then .wouldBlock else if err = eintr then .interrupted else .fault

/-- What the kernel does with one `write` of at least one byte. -/
inductive Answer where
  | accepted (n : ℕ+)
  /-- `-1` with `errno == EAGAIN`. -/
  | again
  /-- `-1` with `errno == EINTR`. -/
  | interrupted
  deriving DecidableEq, Repr

/-- `SO_ERROR` after the write: neither refusal sets it. -/
def Answer.soError (_ : Answer) : ℤ := 0

/-- The answer as the write loops see it, `getSocketError` reading `SO_ERROR`. -/
def Answer.outcome (r : Answer) : WriteOutcome :=
  match r with
  | .accepted n => ⟨(n : ℕ), errOf r.soError, false, false⟩
  | .again => ⟨-1, errOf r.soError, true, false⟩
  | .interrupted => ⟨-1, errOf r.soError, false, false⟩

def Answer.isAccepted : Answer → Bool
  | .accepted _ => true
  | _ => false

/-- The bytes accepted. -/
def Answer.count : Answer → ℕ
  | .accepted n => n
  | _ => 0

/-! ### Activations -/

/-- The frames of the three write loops. -/
def Frame.inWriteLoop : Frame → Bool
  | .sendInLoop .load _ _ | .sendInLoop (.write _ _ _) _ _ | .sendInLoop (.queue _ _ _ _) _ _ => true
  | .handler .epOut | .handler (.drain _) | .handler (.drainWrite _ _) => true
  | _ => false

/-- The next step is a `write`. -/
def Frame.writes : Frame → Bool
  | .sendInLoop (.write _ _ _) _ _ | .handler (.drainWrite _ _) => true
  | _ => false

/-- The loop thread inside one call, with the answers its writes have had so far. -/
structure Activation where
  word : Word
  io : Io
  frames : List Frame
  crashed : Bool
  answers : List Answer

/-- The call has left its write loops. -/
def Activation.ended (a : Activation) : Bool := a.crashed || !a.frames.head?.any Frame.inWriteLoop

/-- The call goes on with `handle_ep_hup`. -/
def Activation.hangsUp (a : Activation) : Bool := a.frames.head? == some (.hup .load)

/-- The answer as the input of a step. -/
def Answer.input : Option Answer → Input
  | none => .none
  | some r => .write r.outcome

/-- One step, with the answer if it is a `write`. -/
def Activation.step (cfg : Config) (a : Activation) (r : Option Answer) : Option Activation :=
  match a.frames with
  | [] => none
  | f :: rest =>
    if !a.crashed && f.inWriteLoop && r.isSome == f.writes then
      (frameStep cfg a.word a.io f (Answer.input r)).map fun e =>
        { word := e.word, io := e.io, frames := e.frames ++ rest, crashed := e.crash,
          answers := a.answers ++ r.toList }
    else none

/-- The loop thread enters `f`. -/
def Activation.enter (w : Word) (io : Io) (f : Frame) : Activation := ⟨w, io, [f], false, []⟩

/-- The bytes queued, front first. -/
def Io.pending (io : Io) : List UInt8 := io.outputBuffers.flatMap fun b => b.buf.readable

/-- The call has not crashed or hung up, the socket is open, and the queue holds `kept`. -/
structure Activation.Keeps (a : Activation) (kept : List UInt8) : Prop where
  crashed : a.crashed = false
  hangsUp : a.hangsUp = false
  isOpen : a.io.kernel.isOpen = true
  pending : a.io.pending = kept

/-- `sendInLoop` has kept what was not accepted.  All its writes start at the beginning of the message,
so what is accepted is as far as the longest of them came. -/
def SendKept (io : Io) (job : Job) (copy : Option (List UInt8)) (a : Activation) : Prop :=
  a.Keeps ((job.bytes copy io.mem 0 job.size).drop ((a.answers.map Answer.count).foldr max 0)
    ++ io.pending)

/-- `handle_ep_out` has kept what was not accepted. -/
def OutKept (io : Io) (a : Activation) : Prop :=
  a.Keeps (io.pending.drop (a.answers.map Answer.count).sum)

/-- `finish_in_out` has kept what was not accepted.  With an empty queue it has returned `true`, and the
`handle_ep_hup` that follows is its caller's. -/
def FinishKept (io : Io) (a : Activation) : Prop :=
  a.crashed = false ∧ (a.hangsUp = true → a.io.outputBuffers = []) ∧
    a.io.kernel.isOpen = true ∧ a.io.pending = io.pending.drop (a.answers.map Answer.count).sum

variable {cfg : Config} {w : Word} {io : Io} {a a' : Activation}

/-- A step of an activation is a step of its top frame. -/
theorem Activation.step_eq {f : Frame} {rest : List Frame} {r : Option Answer}
    (hf : a.frames = f :: rest) (h : a.step cfg r = some a') :
    r.isSome = f.writes ∧
      ∃ e, frameStep cfg a.word a.io f (Answer.input r) = some e ∧ a'.io = e.io ∧
        a'.frames = e.frames ++ rest ∧ a'.crashed = e.crash ∧
        a'.answers = a.answers ++ r.toList := by
  simp only [Activation.step, hf] at h
  split at h
  · next hcond =>
    simp only [Bool.and_eq_true, beq_iff_eq] at hcond
    obtain ⟨e, he, rfl⟩ := Option.map_eq_some_iff.mp h
    exact ⟨hcond.2, e, he, rfl, rfl, rfl, rfl⟩
  · cases h

/-- A call that has ended makes no further step. -/
theorem Activation.step_ended {r : Option Answer} (h : a.ended = true) : a.step cfg r = none := by
  unfold Activation.ended at h
  unfold Activation.step
  split
  · rfl
  · next f rest hf =>
    rw [hf] at h
    simp only [List.head?_cons, Option.any_some, Bool.or_eq_true, Bool.not_eq_true'] at h
    refine if_neg ?_
    rcases h with h | h <;> simp [h]

/-! ### `sendInLoop` -/

/-- How the epilogue leaves the write loop: nothing is hung up, and the loop's data are as given. -/
theorem sendEpilogue_leaves (w : Word) (io : Io) (old : Word) (job : Job)
    (copy : Option (List UInt8)) :
    (sendEpilogue w io old job copy).io = io ∧ (sendEpilogue w io old job copy).crash = false ∧
      ∀ f ∈ (sendEpilogue w io old job copy).frames, f.inWriteLoop = false ∧ f ≠ .hup .load := by
  unfold sendEpilogue
  (repeat' split) <;> simp [Effect.goto, Frame.inWriteLoop]

/-- The longest of the accepted writes. -/
def longest (answers : List Answer) : ℕ := (answers.map Answer.count).foldr max 0

theorem longest_lt {answers : List Answer} {size : ℕ} (hsize : 0 < size)
    (h : ∀ r ∈ answers, r.count < size) : longest answers < size := by
  induction answers with
  | nil => exact hsize
  | cons r rs ih =>
    have hr := h r List.mem_cons_self
    have hrs := ih fun r' hr' => h r' (List.mem_cons_of_mem r hr')
    exact max_lt hr hrs

theorem le_longest {answers : List Answer} {r : Answer} (h : r ∈ answers) :
    r.count ≤ longest answers := by
  induction answers with
  | nil => cases h
  | cons r' rs ih =>
    rcases List.mem_cons.mp h with rfl | h
    · exact le_max_left _ _
    · exact (ih h).trans (le_max_right _ _)

/-- Where `sendInLoop` can stand, on a message of `job`, started with the data `io`. -/
inductive SendRuns (io : Io) (job : Job) (copy : Option (List UInt8)) (a : Activation) : Prop
  | load (hf : a.frames = [.sendInLoop .load job copy]) (hio : a.io = io) (hc : a.crashed = false)
      (hr : a.answers = [])
  /-- In the direct write: everything so far was accepted, but never the whole message. -/
  | write {old : Word} {turn remaining : ℕ}
      (hf : a.frames = [.sendInLoop (.write old turn remaining) job copy])
      (hout : a.io.outputBuffers = io.outputBuffers) (hopen : a.io.kernel.isOpen = true)
      (hc : a.crashed = false) (hsize : 0 < job.size)
      (hr : ∀ r ∈ a.answers, r.isAccepted = true ∧ r.count < job.size)
  /-- About to queue the whole message without having written. -/
  | queue {old : Word} {turn : ℕ}
      (hf : a.frames = [.sendInLoop (.queue old turn 0 job.size) job copy])
      (hout : a.io.outputBuffers = io.outputBuffers) (hmem : a.io.mem = io.mem)
      (hopen : a.io.kernel.isOpen = true) (hc : a.crashed = false) (hr : a.answers = [])
  | kept (hend : a.ended = true) (hkept : SendKept io job copy a)
      (hr : ∀ r ∈ a.answers, r.isAccepted = true)
  | lost (hend : a.ended = true) (hkept : ¬ SendKept io job copy a)
      (hr : ¬ ∀ r ∈ a.answers, r.isAccepted = true)

variable {job : Job} {copy : Option (List UInt8)}

/-- The epilogue ends the call and does not hang up. -/
theorem epilogue_ends (io : Io) (job : Job) (copy : Option (List UInt8)) {old : Word} {io' : Io}
    (hio : a.io = io') (hc : a.crashed = false)
    (hf : a.frames = (sendEpilogue w io' old job copy).frames) (hopen : io'.kernel.isOpen = true) :
    a.ended = true ∧ (SendKept io job copy a ↔
      io'.pending = (job.bytes copy io.mem 0 job.size).drop (longest a.answers) ++ io.pending) := by
  have hleave := (sendEpilogue_leaves w io' old job copy).2.2
  have hend : a.ended = true ∧ a.hangsUp = false := by
    unfold Activation.ended Activation.hangsUp
    rw [hf]
    cases hfs : (sendEpilogue w io' old job copy).frames with
    | nil => exact ⟨Bool.or_true _, rfl⟩
    | cons f fs =>
      have hf' := hleave f (by rw [hfs]; exact List.mem_cons_self)
      simp [hf'.1, hf'.2]
  refine ⟨hend.1, fun h => ?_, fun h => ⟨hc, hend.2, by rw [hio]; exact hopen, by rw [hio]; exact h⟩⟩
  rw [← hio]
  exact h.pending

/-- A `write` that failed with an error `sendInLoop` does not know. -/
theorem sendWrite_fault (hk : cfg.kind = .plain) {old : Word} {turn remaining : ℕ} {o : WriteOutcome}
    (hret : o.ret < 0) (herr : o.err = .fault) :
    (sendWrite cfg w io old turn remaining job copy o).io = { io with kernel := io.kernel.write o } ∧
    (sendWrite cfg w io old turn remaining job copy o).crash = false ∧
    (sendWrite cfg w io old turn remaining job copy o).frames
      = (sendEpilogue w { io with kernel := io.kernel.write o } old job copy).frames := by
  have hleave := sendEpilogue_leaves w { io with kernel := io.kernel.write o } old job copy
  unfold sendWrite
  rw [if_neg (Int.not_le.mpr hret), hk, herr]
  exact ⟨hleave.1, hleave.2.1, rfl⟩

/-- A `write` that took the whole message. -/
theorem sendWrite_whole (w old : Word) (io : Io) (turn remaining : ℕ)
    (copy : Option (List UInt8)) {o : WriteOutcome}
    (hret : o.ret = job.size) :
    (sendWrite cfg w io old turn remaining job copy o).io = { io with kernel := io.kernel.write o } ∧
    (sendWrite cfg w io old turn remaining job copy o).crash = false ∧
    (sendWrite cfg w io old turn remaining job copy o).frames
      = (sendEpilogue w { io with kernel := io.kernel.write o } old job copy).frames := by
  have hleave := sendEpilogue_leaves w { io with kernel := io.kernel.write o } old job copy
  have hzero : job.size - o.ret.toNat = 0 := by rw [hret, Int.toNat_natCast, Nat.sub_self]
  have hpos : 0 ≤ o.ret := by rw [hret]; exact Int.natCast_nonneg _
  unfold sendWrite
  rw [if_pos hpos, if_pos hzero]
  exact ⟨hleave.1, hleave.2.1, rfl⟩

/-- A `write` that took a part: the loop writes the whole message again. -/
theorem sendWrite_part (w old : Word) (io : Io) (turn remaining : ℕ)
    (copy : Option (List UInt8)) {n : ℕ} {o : WriteOutcome} (hret : o.ret = n)
    (hn : n < job.size) :
    (sendWrite cfg w io old turn remaining job copy o).io = { io with kernel := io.kernel.write o } ∧
    (sendWrite cfg w io old turn remaining job copy o).crash = false ∧
    (sendWrite cfg w io old turn remaining job copy o).frames
      = [.sendInLoop (.write old turn (job.size - n)) job copy] := by
  have hleft : job.size - n ≠ 0 := by omega
  simp only [sendWrite, hret, if_pos (Int.natCast_nonneg n), Int.toNat_natCast, if_neg hleft]
  exact ⟨rfl, rfl, rfl⟩

/-- `sendInLoop` on entry. -/
theorem SendRuns.step_load (hopen : a.io.kernel.isOpen = true)
    (hf : a.frames = [.sendInLoop .load job copy]) (hr : a.answers = []) {r : Option Answer}
    (hs : a.step cfg r = some a') : SendRuns a.io job copy a' := by
  obtain ⟨hw, e, he, hio', hf', hc', hr'⟩ := Activation.step_eq hf hs
  obtain rfl : r = none := by cases r <;> first | rfl | cases hw
  rw [hr] at hr'
  simp only [frameStep, sendLoopStep, Option.some.injEq] at he
  subst he
  rw [List.append_nil] at hf'
  split at hf'
  · next hdirect =>
    simp only [Bool.and_eq_true, bne_iff_ne, ne_eq] at hdirect
    rw [if_pos (by simpa using hdirect)] at hio' hc'
    exact .write hf' (by rw [hio']; rfl) (by rw [hio']; exact hopen) hc'
      (Nat.pos_of_ne_zero hdirect.2) (by rw [hr']; exact List.forall_mem_nil _)
  · next hdirect =>
    rw [if_neg hdirect] at hio' hc'
    split at hf'
    · next hsize =>
      rw [if_pos hsize] at hio' hc'
      exact .queue hf' (by rw [hio']; rfl) (by rw [hio']; rfl) (by rw [hio']; exact hopen) hc' hr'
    · next hsize =>
      rw [if_neg hsize] at hio' hc'
      have hzero : job.size = 0 := by simpa using hsize
      have hleave := sendEpilogue_leaves a.word { a.io with turns := a.io.turns + 1 } a.word job copy
      obtain ⟨hend, hkept⟩ := epilogue_ends a.io job copy
        (hio'.trans hleave.1) (hc'.trans hleave.2.1) hf' hopen
      refine .kept hend (hkept.mpr ?_) (by rw [hr']; exact List.forall_mem_nil _)
      have hnil : job.bytes copy a.io.mem 0 job.size = [] := by
        rw [← List.length_eq_zero_iff, Job.length_bytes, hzero]
      rw [hnil, List.drop_nil, List.nil_append]
      rfl

/-- The direct write. -/
theorem SendRuns.step_write (hk : cfg.kind = .plain) {old : Word} {turn remaining : ℕ}
    (hf : a.frames = [.sendInLoop (.write old turn remaining) job copy])
    (hout : a.io.outputBuffers = io.outputBuffers) (hopen : a.io.kernel.isOpen = true)
    (hsize : 0 < job.size) (hr : ∀ r ∈ a.answers, r.isAccepted = true ∧ r.count < job.size)
    {r : Option Answer} (hs : a.step cfg r = some a') : SendRuns io job copy a' := by
  obtain ⟨hw, e, he, hio', hf', hc', hr'⟩ := Activation.step_eq hf hs
  obtain ⟨r, rfl⟩ : ∃ r', r = some r' := Option.isSome_iff_exists.mp hw
  rw [List.append_nil] at hf'
  simp only [frameStep, Answer.input, sendLoopStep] at he
  split at he <;> cases he
  next hadm =>
  have hopen' : (a.io.kernel.write r.outcome).isOpen = true := by
    rw [(a.io.kernel.write_isOpen r.outcome).1]
    exact hopen
  have hpend : Io.pending { a.io with kernel := a.io.kernel.write r.outcome } = io.pending := by
    unfold Io.pending
    rw [← hout]
  -- a refusal throws the rest of the message away
  have hlost : r.isAccepted = false → SendRuns io job copy a' := by
    intro hrefused
    have hret : r.outcome.ret < 0 := by
      cases r with
      | accepted n => cases hrefused
      | _ => exact Int.negSucc_lt_zero 0
    have herr : r.outcome.err = .fault := by cases r <;> rfl
    obtain ⟨hio, hc, hfr⟩ := sendWrite_fault hk hret herr
    obtain ⟨hend, hkept⟩ := epilogue_ends io job copy (hio'.trans hio) (hc'.trans hc)
      (hf'.trans hfr) hopen'
    have hmem : r ∈ a'.answers := by rw [hr']; exact List.mem_append_right _ List.mem_cons_self
    refine .lost hend (fun h => ?_) fun h => ?_
    · have hcount : ∀ r' ∈ a'.answers, r'.count < job.size := by
        intro r' hmem'
        rw [hr'] at hmem'
        rcases List.mem_append.mp hmem' with hmem' | hmem'
        · exact (hr r' hmem').2
        · obtain rfl := List.mem_singleton.mp hmem'
          cases r' with
          | accepted n => cases hrefused
          | _ => exact hsize
      have hlen := congrArg List.length (hkept.mp h)
      rw [hpend, List.length_append, List.length_drop, Job.length_bytes] at hlen
      have := longest_lt hsize hcount
      omega
    · rw [h r hmem] at hrefused
      cases hrefused
  cases r with
  | again => exact hlost rfl
  | interrupted => exact hlost rfl
  | accepted n =>
    have hle : (n : ℕ) ≤ job.size := by
      simp only [WriteOutcome.admissible, Answer.outcome, Bool.and_eq_true] at hadm
      exact Int.ofNat_le.mp (of_decide_eq_true hadm.1.1.2)
    rcases Nat.lt_or_eq_of_le hle with hlt | heq
    · obtain ⟨hio, hc, hfr⟩ := sendWrite_part a.word old a.io turn remaining copy
        (o := (Answer.accepted n).outcome) rfl hlt
      refine .write (hf'.trans hfr) ?_ ?_ (hc'.trans hc) hsize fun r' hmem' => ?_
      · rw [hio', hio]
        exact hout
      · rw [hio', hio]
        exact hopen'
      · rw [hr'] at hmem'
        rcases List.mem_append.mp hmem' with hmem' | hmem'
        · exact hr r' hmem'
        · obtain rfl := List.mem_singleton.mp hmem'
          exact ⟨rfl, hlt⟩
    · obtain ⟨hio, hc, hfr⟩ := sendWrite_whole a.word old a.io turn remaining copy
        (o := (Answer.accepted n).outcome) (congrArg Nat.cast heq)
      obtain ⟨hend, hkept⟩ := epilogue_ends io job copy (hio'.trans hio) (hc'.trans hc)
        (hf'.trans hfr) hopen'
      have hmem : Answer.accepted n ∈ a'.answers := by
        rw [hr']
        exact List.mem_append_right _ List.mem_cons_self
      refine .kept hend (hkept.mpr ?_) fun r' hmem' => ?_
      · have hall : job.size ≤ longest a'.answers := heq ▸ le_longest hmem
        rw [hpend, List.drop_of_length_le (by rw [Job.length_bytes]; exact hall), List.nil_append]
      · rw [hr'] at hmem'
        rcases List.mem_append.mp hmem' with hmem' | hmem'
        · exact (hr r' hmem').1
        · obtain rfl := List.mem_singleton.mp hmem'
          rfl

/-- What `sendInLoop` queues is the rest of the message, at the front. -/
theorem sendQueue_leaves (cfg : Config) (w old : Word) (io : Io) (job : Job)
    (copy : Option (List UInt8)) (turn remaining : ℕ) (nwrote : ℤ) :
    ∃ (io' : Io) (b : OutBuf), (sendQueue cfg w io old turn nwrote remaining job copy).io = io' ∧
      (sendQueue cfg w io old turn nwrote remaining job copy).crash = false ∧
      (sendQueue cfg w io old turn nwrote remaining job copy).frames
        = (sendEpilogue w io' old job copy).frames ∧
      io'.outputBuffers = b :: io.outputBuffers ∧
      b.buf.readable = job.bytes copy io.mem nwrote remaining ∧
      io'.kernel.isOpen = io.kernel.isOpen := by
  obtain ⟨b, hb, -, hread⟩ := freshBuffer_append cfg remaining (job.bytes copy io.mem nwrote remaining)
  simp only [sendQueue, hb]
  split
  · next hwriting =>
    have hleave := sendEpilogue_leaves w { io with
      oldLen := (io.oldLen + remaining) % 2 ^ 64, outputBuffers := ⟨turn, b⟩ :: io.outputBuffers }
      old job copy
    exact ⟨_, ⟨turn, b⟩, hleave.1, hleave.2.1, rfl, rfl, hread, rfl⟩
  · next hwriting =>
    refine ⟨_, ⟨turn, b⟩, (sendEpilogue_leaves w _ old job copy).1,
      (sendEpilogue_leaves w _ old job copy).2.1, rfl, rfl, hread, ?_⟩
    exact Channel.updateChannel_isOpen _ _

/-- Queueing the whole message. -/
theorem SendRuns.step_queue {old : Word} {turn : ℕ} (hk : cfg.kind = .plain)
    (hf : a.frames = [.sendInLoop (.queue old turn 0 job.size) job copy])
    (hout : a.io.outputBuffers = io.outputBuffers) (hmem : a.io.mem = io.mem)
    (hopen : a.io.kernel.isOpen = true) (hr : a.answers = []) {r : Option Answer}
    (hs : a.step cfg r = some a') : SendRuns io job copy a' := by
  obtain ⟨hw, e, he, hio', hf', hc', hr'⟩ := Activation.step_eq hf hs
  obtain rfl : r = none := by cases r <;> first | rfl | cases hw
  rw [List.append_nil] at hf'
  rw [hr] at hr'
  simp only [frameStep, sendLoopStep, Option.some.injEq] at he
  obtain ⟨io', b, hio, hc, hfr, hq, hread, hsame⟩ :=
    sendQueue_leaves cfg a.word old a.io job copy turn job.size 0
  rw [he] at hio hc hfr
  obtain ⟨hend, hkept⟩ := epilogue_ends io job copy (hio'.trans hio) (hc'.trans hc) (hf'.trans hfr)
    (hsame.trans hopen)
  refine .kept hend (hkept.mpr ?_) (by rw [hr']; exact List.forall_mem_nil _)
  have hzero : longest a'.answers = 0 := by rw [hr']; rfl
  rw [hzero, List.drop_zero, Io.pending, hq, List.flatMap_cons, hread, hmem, hout]
  rfl

/-- One step of `sendInLoop`. -/
theorem SendRuns.step (hk : cfg.kind = .plain) {r : Option Answer} (hopen : io.kernel.isOpen = true)
    (h : SendRuns io job copy a) (hs : a.step cfg r = some a') : SendRuns io job copy a' := by
  cases h with
  | load hf hio _ hr =>
    subst hio
    exact step_load hopen hf hr hs
  | write hf hout hopen' _ hsize hr => exact step_write hk hf hout hopen' hsize hr hs
  | queue hf hout hmem hopen' _ hr => exact step_queue hk hf hout hmem hopen' hr hs
  | kept hend =>
    rw [Activation.step_ended hend] at hs
    cases hs
  | lost hend =>
    rw [Activation.step_ended hend] at hs
    cases hs

/-- **How `sendInLoop` ends**: it has kept what was not accepted exactly when nothing was refused. -/
theorem sendRuns_end (hk : cfg.kind = .plain) (hopen : io.kernel.isOpen = true)
    {rs : List (Option Answer)}
    (h : run (Activation.step cfg) (.enter w io (.sendInLoop .load job copy)) rs = some a)
    (hend : a.ended = true) :
    SendKept io job copy a ↔ ∀ r ∈ a.answers, r.isAccepted = true := by
  have hruns := run_induction (SendRuns io job copy) (.load rfl rfl rfl rfl)
    (fun _ _ _ hi hs => hi.step hk hopen hs) h
  cases hruns with
  | load hf _ hc => simp [Activation.ended, hf, hc, Frame.inWriteLoop] at hend
  | write hf _ _ hc => simp [Activation.ended, hf, hc, Frame.inWriteLoop] at hend
  | queue hf _ _ _ hc => simp [Activation.ended, hf, hc, Frame.inWriteLoop] at hend
  | kept _ hkept hr => exact ⟨fun _ => hr, fun _ => hkept⟩
  | lost _ hkept hr => exact ⟨fun h => absurd h hkept, fun h => absurd h hr⟩

/-! ### The output loops -/

/-- An output loop has kept what was not accepted. -/
def DrainMode.Kept (io : Io) (a : Activation) : DrainMode → Prop
  | .out => OutKept io a
  | .finish => FinishKept io a

/-- No buffer in the queue holds anything. -/
def Io.Spent (io : Io) : Prop := ∀ b ∈ io.outputBuffers, b.buf.readableBytes = 0

/-- The output loop has nothing to do; in `handle_ep_out` no close waits for the queue either. -/
def DrainMode.Idle (io : Io) : DrainMode → Prop
  | .out => io.Spent ∧ (io.outputBuffers = [] ∨ io.rdhupPhrase = false)
  | .finish => io.Spent

theorem pending_of_spent {bs : List OutBuf} (h : ∀ b ∈ bs, b.buf.readableBytes = 0) :
    (bs.flatMap fun b => b.buf.readable) = [] := by
  rw [List.flatMap_eq_nil_iff]
  intro b hb
  rw [Buffer.readable, h b hb, List.take_zero]

/-- Where an output loop can stand, started with the data `io`. -/
inductive DrainRuns (mode : DrainMode) (io : Io) (a : Activation) : Prop
  /-- At the head of the loop, with nothing but empty buffers popped. -/
  | head {pre : List OutBuf} (hf : a.frames = [.handler (.drain mode)])
      (hpre : io.outputBuffers = pre ++ a.io.outputBuffers)
      (hspent : ∀ b ∈ pre, b.buf.readableBytes = 0) (hopen : a.io.kernel.isOpen = true)
      (hrdhup : a.io.rdhupPhrase = io.rdhupPhrase) (hne : mode = .out → io.outputBuffers ≠ [])
      (hc : a.crashed = false) (hr : a.answers = [])
  /-- Writing: the loop has no way out but a crash or a hang-up. -/
  | write {left : ℤ} (hf : a.frames = [.handler (.drainWrite mode left)]) (hidle : ¬ mode.Idle io)
      (hc : a.crashed = false)
  | kept (hend : a.ended = true) (hkept : mode.Kept io a) (hidle : mode.Idle io)
  | lost (hend : a.ended = true) (hkept : ¬ mode.Kept io a) (hidle : ¬ mode.Idle io)

variable {mode : DrainMode}

theorem DrainMode.Idle.spent (h : mode.Idle io) : io.Spent := by
  cases mode with
  | out => exact h.1
  | finish => exact h

/-- The head of the loop on an empty queue. -/
theorem DrainRuns.step_nil {pre : List OutBuf} (hf : a.frames = [.handler (.drain mode)])
    (hpre : io.outputBuffers = pre) (hout : a.io.outputBuffers = [])
    (hspent : ∀ b ∈ pre, b.buf.readableBytes = 0) (hopen : a.io.kernel.isOpen = true)
    (hrdhup : a.io.rdhupPhrase = io.rdhupPhrase) (hne : mode = .out → io.outputBuffers ≠ [])
    {r : Option Answer} (hs : a.step cfg r = some a') : DrainRuns mode io a' := by
  obtain ⟨hw, e, he, hio', hf', hc', -⟩ := Activation.step_eq hf hs
  obtain rfl : r = none := by cases r <;> first | rfl | cases hw
  rw [List.append_nil] at hf'
  have hall : io.Spent := by rw [Io.Spent, hpre]; exact hspent
  have hpend : io.pending = [] := pending_of_spent hall
  cases mode with
  | out =>
    simp only [frameStep, handlerStep, drainStep, hout, Option.some.injEq] at he
    subst he
    by_cases hphrase : a.io.rdhupPhrase = true
    · have hup : a'.hangsUp = true := by
        rw [Activation.hangsUp, hf']
        simp [Effect.goto, hphrase]
      refine .lost ?_ (fun h => ?_) fun h => ?_
      · rw [Activation.ended, hf']
        simp [Effect.goto, hphrase, Frame.inWriteLoop]
      · have hno := Activation.Keeps.hangsUp h
        rw [hup] at hno
        cases hno
      · rcases h.2 with hnil | hclear
        · exact hne rfl hnil
        · rw [← hrdhup, hphrase] at hclear
          cases hclear
    · have hframes : a'.frames = [] := by
        rw [hf']
        simp [Effect.goto, hphrase]
      refine .kept ?_ ⟨hc', ?_, by rw [hio']; exact hopen, ?_⟩ ⟨hall, .inr ?_⟩
      · rw [Activation.ended, hframes]
        exact Bool.or_true _
      · rw [Activation.hangsUp, hframes]
        rfl
      · rw [hio', hpend, List.drop_nil]
        show Io.pending a.io = []
        rw [Io.pending, hout]
        rfl
      · rw [← hrdhup]
        simpa using hphrase
  | finish =>
    simp only [frameStep, handlerStep, drainStep, hout, Option.some.injEq] at he
    subst he
    refine .kept ?_ ⟨hc', fun _ => by rw [hio']; exact hout, by rw [hio']; exact hopen, ?_⟩ hall
    · rw [Activation.ended, hf']
      exact Bool.or_true _
    · rw [hio', hpend, List.drop_nil]
      show Io.pending a.io = []
      rw [Io.pending, hout]
      rfl

/-- The head of the loop on a queue that is not empty. -/
theorem DrainRuns.step_cons (hk : cfg.kind = .plain) {pre bs : List OutBuf} {b : OutBuf}
    (hf : a.frames = [.handler (.drain mode)]) (hpre : io.outputBuffers = pre ++ a.io.outputBuffers)
    (hout : a.io.outputBuffers = b :: bs) (hspent : ∀ b ∈ pre, b.buf.readableBytes = 0)
    (hopen : a.io.kernel.isOpen = true) (hrdhup : a.io.rdhupPhrase = io.rdhupPhrase)
    (hne : mode = .out → io.outputBuffers ≠ []) (hr : a.answers = []) {r : Option Answer}
    (hs : a.step cfg r = some a') : DrainRuns mode io a' := by
  obtain ⟨hw, e, he, hio', hf', hc', hr'⟩ := Activation.step_eq hf hs
  obtain rfl : r = none := by cases r <;> first | rfl | cases hw
  rw [List.append_nil] at hf'
  rw [hr] at hr'
  simp only [frameStep, handlerStep, drainStep, hout, Option.some.injEq] at he
  split at he
  · next hleft =>
    subst he
    refine .write hf' (fun hidle => hleft ?_) hc'
    have hzero := hidle.spent b (by rw [hpre, hout]; simp)
    rw [leftOf, hk, hzero]
    rfl
  · split at he
    · next hzero =>
      have hpop : popFront cfg a.word a.io mode
          = { Effect.goto a.word { a.io with outputBuffers := bs } [.handler (.drain mode)] with
              posted := cfg.writeComplete } := by
        simp only [popFront, hk, hout, List.tail_cons]
      rw [hpop] at he
      subst he
      have hspent' : ∀ b' ∈ pre ++ [b], b'.buf.readableBytes = 0 := by
        intro b' hb'
        rcases List.mem_append.mp hb' with hb' | hb'
        · exact hspent b' hb'
        · obtain rfl := List.mem_singleton.mp hb'
          exact hzero
      refine .head hf' ?_ hspent' (by rw [hio']; exact hopen) (by rw [hio']; exact hrdhup) hne hc' hr'
      rw [hpre, hout, hio']
      simp [Effect.goto]
    · subst he
      exact .head hf' (by rw [hio']; exact hpre) hspent (by rw [hio']; exact hopen)
        (by rw [hio']; exact hrdhup) hne hc' hr'

/-- A `write` that failed with an error the output loops do not know. -/
theorem drainWriteStep_fault (hk : cfg.kind = .plain) (w : Word) (io : Io) (mode : DrainMode)
    (left : ℤ) (b : OutBuf) (bs : List OutBuf) {o : WriteOutcome} (hret : ¬ 0 < o.ret) (herr : o.err = .fault) :
    (drainWriteStep cfg w io mode left b bs o).io = { io with kernel := io.kernel.write o } ∧
    ∃ f, (drainWriteStep cfg w io mode left b bs o).frames = [.hup .load, f] := by
  simp only [drainWriteStep, if_neg hret, hk, herr]
  cases mode with
  | out => exact ⟨rfl, _, rfl⟩
  | finish => exact ⟨rfl, _, rfl⟩

/-- A crash loses what was queued. -/
theorem DrainMode.Kept.not_crashed (h : mode.Kept io a) : a.crashed = false := by
  cases mode with
  | out => exact Activation.Keeps.crashed h
  | finish => exact h.1

/-- A hang-up with buffers in the queue loses them. -/
theorem DrainMode.Kept.not_hangsUp (h : mode.Kept io a) (hup : a.hangsUp = true) :
    a.io.outputBuffers = [] := by
  cases mode with
  | out =>
    have hno := Activation.Keeps.hangsUp h
    rw [hup] at hno
    cases hno
  | finish => exact h.2.1 hup

/-- A `write` of an output loop. -/
theorem DrainRuns.step_write (hk : cfg.kind = .plain) {left : ℤ}
    (hf : a.frames = [.handler (.drainWrite mode left)]) (hidle : ¬ mode.Idle io)
    {r : Option Answer} (hs : a.step cfg r = some a') : DrainRuns mode io a' := by
  obtain ⟨hw, e, he, hio', hf', hc', -⟩ := Activation.step_eq hf hs
  obtain ⟨r, rfl⟩ : ∃ r', r = some r' := Option.isSome_iff_exists.mp hw
  rw [List.append_nil] at hf'
  simp only [frameStep, Answer.input, handlerStep] at he
  split at he
  · cases he
  · next b bs hout =>
    split at he <;> cases he
    by_cases hpos : 0 < r.outcome.ret
    · -- `left` stays: the loop goes on writing, until an assertion fails
      simp only [drainWriteStep, if_pos hpos] at hf' hc'
      split at hf'
      · next hnone =>
        simp only [hnone] at hc'
        have hcrash : a'.crashed = true := hc'
        refine .lost (by rw [Activation.ended, hcrash]; rfl) (fun h => ?_) hidle
        have hno := h.not_crashed
        rw [hcrash] at hno
        cases hno
      · next buf hsome =>
        simp only [hsome, hk] at hf' hc'
        exact .write hf' hidle hc'
    · have herr : r.outcome.err = .fault := by cases r <;> rfl
      obtain ⟨hio, f, hfr⟩ := drainWriteStep_fault hk a.word a.io mode left b bs hpos herr
      rw [hfr] at hf'
      rw [hio] at hio'
      refine .lost ?_ (fun h => ?_) hidle
      · rw [Activation.ended, hf']
        exact Bool.or_true _
      · have hnil := h.not_hangsUp (by rw [Activation.hangsUp, hf']; rfl)
        rw [hio'] at hnil
        rw [show a.io.outputBuffers = [] from hnil] at hout
        cases hout

/-- One step of an output loop. -/
theorem DrainRuns.step (hk : cfg.kind = .plain) {r : Option Answer} (h : DrainRuns mode io a)
    (hs : a.step cfg r = some a') : DrainRuns mode io a' := by
  cases h with
  | @head pre hf hpre hspent hopen hrdhup hne _ hr =>
    cases hout : a.io.outputBuffers with
    | nil =>
      rw [hout, List.append_nil] at hpre
      exact step_nil hf hpre hout hspent hopen hrdhup hne hs
    | cons b bs => exact step_cons hk hf hpre hout hspent hopen hrdhup hne hr hs
  | write hf hidle => exact step_write hk hf hidle hs
  | kept hend =>
    rw [Activation.step_ended hend] at hs
    cases hs
  | lost hend =>
    rw [Activation.step_ended hend] at hs
    cases hs

/-- **How an output loop ends**: it has kept what was not accepted exactly when there was nothing to
write. -/
theorem drainRuns_end (mode : DrainMode) (hk : cfg.kind = .plain) (h₀ : DrainRuns mode io a)
    {rs : List (Option Answer)} (h : run (Activation.step cfg) a rs = some a')
    (hend : a'.ended = true) : mode.Kept io a' ↔ mode.Idle io := by
  have hruns := run_induction (DrainRuns mode io) h₀ (fun _ _ _ hi hs => hi.step hk hs) h
  cases hruns with
  | head hf _ _ _ _ _ hc => simp [Activation.ended, hf, hc, Frame.inWriteLoop] at hend
  | write hf _ hc => simp [Activation.ended, hf, hc, Frame.inWriteLoop] at hend
  | kept _ hkept hidle => exact ⟨fun _ => hidle, fun _ => hkept⟩
  | lost _ hkept hidle => exact ⟨fun h => absurd h hkept, fun h => absurd h hidle⟩

/-- `handle_ep_out` on entry: with an empty queue it only stops listening. -/
theorem epOut_end (hk : cfg.kind = .plain) (hopen : io.kernel.isOpen = true)
    {rs : List (Option Answer)}
    (h : run (Activation.step cfg) (.enter w io (.handler .epOut)) rs = some a)
    (hend : a.ended = true) : OutKept io a ↔ DrainMode.out.Idle io := by
  cases rs with
  | nil =>
    cases h
    cases hend
  | cons r rs =>
    obtain ⟨a₁, hs, hrun⟩ := run_cons_eq_some.mp h
    obtain ⟨hw, e, he, hio', hf', hc', hr'⟩ := Activation.step_eq rfl hs
    obtain rfl : r = none := by cases r <;> first | rfl | cases hw
    rw [List.append_nil] at hf'
    have hstep : handlerStep cfg w io .epOut .none = some e := he
    simp only [handlerStep] at hstep
    split at hstep <;> cases hstep
    · next hempty =>
      have hnil : io.outputBuffers = [] := List.isEmpty_iff.mp hempty
      have hend₁ : a₁.ended = true := by
        rw [Activation.ended, hf']
        exact Bool.or_true _
      have hspent : io.Spent := by
        rw [Io.Spent, hnil]
        exact List.forall_mem_nil _
      have hkept : OutKept io a₁ := by
        refine ⟨hc', ?_, ?_, ?_⟩
        · rw [Activation.hangsUp, hf']
          rfl
        · rw [hio']
          exact (Channel.updateChannel_isOpen _ _).trans hopen
        · have hnone : io.pending = [] := pending_of_spent hspent
          rw [hnone, List.drop_nil, hio']
          exact hnone
      exact drainRuns_end .out hk (.kept hend₁ hkept ⟨hspent, .inl hnil⟩) hrun hend
    · next hempty =>
      refine drainRuns_end .out hk (.head hf' ?_ (List.forall_mem_nil _) ?_ ?_ ?_ hc' hr')
        hrun hend
      · rw [hio']
        rfl
      · rw [hio']
        exact hopen
      · rw [hio']
        rfl
      · intro _ hnil
        exact hempty (List.isEmpty_iff.mpr hnil)

/-- **Back-pressure.**  A plain connection whose socket is open, with any queue, and a call of one of the
three functions whose writes get any sequence of answers.  Once the call is over, the connection is open
and everything `write` has not accepted is queued

* after `sendInLoop`, on any message, exactly when no write was refused or interrupted;
* after `handle_ep_out`, exactly when no buffer of the queue held anything (and, unless the queue was
  empty, no close was waiting for it);
* after `finish_in_out`, exactly when no buffer of the queue held anything. -/
theorem back_pressure_kept (cfg : Config) (hk : cfg.kind = .plain) (w : Word) (io : Io)
    (hopen : io.kernel.isOpen = true) (rs : List (Option Answer)) (a : Activation)
    (hend : a.ended = true) :
    (∀ job copy, run (Activation.step cfg) (.enter w io (.sendInLoop .load job copy)) rs = some a →
      (SendKept io job copy a ↔ ∀ r ∈ a.answers, r.isAccepted = true)) ∧
    (run (Activation.step cfg) (.enter w io (.handler .epOut)) rs = some a →
      (OutKept io a ↔ (∀ b ∈ io.outputBuffers, b.buf.readableBytes = 0) ∧
        (io.outputBuffers = [] ∨ io.rdhupPhrase = false))) ∧
    (run (Activation.step cfg) (.enter w io (.handler (.drain .finish))) rs = some a →
      (FinishKept io a ↔ ∀ b ∈ io.outputBuffers, b.buf.readableBytes = 0)) := by
  refine ⟨fun job copy h => sendRuns_end hk hopen h hend, fun h => epOut_end hk hopen h hend,
    fun h => ?_⟩
  exact drainRuns_end .finish hk
    (.head rfl rfl (List.forall_mem_nil _) hopen rfl (fun h => by cases h) rfl rfl) h hend

/-- The loop's data of a fresh connection with one byte in the queue. -/
def oneQueued : Io :=
  { (Conn.init Unit false false false fun _ => 7).io with
    outputBuffers := [⟨0, ⟨[5], 0, 1⟩⟩], turns := 1 }

/-- A message behind a byte that is queued: nothing is written, everything is kept. -/
theorem back_pressure_kept_behind :
    ∃ a, run (Activation.step plainConfig)
        (.enter established oneQueued (.sendInLoop .load ⟨0, .piece, 0, 2⟩ none)) [none, none]
        = some a ∧ SendKept oneQueued ⟨0, .piece, 0, 2⟩ none a :=
  have hrun : run (Activation.step plainConfig)
      (.enter established oneQueued (.sendInLoop .load ⟨0, .piece, 0, 2⟩ none)) [none, none]
      = some _ := rfl
  ⟨_, hrun, ((back_pressure_kept plainConfig rfl established oneQueued rfl [none, none] _ rfl).1
    ⟨0, .piece, 0, 2⟩ none hrun).mpr (by decide)⟩

/-- A one-byte message refused by a full socket is dropped; a byte in the queue whose write is refused
has the connection closed. -/
theorem back_pressure_loses :
    (∃ a, run (Activation.step plainConfig)
        (.enter established (Conn.init Unit false false false fun _ => 7).io
          (.sendInLoop .load ⟨0, .piece, 0, 1⟩ none)) [none, some .again] = some a ∧
      a.ended = true ∧ a.io.outputBuffers = [] ∧
      ¬ SendKept (Conn.init Unit false false false fun _ => 7).io ⟨0, .piece, 0, 1⟩ none a) ∧
    ∃ a, run (Activation.step plainConfig) (.enter established oneQueued (.handler .epOut))
        [none, none, some .again] = some a ∧ a.ended = true ∧ a.hangsUp = true ∧
      ¬ OutKept oneQueued a := by
  refine ⟨⟨_, rfl, rfl, rfl, fun h => ?_⟩, ⟨_, rfl, rfl, rfl, fun h => ?_⟩⟩
  · exact absurd h.pending (by decide)
  · exact absurd h.hangsUp (by decide)

end KwNet.Tcp
