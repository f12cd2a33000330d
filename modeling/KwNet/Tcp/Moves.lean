import KwNet.Memory.Fifo
import KwNet.Tcp.Handlers

/-!
# What one access of the state word can do

The calls of `Call.lean` and the loop's `sendInLoop`, seen on a word that is one of the `Phase`s.  Each
function gets one lemma that lists everything a step of it can do; the invariants are derived from
these and never unfold the step functions.

* **`callStep_move`** — an access of `send`, `set_unused` or `shutdown` leaves the word alone, or marks
  the connection `writing`, or admits a sender, or clears `used`, or stores `Disconnecting`
  (`CallMove`);
* **`sendLoopStep_move`** — up to its epilogue `sendInLoop` is quiet (`SendMid`), and what follows are
  its two CASes and a wake (`SendLoopMove`);
* **`frameStep_fixed`** — the callers' storage and `rdhup_phrase` are written to by no frame but the end of
  `handle_ep_rdhup`.
-/

namespace KwNet.Tcp

variable {cfg : Config} {w : Word} {io : Io}

/-! ### Calls -/

/-- The snapshot a CAS of the call expects is a word the call can have read. -/
def Call.Ok : Call → Prop
  | .send (.casAdd old) _ => ∃ c, old = (Phase.busy c).word
  | .send (.casWriting old) _ => old = Phase.idle.word
  | .send (.casFirst old) _ => old = (Phase.busy 0).word
  | .setUnused (.casUnused old) => old = Phase.idle.word
  | .shutdown (.casDisconnecting old) => old = Phase.unused.word
  | _ => True

/-- The message a call carries. -/
def Call.job? : Call → Option Job
  | .send _ job => some job
  | _ => none

/-- The call as it was made. -/
def Call.origin : Call → Call
  | .send _ job => .send .load job
  | .setUnused _ => .setUnused .load
  | .shutdown _ => .shutdown .load

/-- The call `c` goes on, or returns; a `send` that returns has refused its message. -/
def Next.Keeps (c : Call) : Next → Prop
  | .goto c' => c'.Ok ∧ c'.origin = c.origin
  | .refuse job _ => c.job? = some job
  | .ret => c.job? = none
  | .admits _ | .win => False

/-- The access is a CAS of `send` that adds `1 << senders_offset`, and it succeeds. -/
def Call.admitting (w : Word) : Call → Bool
  | .send (.casAdd old) _ | .send (.casFirst old) _ => w == old
  | _ => false

/-- Everything one access of a call can do on a word of phase `p`. -/
inductive CallMove : Phase → Call → CallEffect → Prop
  | quiet {p : Phase} {c : Call} {next : Next} {wake : Bool} (h : next.Keeps c) :
      CallMove p c ⟨p.word, next, wake⟩
  | mark {job : Job} :
      CallMove .idle (.send (.casWriting Phase.idle.word) job)
        ⟨(Phase.busy 0).word, .goto (.send (.casFirst (Phase.busy 0).word) job), false⟩
  | admits {c : ℕ} {pc : SendPc} {job : Job}
      (h : (Call.send pc job).admitting (Phase.busy c).word = true) :
      CallMove (.busy c) (.send pc job) ⟨(Phase.busy (c + 1)).word, .admits job, false⟩
  | clear :
      CallMove .idle (.setUnused (.casUnused Phase.idle.word))
        ⟨Phase.unused.word, .goto (.setUnused .wake), false⟩
  | win :
      CallMove .unused (.shutdown (.casDisconnecting Phase.unused.word))
        ⟨Phase.shut.word, .win, false⟩

variable {p : Phase}

theorem sendHead_keeps (pc : SendPc) (job : Job) :
    (sendHead job p.word).Keeps (.send pc job) := by
  unfold sendHead
  rw [unlikelyHas_disconnected]
  cases p with
  | busy c => simpa [Next.Keeps, Call.Ok, Call.origin, Call.job?] using ⟨c, rfl⟩
  | _ => simp [Next.Keeps, Call.Ok, Call.origin, Call.job?]

theorem unusedHead_keeps (pc : UnusedPc) : (unusedHead p.word).Keeps (.setUnused pc) := by
  unfold unusedHead
  rw [unlikelyHas_disconnected]
  cases p <;> simp [Next.Keeps, Call.Ok, Call.origin, Call.job?]

theorem shutdownHead_keeps (pc : ShutdownPc) : (shutdownHead p.word).Keeps (.shutdown pc) := by
  have hwait : ∀ b : Bool,
      (Next.goto (.shutdown (if b then .blockedLocal else .reload))).Keeps (.shutdown pc) := by
    intro b
    cases b <;> exact ⟨trivial, rfl⟩
  unfold shutdownHead
  cases p <;> simp only [has_idle, has_busy, has_unused, has_shut, has_closed, reduceCtorEq,
    decide_false, decide_true, Bool.or_self, Bool.or_true, Bool.or_false, Bool.false_eq_true,
    if_false, if_true] <;>
    first | exact hwait _ | exact ⟨rfl, rfl⟩ | rfl

theorem phase_not_connecting (p : Phase) : has p.word .connecting = false := by
  cases p <;> simp

theorem sendStep_move {job : Job} {pc : SendPc} {e : CallEffect}
    (hc : (Call.send pc job).Ok) (h : sendStep p.word job pc = some e) :
    CallMove p (.send pc job) e := by
  cases pc with
  | load =>
    simp only [sendStep, phase_not_connecting, Bool.false_eq_true, if_false, Option.some.injEq] at h
    exact h ▸ .quiet (sendHead_keeps .load job)
  | await =>
    simp only [sendStep, Option.some.injEq] at h
    subst h
    refine .quiet ⟨?_, rfl⟩
    split <;> trivial
  | blocked => cases h
  | reload =>
    simp only [sendStep, Option.some.injEq] at h
    exact h ▸ .quiet (sendHead_keeps .reload job)
  | casAdd old =>
    obtain ⟨d, rfl⟩ := hc
    simp only [sendStep] at h
    split at h <;> cases h
    · next heq =>
      obtain ⟨c, rfl⟩ := Phase.eq_busy heq
      rw [← heq, busy_add]
      exact .admits (beq_self_eq_true _)
    · exact .quiet (sendHead_keeps _ job)
  | casWriting old =>
    obtain rfl : old = Phase.idle.word := hc
    simp only [sendStep] at h
    split at h <;> cases h
    · next heq =>
      obtain rfl := Phase.eq_of_word (q := .idle) (by simp) heq
      rw [idle_or_writing]
      exact .mark
    · exact .quiet ⟨trivial, rfl⟩
  | casFirst old =>
    obtain rfl : old = (Phase.busy 0).word := hc
    simp only [sendStep] at h
    split at h
    · next heq =>
      cases h
      obtain ⟨c, rfl⟩ := Phase.eq_busy heq
      rw [← heq, busy_add]
      exact .admits (beq_self_eq_true _)
    · split at h <;> cases h <;> exact .quiet rfl

theorem unusedStep_move {pc : UnusedPc} {e : CallEffect}
    (hc : (Call.setUnused pc).Ok) (h : unusedStep p.word pc = some e) :
    CallMove p (.setUnused pc) e := by
  cases pc with
  | load =>
    simp only [unusedStep, phase_not_connecting, Bool.false_eq_true, if_false,
      Option.some.injEq] at h
    exact h ▸ .quiet (unusedHead_keeps .load)
  | await expected =>
    simp only [unusedStep, Option.some.injEq] at h
    subst h
    refine .quiet ⟨?_, rfl⟩
    split <;> trivial
  | blocked => cases h
  | reload =>
    simp only [unusedStep, Option.some.injEq] at h
    exact h ▸ .quiet (unusedHead_keeps .reload)
  | casUnused old =>
    obtain rfl : old = Phase.idle.word := hc
    simp only [unusedStep] at h
    split at h <;> cases h
    · next heq =>
      obtain rfl := Phase.eq_of_word (q := .idle) (by simp) heq
      rw [idle_sub_used]
      exact .clear
    · exact .quiet (unusedHead_keeps _)
  | wake =>
    simp only [unusedStep, Option.some.injEq] at h
    exact h ▸ .quiet rfl

theorem shutdownStep_move {pc : ShutdownPc} {e : CallEffect}
    (hc : (Call.shutdown pc).Ok) (h : shutdownStep p.word pc = some e) :
    CallMove p (.shutdown pc) e := by
  cases pc with
  | load =>
    simp only [shutdownStep, phase_not_connecting, Bool.false_eq_true, if_false,
      Option.some.injEq] at h
    exact h ▸ .quiet (shutdownHead_keeps .load)
  | await =>
    simp only [shutdownStep, Option.some.injEq] at h
    subst h
    refine .quiet ⟨?_, rfl⟩
    split <;> trivial
  | blocked => cases h
  | blockedLocal => cases h
  | reload =>
    simp only [shutdownStep, Option.some.injEq] at h
    exact h ▸ .quiet (shutdownHead_keeps .reload)
  | casDisconnecting old =>
    obtain rfl : old = Phase.unused.word := hc
    simp only [shutdownStep] at h
    split at h <;> cases h
    · next heq =>
      obtain rfl := Phase.eq_of_word (q := .unused) (by simp) heq
      exact .win
    · exact .quiet (shutdownHead_keeps _)

/-- **What an access of a call can do.** -/
theorem callStep_move {c : Call} {e : CallEffect} (hc : c.Ok)
    (h : callStep p.word c = some e) : CallMove p c e := by
  cases c with
  | send pc job => exact sendStep_move hc h
  | setUnused pc => exact unusedStep_move hc h
  | shutdown pc => exact shutdownStep_move hc h

theorem Call.wake_ok {c : Call} (h : c.Ok) : c.wake.Ok := by
  unfold Call.wake
  split <;> trivial

theorem Call.wake_origin (c : Call) : c.wake.origin = c.origin := by
  unfold Call.wake
  split <;> rfl

theorem Call.spurious_ok {c c' : Call} (h : c.spurious = some c') :
    c'.Ok ∧ c'.origin = c.origin := by
  unfold Call.spurious at h
  split at h <;> cases h <;> exact ⟨trivial, rfl⟩

/-! ### `sendInLoop` up to its epilogue -/

/-- Where `sendInLoop` stands after a step that is not one of its CASes: still on its way to the
epilogue with the snapshot `old`, at the CAS that releases the sender, or back at its caller because
of what the snapshot says. -/
inductive SendMid (old : Word) (job : Job) (copy : Option (List UInt8)) :
    List Frame → List Event → Prop
  | write {turn remaining : ℕ} : SendMid old job copy [.sendInLoop (.write old turn remaining) job copy] []
  | queue {turn remaining : ℕ} {nwrote : ℤ} :
      SendMid old job copy [.sendInLoop (.queue old turn nwrote remaining) job copy] []
  | cas (hu : has old .used = true) (hw : has old .writing = true) :
      SendMid old job copy [.sendInLoop (.cas old) job copy] []
  | unused (hu : has old .used = false) : SendMid old job copy [] [.ended job .unused]
  | impossible (hu : has old .used = true) (hw : has old .writing = false) :
      SendMid old job copy [] [.ended job .impossible]

/-- The effect of such a step, `pre` being what it logs before the epilogue. -/
structure SendMove (w old : Word) (io : Io) (job : Job) (copy : Option (List UInt8))
    (pre : List Event) (e : Effect) : Prop extends Effect.Quiet w io e where
  mid : ∃ evs, e.events = pre ++ evs ∧ SendMid old job copy e.frames evs
  crash : e.crash = false

variable {job : Job} {copy : Option (List UInt8)} {old : Word} {io' : Io}

theorem sendEpilogue_io (w : Word) (io : Io) (old : Word) (job : Job) (copy : Option (List UInt8)) :
    (sendEpilogue w io old job copy).io = io := by
  unfold sendEpilogue
  split
  · rfl
  · split
    · rfl
    · split <;> rfl

theorem sendEpilogue_move (h : io.Same io') :
    SendMove w old io job copy [] (sendEpilogue w io' old job copy) := by
  unfold sendEpilogue
  rw [unlikelyHas_disconnected, if_neg Bool.false_ne_true]
  split
  · next hu => exact ⟨⟨rfl, rfl, rfl, forall_none, h⟩, ⟨_, rfl, .unused (by simpa using hu)⟩, rfl⟩
  · next hu =>
    have hu' : has old .used = true := by simpa using hu
    split
    · next hw => exact ⟨.goto h _, ⟨_, rfl, .cas hu' hw⟩, rfl⟩
    · next hw =>
      exact ⟨⟨rfl, rfl, rfl, forall_none, h⟩, ⟨_, rfl, .impossible hu' (by simpa using hw)⟩, rfl⟩

/-- Prefixing events and posting a notice keep a `SendMove`. -/
theorem SendMove.with {e : Effect} (h : SendMove w old io job copy [] e) (pre : List Event)
    {posted : Option Functor} (hp : ∀ f, posted = some f → f.isNotice = true) :
    SendMove w old io job copy pre { e with posted := posted, events := pre ++ e.events } := by
  obtain ⟨evs, hev, hmid⟩ := h.mid
  refine ⟨⟨h.word, h.wake, h.timers, hp, h.same⟩, ⟨evs, ?_, hmid⟩, h.crash⟩
  show pre ++ e.events = pre ++ evs
  rw [hev, List.nil_append]

theorem SendMove.goto {pre : List Event} {pc : SendLoopPc} (h : io.Same io')
    (hmid : SendMid old job copy [.sendInLoop pc job copy] []) :
    SendMove w old io job copy pre
      { Effect.goto w io' [.sendInLoop pc job copy] with events := pre } :=
  ⟨⟨rfl, rfl, rfl, forall_none, h⟩, ⟨[], (List.append_nil pre).symm, hmid⟩, rfl⟩

theorem sendWrite_move {turn remaining : ℕ} {o : WriteOutcome} :
    SendMove w old io job copy [.handed turn io.kernel.isOpen]
      (sendWrite cfg w io old turn remaining job copy o) := by
  have hwrite := io.same_write o
  unfold sendWrite
  dsimp only
  split
  · split
    · exact (sendEpilogue_move hwrite).with _ writeComplete_notice
    · exact .goto hwrite .write
  · split
    · exact .goto hwrite .queue
    · exact .goto hwrite .write
    · exact .goto (hwrite.trans (Io.same_update { io with kernel := io.kernel.write o } _ (by rfl))) .queue
    · exact (sendEpilogue_move hwrite).with _ (sendEpilogue_move hwrite).posted

theorem highWater_notice {oldLen remaining : ℕ} (f : Functor)
    (h : cfg.highWater oldLen remaining = some f) : f.isNotice = true := by
  unfold Config.highWater at h
  dsimp only at h
  split at h <;> split at h <;> cases h <;> rfl

/-- What is queued in a new buffer is all that can be read from it. -/
theorem freshBuffer_append (cfg : Config) (remaining : ℕ) (bytes : List UInt8) :
    ∃ b, (cfg.freshBuffer remaining).append bytes = some b ∧ b.Valid ∧ b.readable = bytes := by
  have hfresh : ∃ n, cfg.freshBuffer remaining = Memory.Buffer.ctor n := by
    unfold Config.freshBuffer
    split <;> exact ⟨_, rfl⟩
  obtain ⟨n, hn⟩ := hfresh
  obtain ⟨b, hb, hvalid, hread⟩ := Memory.Buffer.append_spec (Memory.Buffer.ctor_valid n) bytes
  rw [Memory.Buffer.readable_ctor, List.nil_append] at hread
  exact ⟨b, by rw [hn]; exact hb, hvalid, hread⟩

theorem sendQueue_move {turn remaining : ℕ} {nwrote : ℤ} :
    SendMove w old io job copy [] (sendQueue cfg w io old turn nwrote remaining job copy) := by
  obtain ⟨b, hb, -⟩ := freshBuffer_append cfg remaining (job.bytes copy io.mem nwrote remaining)
  unfold sendQueue
  dsimp only
  rw [hb]
  refine SendMove.with (sendEpilogue_move ?_) [] highWater_notice
  split
  · exact Io.Same.congr (.refl io) rfl rfl rfl
  · have hsame := io.same_update { io.channel with listen := { io.channel.listen with write := true } } rfl
    exact hsame.congr rfl rfl rfl

theorem sendLoad_move {inp : Input} {e : Effect}
    (h : sendLoopStep cfg w io job copy .load inp = some e) :
    SendMove w w io job copy [.began job] e := by
  have hsame : io.Same { io with turns := io.turns + 1 } := Io.Same.congr (.refl io) rfl rfl rfl
  simp only [sendLoopStep, Option.some.injEq] at h
  subst h
  split
  · exact .goto hsame .write
  · split
    · exact .goto hsame .queue
    · exact (sendEpilogue_move hsame).with [.began job] (sendEpilogue_move hsame).posted

theorem sendLoopStep_write {inp : Input} {e : Effect} {turn remaining : ℕ}
    (h : sendLoopStep cfg w io job copy (.write old turn remaining) inp = some e) :
    SendMove w old io job copy [.handed turn io.kernel.isOpen] e := by
  cases inp with
  | write o =>
    simp only [sendLoopStep] at h
    split at h <;> cases h
    exact sendWrite_move
  | _ => cases h

theorem sendLoopStep_queue {inp : Input} {e : Effect} {turn remaining : ℕ} {nwrote : ℤ}
    (h : sendLoopStep cfg w io job copy (.queue old turn nwrote remaining) inp = some e) :
    SendMove w old io job copy [] e := by
  simp only [sendLoopStep, Option.some.injEq] at h
  exact h ▸ sendQueue_move

/-- Everything one step of `sendInLoop` can do: a step towards the epilogue, the CAS that releases the
sender, the CAS of the last sender that clears `writing`, or the wake. -/
inductive SendLoopMove (w : Word) (io : Io) (job : Job) (copy : Option (List UInt8)) :
    SendLoopPc → Effect → Prop
  | load {e : Effect} (h : SendMove w w io job copy [.began job] e) :
      SendLoopMove w io job copy .load e
  | write {old : Word} {turn remaining : ℕ} {e : Effect}
      (h : SendMove w old io job copy [.handed turn io.kernel.isOpen] e) :
      SendLoopMove w io job copy (.write old turn remaining) e
  | queue {old : Word} {turn remaining : ℕ} {nwrote : ℤ} {e : Effect}
      (h : SendMove w old io job copy [] e) :
      SendLoopMove w io job copy (.queue old turn nwrote remaining) e
  | last {old : Word} (hw : w = old) (hlast : (old >>> sendersOffset) ^^^ 1 = 0) :
      SendLoopMove w io job copy (.cas old)
        (Effect.goto (old - oneSender) io [.sendInLoop (.clear (old ^^^ oneSender)) job copy])
  | release {old : Word} (hw : w = old) (hlast : (old >>> sendersOffset) ^^^ 1 ≠ 0) :
      SendLoopMove w io job copy (.cas old)
        { Effect.goto (old - oneSender) io [] with events := [.ended job .released] }
  | casFailed {old : Word} (hw : w ≠ old) :
      SendLoopMove w io job copy (.cas old)
        { Effect.goto w io [] with events := [.ended job .failedCas] }
  | clear {old : Word} (hw : w = old) :
      SendLoopMove w io job copy (.clear old)
        (Effect.goto (old ^^^ StateE.writing.word) io [.sendInLoop .wake job copy])
  | clearFailed {old : Word} (hw : w ≠ old) :
      SendLoopMove w io job copy (.clear old)
        { Effect.goto w io [] with events := [.ended job .failedCas] }
  | wake :
      SendLoopMove w io job copy .wake
        { Effect.goto w io [] with wake := true, events := [.ended job .released] }

/-- **What a step of `sendInLoop` can do.** -/
theorem sendLoopStep_move {pc : SendLoopPc} {inp : Input} {e : Effect}
    (h : sendLoopStep cfg w io job copy pc inp = some e) : SendLoopMove w io job copy pc e := by
  cases pc with
  | load => exact .load (sendLoad_move h)
  | write old turn remaining => exact .write (sendLoopStep_write h)
  | queue old turn nwrote remaining => exact .queue (sendLoopStep_queue h)
  | cas old =>
    simp only [sendLoopStep] at h
    split at h
    · next hw =>
      split at h <;> cases h
      · next hlast => exact .last hw hlast
      · next hlast => exact .release hw hlast
    · next hw =>
      cases h
      exact .casFailed hw
  | clear old =>
    simp only [sendLoopStep] at h
    split at h <;> cases h
    · next hw => exact .clear hw
    · next hw => exact .clearFailed hw
  | wake =>
    cases h
    exact .wake

/-- Frames post notices only. -/
theorem frameStep_posted {f : Frame} {inp : Input} {e : Effect}
    (h : frameStep cfg w io f inp = some e) : ∀ g, e.posted = some g → g.isNotice = true := by
  cases f with
  | user => cases h
  | call c k =>
    obtain ⟨ce, -, rfl⟩ := Option.map_eq_some_iff.mp h
    exact forall_none
  | sendInLoop pc job copy =>
    cases sendLoopStep_move h with
    | load hm => exact hm.posted
    | write hm => exact hm.posted
    | queue hm => exact hm.posted
    | _ => exact forall_none
  | shutdownInLoop =>
    cases h
    exact forall_none
  | hup pc =>
    cases h
    cases pc <;> simp only [hupStep] <;> (repeat' split) <;> exact forall_none
  | delay pc =>
    cases h
    cases pc <;> simp only [delayStep] <;> (repeat' split) <;> exact forall_none
  | handler pc => exact (handlerStep_move h).posted

/-! ### What the frames do not write to -/

/-- The callers' storage and `rdhup_phrase` are as before. -/
structure Io.Fixed (io io' : Io) : Prop where
  mem : io'.mem = io.mem
  rdhupPhrase : io'.rdhupPhrase = io.rdhupPhrase

theorem sendWrite_fixed (cfg : Config) (w : Word) (io : Io) (old : Word) (turn remaining : ℕ) (job : Job)
    (copy : Option (List UInt8)) (o : WriteOutcome) :
    io.Fixed (sendWrite cfg w io old turn remaining job copy o).io := by
  unfold sendWrite
  dsimp only
  split
  · split
    · rw [sendEpilogue_io]
      exact ⟨rfl, rfl⟩
    · exact ⟨rfl, rfl⟩
  · split
    · exact ⟨rfl, rfl⟩
    · exact ⟨rfl, rfl⟩
    · exact ⟨rfl, rfl⟩
    · rw [sendEpilogue_io]
      exact ⟨rfl, rfl⟩

theorem sendQueue_fixed (cfg : Config) (w : Word) (io : Io) (old : Word) (turn : ℕ) (nwrote : ℤ)
    (remaining : ℕ) (job : Job) (copy : Option (List UInt8)) :
    io.Fixed (sendQueue cfg w io old turn nwrote remaining job copy).io := by
  unfold sendQueue
  dsimp only
  split
  · exact ⟨rfl, rfl⟩
  · rw [sendEpilogue_io]
    split <;> exact ⟨rfl, rfl⟩

theorem sendLoopStep_fixed {job : Job} {copy : Option (List UInt8)} {pc : SendLoopPc} {inp : Input}
    {e : Effect} (h : sendLoopStep cfg w io job copy pc inp = some e) :
    io.Fixed e.io := by
  cases pc with
  | load =>
    cases h
    show io.Fixed (ite _ _ _ : Effect).io
    split
    · exact ⟨rfl, rfl⟩
    · split
      · exact ⟨rfl, rfl⟩
      · rw [sendEpilogue_io]
        exact ⟨rfl, rfl⟩
  | write old turn remaining =>
    cases inp with
    | write o =>
      simp only [sendLoopStep] at h
      split at h <;> cases h
      exact sendWrite_fixed cfg w io old turn remaining job copy o
    | _ => cases h
  | queue old turn nwrote remaining =>
    cases h
    exact sendQueue_fixed cfg w io old turn nwrote remaining job copy
  | cas old =>
    simp only [sendLoopStep] at h
    split at h
    · split at h <;> cases h <;> exact ⟨rfl, rfl⟩
    · cases h
      exact ⟨rfl, rfl⟩
  | clear old =>
    simp only [sendLoopStep] at h
    split at h <;> cases h <;> exact ⟨rfl, rfl⟩
  | wake =>
    cases h
    exact ⟨rfl, rfl⟩

theorem hupStep_fixed (cfg : Config) (w : Word) (io : Io) (pc : HupPc) :
    io.Fixed (hupStep cfg w io pc).io := by
  cases pc with
  | load =>
    simp only [hupStep]
    split
    · exact ⟨rfl, rfl⟩
    · split <;> exact ⟨rfl, rfl⟩
  | free => exact ⟨rfl, rfl⟩
  | store => exact ⟨rfl, rfl⟩
  | close | wake | callback =>
    simp only [hupStep]
    split <;> exact ⟨rfl, rfl⟩

theorem delayStep_fixed (w : Word) (io : Io) (pc : DelayPc) :
    io.Fixed (delayStep w io pc).io := by
  cases pc with
  | isConnected | isDisconnecting =>
    simp only [delayStep]
    split <;> exact ⟨rfl, rfl⟩
  | store => exact ⟨rfl, rfl⟩

theorem popFront_fixed (cfg : Config) (w : Word) (io : Io) (mode : DrainMode) :
    io.Fixed (popFront cfg w io mode).io := by
  unfold popFront
  dsimp only
  split
  · split <;> exact ⟨rfl, rfl⟩
  · exact ⟨rfl, rfl⟩

theorem drainStep_fixed (cfg : Config) (w : Word) (io : Io) (mode : DrainMode) :
    io.Fixed (drainStep cfg w io mode).io := by
  unfold drainStep
  split
  · split <;> exact ⟨rfl, rfl⟩
  · split
    · exact ⟨rfl, rfl⟩
    · split
      · exact popFront_fixed cfg w io mode
      · exact ⟨rfl, rfl⟩

theorem drainWriteStep_fixed (cfg : Config) (w : Word) (io : Io) (mode : DrainMode) (left : ℤ)
    (b : OutBuf) (bs : List OutBuf) (o : WriteOutcome) :
    io.Fixed (drainWriteStep cfg w io mode left b bs o).io := by
  unfold drainWriteStep
  dsimp only
  split
  · split
    · exact ⟨rfl, rfl⟩
    · split
      · exact ⟨rfl, rfl⟩
      · split
        · exact ⟨(popFront_fixed cfg w _ mode).mem, (popFront_fixed cfg w _ mode).rdhupPhrase⟩
        · exact ⟨rfl, rfl⟩
  · split
    · exact ⟨rfl, rfl⟩
    · exact ⟨rfl, rfl⟩
    · split <;> exact ⟨rfl, rfl⟩
    · split
      · exact ⟨rfl, rfl⟩
      · show io.Fixed (ite _ _ _ : Io)
        split <;> exact ⟨rfl, rfl⟩
    · exact ⟨rfl, rfl⟩
    · exact ⟨rfl, rfl⟩

theorem epInStep_fixed (cfg : Config) (w : Word) (io : Io) (n : ℕ) (r : ReadOutcome) :
    io.Fixed (epInStep cfg w io n r).io := by
  cases r with
  | interrupted | wantWrite =>
    simp only [epInStep]
    split <;> exact ⟨rfl, rfl⟩
  | _ => exact ⟨rfl, rfl⟩

theorem finishReadStep_fixed (cfg : Config) (w : Word) (io : Io) (n : ℕ) (r : ReadOutcome) :
    io.Fixed (finishReadStep cfg w io n r).io := by
  cases r with
  | interrupted =>
    simp only [finishReadStep]
    split <;> exact ⟨rfl, rfl⟩
  | _ => exact ⟨rfl, rfl⟩

theorem handlerStep_fixed {pc : HandlerPc} {inp : Input} {e : Effect} (hpc : pc ≠ .rdhupEnd)
    (h : handlerStep cfg w io pc inp = some e) : io.Fixed e.io := by
  cases pc with
  | rdhupEnd => exact absurd rfl hpc
  | epIn n =>
    cases inp with
    | read r =>
      cases h
      exact epInStep_fixed cfg w io n r
    | _ => cases h
  | finishRead n =>
    cases inp with
    | read r =>
      cases h
      exact finishReadStep_fixed cfg w io n r
    | _ => cases h
  | drain mode =>
    cases h
    exact drainStep_fixed cfg w io mode
  | drainWrite mode left =>
    cases inp with
    | write o =>
      simp only [handlerStep] at h
      split at h
      · cases h
      · next b bs _ =>
        split at h <;> cases h
        exact drainWriteStep_fixed cfg w io mode left b bs o
    | _ => cases h
  | epErr =>
    cases inp with
    | sockErr isError =>
      cases h
      exact ⟨rfl, rfl⟩
    | _ => cases h
  | startReadInLoop =>
    cases h
    show io.Fixed (ite _ _ _ : Io)
    split <;> exact ⟨rfl, rfl⟩
  | epOut | rdhup | rdhupAwait _ | stopReadInLoop =>
    simp only [handlerStep] at h
    split at h <;> cases h <;> exact ⟨rfl, rfl⟩
  | rdhupBlocked => cases h
  | event _ | eventHup | eventRdhup | eventOut | drainClear | finishPop =>
    cases h
    exact ⟨rfl, rfl⟩

/-- No frame but the end of `handle_ep_rdhup` writes to them. -/
theorem frameStep_fixed {f : Frame} {inp : Input} {e : Effect} (hf : f ≠ .handler .rdhupEnd)
    (h : frameStep cfg w io f inp = some e) : io.Fixed e.io := by
  cases f with
  | user => cases h
  | call c k =>
    obtain ⟨e', -, rfl⟩ := Option.map_eq_some_iff.mp h
    exact ⟨rfl, rfl⟩
  | sendInLoop pc job copy => exact sendLoopStep_fixed h
  | shutdownInLoop =>
    cases h
    exact ⟨rfl, rfl⟩
  | hup pc =>
    cases h
    exact hupStep_fixed cfg w io pc
  | delay pc =>
    cases h
    exact delayStep_fixed w io pc
  | handler pc => exact handlerStep_fixed (fun hpc => hf (hpc ▸ rfl)) h

end KwNet.Tcp
