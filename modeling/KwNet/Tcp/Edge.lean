import KwNet.Tcp.Disconnected
import KwNet.Tcp.Order

/-!
# Queued output and the writable edge

Every registration is edge triggered, so bytes in `outputBuffers_` move on only when an edge comes, and
an edge comes only when an `epoll_ctl` with `EPOLLOUT` finds the socket writable or when space becomes
free after a refused write.  `sendInLoop` counts on the first when it switches the channel to writing
and on the second when its write was refused.  But `handle_ep_out` leaves the channel writing when it
has drained the queue: `DisableWrite` comes with the next event that finds the queue empty.  A
`sendInLoop` in between sees a channel that is writing, queues without a write or an `epoll_ctl`, and
the edge it counts on has been spent.

* `Kernel.due` — a writable edge is pending or will come;
* `Conn.strands` — the steps that leave the queue to itself;
* `Flowing` — somebody looks after the queue: an edge, an event, or an activation of the output side;
* **`queued_output_flows`** — without such steps an edge is due whenever the loop is done and bytes are
  queued.
-/

namespace KwNet.Tcp

open KwNet.Lib

variable {ι : Type} {cfg : Config} {w : Word} {io io' : Io} {later : Prop}

/-! ### Edges -/

/-- A writable edge is pending, or the most recent write was refused and no space has become free
since. -/
def Kernel.due (k : Kernel) : Bool := k.edge || (k.lastRefused && k.armed)

/-- The registration follows the channel, which listens for reads and calls the connection. -/
structure Io.Registered (io : Io) : Prop where
  isOpen : io.kernel.isOpen = true
  added : io.channel.added = true
  read : io.channel.listen.read = true
  callbacks : io.channel.callbacks = true
  interest : io.kernel.interest = some io.channel.listen

theorem Channel.updateChannel_mod {c : Channel} (k : Kernel) (hadded : c.added = true)
    (hread : c.listen.read = true) : c.updateChannel k = (c, k.ctl .mod c.listen) := by
  have hne : c.listen ≠ .none := by
    intro h
    rw [h] at hread
    cases hread
  unfold Channel.updateChannel
  rw [hadded, if_neg hne]
  rfl

theorem Kernel.ctl_mod {k : Kernel} (h : k.isOpen = true) (ev : Interest) :
    k.ctl .mod ev = { k with interest := some ev, edge := ev.write && (k.edge || k.writable) } := by
  unfold Kernel.ctl
  rw [h]
  rfl

/-- The channel with its interest in `EPOLLOUT` set to `write`. -/
def Channel.listening (c : Channel) (write : Bool) : Channel := { c with listen := ⟨true, write⟩ }

theorem Io.Registered.enableWrite (h : io.Registered) :
    io.channel.enableWrite io.kernel = (io.channel.listening true).updateChannel io.kernel := by
  simp only [Channel.enableWrite, Channel.listening, h.read]

theorem Io.Registered.disableWrite (h : io.Registered) :
    io.channel.disableWrite io.kernel = (io.channel.listening false).updateChannel io.kernel := by
  simp only [Channel.disableWrite, Channel.listening, h.read]

/-- The socket after an `epoll_ctl` MOD: with `EPOLLOUT` in the interest it finds an edge if the socket
is writable. -/
def Kernel.modified (k : Kernel) (write : Bool) : Kernel :=
  { k with interest := some ⟨true, write⟩, edge := write && (k.edge || k.writable) }

/-- `EnableRead`, `EnableWrite` and `DisableWrite` on a registered channel. -/
theorem Io.Registered.update (h : io.Registered) (write : Bool) :
    io.setChannel ((io.channel.listening write).updateChannel io.kernel)
        = { io with channel := io.channel.listening write, kernel := io.kernel.modified write } ∧
      Io.Registered
        { io with channel := io.channel.listening write, kernel := io.kernel.modified write } := by
  refine ⟨?_, h.isOpen, h.added, rfl, h.callbacks, rfl⟩
  have hadded : (io.channel.listening write).added = true := h.added
  rw [Channel.updateChannel_mod io.kernel hadded rfl, Kernel.ctl_mod h.isOpen]
  rfl

theorem Io.Registered.congr (h : io.Registered) (hc : io'.channel = io.channel)
    (hk : io'.kernel = io.kernel) : io'.Registered :=
  ⟨by rw [hk]; exact h.isOpen, by rw [hc]; exact h.added, by rw [hc]; exact h.read,
    by rw [hc]; exact h.callbacks, by rw [hk, hc]; exact h.interest⟩

theorem Io.Registered.write (h : io.Registered) (o : WriteOutcome) :
    Io.Registered { io with kernel := io.kernel.write o } :=
  ⟨(io.kernel.write_isOpen o).1.trans h.isOpen, h.added, h.read, h.callbacks,
    (io.kernel.write_isOpen o).2.trans h.interest⟩

theorem Io.Registered.listensWrite (h : io.Registered) :
    io.kernel.listensWrite = io.channel.isWriting := by
  unfold Kernel.listensWrite
  rw [h.interest]
  rfl

/-- Space brings the edge a refused write is waiting for. -/
theorem Kernel.due_space {k : Kernel} (h : k.due = true) (hl : k.listensWrite = true) :
    k.space.due = true := by
  unfold Kernel.due Kernel.space at *
  rw [hl]
  dsimp only
  cases he : k.edge with
  | true => rfl
  | false =>
    rw [he, Bool.false_or, Bool.and_eq_true] at h
    rw [h.2]
    rfl

theorem Kernel.due_refused {k : Kernel} {o : WriteOutcome} (hopen : k.isOpen = true)
    (h : o.refused = true) : (k.write o).due = true ∧ (k.write o).lastRefused = true ∧
      (k.write o).armed = true := by
  unfold Kernel.write
  rw [hopen, h]
  exact ⟨rfl, rfl, rfl⟩

/-! ### Who looks after the queue -/

/-- `EPOLLOUT` alone. -/
def Mask.writable : Mask := ⟨false, false, false, false, true⟩

/-- The handlers of a writable event. -/
def HandlerPc.isOut : HandlerPc → Bool
  | .event m => m == .writable
  | .eventOut | .epOut | .drain .out | .drainWrite .out _ | .drainClear => true
  | _ => false

def Frame.isOut : Frame → Bool
  | .handler pc => pc.isOut
  | _ => true

/-- An activation that drains the queue, meets a refusal or closes the socket before it returns. -/
def Frame.active : Frame → Bool
  | .handler pc => pc.isOut
  | .hup .load | .hup .free | .hup .close => true
  | .call _ .close => true
  | _ => false

def Frame.isQueueing : Frame → Bool
  | .sendInLoop (.queue _ _ _ _) _ _ => true
  | _ => false

/-- Bytes are queued, or about to be on a channel that is writing already. -/
def Io.Owes (io : Io) (fs : List Frame) : Prop :=
  io.outputBuffers ≠ [] ∨ io.channel.isWriting = true ∧ fs.head?.any Frame.isQueueing = true

/-- What `sendInLoop` counts on: its direct write goes out on a channel that is not writing, and an
`EnableWrite` of what is left gets an edge. -/
def Frame.Poised (io : Io) : Frame → Prop
  | .sendInLoop (.write _ _ _) _ _ => io.channel.isWriting = false ∧ io.outputBuffers = []
  | .sendInLoop (.queue _ _ _ _) _ _ =>
    io.channel.isWriting = false →
      io.kernel.writable = true ∨ io.kernel.lastRefused = true ∧ io.kernel.armed = true
  | _ => True

/-- With the frames `fs` on the stack, somebody looks after the queue: an edge that is due, one of the
frames, or what comes `later`. -/
structure Flowing (io : Io) (fs : List Frame) (later : Prop) : Prop extends io.Registered where
  listens : io.outputBuffers ≠ [] → io.channel.isWriting = true
  due : io.Owes fs → io.kernel.due = true ∨ (∃ f ∈ fs, f.active = true) ∨ later
  top : ∀ f, fs.head? = some f → f.Poised io

theorem Frame.poised_of_not_carries {f : Frame} (h : f.carries = false) : f.Poised io := by
  cases f with
  | sendInLoop pc job copy => cases pc <;> trivial
  | _ => trivial

theorem Frame.isQueueing_of_not_carries {f : Frame} (h : f.carries = false) :
    f.isQueueing = false := by
  cases f with
  | sendInLoop pc job copy => cases pc <;> first | rfl | cases h
  | _ => rfl

/-- No `sendInLoop` on its way is on top. -/
theorem Io.Owes.queued {fs : List Frame} (h : io.Owes fs)
    (hfs : ∀ g, fs.head? = some g → g.carries = false) : io.outputBuffers ≠ [] := by
  rcases h with hout | ⟨-, hq⟩
  · exact hout
  · cases hg : fs.head? with
    | none => rw [hg] at hq; cases hq
    | some g =>
      rw [hg, Option.any_some, Frame.isQueueing_of_not_carries (hfs g hg)] at hq
      cases hq

/-- The queue is empty. -/
theorem Flowing.drained {fs : List Frame} (hreg : io.Registered) (hout : io.outputBuffers = [])
    (hfs : ∀ g, fs.head? = some g → g.carries = false) : Flowing io fs later :=
  ⟨hreg, fun hne => absurd hout hne, fun howes => absurd hout (howes.queued hfs),
    fun g hg => Frame.poised_of_not_carries (hfs g hg)⟩

/-- The queue is empty and the channel is not writing. -/
theorem Flowing.idle {fs : List Frame} (hreg : io.Registered) (hw : io.channel.isWriting = false)
    (hout : io.outputBuffers = []) (htop : ∀ g, fs.head? = some g → g.Poised io) :
    Flowing io fs later := by
  refine ⟨hreg, fun hne => absurd hout hne, fun howes => ?_, htop⟩
  rcases howes with hne | ⟨hw', -⟩
  · exact absurd hout hne
  · rw [hw] at hw'
    cases hw'

/-- The channel is writing and somebody looks after the queue. -/
theorem Flowing.writing {fs : List Frame} (hreg : io.Registered) (hw : io.channel.isWriting = true)
    (hdue : io.kernel.due = true ∨ (∃ f ∈ fs, f.active = true) ∨ later)
    (hfs : ∀ g, fs.head? = some g → g.carries = false) : Flowing io fs later :=
  ⟨hreg, fun _ => hw, fun _ => hdue, fun g hg => Frame.poised_of_not_carries (hfs g hg)⟩

/-- Only the stack changes, and an active frame is replaced by an active one. -/
theorem Flowing.goto {f : Frame} {fs : List Frame} (h : Flowing io [f] later)
    (hc : io'.channel = io.channel) (hk : io'.kernel = io.kernel)
    (hout : io'.outputBuffers = io.outputBuffers)
    (hact : f.active = true → ∃ g ∈ fs, g.active = true)
    (hfs : ∀ g, fs.head? = some g → g.carries = false) : Flowing io' fs later := by
  refine ⟨h.toRegistered.congr hc hk, ?_, fun howes => ?_,
    fun g hg => Frame.poised_of_not_carries (hfs g hg)⟩
  · rw [hout, hc]
    exact h.listens
  · have hne := howes.queued hfs
    rw [hout] at hne
    rw [hk]
    refine (h.due (.inl hne)).imp id (Or.imp ?_ id)
    rintro ⟨g, hg, hactive⟩
    rw [List.mem_singleton.mp hg] at hactive
    exact hact hactive

/-! ### Starving writes -/

/-- The answer `SSL_ERROR_WANT_READ` from a socket that neither is writable nor has refused. -/
def WriteOutcome.starves (o : WriteOutcome) (k : Kernel) : Bool :=
  o.err == .wantRead && !o.refused && !(k.write o).writable

/-- The write that got such an answer. -/
def Frame.starves (cfg : Config) (k : Kernel) : Frame → Input → Bool
  | .sendInLoop (.write _ _ _) _ _, .write o =>
    cfg.kind == .ssl && decide (o.ret < 0) && o.starves k
  | .handler (.drainWrite _ _), .write o => cfg.kind == .ssl && decide (o.ret ≤ 0) && o.starves k
  | _, _ => false

theorem WriteOutcome.not_starves {o : WriteOutcome} {k : Kernel} (h : o.starves k = false)
    (herr : o.err = .wantRead) : o.refused = true ∨ (k.write o).writable = true := by
  rw [WriteOutcome.starves, herr] at h
  cases hr : o.refused with
  | true => exact .inl rfl
  | false =>
    rw [hr] at h
    exact .inr (by simpa using h)

/-! ### `sendInLoop` -/

variable {job : Job} {copy : Option (List UInt8)}

theorem sendEpilogue_head (old : Word) :
    ∀ g, (sendEpilogue w io old job copy).frames.head? = some g → g.carries = false :=
  fun g hg => sendEpilogue_carries old job copy g (List.mem_of_head? hg)

/-- `sendInLoop` on entry: it may find the channel writing with nothing queued only while an edge is
due. -/
theorem sendLoad_flowing {inp : Input} {e : Effect}
    (h : Flowing io [.sendInLoop .load job copy] later)
    (hload : job.size ≠ 0 → io.channel.isWriting = true → io.outputBuffers = [] →
      io.kernel.due = true ∨ later)
    (hs : sendLoopStep cfg w io job copy .load inp = some e) : Flowing e.io e.frames later := by
  have hreg : Io.Registered { io with turns := io.turns + 1 } := h.toRegistered.congr rfl rfl
  simp only [sendLoopStep, Option.some.injEq] at hs
  subst hs
  split
  · next hcond =>
    simp only [Bool.and_eq_true, Bool.not_eq_true', List.isEmpty_iff] at hcond
    refine .idle hreg hcond.1.1 hcond.1.2 ?_
    rintro g ⟨⟩
    exact hcond.1
  · next hcond =>
    split
    · next hsize =>
      have hw : io.channel.isWriting = true := by
        by_contra hw
        have hw' : io.channel.isWriting = false := by simpa using hw
        have hout : io.outputBuffers = [] := by
          by_contra hout
          exact hw (h.listens hout)
        rw [hw', hout, hsize] at hcond
        exact hcond rfl
      refine ⟨hreg, h.listens, fun _ => ?_, ?_⟩
      · by_cases hout : io.outputBuffers = []
        · exact (hload (by simpa using hsize) hw hout).imp id .inr
        · refine (h.due (.inl hout)).imp id (Or.imp ?_ id)
          rintro ⟨g, hg, hactive⟩
          rw [List.mem_singleton.mp hg] at hactive
          cases hactive
      · rintro g ⟨⟩ hw'
        cases hw.symm.trans hw'
    · refine h.goto ?_ ?_ ?_ (fun h => absurd h Bool.false_ne_true) (sendEpilogue_head w) <;> dsimp only <;> rw [sendEpilogue_io]

/-- The direct write. -/
theorem sendWrite_flowing {old : Word} {turn remaining : ℕ} {o : WriteOutcome}
    (h : Flowing io [.sendInLoop (.write old turn remaining) job copy] later)
    (ho : o.admissible io.kernel job.size = true)
    (hread : cfg.kind = .ssl → o.ret < 0 → o.err = .wantRead →
      o.refused = true ∨ (io.kernel.write o).writable = true) :
    Flowing (sendWrite cfg w io old turn remaining job copy o).io
      (sendWrite cfg w io old turn remaining job copy o).frames later := by
  obtain ⟨hw, hout⟩ : io.channel.isWriting = false ∧ io.outputBuffers = [] := h.top _ rfl
  have hreg := h.toRegistered.write o
  have hepi : Flowing (sendEpilogue w { io with kernel := io.kernel.write o } old job copy).io
      (sendEpilogue w { io with kernel := io.kernel.write o } old job copy).frames later := by
    rw [sendEpilogue_io]
    exact .drained hreg hout (sendEpilogue_head old)
  unfold sendWrite
  dsimp only
  split
  · split
    · exact hepi
    · refine .idle hreg hw hout ?_
      rintro g ⟨⟩
      exact ⟨hw, hout⟩
  · next hret =>
    split
    · next herr =>
      have hrefused : o.refused = true := by
        simp only [WriteOutcome.admissible, herr, Bool.and_eq_true, Bool.or_eq_true,
          decide_eq_true_eq, bne_self_eq_false, Bool.false_eq_true, or_false] at ho
        exact ho.2.resolve_left (by omega)
      refine .idle hreg hw hout ?_
      rintro g ⟨⟩ -
      exact .inr (Kernel.due_refused h.isOpen hrefused).2
    · refine .idle hreg hw hout ?_
      rintro g ⟨⟩
      exact ⟨hw, hout⟩
    · next hk herr =>
      obtain ⟨hio, hreg'⟩ := hreg.update io.channel.isWriting
      show Flowing (Io.setChannel _ ((io.channel.listening io.channel.isWriting).updateChannel _)) _ _
      rw [hio]
      refine .idle hreg' hw hout ?_
      rintro g ⟨⟩ -
      exact (hread hk (by omega) herr).symm.imp id fun hrefused =>
        (Kernel.due_refused h.isOpen hrefused).2
    · exact hepi

theorem Flowing.top_queue {old : Word} {turn remaining : ℕ} {nwrote : ℤ}
    (h : Flowing io [.sendInLoop (.queue old turn nwrote remaining) job copy] later)
    (hw : io.channel.isWriting = true) : io.kernel.due = true ∨ later := by
  rcases h.due (.inr ⟨hw, rfl⟩) with hdue | ⟨f, hf, hactive⟩ | hlater
  · exact .inl hdue
  · rw [List.mem_singleton.mp hf] at hactive
    cases hactive
  · exact .inr hlater

/-- What is left goes into the queue, and `EnableWrite` finds an edge or the write was refused. -/
theorem sendQueue_flowing {old : Word} {turn remaining : ℕ} {nwrote : ℤ}
    (h : Flowing io [.sendInLoop (.queue old turn nwrote remaining) job copy] later)
    (hcrash : (sendQueue cfg w io old turn nwrote remaining job copy).crash = false) :
    Flowing (sendQueue cfg w io old turn nwrote remaining job copy).io
      (sendQueue cfg w io old turn nwrote remaining job copy).frames later := by
  unfold sendQueue at hcrash ⊢
  dsimp only at hcrash ⊢
  split
  · next hnone => rw [hnone] at hcrash; cases hcrash
  · next buf _ =>
    dsimp only
    rw [sendEpilogue_io]
    split
    · next hw =>
      refine .writing (h.toRegistered.congr rfl rfl) hw ?_ (sendEpilogue_head old)
      exact (h.top_queue hw).imp id .inr
    · next hw =>
      have hw' : io.channel.isWriting = false := by simpa using hw
      have hreg : Io.Registered { io with
          oldLen := (io.oldLen + remaining) % 2 ^ 64,
          outputBuffers := ⟨turn, buf⟩ :: io.outputBuffers } := h.toRegistered.congr rfl rfl
      obtain ⟨hio, hreg'⟩ := hreg.update true
      rw [hreg.enableWrite, hio]
      refine .writing hreg' rfl (.inl ?_) (sendEpilogue_head old)
      have hpoised := h.top _ rfl hw'
      show (io.kernel.edge || io.kernel.writable || (io.kernel.lastRefused && io.kernel.armed)) = true
      rcases hpoised with hwritable | ⟨hlast, harmed⟩
      · rw [hwritable, Bool.or_true, Bool.true_or]
      · rw [hlast, harmed, Bool.and_true, Bool.or_true]

/-! ### The writable event -/

theorem out_singleton {f : Frame} (h : f.isOut = true) : ∀ g ∈ [f], g.isOut = true := by
  intro g hg
  exact List.mem_singleton.mp hg ▸ h

theorem not_carries_singleton {f : Frame} (h : f.carries = false) :
    ∀ g, [f].head? = some g → g.carries = false := by
  rintro g ⟨⟩
  exact h

/-- The frames on top are active. -/
theorem Flowing.active {f : Frame} {fs : List Frame} (hreg : io.Registered)
    (hw : io.channel.isWriting = true) (hf : f.active = true) (hc : f.carries = false) :
    Flowing io (f :: fs) later :=
  .writing hreg hw (.inr (.inl ⟨f, List.mem_cons_self, hf⟩)) (by rintro g ⟨⟩; exact hc)

theorem popFront_flowing (hreg : io.Registered) (hw : io.channel.isWriting = true) :
    Flowing (popFront cfg w io .out).io (popFront cfg w io .out).frames later := by
  cases hk : cfg.kind <;> simp only [popFront, hk] <;>
    exact .active (hreg.congr rfl rfl) hw rfl rfl

/-- The head of the output loop. -/
theorem drainStep_flowing (h : Flowing io [.handler (.drain .out)] later) :
    Flowing (drainStep cfg w io .out).io (drainStep cfg w io .out).frames later := by
  unfold drainStep
  split
  · next hout =>
    dsimp only
    split
    · exact .drained h.toRegistered hout (not_carries_singleton rfl)
    · exact .drained h.toRegistered hout forall_none
  · next b bs hout =>
    have hw : io.channel.isWriting = true := h.listens (by rw [hout]; exact List.cons_ne_nil b bs)
    split
    · exact .active h.toRegistered hw rfl rfl
    · split
      · exact popFront_flowing h.toRegistered hw
      · exact .active h.toRegistered hw rfl rfl

/-- The write of the output loop. -/
theorem drainWriteStep_flowing {left : ℤ} {b : OutBuf} {bs : List OutBuf} {o : WriteOutcome}
    (h : Flowing io [.handler (.drainWrite .out left)] later) (hout : io.outputBuffers = b :: bs)
    (ho : o.admissible io.kernel (countOf left) = true)
    (hread : cfg.kind = .ssl → o.ret ≤ 0 → o.err = .wantRead →
      o.refused = true ∨ (io.kernel.write o).writable = true)
    (hcrash : (drainWriteStep cfg w io .out left b bs o).crash = false) :
    Flowing (drainWriteStep cfg w io .out left b bs o).io
      (drainWriteStep cfg w io .out left b bs o).frames later := by
  have hw : io.channel.isWriting = true := h.listens (by rw [hout]; exact List.cons_ne_nil b bs)
  have hreg := h.toRegistered.write o
  have hfront : ∀ out : List OutBuf,
      Io.Registered { io with kernel := io.kernel.write o, outputBuffers := out } := fun _ =>
    hreg.congr rfl rfl
  have hrefused : o.err = .wouldBlock → o.ret ≤ 0 → o.refused = true := by
    intro herr hret
    simp only [WriteOutcome.admissible, herr, Bool.and_eq_true, Bool.or_eq_true,
      decide_eq_true_eq, bne_self_eq_false, Bool.false_eq_true, or_false] at ho
    exact ho.2.resolve_left (by omega)
  have hstop : o.err = .wouldBlock → o.ret ≤ 0 →
      Flowing { io with kernel := io.kernel.write o } [] later := fun herr hret =>
    .writing hreg hw (.inl (Kernel.due_refused h.isOpen (hrefused herr hret)).1) forall_none
  unfold drainWriteStep at hcrash ⊢
  dsimp only at hcrash ⊢
  split
  · next hret =>
    split
    · next hnone =>
      rw [if_pos hret, hnone] at hcrash
      cases hcrash
    · split
      · exact .active (hfront _) hw rfl rfl
      · split
        · exact popFront_flowing (hfront _) hw
        · exact .active (hfront _) hw rfl rfl
  · next hret =>
    have hret' : o.ret ≤ 0 := by omega
    split
    · next herr => exact hstop herr hret'
    · exact .active hreg hw rfl rfl
    · exact .active hreg hw rfl rfl
    · next herr => exact hstop herr hret'
    · next hk herr =>
      obtain ⟨hio, hreg'⟩ := hreg.update io.channel.isWriting
      show Flowing (Io.setChannel _ ((io.channel.listening io.channel.isWriting).updateChannel _)) _ _
      rw [hio]
      refine .writing hreg' hw (.inl ?_) forall_none
      rcases hread hk hret' herr with hrefused | hwritable
      · obtain ⟨-, hlast, harmed⟩ := Kernel.due_refused h.isOpen hrefused
        simp only [Kernel.due, Kernel.modified, hlast, harmed, Bool.and_true, Bool.or_true]
      · simp only [Kernel.due, Kernel.modified, hw, hwritable, Bool.or_true, Bool.and_true,
          Bool.true_or]
    · exact .active hreg hw rfl rfl

/-- The handler writes, drains or closes; where it stops with bytes queued, an edge is due. -/
theorem handlerStep_flowing {pc : HandlerPc} {inp : Input} {e : Effect}
    (hpc : pc.isOut = true) (h : Flowing io [.handler pc] later)
    (hstarve : (Frame.handler pc).starves cfg io.kernel inp = false)
    (hs : handlerStep cfg w io pc inp = some e) (hcrash : e.crash = false) :
    Flowing e.io e.frames later := by
  have hgo : ∀ pc' : HandlerPc, pc'.isOut = true → Flowing io [.handler pc'] later := by
    intro pc' hpc'
    exact h.goto rfl rfl rfl (fun _ => ⟨_, List.mem_singleton_self _, hpc'⟩)
      (not_carries_singleton rfl)
  cases pc with
  | event m =>
    obtain rfl : m = .writable := beq_iff_eq.mp hpc
    cases hs
    exact hgo .eventOut rfl
  | eventOut =>
    simp only [handlerStep, h.callbacks, if_true, Option.some.injEq] at hs
    subst hs
    exact hgo .epOut rfl
  | epOut =>
    simp only [handlerStep] at hs
    split at hs <;> cases hs
    · next hempty =>
      obtain ⟨hio, hreg'⟩ := h.toRegistered.update false
      show Flowing (io.setChannel (io.channel.disableWrite io.kernel)) [] later
      rw [h.toRegistered.disableWrite, hio]
      exact .drained hreg' (List.isEmpty_iff.mp hempty) forall_none
    · exact hgo (.drain .out) rfl
  | drain mode =>
    cases mode with
    | out =>
      cases hs
      exact drainStep_flowing h
    | finish => cases hpc
  | drainWrite mode left =>
    cases mode with
    | out =>
      cases inp with
      | write o =>
        simp only [handlerStep] at hs
        split at hs
        · cases hs
        · next b bs hout =>
          split at hs <;> cases hs
          next ho =>
          refine drainWriteStep_flowing h hout ho (fun hk hret herr => ?_) hcrash
          refine WriteOutcome.not_starves ?_ herr
          simpa [Frame.starves, hk, hret] using hstarve
      | _ => cases hs
    | finish => cases hpc
  | drainClear =>
    cases hs
    cases hcrash
  | _ => cases hpc

/-! ### One step of the top frame -/

theorem Next.frames_out (next : Next) (k : Cont) : ∀ g ∈ next.frames k, g.isOut = true := by
  intro g hg
  have hk : ∀ g ∈ k.frames, g.isOut = true := by
    cases k <;> simp [Cont.frames, Frame.isOut]
  cases next with
  | goto c => exact List.mem_singleton.mp hg ▸ rfl
  | refuse job why => exact hk g hg
  | admits job => exact (List.mem_cons.mp hg).elim (fun h => h ▸ rfl) (hk g)
  | ret => exact hk g hg
  | win => exact (List.mem_cons.mp hg).elim (fun h => h ▸ rfl) (hk g)

/-- A call inside the TLS `handle_ep_hup` goes on to the close. -/
theorem Next.frames_active (next : Next) : ∃ g ∈ next.frames .close, g.active = true := by
  cases next with
  | goto c => exact ⟨_, List.mem_singleton_self _, rfl⟩
  | refuse job why => exact ⟨_, List.mem_singleton_self _, rfl⟩
  | ret => exact ⟨_, List.mem_singleton_self _, rfl⟩
  | admits job => exact ⟨_, List.mem_cons_of_mem _ (List.mem_singleton_self _), rfl⟩
  | win => exact ⟨_, List.mem_cons_of_mem _ (List.mem_singleton_self _), rfl⟩

theorem SendMid.out {old : Word} {fs : List Frame} {evs : List Event}
    (h : SendMid old job copy fs evs) : ∀ g ∈ fs, g.isOut = true := by
  cases h <;> first | exact out_singleton rfl | exact List.forall_mem_nil _

theorem popFront_out : ∀ g ∈ (popFront cfg w io .out).frames, g.isOut = true := by
  cases hk : cfg.kind <;> simp only [popFront, hk] <;> exact out_singleton rfl

theorem drainStep_out : ∀ g ∈ (drainStep cfg w io .out).frames, g.isOut = true := by
  unfold drainStep
  split
  · dsimp only
    split
    · exact out_singleton rfl
    · exact List.forall_mem_nil _
  · split
    · exact out_singleton rfl
    · split
      · exact popFront_out
      · exact out_singleton rfl

theorem drainWriteStep_out {left : ℤ} {b : OutBuf} {bs : List OutBuf} {o : WriteOutcome} :
    ∀ g ∈ (drainWriteStep cfg w io .out left b bs o).frames, g.isOut = true := by
  unfold drainWriteStep
  dsimp only
  split
  · split
    · exact List.forall_mem_nil _
    · split
      · exact out_singleton rfl
      · split
        · exact popFront_out
        · exact out_singleton rfl
  · split
    · exact List.forall_mem_nil _
    · exact out_singleton rfl
    · intro g hg
      rcases List.mem_cons.mp hg with rfl | hg
      · rfl
      · exact List.mem_singleton.mp hg ▸ rfl
    · exact List.forall_mem_nil _
    · exact List.forall_mem_nil _
    · exact out_singleton rfl

/-- The handlers of a writable event start no others. -/
theorem handlerStep_out {pc : HandlerPc} {inp : Input} {e : Effect} (hpc : pc.isOut = true)
    (hs : handlerStep cfg w io pc inp = some e) : ∀ g ∈ e.frames, g.isOut = true := by
  cases pc with
  | event m =>
    obtain rfl : m = .writable := beq_iff_eq.mp hpc
    cases hs
    exact out_singleton rfl
  | eventOut =>
    cases hs
    cases hcb : io.channel.callbacks <;> simp only [Effect.goto]
    · exact List.forall_mem_nil _
    · exact out_singleton rfl
  | epOut =>
    simp only [handlerStep] at hs
    split at hs <;> cases hs
    · exact List.forall_mem_nil _
    · exact out_singleton rfl
  | drain mode =>
    cases mode with
    | out =>
      cases hs
      exact drainStep_out
    | finish => cases hpc
  | drainWrite mode left =>
    cases mode with
    | out =>
      cases inp with
      | write o =>
        simp only [handlerStep] at hs
        split at hs
        · cases hs
        · split at hs <;> cases hs
          exact drainWriteStep_out
      | _ => cases hs
    | finish => cases hpc
  | drainClear =>
    cases hs
    exact List.forall_mem_nil _
  | _ => cases hpc

theorem frameStep_out {f : Frame} {inp : Input} {e : Effect} (hf : f.isOut = true)
    (hs : frameStep cfg w io f inp = some e) : ∀ g ∈ e.frames, g.isOut = true := by
  cases f with
  | user => cases hs
  | call c k =>
    obtain ⟨ce, -, rfl⟩ := Option.map_eq_some_iff.mp hs
    exact ce.next.frames_out k
  | sendInLoop pc job copy =>
    cases sendLoopStep_move hs with
    | load hm => obtain ⟨evs, -, hmid⟩ := hm.mid; exact hmid.out
    | write hm => obtain ⟨evs, -, hmid⟩ := hm.mid; exact hmid.out
    | queue hm => obtain ⟨evs, -, hmid⟩ := hm.mid; exact hmid.out
    | last => exact out_singleton rfl
    | clear => exact out_singleton rfl
    | _ => exact List.forall_mem_nil _
  | shutdownInLoop =>
    cases hs
    exact List.forall_mem_nil _
  | hup pc =>
    cases hs
    cases pc <;> simp only [hupStep] <;> (repeat' split) <;> simp [Effect.goto, Frame.isOut]
  | delay pc =>
    cases hs
    cases pc <;> simp only [delayStep] <;> (repeat' split) <;> simp [Effect.goto, Frame.isOut]
  | handler pc => exact handlerStep_out hf hs

/-- A step of `sendInLoop` other than its first. -/
theorem sendLoopStep_flowing {pc : SendLoopPc} {inp : Input} {e : Effect}
    (h : Flowing io [.sendInLoop pc job copy] later) (hpc : pc ≠ .load)
    (hstarve : (Frame.sendInLoop pc job copy).starves cfg io.kernel inp = false)
    (hs : sendLoopStep cfg w io job copy pc inp = some e) (hcrash : e.crash = false) :
    Flowing e.io e.frames later := by
  cases pc with
  | load => exact absurd rfl hpc
  | write old turn remaining =>
    cases inp with
    | write o =>
      simp only [sendLoopStep] at hs
      split at hs <;> cases hs
      next ho =>
      refine sendWrite_flowing h ho fun hk hret herr => WriteOutcome.not_starves ?_ herr
      simpa [Frame.starves, hk, hret] using hstarve
    | _ => cases hs
  | queue old turn nwrote remaining =>
    cases hs
    exact sendQueue_flowing h hcrash
  | cas old =>
    cases sendLoopStep_move hs with
    | last => exact h.goto rfl rfl rfl (fun h => absurd h Bool.false_ne_true) (not_carries_singleton rfl)
    | release => exact h.goto rfl rfl rfl (fun h => absurd h Bool.false_ne_true) forall_none
    | casFailed => exact h.goto rfl rfl rfl (fun h => absurd h Bool.false_ne_true) forall_none
  | clear old =>
    cases sendLoopStep_move hs with
    | clear => exact h.goto rfl rfl rfl (fun h => absurd h Bool.false_ne_true) (not_carries_singleton rfl)
    | clearFailed => exact h.goto rfl rfl rfl (fun h => absurd h Bool.false_ne_true) forall_none
  | wake =>
    cases hs
    exact h.goto rfl rfl rfl (fun h => absurd h Bool.false_ne_true) forall_none

/-- `handle_ep_hup` goes on to the close, unless the socket is closed already. -/
theorem hupStep_flowing {pc : HupPc} (h : Flowing io [.hup pc] later)
    (hword : has w .disconnected = true → io.kernel.isOpen = false)
    (hpast : (Frame.hup pc).pastClose = true → io.kernel.isOpen = false)
    (hopen : (hupStep cfg w io pc).io.kernel.isOpen = true) :
    Flowing (hupStep cfg w io pc).io (hupStep cfg w io pc).frames later := by
  have habsurd : io.kernel.isOpen ≠ false := by
    rw [h.isOpen]
    exact Bool.false_ne_true.symm
  have hactive : ∀ f : Frame, f.active = true → f.carries = false → Flowing io [f] later :=
    fun f hf hc => h.goto rfl rfl rfl (fun _ => ⟨f, List.mem_singleton_self f, hf⟩)
      (not_carries_singleton hc)
  cases pc with
  | load =>
    simp only [hupStep]
    split
    · next hd => exact absurd (hword hd) habsurd
    · split <;> exact hactive _ rfl rfl
  | free =>
    exact h.goto rfl rfl rfl (fun _ => ⟨.call (.setUnused .load) .close, List.mem_singleton_self _, rfl⟩)
      (not_carries_singleton rfl)
  | close =>
    cases hk : cfg.kind <;> simp only [hupStep, hk] at hopen <;> cases hopen
  | store => exact absurd (hpast rfl) habsurd
  | wake => exact absurd (hpast rfl) habsurd
  | callback => exact absurd (hpast rfl) habsurd

/-- **One step of the top frame keeps the output flowing.** -/
theorem frameStep_flowing {f : Frame} {inp : Input} {e : Effect} (hf : f.isOut = true)
    (h : Flowing io [f] later)
    (hload : ∀ job copy, f = .sendInLoop .load job copy → job.size ≠ 0 →
      io.channel.isWriting = true → io.outputBuffers = [] → io.kernel.due = true ∨ later)
    (hstarve : f.starves cfg io.kernel inp = false)
    (hword : has w .disconnected = true → io.kernel.isOpen = false)
    (hpast : f.pastClose = true → io.kernel.isOpen = false)
    (hs : frameStep cfg w io f inp = some e) (hcrash : e.crash = false)
    (hopen : e.io.kernel.isOpen = true) :
    Flowing e.io e.frames later := by
  cases f with
  | user => cases hs
  | call c k =>
    obtain ⟨ce, -, rfl⟩ := Option.map_eq_some_iff.mp hs
    refine h.goto rfl rfl rfl (fun hactive => ?_) fun g hg =>
      ce.next.frames_carries k g (List.mem_of_head? hg)
    cases k with
    | close => exact ce.next.frames_active
    | _ => cases hactive
  | sendInLoop pc job copy =>
    change sendLoopStep cfg w io job copy pc inp = some e at hs
    by_cases hpc : pc = .load
    · subst hpc
      exact sendLoad_flowing h (hload job copy rfl) hs
    · exact sendLoopStep_flowing h hpc hstarve hs hcrash
  | shutdownInLoop =>
    cases hs
    exact h.goto rfl rfl rfl (fun h => absurd h Bool.false_ne_true) forall_none
  | hup pc =>
    cases hs
    exact hupStep_flowing h hword hpast hopen
  | delay pc =>
    cases hs
    have hstep : ∀ fs : List Frame, (∀ g, fs.head? = some g → g.carries = false) →
        Flowing io fs later := fun fs hfs => h.goto rfl rfl rfl (fun h => absurd h Bool.false_ne_true) hfs
    cases pc <;> simp only [delayStep] <;> (repeat' split) <;>
      exact hstep _ (by intro g hg; cases hg <;> rfl)
  | handler pc => exact handlerStep_flowing hf h hstarve hs hcrash

/-! ### One step of the machine -/

variable {s s' : Conn ι}

/-- The steps the statement is about: no event but `EPOLLOUT`, and no change of the interest in reading.
Sends of any thread, callbacks and closes are all in. -/
def Conn.onOutput (s : Conn ι) : Action ι → Bool
  | .loop (.poll m) => m == .writable
  | .loop (.user .startRead) | .loop (.user .stopRead) => false
  | .loop .functor => !(s.functors.head? == some .startReadInLoop) && !(s.functors.head? == some .stopReadInLoop)
  | _ => true

/-- The steps that leave the queue to itself: `sendInLoop` finds the channel writing with nothing
queued and no edge due, so it will queue and leave; or `SSL_write` asks for a read. -/
def Conn.strands (cfg : Config) (s : Conn ι) : Action ι → Bool
  | .loop (.step inp) =>
    match s.loop with
    | .sendInLoop .load job _ :: _ =>
      s.io.channel.isWriting && s.io.outputBuffers.isEmpty && job.size != 0 && !s.io.kernel.due &&
        s.ready.isNone
    | f :: _ => f.starves cfg s.io.kernel inp
    | [] => false
  | _ => false

/-- Output keeps flowing while the socket is open. -/
structure EdgeInv (cfg : Config) (s : Conn ι) : Prop extends ShutInv cfg s where
  loop_out : ∀ f ∈ s.loop, f.isOut = true
  ready_out : ∀ m, s.ready = some m → m = .writable
  flowing : s.crashed = false → s.io.kernel.isOpen = true →
    Flowing s.io s.loop (s.ready.isSome = true)

/-- The frames below the top one count as what comes later. -/
theorem Flowing.top_only {f : Frame} {rest : List Frame} (h : Flowing io (f :: rest) later) :
    Flowing io [f] ((∃ g ∈ rest, g.active = true) ∨ later) := by
  refine ⟨h.toRegistered, h.listens, fun howes => ?_, h.top⟩
  rcases h.due howes with hdue | ⟨g, hg, hactive⟩ | hlater
  · exact .inl hdue
  · rcases List.mem_cons.mp hg with rfl | hg
    · exact .inr (.inl ⟨g, List.mem_singleton_self g, hactive⟩)
    · exact .inr (.inr (.inl ⟨g, hg, hactive⟩))
  · exact .inr (.inr (.inr hlater))

theorem Flowing.onto {fs rest : List Frame}
    (h : Flowing io fs ((∃ g ∈ rest, g.active = true) ∨ later))
    (hrest : ∀ g ∈ rest, g.carries = false) : Flowing io (fs ++ rest) later := by
  have hdue : io.Owes fs →
      io.kernel.due = true ∨ (∃ f ∈ fs ++ rest, f.active = true) ∨ later := by
    intro howes
    rcases h.due howes with hdue | ⟨g, hg, hactive⟩ | ⟨g, hg, hactive⟩ | hlater
    · exact .inl hdue
    · exact .inr (.inl ⟨g, List.mem_append_left rest hg, hactive⟩)
    · exact .inr (.inl ⟨g, List.mem_append_right fs hg, hactive⟩)
    · exact .inr (.inr hlater)
  cases fs with
  | cons f fs => exact ⟨h.toRegistered, h.listens, hdue, h.top⟩
  | nil =>
    have htop : ∀ g, rest.head? = some g → g.carries = false := fun g hg =>
      hrest g (List.mem_of_head? hg)
    exact ⟨h.toRegistered, h.listens, fun howes => hdue (.inl (howes.queued htop)),
      fun g hg => Frame.poised_of_not_carries (htop g hg)⟩

theorem PhaseInv.rest_carries {f : Frame} {rest : List Frame} (h : PhaseInv cfg s)
    (hl : s.loop = f :: rest) : ∀ g ∈ rest, g.carries = false := by
  intro g hg
  have htail := h.tail
  rw [hl] at htail
  exact Frame.carries_of_suspended (List.all_eq_true.mp htail g hg)

theorem EdgeInv.frame {f : Frame} {rest : List Frame} {inp : Input} {e : Effect}
    (h : EdgeInv cfg s) (hl : s.loop = f :: rest) (halive : s.crashed = false)
    (hstrand : s.strands cfg (.loop (.step inp)) = false)
    (he : frameStep cfg s.word s.io f inp = some e) (hcrash : e.crash = false)
    (hopen : e.io.kernel.isOpen = true) :
    Flowing e.io (e.frames ++ rest) (s.ready.isSome = true) := by
  have hmem : f ∈ s.loop := by rw [hl]; exact List.mem_cons_self
  have hopen₀ : s.io.kernel.isOpen = true := by
    by_cases hf : f = .hup .close
    · subst hf
      cases he
      cases hk : cfg.kind <;> simp only [hupStep, hk] at hopen <;> cases hopen
    · rw [← (frameStep_descriptor hf he).1]
      exact hopen
  have hflow := h.flowing halive hopen₀
  rw [hl] at hflow
  refine Flowing.onto ?_ (h.toPhaseInv.rest_carries hl)
  refine frameStep_flowing (h.loop_out f hmem) hflow.top_only ?_ ?_ ?_ (h.past f hmem) he hcrash hopen
  · rintro job copy rfl hsize hw hout
    have hsize' : (job.size != 0) = true := by simpa using hsize
    simp only [Conn.strands, hl, hw, hout, hsize', List.isEmpty_nil, Bool.and_true, Bool.true_and,
      Bool.and_eq_false_iff, Bool.not_eq_false'] at hstrand
    refine hstrand.imp id fun hready => .inr ?_
    rw [Option.isNone_eq_false_iff] at hready
    exact hready
  · unfold Conn.strands at hstrand
    rw [hl] at hstrand
    dsimp only at hstrand
    split at hstrand
    · next heq =>
      rw [List.cons.injEq] at heq
      rw [heq.1]
      rfl
    · next heq =>
      rw [List.cons.injEq] at heq
      rw [heq.1]
      exact hstrand
    · next heq => cases heq
  · intro hd
    obtain ⟨p, hp⟩ := h.word
    refine h.stored ?_
    rw [hp] at hd ⊢
    cases p <;> simp at hd ⊢

/-- The stack or what comes later changes, and whoever looked after the queue still does. -/
theorem Flowing.relink {fs fs' : List Frame} {later' : Prop} (h : Flowing io fs later)
    (hact : (∃ f ∈ fs, f.active = true) → (∃ f ∈ fs', f.active = true) ∨ later')
    (hlater : later → (∃ f ∈ fs', f.active = true) ∨ later')
    (htop : ∀ g, fs'.head? = some g → g.carries = false) : Flowing io fs' later' := by
  refine ⟨h.toRegistered, h.listens, fun howes => ?_, fun g hg => Frame.poised_of_not_carries (htop g hg)⟩
  rcases h.due (.inl (howes.queued htop)) with hdue | hactive | hlater'
  · exact .inl hdue
  · exact .inr (hact hactive)
  · exact .inr (hlater hlater')

theorem EdgeInv.enter {g : Frame} (h : EdgeInv cfg s) (hs : ShutInv cfg s') (hio : s'.io = s.io)
    (hl : s'.loop = g :: s.loop) (hr : s'.ready = s.ready) (hc : s'.crashed = s.crashed)
    (hg : g.isOut = true) (hcarry : g.carries = false) : EdgeInv cfg s' := by
  refine ⟨hs, ?_, by rw [hr]; exact h.ready_out, fun halive hopen => ?_⟩
  · intro f hf
    rw [hl] at hf
    rcases List.mem_cons.mp hf with rfl | hf
    · exact hg
    · exact h.loop_out f hf
  · rw [hc] at halive
    rw [hio] at hopen ⊢
    rw [hl, hr]
    refine (h.flowing halive hopen).relink ?_ .inr ?_
    · rintro ⟨f, hf, hactive⟩
      exact .inl ⟨f, List.mem_cons_of_mem g hf, hactive⟩
    · rintro f ⟨⟩
      exact hcarry

theorem Frame.wake_isOut {f : Frame} (h : f.isOut = true) : f.wake.isOut = true := by
  unfold Frame.wake
  split
  · rfl
  · cases h
  · exact h

theorem Frame.wake_active (f : Frame) (h : f.isOut = true) : f.wake.active = f.active := by
  unfold Frame.wake
  split
  · next c k => cases k <;> rfl
  · cases h
  · rfl

theorem Frame.wake_poised {f : Frame} (h : f.Poised io) : f.wake.Poised io := by
  unfold Frame.wake
  split
  · trivial
  · trivial
  · exact h

theorem Frame.wake_isQueueing (f : Frame) : f.wake.isQueueing = f.isQueueing := by
  unfold Frame.wake
  split <;> rfl

/-- A wake reaches the frames that sleep only. -/
theorem Flowing.wake {fs : List Frame} (h : Flowing io fs later) (hfs : ∀ f ∈ fs, f.isOut = true) :
    Flowing io (fs.map Frame.wake) later := by
  refine ⟨h.toRegistered, h.listens, fun howes => ?_, fun g hg => ?_⟩
  · have howes' : io.Owes fs := by
      refine howes.imp id fun hq => ⟨hq.1, ?_⟩
      have hhead := hq.2
      rw [List.head?_map, Option.any_map] at hhead
      cases hf : fs.head? with
      | none => rw [hf] at hhead; cases hhead
      | some f =>
        rw [hf] at hhead
        exact f.wake_isQueueing.symm.trans hhead
    refine (h.due howes').imp id (Or.imp ?_ id)
    rintro ⟨f, hf, hactive⟩
    exact ⟨f.wake, List.mem_map_of_mem hf, (f.wake_active (hfs f hf)).trans hactive⟩
  · rw [List.head?_map] at hg
    obtain ⟨f, hf, rfl⟩ := Option.map_eq_some_iff.mp hg
    exact Frame.wake_poised (h.top f hf)

/-- Space becomes free: an edge that was due comes. -/
theorem Flowing.space {fs : List Frame} (h : Flowing io fs later) :
    Flowing { io with kernel := io.kernel.space } fs later := by
  refine ⟨⟨h.isOpen, h.added, h.read, h.callbacks, h.interest⟩, h.listens, fun howes => ?_, fun g hg => ?_⟩
  · have hw : io.channel.isWriting = true := howes.elim h.listens And.left
    exact (h.due howes).imp (fun hdue => Kernel.due_space hdue (h.toRegistered.listensWrite.trans hw)) id
  · have htop := h.top g hg
    unfold Frame.Poised at htop ⊢
    split
    · exact htop
    · exact fun _ => .inl rfl
    · trivial

/-- Of the frames of the output side only calls sleep. -/
theorem Frame.spurious_call {f f' : Frame} (hf : f.isOut = true) (h : f.spurious = some f') :
    ∃ c k c', f = .call c k ∧ f' = .call c' k := by
  unfold Frame.spurious at h
  split at h
  · next c k =>
    obtain ⟨c', -, rfl⟩ := Option.map_eq_some_iff.mp h
    exact ⟨c, k, c', rfl, rfl⟩
  · cases hf
  · cases h

variable [Fintype ι] [DecidableEq ι]

/-- **Output keeps flowing** along every step of the output side that does not leave the queue to
itself. -/
theorem EdgeInv.step {a : Action ι} (h : EdgeInv cfg s) (hout : s.onOutput a = true)
    (hstrand : s.strands cfg a = false) (hs : Tcp.step cfg s a = some s') : EdgeInv cfg s' := by
  have hshut := h.toShutInv.step hs
  have halive : s.crashed = false := by
    unfold Tcp.step at hs
    split at hs
    · cases hs
    · next hc => simpa using hc
  cases step_cases hs with
  | @invoke t api ht => cases api <;> exact ⟨hshut, h.loop_out, h.ready_out, h.flowing⟩
  | push => exact ⟨hshut, h.loop_out, h.ready_out, h.flowing⟩
  | spurious => exact ⟨hshut, h.loop_out, h.ready_out, h.flowing⟩
  | giveUp => exact ⟨hshut, h.loop_out, h.ready_out, h.flowing⟩
  | overwrite =>
    exact ⟨hshut, h.loop_out, h.ready_out, fun halive hopen =>
      have hflow := h.flowing halive hopen
      ⟨hflow.toRegistered.congr rfl rfl, hflow.listens, hflow.due, hflow.top⟩⟩
  | space => exact ⟨hshut, h.loop_out, h.ready_out, fun halive hopen => (h.flowing halive hopen).space⟩
  | @call t c e ht he =>
    have hready : (s.afterCall t e).ready = s.ready := by
      unfold Conn.afterCall
      dsimp only
      split <;> rfl
    refine ⟨hshut, fun f hf => ?_, by rw [hready]; exact h.ready_out, fun _ hopen => ?_⟩
    · obtain ⟨g, hg, rfl | rfl⟩ := afterCall_mem_loop hf
      · exact h.loop_out f hg
      · exact Frame.wake_isOut (h.loop_out g hg)
    · rw [afterCall_io] at hopen ⊢
      rw [hready]
      have hflow := h.flowing halive hopen
      rcases afterCall_loop (s := s) t e with hl | hl
      · rw [hl]
        exact hflow
      · rw [hl]
        exact hflow.wake h.loop_out
  | @frame inp f rest e hl he =>
    have hmem : f ∈ s.loop := by rw [hl]; exact List.mem_cons_self
    refine ⟨hshut, fun g hg => ?_, h.ready_out, fun hcrash hopen =>
      h.frame hl halive hstrand he hcrash hopen⟩
    rcases List.mem_append.mp hg with hg | hg
    · exact frameStep_out (h.loop_out f hmem) he g hg
    · exact h.loop_out g (by rw [hl]; exact List.mem_cons_of_mem f hg)
  | @loopSpurious f f' rest hl hf =>
    have hfout := h.loop_out f (by rw [hl]; exact List.mem_cons_self)
    obtain ⟨c, k, c', rfl, rfl⟩ := Frame.spurious_call hfout hf
    refine ⟨hshut, fun g hg => ?_, h.ready_out, fun _ hopen => ?_⟩
    · rcases List.mem_cons.mp hg with rfl | hg
      · rfl
      · exact h.loop_out g (by rw [hl]; exact List.mem_cons_of_mem _ hg)
    · refine (h.flowing halive hopen).relink ?_ .inr (by rintro g ⟨⟩; rfl)
      rintro ⟨g, hg, hactive⟩
      rw [hl] at hg
      left
      rcases List.mem_cons.mp hg with rfl | hg
      · exact ⟨_, List.mem_cons_self, by cases k <;> exact hactive⟩
      · exact ⟨g, List.mem_cons_of_mem _ hg, hactive⟩
  | @userCall api rest hl =>
    cases api with
    | task => exact ⟨hshut, h.loop_out, h.ready_out, h.flowing⟩
    | startRead => cases hout
    | stopRead => cases hout
    | _ => exact h.enter hshut rfl rfl rfl rfl rfl rfl
  | delay hl => exact h.enter hshut rfl rfl rfl rfl rfl rfl
  | @ret rest hl =>
    have hrest := h.toPhaseInv.rest_carries hl
    refine ⟨hshut, fun g hg => h.loop_out g (by rw [hl]; exact List.mem_cons_of_mem _ hg), h.ready_out,
      fun _ hopen => ?_⟩
    refine (h.flowing halive hopen).relink ?_ .inr fun g hg => hrest g (List.mem_of_head? hg)
    rintro ⟨g, hg, hactive⟩
    rw [hl] at hg
    rcases List.mem_cons.mp hg with rfl | hg
    · cases hactive
    · exact .inl ⟨g, hg, hactive⟩
  | @poll m hl hr hi hm =>
    obtain rfl : m = .writable := beq_iff_eq.mp hout
    refine ⟨hshut, h.loop_out, by rintro m ⟨⟩; rfl, fun _ hopen => ?_⟩
    have hflow := h.flowing halive hopen
    refine ⟨⟨hflow.isOpen, hflow.added, hflow.read, hflow.callbacks, hflow.interest⟩, hflow.listens,
      fun _ => .inr (.inr rfl), ?_⟩
    show ∀ f, s.loop.head? = some f → _
    rw [hl]
    exact forall_none
  | @dispatch m hl hr =>
    obtain rfl := h.ready_out m hr
    refine ⟨hshut, fun g hg => ?_, forall_none, fun _ hopen => ?_⟩
    · rcases List.mem_cons.mp hg with rfl | hg
      · rfl
      · exact h.loop_out g hg
    · have hevent : ∃ f ∈ (s.enter [.handler (.event .writable)]).loop, f.active = true :=
        ⟨_, List.mem_cons_self, rfl⟩
      exact (h.flowing halive hopen).relink (fun _ => .inl hevent) (fun _ => .inl hevent)
        (by rintro g ⟨⟩; rfl)
  | @functor f fs hl hr hq =>
    refine h.enter hshut rfl rfl rfl rfl ?_ (by cases f <;> rfl)
    cases f with
    | startReadInLoop => simp [Conn.onOutput, hq] at hout
    | stopReadInLoop => simp [Conn.onOutput, hq] at hout
    | _ => rfl
  | timer hl => exact h.enter hshut rfl rfl rfl rfl rfl rfl
  | foreign hl => exact h.enter hshut rfl rfl rfl rfl rfl rfl

omit [Fintype ι] [DecidableEq ι] in
theorem edgeInv_init (cfg : Config) (rdhupPhrase isIoChannel ssl : Bool) (mem : ℤ → UInt8) :
    EdgeInv cfg (Conn.init ι rdhupPhrase isIoChannel ssl mem) := by
  refine ⟨shutInv_init cfg _ _ _ _, by simp [Conn.init, Frame.isOut], forall_none, fun _ _ => ?_⟩
  exact .drained ⟨rfl, rfl, rfl, rfl, rfl⟩ rfl (by rintro g ⟨⟩; rfl)

/-- Between two activations of the loop thread, with no event waiting to be dispatched. -/
def Conn.atRest (s : Conn ι) : Bool := s.loop.isEmpty && s.ready.isNone && !s.crashed

/-- **Queued output does not stall** in any run of sends and writable events in which no `sendInLoop`
starts on a channel that is still writing with nothing queued and no edge due, and no `SSL_write` asks
for a read on a socket that neither is writable nor has refused: whenever the loop thread is at rest
with the socket open and bytes queued, a writable edge is pending, or the most recent write was refused
and the edge comes as soon as space becomes free. -/
theorem queued_output_flows (cfg : Config) (rdhupPhrase isIoChannel ssl : Bool) (mem : ℤ → UInt8)
    (as : List (Action ι)) (s : Conn ι)
    (hscope : Along (step cfg) (fun t a => t.onOutput a = true)
      (Conn.init ι rdhupPhrase isIoChannel ssl mem) as)
    (hkeep : Along (step cfg) (fun t a => t.strands cfg a = false)
      (Conn.init ι rdhupPhrase isIoChannel ssl mem) as)
    (h : run (step cfg) (Conn.init ι rdhupPhrase isIoChannel ssl mem) as = some s)
    (hrest : s.atRest = true) (hopen : s.io.kernel.isOpen = true) (hout : s.io.outputBuffers ≠ []) :
    s.io.kernel.edge = true ∨ s.io.kernel.lastRefused = true ∧ s.io.kernel.space.edge = true := by
  have hinv := run_induction_along (fun t a => t.onOutput a = true ∧ t.strands cfg a = false)
    (EdgeInv cfg) (edgeInv_init cfg _ _ _ _) (fun _ _ _ hi hP hs => hi.step hP.1 hP.2 hs)
    (hscope.and hkeep) h
  simp only [Conn.atRest, Bool.and_eq_true, List.isEmpty_iff, Option.isNone_iff_eq_none,
    Bool.not_eq_true'] at hrest
  obtain ⟨⟨hloop, hready⟩, halive⟩ := hrest
  have hflow := hinv.flowing halive hopen
  rw [hloop, hready] at hflow
  rcases hflow.due (.inl hout) with hdue | ⟨f, hf, -⟩ | hlater
  · rw [Kernel.due, Bool.or_eq_true, Bool.and_eq_true] at hdue
    refine hdue.imp id fun hrefused => ⟨hrefused.1, ?_⟩
    have hlistens := hflow.toRegistered.listensWrite.trans (hflow.listens hout)
    show (s.io.kernel.edge || (s.io.kernel.armed && s.io.kernel.listensWrite)) = true
    rw [hrefused.2, hlistens, Bool.and_self, Bool.or_true]
  · cases hf
  · cases hlater

/-- A refused message that a writable event drains in part, up to the next refusal. -/
def refusedAgainRun : List (Action Unit) :=
  List.flatten [oneQueuedRun, [.loop (.step (.write ⟨-1, .wouldBlock, true, false⟩))]]

theorem queued_output_flows_refused :
    ∃ s, run (step plainConfig) (Conn.init Unit false false false fun _ => 0) refusedAgainRun
        = some s ∧ s.io.outputBuffers ≠ [] ∧ s.io.kernel.edge = false ∧
      (s.io.kernel.edge = true ∨ s.io.kernel.lastRefused = true ∧ s.io.kernel.space.edge = true) :=
  have hrun : run (step plainConfig) (Conn.init Unit false false false fun _ => 0) refusedAgainRun
      = some _ := rfl
  ⟨_, hrun, List.cons_ne_nil _ _, rfl, queued_output_flows plainConfig false false false (fun _ => 0) _ _
    (by decide) (by decide) hrun (by decide) rfl (List.cons_ne_nil _ _)⟩

/-- Fill, full drain, next send, of a TLS connection. -/
def sslStallRun : List (Action Unit) :=
  List.flatten [oneQueuedRun, [.loop (.step (.write ⟨1, .fault, false, false⟩)), .loop (.step .none)],
    sendSteps none 4]

/-- The same of a plain connection, whose output loop takes a second event to empty the queue. -/
def plainStallRun : List (Action Unit) :=
  List.flatten [oneQueuedRun, [.loop (.step (.write ⟨1, .fault, false, true⟩)),
    .loop (.step (.write ⟨-1, .wouldBlock, true, false⟩))], writableSteps, [.loop (.step .none)],
    sendSteps none 4]

set_option maxRecDepth 10000 in
/-- The second message sits in the queue of a writable socket: no edge is pending and the last write was
accepted; in the plain class the refusal it was queued behind has had its edge. -/
theorem queued_output_stalls :
    (∃ s, run (step sslConfig) (Conn.init Unit false false true fun _ => 0) sslStallRun = some s ∧
      s.atRest = true ∧ s.io.kernel.isOpen = true ∧ s.io.outputBuffers.length = 1 ∧
      s.io.kernel.edge = false ∧ s.io.kernel.lastRefused = false) ∧
    ∃ s, run (step plainConfig) (Conn.init Unit false false false fun _ => 0) plainStallRun
        = some s ∧ s.atRest = true ∧ s.io.kernel.isOpen = true ∧ s.io.outputBuffers.length = 1 ∧
      s.io.kernel.edge = false ∧ s.io.kernel.space.edge = false :=
  ⟨⟨_, rfl, by decide, rfl, by decide, rfl, rfl⟩, ⟨_, rfl, by decide, rfl, by decide, rfl, rfl⟩⟩

end KwNet.Tcp
