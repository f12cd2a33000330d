import KwNet.Tcp.Phases

/-!
# The order of messages on the wire

`sendInLoop` writes directly when nothing is queued and otherwise puts its message at the front of
`outputBuffers_`; the output loops of `handle_ep_out` and `finish_in_out` take from the front as well.
One message under back-pressure is safe.  With two of them the queue turns into a stack: the later
message is handed over first.

* `backlog` — the queued messages with bytes left;
* `OrderInv` — at most one message has bytes left, and nothing is handed over past it;
* **`handed_in_order`** — messages are handed over in the order of their `sendInLoop` calls in every run
  in which no `sendInLoop` starts while an earlier message has bytes queued.
-/

namespace KwNet.Tcp

open KwNet.Lib

variable {ι : Type} {cfg : Config} {w : Word} {io : Io}

/-- The number of queued messages with bytes left. -/
def backlog (out : List OutBuf) : ℕ := out.countP fun b => b.buf.readableBytes != 0

theorem backlog_eq_zero {out : List OutBuf} (h : backlog out = 0) :
    ∀ b ∈ out, b.buf.readableBytes = 0 := by
  intro b hb
  simpa using List.countP_eq_zero.mp h b hb

theorem backlog_tail_le (out : List OutBuf) : backlog out.tail ≤ backlog out :=
  List.Sublist.countP_le (List.tail_sublist out)

theorem backlog_cons_le (b : OutBuf) (bs : List OutBuf) : backlog (b :: bs) ≤ backlog bs + 1 := by
  unfold backlog
  rw [List.countP_cons]
  split <;> omega

/-- A front message with bytes is the only one. -/
theorem backlog_behind {b : OutBuf} {bs : List OutBuf} (h : backlog (b :: bs) ≤ 1)
    (hb : b.buf.readableBytes ≠ 0) : backlog bs = 0 := by
  unfold backlog at h ⊢
  rw [List.countP_cons_of_pos (by simpa using hb)] at h
  omega

/-! ### What the frame on top relies on -/

/-- An output loop about to write its front buffer. -/
def Frame.isDrainWrite : Frame → Bool
  | .handler (.drainWrite _ _) => true
  | _ => false

/-- A frame on its way to `write` with everything before its message handed over. -/
def Frame.Orderly (out : List OutBuf) : Frame → Prop
  | .sendInLoop (.write _ _ _) _ _ | .sendInLoop (.queue _ _ _ _) _ _ => backlog out = 0
  | .handler (.drainWrite _ _) => backlog out.tail = 0
  | _ => True

/-- What one step of a frame keeps. -/
structure FrameOrder (e : Effect) : Prop where
  backlog : backlog e.io.outputBuffers ≤ 1
  top : ∀ f, e.frames.head? = some f → f.Orderly e.io.outputBuffers
  tail : e.frames.tail.all (!·.isDrainWrite) = true

theorem Frame.orderly_of_not_isDrainWrite {f : Frame} {out : List OutBuf} (h : f.isHandler = true)
    (hf : f.isDrainWrite = false) : f.Orderly out := by
  unfold Frame.Orderly
  split <;> trivial

theorem FrameOrder.goto {io' : Io} {fs : List Frame} (hout : KwNet.Tcp.backlog io'.outputBuffers ≤ 1)
    (htop : ∀ f, fs.head? = some f → f.Orderly io'.outputBuffers)
    (htail : fs.tail.all (!·.isDrainWrite) = true) : FrameOrder (Effect.goto w io' fs) :=
  ⟨hout, htop, htail⟩

/-- Handlers on top of handlers, none of them about to write. -/
theorem FrameOrder.idle {io' : Io} {fs : List Frame} (hout : KwNet.Tcp.backlog io'.outputBuffers ≤ 1)
    (hh : fs.all Frame.isHandler = true) (hd : fs.all (!·.isDrainWrite) = true) :
    FrameOrder (Effect.goto w io' fs) := by
  refine .goto hout (fun f hf => ?_) (tail_all hd)
  have hmem := List.mem_of_head? hf
  refine Frame.orderly_of_not_isDrainWrite (List.all_eq_true.mp hh f hmem) ?_
  simpa using List.all_eq_true.mp hd f hmem

/-- Only the queue and the frames matter. -/
theorem FrameOrder.congr {e e' : Effect} (h : FrameOrder e)
    (hout : e'.io.outputBuffers = e.io.outputBuffers) (hf : e'.frames = e.frames) :
    FrameOrder e' := by
  refine ⟨?_, ?_, ?_⟩
  · rw [hout]; exact h.backlog
  · rw [hout, hf]; exact h.top
  · rw [hf]; exact h.tail

/-! ### `sendInLoop` -/

theorem sendEpilogue_order {old : Word} {job : Job} {copy : Option (List UInt8)}
    (h : backlog io.outputBuffers ≤ 1) : FrameOrder (sendEpilogue w io old job copy) := by
  unfold sendEpilogue
  split
  · exact ⟨h, forall_none, rfl⟩
  · split
    · exact ⟨h, forall_none, rfl⟩
    · split
      · exact ⟨h, by rintro f ⟨⟩; trivial, rfl⟩
      · exact ⟨h, forall_none, rfl⟩

theorem sendWrite_order {old : Word} {turn remaining : ℕ} {job : Job} {copy : Option (List UInt8)}
    {o : WriteOutcome} (h : backlog io.outputBuffers = 0) :
    FrameOrder (sendWrite cfg w io old turn remaining job copy o) := by
  have hle : backlog io.outputBuffers ≤ 1 := by omega
  have hepi : ∀ io' : Io, io'.outputBuffers = io.outputBuffers →
      FrameOrder (sendEpilogue w io' old job copy) := fun io' hio =>
    sendEpilogue_order (by rw [hio]; exact hle)
  unfold sendWrite
  dsimp only
  split
  · split
    · exact (hepi { io with kernel := io.kernel.write o } rfl).congr rfl rfl
    · exact ⟨hle, by rintro f ⟨⟩; exact h, rfl⟩
  · split
    · exact ⟨hle, by rintro f ⟨⟩; exact h, rfl⟩
    · exact ⟨hle, by rintro f ⟨⟩; exact h, rfl⟩
    · exact ⟨hle, by rintro f ⟨⟩; exact h, rfl⟩
    · exact (hepi { io with kernel := io.kernel.write o } rfl).congr rfl rfl

theorem sendQueue_order {old : Word} {turn remaining : ℕ} {nwrote : ℤ} {job : Job}
    {copy : Option (List UInt8)} (h : backlog io.outputBuffers = 0) :
    FrameOrder (sendQueue cfg w io old turn nwrote remaining job copy) := by
  have hcons : ∀ b, backlog (b :: io.outputBuffers) ≤ 1 := by
    intro b
    have hle := backlog_cons_le b io.outputBuffers
    omega
  unfold sendQueue
  dsimp only
  split
  · exact ⟨Nat.le_trans (Nat.le_of_eq h) (Nat.zero_le 1), forall_none, rfl⟩
  · next buf _ =>
    refine FrameOrder.congr (sendEpilogue_order ?_) rfl rfl
    split <;> exact hcons ⟨turn, buf⟩

theorem sendLoopStep_order {job : Job} {copy : Option (List UInt8)} {pc : SendLoopPc} {inp : Input}
    {e : Effect} (hle : backlog io.outputBuffers ≤ 1)
    (hpc : (Frame.sendInLoop pc job copy).Orderly io.outputBuffers)
    (hload : pc = .load → job.size ≠ 0 → backlog io.outputBuffers = 0)
    (h : sendLoopStep cfg w io job copy pc inp = some e) : FrameOrder e := by
  cases pc with
  | load =>
    simp only [sendLoopStep, Option.some.injEq] at h
    subst h
    refine FrameOrder.congr (e := if !io.channel.isWriting && io.outputBuffers.isEmpty && job.size != 0
      then _ else if job.size != 0 then _ else _) ?_ rfl rfl
    split
    · next hc =>
      have hsize : job.size ≠ 0 := by
        rw [Bool.and_eq_true] at hc
        simpa using hc.2
      exact .goto hle (by rintro f ⟨⟩; exact hload rfl hsize) rfl
    · split
      · next hc => exact .goto hle (by rintro f ⟨⟩; exact hload rfl (by simpa using hc)) rfl
      · exact sendEpilogue_order hle
  | write old turn remaining =>
    cases inp with
    | write o =>
      simp only [sendLoopStep] at h
      split at h <;> cases h
      exact sendWrite_order hpc
    | _ => cases h
  | queue old turn nwrote remaining =>
    cases h
    exact sendQueue_order hpc
  | cas old =>
    cases sendLoopStep_move h with
    | last => exact ⟨hle, by rintro f ⟨⟩; trivial, rfl⟩
    | release => exact ⟨hle, forall_none, rfl⟩
    | casFailed => exact ⟨hle, forall_none, rfl⟩
  | clear old =>
    cases sendLoopStep_move h with
    | clear => exact ⟨hle, by rintro f ⟨⟩; trivial, rfl⟩
    | clearFailed => exact ⟨hle, forall_none, rfl⟩
  | wake =>
    cases h
    exact ⟨hle, forall_none, rfl⟩

/-! ### The output loops -/

theorem popFront_order (mode : DrainMode) (h : backlog io.outputBuffers ≤ 1) :
    FrameOrder (popFront cfg w io mode) := by
  unfold popFront
  dsimp only
  split
  · split <;> exact .idle h rfl rfl
  · exact ⟨Nat.le_trans (backlog_tail_le _) h, by rintro f ⟨⟩; trivial, rfl⟩

theorem leftOf_ne_zero {b : Memory.Buffer} (h : leftOf cfg b ≠ 0) : b.readableBytes ≠ 0 := by
  intro hz
  rw [leftOf, hz] at h
  cases hk : cfg.kind <;> rw [hk] at h <;> exact h (by decide)

theorem drainStep_order (mode : DrainMode) (h : backlog io.outputBuffers ≤ 1) :
    FrameOrder (drainStep cfg w io mode) := by
  unfold drainStep
  split
  · split
    · split <;> exact .idle h rfl rfl
    · exact .idle h rfl rfl
  · next b bs hb =>
    split
    · next hleft =>
      refine .goto h ?_ rfl
      rintro f ⟨⟩
      show backlog io.outputBuffers.tail = 0
      rw [hb] at h ⊢
      exact backlog_behind h (leftOf_ne_zero hleft)
    · split
      · exact popFront_order mode h
      · exact .idle h rfl rfl

theorem drainWriteStep_order (mode : DrainMode) (left : ℤ) (b : OutBuf) (bs : List OutBuf)
    (o : WriteOutcome) (hb : io.outputBuffers = b :: bs) (h : backlog bs = 0) :
    FrameOrder (drainWriteStep cfg w io mode left b bs o) := by
  have hcons : ∀ b', backlog (b' :: bs) ≤ 1 := by
    intro b'
    have hle := backlog_cons_le b' bs
    omega
  have hle : backlog io.outputBuffers ≤ 1 := hb ▸ hcons b
  have hstop : mode.stop.all (!·.isDrainWrite) = true := by cases mode <;> rfl
  have htail : backlog io.outputBuffers.tail = 0 := by rw [hb]; exact h
  have hidle : FrameOrder (Effect.goto w io mode.stop) := .idle hle mode.stop_isHandler hstop
  unfold drainWriteStep
  dsimp only
  split
  · split
    · exact ⟨hle, forall_none, rfl⟩
    · split
      · exact ⟨hcons _, by rintro f ⟨⟩; exact h, rfl⟩
      · split
        · exact (popFront_order mode (hcons _)).congr rfl rfl
        · exact ⟨hcons _, by rintro f ⟨⟩; exact h, rfl⟩
  · split
    · exact hidle.congr rfl rfl
    · exact ⟨hle, by rintro f ⟨⟩; exact htail, rfl⟩
    · split <;> exact ⟨hle, by rintro f ⟨⟩; trivial, rfl⟩
    · refine hidle.congr ?_ rfl
      show Io.outputBuffers _ = io.outputBuffers
      split
      · rfl
      · split <;> rfl
    · exact hidle.congr rfl rfl
    · exact ⟨hle, by rintro f ⟨⟩; trivial, hstop⟩

/-! ### All frames -/

theorem messageCallback_order (n : ℕ) : (messageCallback n).all (!·.isDrainWrite) = true := by
  unfold messageCallback
  split <;> rfl

theorem handleEvent_order (m : Mask) : (handleEvent io m).all (!·.isDrainWrite) = true := by
  have hif : ∀ (b : Bool) (pc : HandlerPc), (Frame.handler pc).isDrainWrite = false →
      (if b then [Frame.handler pc] else []).all (!·.isDrainWrite) = true := by
    intro b pc hpc
    cases b
    · rfl
    · simp [hpc]
  unfold handleEvent
  dsimp only
  split
  · exact hif _ _ rfl
  · split
    · rw [List.all_append, hif _ _ rfl]
      rfl
    · split
      · rw [List.all_append, hif _ _ rfl]
        rfl
      · rw [List.all_append, hif _ _ rfl, hif _ _ rfl]
        rfl

theorem epInStep_order (n : ℕ) (r : ReadOutcome) :
    (epInStep cfg w io n r).frames.all (!·.isDrainWrite) = true ∧
      (epInStep cfg w io n r).io.outputBuffers = io.outputBuffers := by
  have hcb := messageCallback_order n
  cases r with
  | bytes k => exact ⟨rfl, rfl⟩
  | eof => exact ⟨by simp only [epInStep, Effect.goto, List.all_append, hcb]; rfl, rfl⟩
  | wouldBlock => exact ⟨hcb, rfl⟩
  | interrupted =>
    cases hk : cfg.kind <;> simp only [epInStep, hk] <;> exact ⟨rfl, rfl⟩
  | wantWrite =>
    cases hk : cfg.kind <;> simp only [epInStep, hk]
    · exact ⟨rfl, rfl⟩
    · exact ⟨hcb, rfl⟩
  | fault => exact ⟨rfl, rfl⟩

theorem finishReadStep_order (n : ℕ) (r : ReadOutcome) :
    (finishReadStep cfg w io n r).frames.all (!·.isDrainWrite) = true ∧
      (finishReadStep cfg w io n r).io.outputBuffers = io.outputBuffers := by
  cases r with
  | eof =>
    exact ⟨by simp only [finishReadStep, Effect.goto, List.all_append, messageCallback_order n]; rfl,
      rfl⟩
  | interrupted =>
    cases hk : cfg.kind <;> simp only [finishReadStep, hk] <;> exact ⟨rfl, rfl⟩
  | _ => exact ⟨rfl, rfl⟩

theorem handlerStep_order {pc : HandlerPc} {inp : Input} {e : Effect}
    (hle : backlog io.outputBuffers ≤ 1) (hpc : (Frame.handler pc).Orderly io.outputBuffers)
    (h : handlerStep cfg w io pc inp = some e) : FrameOrder e := by
  have hm := handlerStep_move h
  -- handlers that leave the queue alone and are not about to write
  have hidle : e.frames.all (!·.isDrainWrite) = true ∧ e.io.outputBuffers = io.outputBuffers →
      FrameOrder e := by
    intro he
    refine FrameOrder.congr (e := Effect.goto w e.io e.frames) (.idle ?_ hm.frames he.1) rfl rfl
    rw [he.2]
    exact hle
  unfold handlerStep at h
  split at h
  case h_1 => cases h; exact hidle ⟨handleEvent_order _, rfl⟩
  case h_5 => cases h; exact hidle (epInStep_order _ _)
  case h_7 => split at h <;> cases h <;> exact hidle ⟨rfl, rfl⟩
  case h_8 => cases h; exact drainStep_order _ hle
  case h_9 =>
    split at h
    · cases h
    · next b bs hb =>
      split at h <;> cases h
      have htail : backlog io.outputBuffers.tail = 0 := hpc
      rw [hb] at htail
      exact drainWriteStep_order _ _ b bs _ hb htail
  case h_11 => cases h; exact ⟨Nat.zero_le 1, forall_none, rfl⟩
  case h_12 => cases h; exact hidle (finishReadStep_order _ _)
  case h_14 =>
    cases h
    exact ⟨Nat.le_trans (backlog_tail_le _) hle, forall_none, rfl⟩
  case h_21 =>
    cases h
    exact hidle ⟨rfl, by dsimp only [Effect.goto]; split <;> rfl⟩
  case h_22 => split at h <;> cases h <;> exact hidle ⟨rfl, rfl⟩
  all_goals first
    | (cases h; done)
    | (cases h; exact hidle ⟨by dsimp only [Effect.goto]; (try split) <;> rfl, rfl⟩)
    | (split at h <;> cases h <;> exact hidle ⟨rfl, rfl⟩)

theorem Next.frames_order (next : Next) (k : Cont) (out : List OutBuf) :
    (∀ f, (next.frames k).head? = some f → f.Orderly out) ∧
      (next.frames k).tail.all (!·.isDrainWrite) = true := by
  constructor
  · intro f hf
    cases next <;> cases k <;> cases hf <;> trivial
  · cases next <;> cases k <;> rfl

theorem frameStep_order {f : Frame} {inp : Input} {e : Effect}
    (hle : backlog io.outputBuffers ≤ 1) (hf : f.Orderly io.outputBuffers)
    (hload : ∀ job copy, f = .sendInLoop .load job copy → job.size ≠ 0 →
      backlog io.outputBuffers = 0)
    (h : frameStep cfg w io f inp = some e) : FrameOrder e := by
  cases f with
  | user => cases h
  | call c k =>
    obtain ⟨ce, -, rfl⟩ := Option.map_eq_some_iff.mp h
    obtain ⟨htop, htail⟩ := ce.next.frames_order k io.outputBuffers
    exact ⟨hle, htop, htail⟩
  | sendInLoop pc job copy =>
    exact sendLoopStep_order hle hf (fun hpc => hload job copy (by rw [hpc])) h
  | shutdownInLoop =>
    cases h
    exact ⟨hle, forall_none, rfl⟩
  | hup pc =>
    cases h
    have htop : ∀ {fs : List Frame}, (fs = [] ∨ ∃ g rest, fs = g :: rest ∧ g.Orderly io.outputBuffers) →
        ∀ f, fs.head? = some f → f.Orderly io.outputBuffers := by
      rintro fs (rfl | ⟨g, rest, rfl, hg⟩) f hf
      · cases hf
      · cases hf
        exact hg
    cases pc <;> simp only [hupStep] <;> (repeat' split) <;>
      exact ⟨hle, htop (by first | exact .inl rfl | exact .inr ⟨_, _, rfl, trivial⟩), rfl⟩
  | delay pc =>
    cases h
    cases pc with
    | store => exact ⟨hle, forall_none, rfl⟩
    | isConnected =>
      simp only [delayStep]
      split <;> exact ⟨hle, by rintro f ⟨⟩; trivial, rfl⟩
    | isDisconnecting =>
      simp only [delayStep]
      split
      · exact ⟨hle, by rintro f ⟨⟩; trivial, rfl⟩
      · exact ⟨hle, forall_none, rfl⟩
  | handler pc => exact handlerStep_order hle hf h

/-! ### The invariant -/

variable {s s' : Conn ι}

/-- At most one queued message has bytes left, and it is in front when the loop thread writes. -/
structure OrderInv (s : Conn ι) : Prop where
  backlog : backlog s.io.outputBuffers ≤ 1
  top : ∀ f, s.loop.head? = some f → f.Orderly s.io.outputBuffers
  tail : s.loop.tail.all (!·.isDrainWrite) = true

/-- The step starts the `sendInLoop` of a message while an earlier one has bytes queued. -/
def Conn.queuesBehind (s : Conn ι) : Action ι → Bool
  | .loop (.step _) =>
    match s.loop with
    | .sendInLoop .load job _ :: _ => job.size != 0 && backlog s.io.outputBuffers != 0
    | _ => false
  | _ => false

theorem Frame.orderly_of_suspended {f : Frame} {kind : Kind} {out : List OutBuf}
    (h : f.suspended kind = true) (hf : f.isDrainWrite = false) : f.Orderly out := by
  unfold Frame.suspended at h
  split at h
  · trivial
  · exact Frame.orderly_of_not_isDrainWrite h hf

theorem Frame.wake_orderly {f : Frame} {out : List OutBuf} (h : f.Orderly out) :
    f.wake.Orderly out := by
  unfold Frame.wake
  split
  · trivial
  · trivial
  · exact h

theorem Frame.wake_isDrainWrite (f : Frame) : f.wake.isDrainWrite = f.isDrainWrite := by
  unfold Frame.wake
  split <;> rfl

theorem Frame.orderly_of_isEntry {f : Frame} {out : List OutBuf} (h : f.isEntry = true) :
    f.Orderly out := by
  unfold Frame.isEntry at h
  split at h <;> trivial

theorem Frame.isDrainWrite_of_isEntry {f : Frame} (h : f.isEntry = true) :
    f.isDrainWrite = false := by
  unfold Frame.isEntry at h
  split at h <;> first | rfl | cases h

theorem OrderInv.apply {f : Frame} {rest : List Frame} {e : Effect} (h : OrderInv s)
    (hp : PhaseInv cfg s) (hl : s.loop = f :: rest) (he : FrameOrder e) :
    OrderInv (s.apply rest e) := by
  have hrest : rest.all (!·.isDrainWrite) = true := by
    have htail := h.tail
    rw [hl] at htail
    exact htail
  have hsusp : rest.all (Frame.suspended cfg.kind) = true := by
    have htail := hp.tail
    rw [hl] at htail
    exact htail
  refine ⟨he.backlog, fun g hg => ?_, ?_⟩
  · have hg' : (e.frames ++ rest).head? = some g := hg
    cases hfs : e.frames with
    | nil =>
      rw [hfs, List.nil_append] at hg'
      have hmem := List.mem_of_head? hg'
      exact Frame.orderly_of_suspended (List.all_eq_true.mp hsusp g hmem)
        (by simpa using List.all_eq_true.mp hrest g hmem)
    | cons f' fs =>
      rw [hfs] at hg'
      exact he.top g (by rw [hfs]; exact hg')
  · show (e.frames ++ rest).tail.all _ = true
    cases hfs : e.frames with
    | nil => exact tail_all hrest
    | cons f' fs =>
      have htail := he.tail
      rw [hfs] at htail
      rw [List.cons_append, List.tail_cons, List.all_append, hrest, Bool.and_true]
      exact htail

variable [DecidableEq ι]

theorem OrderInv.afterCall {t : ι} {e : CallEffect} (h : OrderInv s) : OrderInv (s.afterCall t e) := by
  unfold Conn.afterCall
  dsimp only
  split
  · refine ⟨h.backlog, fun f hf => ?_, ?_⟩
    · have hf' : (s.loop.map Frame.wake).head? = some f := hf
      rw [List.head?_map] at hf'
      obtain ⟨g, hg, rfl⟩ := Option.map_eq_some_iff.mp hf'
      exact Frame.wake_orderly (h.top g hg)
    · show (s.loop.map Frame.wake).tail.all _ = true
      rw [← List.map_tail, List.all_map]
      refine List.all_eq_true.mpr fun g hg => ?_
      simp only [Function.comp_apply, Frame.wake_isDrainWrite]
      exact List.all_eq_true.mp h.tail g hg
  · exact ⟨h.backlog, h.top, h.tail⟩

omit [DecidableEq ι] in
/-- Below the top there is nothing about to write. -/
theorem OrderInv.orderly_mem {f : Frame} (h : OrderInv s) (hp : PhaseInv cfg s) (hf : f ∈ s.loop) :
    f.Orderly s.io.outputBuffers := by
  have htop := h.top
  have htail := h.tail
  have hsusp := hp.tail
  cases hl : s.loop with
  | nil =>
    rw [hl] at hf
    cases hf
  | cons g rest =>
    rw [hl] at hf htop htail hsusp
    rcases List.mem_cons.mp hf with rfl | hf
    · exact htop f rfl
    · exact Frame.orderly_of_suspended (List.all_eq_true.mp hsusp f hf)
        (by simpa using List.all_eq_true.mp htail f hf)

variable [Fintype ι]

omit [DecidableEq ι] in
theorem OrderInv.admin {a : Action ι} (h : OrderInv s) (hp : PhaseInv cfg s)
    (hadmin : Admin s a s') : OrderInv s' := by
  refine ⟨by rw [hadmin.out]; exact h.backlog, fun f hf => ?_, ?_⟩
  · rw [hadmin.out]
    exact (hadmin.loop f (List.mem_of_head? hf)).elim (h.orderly_mem hp)
      fun hentry => Frame.orderly_of_isEntry hentry.1
  · -- an output loop about to write is left alone
    by_cases hd : s.loop.head?.any Frame.isDrainWrite = true
    · cases hl : s.loop with
      | nil =>
        rw [hl] at hd
        cases hd
      | cons f rest =>
        rw [hl] at hd
        have hf : f.isDrainWrite = true := hd
        have hstay : s'.loop = s.loop := by
          refine hadmin.stay f rest hl ?_ ?_
          · rintro rfl
            cases hf
          · unfold Frame.isDrainWrite at hf
            split at hf
            · rfl
            · cases hf
        rw [hstay]
        exact h.tail
    · refine tail_all (List.all_eq_true.mpr fun f hf => ?_)
      rcases hadmin.loop f hf with hold | ⟨hentry, -⟩
      · cases hl : s.loop with
        | nil =>
          rw [hl] at hold
          cases hold
        | cons g rest =>
          have htail := h.tail
          rw [hl] at hold htail hd
          rcases List.mem_cons.mp hold with rfl | hold
          · simpa using hd
          · exact List.all_eq_true.mp htail f hold
      · simp only [Frame.isDrainWrite_of_isEntry hentry, Bool.not_false]

/-- **Order is kept by every step** that starts no `sendInLoop` behind a message with bytes left. -/
theorem OrderInv.step {a : Action ι} (h : OrderInv s) (hp : PhaseInv cfg s)
    (hq : s.queuesBehind a = false) (hs : Tcp.step cfg s a = some s') : OrderInv s' := by
  rcases step_kinds hs with ⟨t, c, e, rfl, ht, he, rfl⟩ | ⟨inp, f, rest, e, rfl, hl, he, rfl⟩ |
    ⟨t, f, rfl, ht, rfl⟩ | hadmin
  · exact h.afterCall
  · refine h.apply hp hl (frameStep_order h.backlog (h.top f (by rw [hl]; rfl)) ?_ he)
    rintro job copy rfl hsize
    rw [Conn.queuesBehind, hl] at hq
    simpa [hsize] using hq
  · exact ⟨h.backlog, h.top, h.tail⟩
  · exact h.admin hp hadmin

/-! ### What is handed over -/

/-- The turn whose bytes the loop thread is about to pass to `write` or `SSL_write`. -/
def Conn.handing (s : Conn ι) : Option ℕ :=
  match s.loop, s.io.outputBuffers with
  | .sendInLoop (.write _ turn _) _ _ :: _, _ => some turn
  | .handler (.drainWrite _ _) :: _, b :: _ => some b.turn
  | _, _ => none

/-- Some message of an earlier turn than the one about to be handed over has bytes queued. -/
def Conn.overtakes (s : Conn ι) : Bool :=
  s.handing.any fun turn =>
    s.io.outputBuffers.any fun b => decide (b.turn < turn) && b.buf.readableBytes != 0

omit [Fintype ι] [DecidableEq ι] in
theorem OrderInv.not_overtakes (h : OrderInv s) : s.overtakes = false := by
  unfold Conn.overtakes Conn.handing
  split
  · next old turn remaining job copy rest hl =>
    have htop := h.top (.sendInLoop (.write old turn remaining) job copy) (by rw [hl]; rfl)
    have hzero := backlog_eq_zero htop
    simp only [Option.any_some]
    refine List.any_eq_false.mpr fun b hb => ?_
    simp [hzero b hb]
  · next mode left rest b bs hl hout =>
    have htop := h.top (.handler (.drainWrite mode left)) (by rw [hl]; rfl)
    have hzero := backlog_eq_zero htop
    rw [hout, List.tail_cons] at hzero
    simp only [Option.any_some]
    refine List.any_eq_false.mpr fun b' hb' => ?_
    rw [hout] at hb'
    rcases List.mem_cons.mp hb' with rfl | hb'
    · simp
    · simp [hzero b' hb']
  · rfl

/-- **Messages are handed over in the order of their `sendInLoop` calls** in every run in which no
`sendInLoop` of a message starts while an earlier one has bytes queued: whenever the loop thread is
about to pass bytes of one turn to `write` or `SSL_write`, no byte of an earlier turn is in
`outputBuffers_`. -/
theorem handed_in_order (cfg : Config) (rdhupPhrase isIoChannel ssl : Bool) (mem : ℤ → UInt8)
    (as : List (Action ι)) (s : Conn ι)
    (hkeep : Along (step cfg) (fun t a => t.queuesBehind a = false)
      (Conn.init ι rdhupPhrase isIoChannel ssl mem) as)
    (h : run (step cfg) (Conn.init ι rdhupPhrase isIoChannel ssl mem) as = some s) :
    s.overtakes = false := by
  have hinv := run_induction_along (fun t a => t.queuesBehind a = false)
    (fun t : Conn ι => PhaseInv cfg t ∧ OrderInv t)
    ⟨phaseInv_init cfg _ _ _ _, Nat.zero_le 1, by rintro f ⟨⟩; trivial, rfl⟩
    (fun _ _ _ hi hP hs => ⟨hi.1.step hs, hi.2.step hi.1 hP hs⟩) hkeep h
  exact hinv.2.not_overtakes

/-- A send through `sendInLoop` whose direct write, if it makes one, gets the answer `o`. -/
def sendSteps (o : Option WriteOutcome) (epilogue : ℕ) : List (Action Unit) :=
  List.flatten [[.invoke () (.send .piece 0 1), .move (), .move (), .move (), .move (), .loop .functor,
    .loop (.step .none)], o.toList.map fun o => .loop (.step (.write o)),
    List.replicate epilogue (.loop (.step .none))]

/-- A writable event, up to the first write of the output loop. -/
def writableSteps : List (Action Unit) :=
  [.space, .loop (.poll ⟨false, false, false, false, true⟩), .loop .dispatch, .loop (.step .none),
    .loop (.step .none), .loop (.step .none), .loop (.step .none)]

/-- One message under back-pressure, about to be written again. -/
def oneQueuedRun : List (Action Unit) :=
  List.flatten [[.loop .ret], sendSteps (some ⟨-1, .wouldBlock, true, false⟩) 4, writableSteps]

theorem handed_in_order_one_queued :
    ∃ s, run (step plainConfig) (Conn.init Unit false false false fun _ => 0) oneQueuedRun
        = some s ∧ s.handing = some 0 ∧ s.overtakes = false :=
  have hrun : run (step plainConfig) (Conn.init Unit false false false fun _ => 0) oneQueuedRun
      = some _ := rfl
  ⟨_, hrun, by decide,
    handed_in_order plainConfig false false false (fun _ => 0) oneQueuedRun _ (by decide) hrun⟩

/-- Two messages under back-pressure. -/
def twoQueuedRun : List (Action Unit) :=
  List.flatten [[.loop .ret], sendSteps (some ⟨-1, .wouldBlock, true, false⟩) 4, sendSteps none 4,
    writableSteps]

set_option maxRecDepth 10000 in
/-- The second message is handed over while the first one is still queued, with either class. -/
theorem later_message_first :
    (∃ s, run (step plainConfig) (Conn.init Unit false false false fun _ => 0) twoQueuedRun
        = some s ∧ s.handing = some 1 ∧ s.overtakes = true) ∧
    ∃ s, run (step sslConfig) (Conn.init Unit false false true fun _ => 0) twoQueuedRun = some s ∧
      s.handing = some 1 ∧ s.overtakes = true :=
  ⟨⟨_, rfl, by decide, by decide⟩, ⟨_, rfl, by decide, by decide⟩⟩

end KwNet.Tcp
