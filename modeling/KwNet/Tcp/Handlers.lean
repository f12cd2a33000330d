import KwNet.Tcp.Model

/-!
# What the event handlers do to the rest of the machine

The handlers of a connection (`handle_ep_in`, `handle_ep_out`, `finish_in_out`, `handle_ep_rdhup`,
`handle_ep_err`, the channel's dispatch) work on the output queue, the channel and the socket.  Seen
from the state word they are quiet: they neither change it nor wake its waiters, they queue no message,
and the only activations they start are user code, further handlers and `handle_ep_hup` at its entry.

* `Io.Same` — the loop's data with the TLS session and the socket still as they were;
* **`handlerStep_move`** — every step of a handler is a `HandlerMove`.
-/

namespace KwNet.Tcp

/-! ### Neither closing the socket nor freeing the session -/

/-- The session, the descriptor and the callbacks are as before, and so is the registration of a
descriptor that is closed. -/
structure Io.Same (io io' : Io) : Prop where
  ssl : io'.ssl = io.ssl
  isOpen : io'.kernel.isOpen = io.kernel.isOpen
  callbacks : io'.channel.callbacks = io.channel.callbacks
  interest : io.kernel.isOpen = false → io'.kernel.interest = io.kernel.interest

theorem Io.Same.refl (io : Io) : io.Same io := ⟨rfl, rfl, rfl, fun _ => rfl⟩

theorem Io.Same.trans {io io' io'' : Io} (h : io.Same io') (h' : io'.Same io'') : io.Same io'' :=
  ⟨h'.ssl.trans h.ssl, h'.isOpen.trans h.isOpen, h'.callbacks.trans h.callbacks,
    fun hc => (h'.interest (h.isOpen.trans hc)).trans (h.interest hc)⟩

/-- What is neither session, channel nor kernel does not matter. -/
theorem Io.Same.congr {io io' io'' : Io} (h : io.Same io') (hssl : io''.ssl = io'.ssl)
    (hchannel : io''.channel = io'.channel) (hkernel : io''.kernel = io'.kernel) : io.Same io'' :=
  ⟨hssl.trans h.ssl, by rw [hkernel]; exact h.isOpen, by rw [hchannel]; exact h.callbacks,
    by rw [hkernel]; exact h.interest⟩

theorem Kernel.ctl_isOpen (k : Kernel) (op : CtlOp) (ev : Interest) :
    (k.ctl op ev).isOpen = k.isOpen := by
  unfold Kernel.ctl
  split
  · cases op <;> rfl
  · rfl

theorem Kernel.ctl_closed {k : Kernel} (h : k.isOpen = false) (op : CtlOp) (ev : Interest) :
    k.ctl op ev = k := by
  unfold Kernel.ctl
  rw [h]
  rfl

theorem Kernel.write_isOpen (k : Kernel) (o : WriteOutcome) :
    (k.write o).isOpen = k.isOpen ∧ (k.write o).interest = k.interest := by
  unfold Kernel.write
  split
  · split <;> exact ⟨rfl, rfl⟩
  · exact ⟨rfl, rfl⟩

theorem Channel.updateChannel_isOpen (c : Channel) (k : Kernel) :
    (c.updateChannel k).2.isOpen = k.isOpen := by
  unfold Channel.updateChannel
  split
  · exact k.ctl_isOpen _ _
  · split <;> exact k.ctl_isOpen _ _

theorem Channel.updateChannel_closed (c : Channel) {k : Kernel} (h : k.isOpen = false) :
    (c.updateChannel k).2 = k := by
  have hctl : ∀ op ev, k.ctl op ev = k := Kernel.ctl_closed h
  unfold Channel.updateChannel
  rw [hctl, hctl, hctl]
  split
  · rfl
  · split <;> rfl

theorem Channel.updateChannel_callbacks (c : Channel) (k : Kernel) :
    (c.updateChannel k).1.callbacks = c.callbacks := by
  unfold Channel.updateChannel
  split
  · rfl
  · split <;> rfl

/-- `EnableRead`, `EnableWrite`, … change the registration only. -/
theorem Io.same_update (io : Io) (c : Channel) (hc : c.callbacks = io.channel.callbacks) :
    io.Same (io.setChannel (c.updateChannel io.kernel)) :=
  ⟨rfl, c.updateChannel_isOpen io.kernel, (c.updateChannel_callbacks io.kernel).trans hc,
    fun h => congrArg Kernel.interest (c.updateChannel_closed h)⟩

theorem Io.same_write (io : Io) (o : WriteOutcome) :
    io.Same { io with kernel := io.kernel.write o } :=
  ⟨rfl, (io.kernel.write_isOpen o).1, rfl, fun _ => (io.kernel.write_isOpen o).2⟩

/-! ### Quiet effects -/

/-- Nothing is posted, or no frame is on top. -/
theorem forall_none {α : Type} {P : α → Prop} : ∀ a, (none : Option α) = some a → P a := by
  rintro a ⟨⟩

/-- A functor that only runs a callback of the user: it carries no work of the connection. -/
def Functor.isNotice : Functor → Bool
  | .writeComplete | .highWaterMark _ | .task => true
  | _ => false

/-- User code, an event handler, or `handle_ep_hup` before its first access. -/
def Frame.isHandler : Frame → Bool
  | .user | .hup .load | .handler _ => true
  | _ => false

/-- The events of the output side. -/
def Event.isOutput : Event → Bool
  | .handed _ _ | .shutdownWrite => true
  | _ => false

/-- The effect leaves the state word alone, wakes nobody, arms no timer, posts notices only and keeps
socket and session. -/
structure Effect.Quiet (w : Word) (io : Io) (e : Effect) : Prop where
  word : e.word = w
  wake : e.wake = false
  timers : e.timers = 0
  posted : ∀ f, e.posted = some f → f.isNotice = true
  same : io.Same e.io

/-- The effect of a handler's step: it also adds nothing to an empty output queue. -/
structure HandlerMove (w : Word) (io : Io) (e : Effect) : Prop extends Effect.Quiet w io e where
  frames : e.frames.all Frame.isHandler = true
  events : e.events.all Event.isOutput = true
  out : io.outputBuffers = [] → e.io.outputBuffers = []

variable {cfg : Config} {w : Word} {io io' : Io}

theorem Effect.Quiet.goto (h : io.Same io') (fs : List Frame) : (Effect.goto w io' fs).Quiet w io :=
  ⟨rfl, rfl, rfl, forall_none, h⟩

theorem HandlerMove.goto {fs : List Frame} (h : io.Same io')
    (hout : io.outputBuffers = [] → io'.outputBuffers = []) (hf : fs.all Frame.isHandler = true) :
    HandlerMove w io (Effect.goto w io' fs) :=
  ⟨.goto h fs, hf, rfl, hout⟩

/-- Only the stack changes. -/
theorem HandlerMove.stay {fs : List Frame} (hf : fs.all Frame.isHandler = true) :
    HandlerMove w io (Effect.goto w io fs) :=
  .goto (.refl io) id hf

theorem HandlerMove.update {fs : List Frame} (c : Channel) (hc : c.callbacks = io.channel.callbacks)
    (hf : fs.all Frame.isHandler = true) :
    HandlerMove w io (Effect.goto w (io.setChannel (c.updateChannel io.kernel)) fs) :=
  .goto (io.same_update c hc) id hf

theorem HandlerMove.withEvents {e : Effect} (h : HandlerMove w io e) {evs : List Event}
    (hev : evs.all Event.isOutput = true) : HandlerMove w io { e with events := evs } :=
  ⟨⟨h.word, h.wake, h.timers, h.posted, h.same⟩, h.frames, hev, h.out⟩

theorem HandlerMove.after {e : Effect} (h : HandlerMove w io' e) (hio : io.Same io')
    (hout : io.outputBuffers = [] → io'.outputBuffers = []) : HandlerMove w io e :=
  ⟨⟨h.word, h.wake, h.timers, h.posted, hio.trans h.same⟩, h.frames, h.events,
    fun h₀ => h.out (hout h₀)⟩

theorem writeComplete_notice (f : Functor) (h : cfg.writeComplete = some f) :
    f.isNotice = true := by
  unfold Config.writeComplete at h
  split at h <;> cases h
  rfl

theorem messageCallback_isHandler (n : ℕ) : (messageCallback n).all Frame.isHandler = true := by
  unfold messageCallback
  split <;> rfl

theorem DrainMode.stop_isHandler (mode : DrainMode) : mode.stop.all Frame.isHandler = true := by
  cases mode <;> rfl

theorem handleEvent_isHandler (m : Mask) : (handleEvent io m).all Frame.isHandler = true := by
  have hif : ∀ (b : Bool) (pc : HandlerPc),
      (if b then [Frame.handler pc] else []).all Frame.isHandler = true := by
    intro b pc
    cases b <;> rfl
  unfold handleEvent
  dsimp only
  split
  · exact hif _ _
  · split
    · rw [List.all_append, hif]
      rfl
    · split
      · rw [List.all_append, hif]
        rfl
      · rw [List.all_append, hif, hif]
        rfl

/-! ### The output loops -/

theorem popFront_move (mode : DrainMode) : HandlerMove w io (popFront cfg w io mode) := by
  unfold popFront
  split
  · split <;> exact .stay rfl
  · refine ⟨⟨rfl, rfl, rfl, writeComplete_notice, Io.Same.congr (.refl io) rfl rfl rfl⟩, rfl, rfl, fun h => ?_⟩
    show io.outputBuffers.tail = []
    rw [h]
    rfl

theorem drainStep_move (mode : DrainMode) : HandlerMove w io (drainStep cfg w io mode) := by
  unfold drainStep
  split
  · split
    · exact .stay (by split <;> rfl)
    · exact .stay rfl
  · split
    · exact .stay rfl
    · split
      · exact popFront_move mode
      · exact .stay rfl

theorem drainWriteStep_move (mode : DrainMode) (left : ℤ) (b : OutBuf) (bs : List OutBuf)
    (o : WriteOutcome) (hb : io.outputBuffers = b :: bs) :
    HandlerMove w io (drainWriteStep cfg w io mode left b bs o) := by
  have hev : [Event.handed b.turn io.kernel.isOpen].all Event.isOutput = true := rfl
  have hstop := mode.stop_isHandler
  have hhup : (Frame.hup .load :: mode.stop).all Frame.isHandler = true := by
    rw [List.all_cons, hstop]
    rfl
  have hne : ∀ out : List OutBuf, io.outputBuffers = [] → out = [] := by
    intro out h
    rw [hb] at h
    cases h
  have hwrite := io.same_write o
  have hfront : ∀ out : List OutBuf,
      io.Same { io with kernel := io.kernel.write o, outputBuffers := out } := fun _ =>
    hwrite.congr rfl rfl rfl
  have hupdate : ∀ c : Channel, c.callbacks = io.channel.callbacks →
      io.Same (Io.setChannel { io with kernel := io.kernel.write o }
        (c.updateChannel (io.kernel.write o))) := fun c hc =>
    hwrite.trans (Io.same_update { io with kernel := io.kernel.write o } c hc)
  unfold drainWriteStep
  dsimp only
  split
  · split
    · exact ⟨⟨rfl, rfl, rfl, forall_none, hwrite⟩, rfl, hev, hne _⟩
    · split
      · exact HandlerMove.withEvents (.goto (hfront _) (hne _) rfl) hev
      · split
        · exact HandlerMove.withEvents ((popFront_move mode).after (hfront _) (hne _)) hev
        · exact HandlerMove.withEvents (.goto (hfront _) (hne _) rfl) hev
  · split
    · exact HandlerMove.withEvents (.goto hwrite (hne _) hstop) hev
    · exact HandlerMove.withEvents (.goto hwrite (hne _) rfl) hev
    · split <;> exact HandlerMove.withEvents (.goto hwrite (hne _) rfl) hev
    · refine HandlerMove.withEvents (.goto ?_ (hne _) hstop) hev
      split
      · exact hwrite
      · split
        · exact hwrite
        · exact hupdate _ rfl
    · exact HandlerMove.withEvents (.goto (hupdate _ (by rfl)) (hne _) hstop) hev
    · exact HandlerMove.withEvents (.goto hwrite (hne _) hhup) hev

/-! ### The read loops -/

theorem epInStep_move (n : ℕ) (r : ReadOutcome) : HandlerMove w io (epInStep cfg w io n r) := by
  have hcb := messageCallback_isHandler n
  cases r with
  | bytes k => exact .stay rfl
  | eof =>
    refine .stay ?_
    rw [List.all_append, hcb]
    rfl
  | wouldBlock => exact .stay hcb
  | interrupted =>
    cases hk : cfg.kind <;> simp only [epInStep, hk] <;> exact .stay rfl
  | wantWrite =>
    cases hk : cfg.kind <;> simp only [epInStep, hk]
    · exact .stay rfl
    · exact .update _ rfl hcb
  | fault => exact .stay rfl

theorem finishReadStep_move (n : ℕ) (r : ReadOutcome) :
    HandlerMove w io (finishReadStep cfg w io n r) := by
  cases r with
  | eof =>
    refine .stay ?_
    rw [List.all_append, messageCallback_isHandler n]
    rfl
  | interrupted =>
    cases hk : cfg.kind <;> simp only [finishReadStep, hk] <;> exact .stay rfl
  | _ => exact .stay rfl

/-- **Handlers are quiet.** -/
theorem handlerStep_move {pc : HandlerPc} {inp : Input} {e : Effect}
    (h : handlerStep cfg w io pc inp = some e) : HandlerMove w io e := by
  have htail : io.outputBuffers = [] → io.outputBuffers.tail = [] := by
    intro h
    rw [h]
    rfl
  unfold handlerStep at h
  split at h
  case h_1 => cases h; exact .stay (handleEvent_isHandler _)
  case h_5 => cases h; exact epInStep_move _ _
  case h_7 =>
    split at h <;> cases h
    · exact .update _ rfl rfl
    · exact .stay rfl
  case h_8 => cases h; exact drainStep_move _
  case h_9 =>
    split at h
    · cases h
    · next b bs hb =>
      split at h <;> cases h
      exact drainWriteStep_move _ _ b bs _ hb
  case h_11 =>
    cases h
    exact ⟨⟨rfl, rfl, rfl, forall_none, Io.Same.congr (.refl io) rfl rfl rfl⟩, rfl, rfl, fun _ => rfl⟩
  case h_12 => cases h; exact finishReadStep_move _ _
  case h_14 => cases h; exact .goto (Io.Same.congr (.refl io) rfl rfl rfl) htail rfl
  case h_18 => cases h; exact .goto (Io.Same.congr (.refl io) rfl rfl rfl) id rfl
  case h_21 =>
    cases h
    split
    · exact .stay rfl
    · exact .update _ rfl rfl
  case h_22 =>
    split at h <;> cases h
    · have hsame := io.same_update { io.channel with listen := { io.channel.listen with read := false } } rfl
      exact .goto (hsame.congr rfl rfl rfl) id rfl
    · exact .stay rfl
  all_goals first
    | (cases h; done)
    | (cases h; exact .stay (by split <;> rfl))
    | (split at h <;> cases h <;> exact .stay rfl)

end KwNet.Tcp
