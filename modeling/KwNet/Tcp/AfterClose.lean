import KwNet.Tcp.Unused

/-!
# Writes after the close

`handle_ep_hup` closes the descriptor, but the channel keeps its number, and a `sendInLoop` still in
`pendingFunctors` does not look at the state word before it writes.  So a message admitted before the
close is written to whatever the number belongs to by then.  The same happens to an output loop that
waits below `handle_ep_hup` on the stack, because a callback has closed the connection.

What keeps a closed connection silent is that one of two things is missing.  Behind queued bytes a late
`sendInLoop` queues, so only an output loop could write; with an empty queue an output loop has nothing
to write, so only a late `sendInLoop` could.

* `Frame.mayWrite` — the activations that can get to `write` from a queue with bytes in it;
* `Conn.exposes` — the two steps that go wrong;
* `Conn.Silent` — a closed connection from which neither can get to `write`;
* **`no_write_after_close`** — in every run without such a step nothing is written after the close.
-/

namespace KwNet.Tcp

open KwNet.Lib

variable {ι : Type} {cfg : Config} {w : Word} {io : Io} {p : Phase}

/-! ### Who can get to `write` -/

/-- The event makes the channel call a handler that writes. -/
def Mask.mayWrite (callbacks : Bool) (m : Mask) : Bool := callbacks && (m.epout || m.rdhup)

/-- The handler can get to `write`, or take from the output queue. -/
def HandlerPc.mayWrite (callbacks : Bool) : HandlerPc → Bool
  | .event m => m.mayWrite callbacks
  | .eventOut | .eventRdhup => callbacks
  | .epOut | .drain _ | .drainWrite _ _ | .finishPop => true
  | .rdhup | .rdhupAwait _ | .rdhupBlocked | .finishRead _ => true
  | .eventHup | .epIn _ | .drainClear | .rdhupEnd | .epErr => false
  | .startReadInLoop | .stopReadInLoop => false

def Frame.mayWrite (callbacks : Bool) : Frame → Bool
  | .handler pc => pc.mayWrite callbacks
  | .sendInLoop (.write _ _ _) _ _ => true
  | _ => false

/-- Bytes passed to `write` or `SSL_write`. -/
def Event.isHanded : Event → Bool
  | .handed _ _ => true
  | _ => false

/-- Frames that cannot get to `write`. -/
def Shy (callbacks : Bool) (fs : List Frame) : Prop := ∀ f ∈ fs, f.mayWrite callbacks = false

theorem shy_nil {cb : Bool} : Shy cb [] := List.forall_mem_nil _

theorem Shy.append {cb : Bool} {fs gs : List Frame} (hf : Shy cb fs) (hg : Shy cb gs) :
    Shy cb (fs ++ gs) := fun f h => (List.mem_append.mp h).elim (hf f) (hg f)

theorem shy_if {cb b : Bool} {f : Frame} (h : b = true → f.mayWrite cb = false) :
    Shy cb (if b then [f] else []) := by
  intro g hg
  cases b with
  | false => cases hg
  | true => exact List.mem_singleton.mp hg ▸ h rfl

theorem shy_messageCallback (cb : Bool) (n : ℕ) : Shy cb (messageCallback n) := by
  unfold messageCallback
  split
  · intro g hg
    exact List.mem_singleton.mp hg ▸ rfl
  · exact shy_nil

theorem shy_singleton {cb : Bool} {f : Frame} (h : f.mayWrite cb = false) : Shy cb [f] := by
  intro g hg
  exact List.mem_singleton.mp hg ▸ h

theorem handleEvent_shy {m : Mask} (h : m.mayWrite io.channel.callbacks = false) :
    Shy io.channel.callbacks (handleEvent io m) := by
  have hout : m.epout = true → (Frame.handler .eventOut).mayWrite io.channel.callbacks = false := by
    intro hm
    rw [Mask.mayWrite, hm, Bool.true_or, Bool.and_true] at h
    exact h
  have hfirst : ∀ b : Bool, (b && m.epout) = true →
      (Frame.handler .eventOut).mayWrite io.channel.callbacks = false := fun b hb =>
    hout (Bool.and_eq_true _ _ ▸ hb).2
  unfold handleEvent
  dsimp only
  split
  · exact shy_if fun _ => rfl
  · split
    · exact (shy_if (hfirst _)).append (shy_singleton rfl)
    · split
      · next hr =>
        refine (shy_if (hfirst _)).append (shy_singleton ?_)
        rw [Mask.mayWrite, hr, Bool.or_true, Bool.and_true] at h
        exact h
      · exact (shy_if fun _ => rfl).append (shy_if hout)

/-- What a handler that cannot write does to the output side: nothing, unless it fails. -/
theorem handlerStep_shy {pc : HandlerPc} {inp : Input} {e : Effect}
    (hpc : pc.mayWrite io.channel.callbacks = false) (h : handlerStep cfg w io pc inp = some e) :
    Shy io.channel.callbacks e.frames ∧
      (e.io.outputBuffers = io.outputBuffers ∨ e.crash = true) ∧ e.events = [] := by
  cases pc with
  | event m =>
    cases h
    exact ⟨handleEvent_shy hpc, .inl rfl, rfl⟩
  | eventHup =>
    cases h
    exact ⟨shy_if fun _ => rfl, .inl rfl, rfl⟩
  | eventOut =>
    cases h
    refine ⟨shy_if fun hcb => ?_, .inl rfl, rfl⟩
    exact absurd (hpc.symm.trans hcb) Bool.false_ne_true
  | eventRdhup =>
    cases h
    refine ⟨shy_if fun hcb => ?_, .inl rfl, rfl⟩
    exact absurd (hpc.symm.trans hcb) Bool.false_ne_true
  | epIn n =>
    cases inp with
    | read r =>
      cases h
      have hcb := shy_messageCallback io.channel.callbacks n
      have hhup : Shy io.channel.callbacks [.hup .load] := shy_singleton rfl
      cases r with
      | bytes k => exact ⟨shy_singleton rfl, .inl rfl, rfl⟩
      | eof => exact ⟨hcb.append hhup, .inl rfl, rfl⟩
      | wouldBlock => exact ⟨hcb, .inl rfl, rfl⟩
      | fault => exact ⟨hhup, .inl rfl, rfl⟩
      | interrupted =>
        cases hk : cfg.kind <;> simp only [epInStep, hk]
        · exact ⟨shy_singleton rfl, .inl rfl, rfl⟩
        · exact ⟨hhup, .inl rfl, rfl⟩
      | wantWrite =>
        cases hk : cfg.kind <;> simp only [epInStep, hk]
        · exact ⟨hhup, .inl rfl, rfl⟩
        · exact ⟨hcb, .inl rfl, rfl⟩
    | _ => cases h
  | drainClear =>
    cases h
    exact ⟨shy_nil, .inr rfl, rfl⟩
  | rdhupEnd =>
    cases h
    exact ⟨shy_nil, .inl rfl, rfl⟩
  | epErr =>
    cases inp with
    | sockErr isError =>
      cases h
      exact ⟨shy_if fun _ => rfl, .inl rfl, rfl⟩
    | _ => cases h
  | startReadInLoop =>
    cases h
    refine ⟨shy_nil, .inl ?_, rfl⟩
    dsimp only [Effect.goto]
    split <;> rfl
  | stopReadInLoop =>
    simp only [handlerStep] at h
    split at h <;> cases h <;> exact ⟨shy_nil, .inl rfl, rfl⟩
  | _ => cases hpc

/-! ### With bytes queued -/

theorem sendEpilogue_shy (old : Word) (job : Job) (copy : Option (List UInt8)) (cb : Bool) :
    Shy cb (sendEpilogue w io old job copy).frames ∧
      (sendEpilogue w io old job copy).events.all (!·.isHanded) = true := by
  unfold sendEpilogue
  split
  · exact ⟨shy_nil, rfl⟩
  · split
    · exact ⟨shy_nil, rfl⟩
    · split
      · exact ⟨shy_singleton rfl, rfl⟩
      · exact ⟨shy_nil, rfl⟩

/-- Behind queued bytes `sendInLoop` queues. -/
theorem sendLoopStep_shy {job : Job} {copy : Option (List UInt8)} {pc : SendLoopPc} {inp : Input}
    {e : Effect} {cb : Bool} (hout : io.outputBuffers ≠ [])
    (hpc : (Frame.sendInLoop pc job copy).mayWrite cb = false)
    (h : sendLoopStep cfg w io job copy pc inp = some e) :
    Shy cb e.frames ∧ e.io.outputBuffers ≠ [] ∧ e.events.all (!·.isHanded) = true := by
  cases pc with
  | load =>
    have hempty : io.outputBuffers.isEmpty = false := by
      simpa [List.isEmpty_iff] using hout
    simp only [sendLoopStep, hempty, Bool.and_false, Bool.false_and, Bool.false_eq_true, if_false,
      Option.some.injEq] at h
    subst h
    split
    · exact ⟨shy_singleton rfl, hout, rfl⟩
    · obtain ⟨hshy, hev⟩ := sendEpilogue_shy w job copy cb
      exact ⟨hshy, by rw [sendEpilogue_io]; exact hout, hev⟩
  | write old turn remaining => cases hpc
  | queue old turn nwrote remaining =>
    cases h
    unfold sendQueue
    dsimp only
    split
    · exact ⟨shy_nil, hout, rfl⟩
    · obtain ⟨hshy, hev⟩ := sendEpilogue_shy old job copy cb
      refine ⟨hshy, ?_, hev⟩
      rw [sendEpilogue_io]
      split <;> exact List.cons_ne_nil _ _
  | cas old =>
    cases sendLoopStep_move h with
    | last => exact ⟨shy_singleton rfl, hout, rfl⟩
    | release => exact ⟨shy_nil, hout, rfl⟩
    | casFailed => exact ⟨shy_nil, hout, rfl⟩
  | clear old =>
    cases sendLoopStep_move h with
    | clear => exact ⟨shy_singleton rfl, hout, rfl⟩
    | clearFailed => exact ⟨shy_nil, hout, rfl⟩
  | wake =>
    cases h
    exact ⟨shy_nil, hout, rfl⟩

theorem Next.events_not_handed (next : Next) : next.events.all (!·.isHanded) = true := by
  cases next <;> rfl

theorem Next.frames_shy (next : Next) (k : Cont) (cb : Bool) : Shy cb (next.frames k) := by
  intro g hg
  have hk : Shy cb k.frames := by
    cases k
    · exact shy_nil
    · exact shy_singleton rfl
    · exact shy_singleton rfl
  cases next with
  | goto c => exact List.mem_singleton.mp hg ▸ rfl
  | refuse job why => exact hk g hg
  | admits job => exact (List.mem_cons.mp hg).elim (fun h => h ▸ rfl) (hk g)
  | ret => exact hk g hg
  | win => exact (List.mem_cons.mp hg).elim (fun h => h ▸ rfl) (hk g)

/-- With bytes queued, a frame that cannot get to `write` starts none that can. -/
theorem frameStep_shy {f : Frame} {inp : Input} {e : Effect} (hout : io.outputBuffers ≠ [])
    (hf : f.mayWrite io.channel.callbacks = false) (h : frameStep cfg w io f inp = some e) :
    Shy io.channel.callbacks e.frames ∧ (e.io.outputBuffers ≠ [] ∨ e.crash = true) ∧
      e.events.all (!·.isHanded) = true := by
  cases f with
  | user => cases h
  | call c k =>
    obtain ⟨ce, -, rfl⟩ := Option.map_eq_some_iff.mp h
    exact ⟨ce.next.frames_shy k _, .inl hout, ce.next.events_not_handed⟩
  | sendInLoop pc job copy =>
    obtain ⟨hshy, hout', hev⟩ := sendLoopStep_shy hout hf h
    exact ⟨hshy, .inl hout', hev⟩
  | shutdownInLoop =>
    cases h
    exact ⟨shy_nil, .inl hout, rfl⟩
  | hup pc =>
    cases h
    refine ⟨fun g hg => ?_, .inl ?_, ?_⟩
    · cases pc <;> simp only [hupStep] at hg <;> (repeat' split at hg) <;>
        simp only [Effect.goto, List.mem_cons, List.not_mem_nil, or_false] at hg <;>
        first | (rw [hg]; rfl) | (rcases hg with hg | hg <;> rw [hg] <;> rfl)
    · cases pc <;> simp only [hupStep] <;> (repeat' split) <;> exact hout
    · cases pc <;> simp only [hupStep] <;> (repeat' split) <;> rfl
  | delay pc =>
    cases h
    refine ⟨fun g hg => ?_, .inl ?_, ?_⟩
    · cases pc <;> simp only [delayStep] at hg <;> (repeat' split at hg) <;>
        simp only [Effect.goto, List.mem_cons, List.not_mem_nil, or_false] at hg <;> rw [hg] <;> rfl
    · cases pc <;> simp only [delayStep] <;> (repeat' split) <;> exact hout
    · cases pc <;> simp only [delayStep] <;> (repeat' split) <;> rfl
  | handler pc =>
    obtain ⟨hshy, hout', hev⟩ := handlerStep_shy hf h
    exact ⟨hshy, hout'.imp (fun heq => by rw [heq]; exact hout) id, by rw [hev]; rfl⟩

/-! ### With an empty queue -/

/-- A `sendInLoop` on its way to `write` or to the queue. -/
def Frame.carries : Frame → Bool
  | .sendInLoop (.write _ _ _) _ _ | .sendInLoop (.queue _ _ _ _) _ _ => true
  | _ => false

theorem Frame.carries_of_isHandler {f : Frame} (h : f.isHandler = true) : f.carries = false := by
  cases f <;> first | rfl | cases h

theorem Frame.carries_of_suspended {f : Frame} {kind : Kind} (h : f.suspended kind = true) :
    f.carries = false := by
  unfold Frame.suspended at h
  split at h
  · rfl
  · exact Frame.carries_of_isHandler h

theorem drainStep_events (mode : DrainMode) : (drainStep cfg w io mode).events = [] := by
  unfold drainStep popFront
  repeat' split
  all_goals rfl

theorem drainWriteStep_events (mode : DrainMode) (left : ℤ) (b : OutBuf) (bs : List OutBuf)
    (o : WriteOutcome) :
    (drainWriteStep cfg w io mode left b bs o).events = [.handed b.turn io.kernel.isOpen] := by
  unfold drainWriteStep
  dsimp only
  repeat' split
  all_goals rfl

/-- The handlers write in the output loops only, from the front of the queue. -/
theorem handlerStep_events {pc : HandlerPc} {inp : Input} {e : Effect}
    (h : handlerStep cfg w io pc inp = some e) :
    e.events = [] ∨ ∃ b bs, io.outputBuffers = b :: bs ∧
      e.events = [.handed b.turn io.kernel.isOpen] := by
  unfold handlerStep at h
  split at h
  case h_5 _ r =>
    cases h
    left
    cases r <;> cases hk : cfg.kind <;> simp only [epInStep, hk] <;> rfl
  case h_8 mode =>
    cases h
    exact .inl (drainStep_events mode)
  case h_9 =>
    split at h
    · cases h
    · next b bs hb =>
      split at h <;> cases h
      exact .inr ⟨b, bs, hb, drainWriteStep_events _ _ b bs _⟩
  case h_12 _ r =>
    cases h
    left
    cases r <;> cases hk : cfg.kind <;> simp only [finishReadStep, hk] <;> rfl
  all_goals first
    | (cases h; done)
    | (cases h; exact .inl rfl)
    | (split at h <;> cases h <;> exact .inl rfl)

theorem Next.frames_carries (next : Next) (k : Cont) : ∀ g ∈ next.frames k, g.carries = false := by
  intro g hg
  have hk : ∀ g ∈ k.frames, g.carries = false := by
    cases k <;> simp [Cont.frames, Frame.carries]
  cases next with
  | goto c => exact List.mem_singleton.mp hg ▸ rfl
  | refuse job why => exact hk g hg
  | admits job => exact (List.mem_cons.mp hg).elim (fun h => h ▸ rfl) (hk g)
  | ret => exact hk g hg
  | win => exact (List.mem_cons.mp hg).elim (fun h => h ▸ rfl) (hk g)

theorem sendEpilogue_carries (old : Word) (job : Job) (copy : Option (List UInt8)) :
    ∀ g ∈ (sendEpilogue w io old job copy).frames, g.carries = false := by
  unfold sendEpilogue
  split
  · exact List.forall_mem_nil _
  · split
    · exact List.forall_mem_nil _
    · split
      · exact fun g hg => List.mem_singleton.mp hg ▸ rfl
      · exact List.forall_mem_nil _

theorem sendLoopStep_empty {job : Job} {copy : Option (List UInt8)} {pc : SendLoopPc} {inp : Input}
    {e : Effect} (hout : io.outputBuffers = []) (hpc : (Frame.sendInLoop pc job copy).carries = false)
    (hload : pc = .load → job.size = 0) (h : sendLoopStep cfg w io job copy pc inp = some e) :
    e.io.outputBuffers = [] ∧ (∀ g ∈ e.frames, g.carries = false) ∧
      e.events.all (!·.isHanded) = true := by
  have hone : ∀ {f : Frame}, f.carries = false → ∀ g ∈ [f], g.carries = false := by
    intro f hf g hg
    exact List.mem_singleton.mp hg ▸ hf
  cases pc with
  | load =>
    simp only [sendLoopStep, hload rfl, bne_self_eq_false, Bool.and_false, Bool.false_eq_true,
      if_false, Option.some.injEq] at h
    subst h
    exact ⟨by rw [sendEpilogue_io]; exact hout, sendEpilogue_carries w job copy,
      (sendEpilogue_shy w job copy false).2⟩
  | write old turn remaining => cases hpc
  | queue old turn nwrote remaining => cases hpc
  | cas old =>
    cases sendLoopStep_move h with
    | last => exact ⟨hout, hone rfl, rfl⟩
    | release => exact ⟨hout, List.forall_mem_nil _, rfl⟩
    | casFailed => exact ⟨hout, List.forall_mem_nil _, rfl⟩
  | clear old =>
    cases sendLoopStep_move h with
    | clear => exact ⟨hout, hone rfl, rfl⟩
    | clearFailed => exact ⟨hout, List.forall_mem_nil _, rfl⟩
  | wake =>
    cases h
    exact ⟨hout, List.forall_mem_nil _, rfl⟩

/-- With an empty queue, a frame that carries no message keeps the queue empty. -/
theorem frameStep_empty {f : Frame} {inp : Input} {e : Effect} (hout : io.outputBuffers = [])
    (hf : f.carries = false)
    (hload : ∀ job copy, f = .sendInLoop .load job copy → job.size = 0)
    (h : frameStep cfg w io f inp = some e) :
    e.io.outputBuffers = [] ∧ (∀ g ∈ e.frames, g.carries = false) ∧
      e.events.all (!·.isHanded) = true := by
  cases f with
  | user => cases h
  | call c k =>
    obtain ⟨ce, -, rfl⟩ := Option.map_eq_some_iff.mp h
    exact ⟨hout, ce.next.frames_carries k, ce.next.events_not_handed⟩
  | sendInLoop pc job copy =>
    exact sendLoopStep_empty hout hf (fun hpc => hload job copy (by rw [hpc])) h
  | shutdownInLoop =>
    cases h
    exact ⟨hout, List.forall_mem_nil _, rfl⟩
  | hup pc =>
    cases h
    refine ⟨?_, ?_, ?_⟩
    · cases pc <;> simp only [hupStep] <;> (repeat' split) <;> exact hout
    · cases pc <;> simp only [hupStep] <;> (repeat' split) <;> simp [Effect.goto, Frame.carries]
    · cases pc <;> simp only [hupStep] <;> (repeat' split) <;> rfl
  | delay pc =>
    cases h
    refine ⟨?_, ?_, ?_⟩
    · cases pc <;> simp only [delayStep] <;> (repeat' split) <;> exact hout
    · cases pc <;> simp only [delayStep] <;> (repeat' split) <;> simp [Effect.goto, Frame.carries]
    · cases pc <;> simp only [delayStep] <;> (repeat' split) <;> rfl
  | handler pc =>
    have hm := handlerStep_move h
    refine ⟨hm.out hout, fun g hg => ?_, ?_⟩
    · exact Frame.carries_of_isHandler (List.all_eq_true.mp hm.frames g hg)
    · rcases handlerStep_events h with hev | ⟨b, bs, hb, -⟩
      · rw [hev]
        rfl
      · rw [hout] at hb
        cases hb

/-! ### The descriptor -/

/-- Only `socket_->close()` closes the descriptor and, in the plain class, takes the callbacks away. -/
theorem frameStep_descriptor {f : Frame} {inp : Input} {e : Effect} (hf : f ≠ .hup .close)
    (h : frameStep cfg w io f inp = some e) :
    e.io.kernel.isOpen = io.kernel.isOpen ∧ e.io.channel.callbacks = io.channel.callbacks ∧
      (io.kernel.isOpen = false → e.io.kernel.interest = io.kernel.interest) := by
  have hsame : ∀ {io' : Io}, io.Same io' → io'.kernel.isOpen = io.kernel.isOpen ∧
      io'.channel.callbacks = io.channel.callbacks ∧
      (io.kernel.isOpen = false → io'.kernel.interest = io.kernel.interest) := fun hs =>
    ⟨hs.isOpen, hs.callbacks, hs.interest⟩
  have hrefl := hsame (.refl io)
  cases f with
  | user => cases h
  | call c k =>
    obtain ⟨ce, -, rfl⟩ := Option.map_eq_some_iff.mp h
    exact hrefl
  | sendInLoop pc job copy =>
    cases sendLoopStep_move h with
    | load hm => exact hsame hm.same
    | write hm => exact hsame hm.same
    | queue hm => exact hsame hm.same
    | _ => exact hrefl
  | shutdownInLoop =>
    cases h
    exact hrefl
  | hup pc =>
    cases h
    cases pc with
    | close => exact absurd rfl hf
    | _ => simp only [hupStep]; (repeat' split) <;> exact hrefl
  | delay pc =>
    cases h
    cases pc <;> simp only [delayStep] <;> (repeat' split) <;> exact hrefl
  | handler pc => exact hsame (handlerStep_move h).same

/-- Whether the channel still calls the connection after the close: the plain class resets its
callbacks. -/
def Config.keepsCallbacks (cfg : Config) (io : Io) : Bool :=
  match cfg.kind with
  | .plain => false
  | .ssl => io.channel.callbacks

theorem hupClose_descriptor (cfg : Config) (w : Word) (io : Io) :
    (hupStep cfg w io .close).io.kernel.interest = none ∧
      (hupStep cfg w io .close).io.channel.callbacks = cfg.keepsCallbacks io ∧
      (hupStep cfg w io .close).io.outputBuffers = io.outputBuffers ∧
      (hupStep cfg w io .close).events = [.socketClose] := by
  unfold Config.keepsCallbacks
  cases hk : cfg.kind <;> simp only [hupStep, hk]
  · exact ⟨rfl, rfl, rfl, trivial⟩
  · exact ⟨rfl, Channel.updateChannel_callbacks _ _, rfl, trivial⟩

/-- Bytes passed to `write` or `SSL_write` after the close. -/
def Event.isLate : Event → Bool
  | .handed _ isOpen => !isOpen
  | _ => false

theorem not_late_of_not_handed {evs : List Event} (h : evs.all (!·.isHanded) = true) :
    ∀ ev ∈ evs, ev.isLate = false := by
  intro ev hev
  have hev' := List.all_eq_true.mp h ev hev
  cases ev <;> first | rfl | cases hev'

theorem SendMove.not_late {old : Word} {job : Job} {copy : Option (List UInt8)} {pre : List Event}
    {e : Effect} (h : SendMove w old io job copy pre e) (hpre : ∀ ev ∈ pre, ev.isLate = false) :
    ∀ ev ∈ e.events, ev.isLate = false := by
  obtain ⟨evs, hev, hmid⟩ := h.mid
  rw [hev]
  intro ev hmem
  rcases List.mem_append.mp hmem with hmem | hmem
  · exact hpre ev hmem
  · generalize e.frames = fs at hmid
    cases hmid <;> first | exact List.mem_singleton.mp hmem ▸ rfl | cases hmem

/-- While the descriptor is open no write is late. -/
theorem frameStep_not_late {f : Frame} {inp : Input} {e : Effect} (hopen : io.kernel.isOpen = true)
    (h : frameStep cfg w io f inp = some e) : ∀ ev ∈ e.events, ev.isLate = false := by
  have hhanded : ∀ turn, ∀ ev ∈ [Event.handed turn io.kernel.isOpen], ev.isLate = false := by
    intro turn ev hev
    rw [List.mem_singleton.mp hev, Event.isLate, hopen]
    rfl
  cases f with
  | user => cases h
  | call c k =>
    obtain ⟨ce, -, rfl⟩ := Option.map_eq_some_iff.mp h
    exact not_late_of_not_handed ce.next.events_not_handed
  | sendInLoop pc job copy =>
    cases sendLoopStep_move h with
    | load hm => exact hm.not_late fun ev hev => List.mem_singleton.mp hev ▸ rfl
    | write hm => exact hm.not_late (hhanded _)
    | queue hm => exact hm.not_late (List.forall_mem_nil _)
    | last => exact List.forall_mem_nil _
    | clear => exact List.forall_mem_nil _
    | _ => exact fun ev hev => List.mem_singleton.mp hev ▸ rfl
  | shutdownInLoop =>
    cases h
    exact fun ev hev => List.mem_singleton.mp hev ▸ rfl
  | hup pc =>
    cases h
    refine not_late_of_not_handed ?_
    cases pc <;> simp only [hupStep] <;> (repeat' split) <;> rfl
  | delay pc =>
    cases h
    refine not_late_of_not_handed ?_
    cases pc <;> simp only [delayStep] <;> (repeat' split) <;> rfl
  | handler pc =>
    rcases handlerStep_events h with hev | ⟨b, bs, -, hev⟩
    · rw [hev]
      exact List.forall_mem_nil _
    · rw [hev]
      exact hhanded b.turn

/-! ### A silent connection -/

variable {s s' : Conn ι}

/-- The two steps that go wrong: `sendInLoop` starts on a message with the descriptor closed and
nothing queued, and `handle_ep_hup` closes the descriptor with bytes queued while an output loop, or
an event that would start one, is waiting. -/
def Conn.exposes (cfg : Config) (s : Conn ι) : Action ι → Bool
  | .loop (.step _) =>
    match s.loop with
    | .sendInLoop .load job _ :: _ =>
      !s.io.kernel.isOpen && s.io.outputBuffers.isEmpty && job.size != 0
    | .hup .close :: rest =>
      !s.io.outputBuffers.isEmpty && (rest.any (Frame.mayWrite (cfg.keepsCallbacks s.io)) ||
        s.ready.any (Mask.mayWrite (cfg.keepsCallbacks s.io)))
    | _ => false
  | _ => false

/-- Nothing that a closed connection still has to do gets to `write`. -/
structure Conn.Silent (s : Conn ι) : Prop where
  interest : s.io.kernel.interest = none
  calm : s.io.outputBuffers = [] ∧ (∀ f ∈ s.loop, f.carries = false) ∨
    s.io.outputBuffers ≠ [] ∧ Shy s.io.channel.callbacks s.loop ∧
      ∀ m, s.ready = some m → m.mayWrite s.io.channel.callbacks = false

theorem Frame.wake_carries (f : Frame) : f.wake.carries = f.carries := by
  unfold Frame.wake
  split <;> rfl

theorem Frame.wake_mayWrite (f : Frame) (cb : Bool) : f.wake.mayWrite cb = f.mayWrite cb := by
  unfold Frame.wake
  split <;> rfl

theorem Frame.carries_of_isEntry {f : Frame} (h : f.isEntry = true) : f.carries = false := by
  unfold Frame.isEntry at h
  split at h <;> first | rfl | cases h

theorem Frame.mayWrite_of_isEntry {f : Frame} {cb : Bool} (h : f.isEntry = true)
    (hpc : ∀ pc, f ≠ .handler pc) : f.mayWrite cb = false := by
  unfold Frame.isEntry at h
  split at h <;> first | rfl | exact absurd rfl (hpc _) | cases h

/-- The close itself: what was on the stack or reported cannot get to `write`. -/
theorem PhaseInv.silent_close {rest : List Frame} {inp : Input} (h : PhaseInv cfg s)
    (hl : s.loop = .hup .close :: rest) (hexp : s.exposes cfg (.loop (.step inp)) = false) :
    (s.apply rest (hupStep cfg s.word s.io .close)).Silent := by
  obtain ⟨hinterest, hcb, hout, -⟩ := hupClose_descriptor cfg s.word s.io
  have htail := h.tail
  rw [hl] at htail
  have htop : ∀ f ∈ (hupStep cfg s.word s.io .close).frames, f = .hup .store ∨ f = .hup .callback := by
    intro f hf
    simp only [hupStep] at hf
    split at hf
    · exact .inl (List.mem_singleton.mp hf)
    · exact .inr (List.mem_singleton.mp hf)
  refine ⟨hinterest, ?_⟩
  show (hupStep cfg s.word s.io .close).io.outputBuffers = [] ∧ _ ∨
    (hupStep cfg s.word s.io .close).io.outputBuffers ≠ [] ∧
      Shy (hupStep cfg s.word s.io .close).io.channel.callbacks _ ∧
      ∀ m, _ → Mask.mayWrite (hupStep cfg s.word s.io .close).io.channel.callbacks m = false
  rw [hout, hcb]
  by_cases hempty : s.io.outputBuffers = []
  · refine .inl ⟨hempty, fun f hf => ?_⟩
    rcases List.mem_append.mp hf with hf | hf
    · rcases htop f hf with rfl | rfl <;> rfl
    · exact Frame.carries_of_suspended (List.all_eq_true.mp htail f hf)
  · have hsome : s.io.outputBuffers.isEmpty = false := by simpa [List.isEmpty_iff] using hempty
    simp only [Conn.exposes, hl, hsome, Bool.not_false, Bool.true_and, Bool.or_eq_false_iff] at hexp
    refine .inr ⟨hempty, fun f hf => ?_, fun m hm => ?_⟩
    · rcases List.mem_append.mp hf with hf | hf
      · rcases htop f hf with rfl | rfl <;> rfl
      · exact Bool.eq_false_iff.mpr (List.any_eq_false.mp hexp.1 f hf)
    · have hm' : s.ready = some m := hm
      have hready := hexp.2
      rw [hm'] at hready
      exact hready

/-- A step of a frame other than the close. -/
theorem Conn.Silent.apply {f : Frame} {rest : List Frame} {inp : Input} {e : Effect} (h : s.Silent)
    (hclosed : s.io.kernel.isOpen = false) (hl : s.loop = f :: rest)
    (he : frameStep cfg s.word s.io f inp = some e) (hf : f ≠ .hup .close)
    (hexp : s.exposes cfg (.loop (.step inp)) = false) :
    (e.crash = false → (s.apply rest e).Silent) ∧ ∀ ev ∈ e.events, ev.isLate = false := by
  obtain ⟨-, hcb, hinterest⟩ := frameStep_descriptor hf he
  have hmem : f ∈ s.loop := by rw [hl]; exact List.mem_cons_self
  have hrest : ∀ g ∈ rest, g ∈ s.loop := by
    intro g hg
    rw [hl]
    exact List.mem_cons_of_mem f hg
  have hnone : (s.apply rest e).io.kernel.interest = none := (hinterest hclosed).trans h.interest
  rcases h.calm with ⟨hout, hcarry⟩ | ⟨hout, hshy, hready⟩
  · have hload : ∀ job copy, f = .sendInLoop .load job copy → job.size = 0 := by
      rintro job copy rfl
      simpa [Conn.exposes, hl, hclosed, hout] using hexp
    obtain ⟨hout', hcarry', hev⟩ := frameStep_empty hout (hcarry f hmem) hload he
    refine ⟨fun _ => ⟨hnone, .inl ⟨hout', fun g hg => ?_⟩⟩, not_late_of_not_handed hev⟩
    exact (List.mem_append.mp hg).elim (hcarry' g) fun hg => hcarry g (hrest g hg)
  · obtain ⟨hshy', hout', hev⟩ := frameStep_shy hout (hshy f hmem) he
    refine ⟨fun hcrash => ⟨hnone, .inr ⟨?_, ?_, ?_⟩⟩, not_late_of_not_handed hev⟩
    · exact hout'.resolve_right (by rw [hcrash]; exact Bool.false_ne_true)
    · show Shy e.io.channel.callbacks (e.frames ++ rest)
      rw [hcb]
      exact hshy'.append fun g hg => hshy g (hrest g hg)
    · intro m hm
      show m.mayWrite e.io.channel.callbacks = false
      rw [hcb]
      exact hready m hm

theorem Conn.Silent.afterCall [DecidableEq ι] (h : s.Silent) (t : ι) (e : CallEffect) :
    (s.afterCall t e).Silent := by
  unfold Conn.afterCall
  dsimp only
  split
  · refine ⟨h.interest, h.calm.imp (fun hc => ⟨hc.1, fun f hf => ?_⟩) fun hc => ⟨hc.1, fun f hf => ?_, hc.2.2⟩⟩
    · obtain ⟨g, hg, rfl⟩ := List.mem_map.mp hf
      rw [Frame.wake_carries]
      exact hc.2 g hg
    · obtain ⟨g, hg, rfl⟩ := List.mem_map.mp hf
      rw [Frame.wake_mayWrite]
      exact hc.2.1 g hg
  · exact ⟨h.interest, h.calm⟩

/-- No event is reported for a closed descriptor, so nothing that writes is started. -/
theorem Conn.Silent.admin [Fintype ι] {a : Action ι} (h : s.Silent) (ha : Admin s a s') :
    s'.Silent := by
  have hready : ∀ m, s'.ready = some m → s.ready = some m := by
    intro m hm
    refine (ha.ready m hm).resolve_right ?_
    rw [h.interest]
    exact Bool.false_ne_true
  refine ⟨ha.interest.trans h.interest, ?_⟩
  rw [ha.out, ha.channel]
  refine h.calm.imp (fun hc => ⟨hc.1, fun f hf => ?_⟩) fun hc => ⟨hc.1, fun f hf => ?_, fun m hm => hc.2.2 m (hready m hm)⟩
  · exact (ha.loop f hf).elim (hc.2 f) fun hentry => Frame.carries_of_isEntry hentry.1
  · rcases ha.loop f hf with hf | ⟨hentry, hstart⟩
    · exact hc.2.1 f hf
    · cases f with
      | handler pc =>
        rcases hstart pc rfl with ⟨m, hm, rfl⟩ | rfl | rfl | hblocked
        · exact hc.2.2 m hm
        · rfl
        · rfl
        · cases hc.2.1 _ hblocked
      | _ => exact Frame.mayWrite_of_isEntry hentry (by rintro _ ⟨⟩)

/-! ### Runs -/

variable [Fintype ι] [DecidableEq ι]

/-- Nothing was written after the close, and a closed connection is silent. -/
structure SilentInv (cfg : Config) (s : Conn ι) : Prop extends PhaseInv cfg s where
  log : ∀ ev ∈ s.log, ev.isLate = false
  silent : s.crashed = false → s.io.kernel.isOpen = false → s.Silent

/-- **The silence is kept by every step** that does not expose the descriptor. -/
theorem SilentInv.step {a : Action ι} (h : SilentInv cfg s)
    (hexp : s.exposes cfg a = false) (hs : Tcp.step cfg s a = some s') : SilentInv cfg s' := by
  have hp' := h.toPhaseInv.step hs
  have happend : ∀ evs : List Event, (∀ ev ∈ evs, ev.isLate = false) →
      ∀ ev ∈ s.log ++ evs, ev.isLate = false := by
    intro evs hevs ev hev
    exact (List.mem_append.mp hev).elim (h.log ev) (hevs ev)
  have halive : s.crashed = false := by
    unfold Tcp.step at hs
    split at hs
    · cases hs
    · next hc => simpa using hc
  have hsilent := h.silent halive
  rcases step_kinds hs with ⟨t, c, e, rfl, ht, he, rfl⟩ | ⟨inp, f, rest, e, rfl, hl, he, rfl⟩ |
    ⟨t, f, rfl, ht, rfl⟩ | hadmin
  · refine ⟨hp', happend _ (not_late_of_not_handed e.next.events_not_handed), fun _ hclosed => ?_⟩
    rw [afterCall_io] at hclosed
    exact (hsilent hclosed).afterCall t e
  · by_cases hf : f = .hup .close
    · subst hf
      cases he
      refine ⟨hp', happend _ ?_, fun _ _ => h.toPhaseInv.silent_close hl hexp⟩
      rw [(hupClose_descriptor cfg s.word s.io).2.2.2]
      exact fun ev hev => List.mem_singleton.mp hev ▸ rfl
    · cases hopen : s.io.kernel.isOpen with
      | true =>
        refine ⟨hp', happend _ (frameStep_not_late hopen he), fun _ hclosed => ?_⟩
        have hkeep : e.io.kernel.isOpen = true := (frameStep_descriptor hf he).1.trans hopen
        cases hkeep.symm.trans hclosed
      | false =>
        obtain ⟨hnext, hev⟩ := (hsilent hopen).apply hopen hl he hf hexp
        exact ⟨hp', happend _ hev, fun hcrash _ => hnext hcrash⟩
  · refine ⟨hp', happend _ ?_, fun _ hclosed => ⟨(hsilent hclosed).interest, (hsilent hclosed).calm⟩⟩
    cases f <;> simp [Functor.droppedEvents, Event.isLate]
  · refine ⟨hp', ?_, fun _ hclosed => (hsilent (hadmin.same.isOpen.symm.trans hclosed)).admin hadmin⟩
    rw [hadmin.log]
    refine happend _ fun ev hev => ?_
    obtain ⟨job, -, rfl⟩ := List.mem_map.mp hev
    rfl

/-- **Nothing is written after the close.**  In every run in which no `sendInLoop` starts on a message
with the descriptor closed and the output queue empty, and `handle_ep_hup` never closes the descriptor
with bytes queued and an output loop waiting for it to return: no `write` or `SSL_write` is issued once
the descriptor is closed. -/
theorem no_write_after_close (cfg : Config) (rdhupPhrase isIoChannel ssl : Bool)
    (mem : ℤ → UInt8) (as : List (Action ι)) (s : Conn ι)
    (hsafe : Along (step cfg) (fun t a => t.exposes cfg a = false)
      (Conn.init ι rdhupPhrase isIoChannel ssl mem) as)
    (h : run (step cfg) (Conn.init ι rdhupPhrase isIoChannel ssl mem) as = some s) (turn : ℕ) :
    .handed turn false ∉ s.log := by
  have hinv := run_induction_along (fun t a => t.exposes cfg a = false) (SilentInv cfg)
    ⟨phaseInv_init cfg _ _ _ _, List.forall_mem_nil _, fun _ h => absurd h.symm Bool.false_ne_true⟩ (fun _ _ _ hi hP hs => hi.step hP hs) hsafe h
  intro hmem
  cases hinv.log _ hmem

/-- A message that is refused and queued, and a hang-up with a second message admitted: its `sendInLoop`
runs after the close and queues. -/
def lateQueuedRun : List (Action Unit) :=
  [.loop .ret, .invoke () (.send .piece 0 1), .move (), .move (), .move (), .move (), .loop .functor,
    .loop (.step .none), .loop (.step (.write ⟨-1, .wouldBlock, true, false⟩)), .loop (.step .none),
    .loop (.step .none), .loop (.step .none), .loop (.step .none), .invoke () (.send .piece 0 1),
    .move (), .move (), .move (), .move (), .loop (.poll ⟨false, true, false, false, false⟩),
    .loop .dispatch, .loop (.step .none), .loop (.step .none), .loop (.step .none),
    .loop (.step .none), .loop (.step .none), .loop (.step .none), .loop (.step .none), .loop .ret,
    .loop .functor, .loop (.step .none), .loop (.step .none)]

theorem no_write_after_close_late_queued :
    ∃ s, run (step plainConfig) (Conn.init Unit false false false fun _ => 0) lateQueuedRun
        = some s ∧ .socketClose ∈ s.log ∧ s.io.outputBuffers.length = 2 ∧
      ∀ turn, .handed turn false ∉ s.log :=
  have hrun : run (step plainConfig) (Conn.init Unit false false false fun _ => 0) lateQueuedRun
      = some _ := rfl
  ⟨_, hrun, by decide, by decide,
    no_write_after_close plainConfig false false false (fun _ => 0) lateQueuedRun _ (by decide) hrun⟩

/-- The message admitted before the hang-up is written to the closed descriptor. -/
theorem sendInLoop_writes_after_close :
    ∃ s, run (step plainConfig) (Conn.init Unit false false false fun _ => 0) lateSendRun
        = some s ∧ .socketClose ∈ s.log ∧ .handed 0 false ∈ s.log :=
  ⟨_, rfl, by decide, by decide⟩

end KwNet.Tcp
