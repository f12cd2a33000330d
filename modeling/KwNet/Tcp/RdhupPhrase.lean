import KwNet.Tcp.HighWater
import KwNet.Tcp.Transition

/-!
# `handle_ep_out` and `rdhup_phrase`

Once `handle_ep_out` has emptied the queue it closes the connection if `rdhup_phrase` is set.  The flag is
set at the end of `handle_ep_rdhup`, and by no constructor.  Runs start in the connection callback of
`connectEstablished`: before it the loop dispatches no event to the connection, and nothing is queued.

* `Watched` — a connection with the record that an `EPOLLRDHUP` has been handled on it;
* `OnlyAfterRdhup` — a step of `handle_ep_out` that calls `handle_ep_hup` has its reason;
* **`frameStep_rdhupPhrase`** — one step sets the flag at the end of `handle_ep_rdhup` and nowhere else;
* `Reaches` — a stretch of a run without the end of a `handle_ep_rdhup`, with where it leads;
* **`out_closes_after_rdhup`** — every close by `handle_ep_out` has its reason exactly when the flag starts
  as `false`.
-/

namespace KwNet.Tcp

open KwNet.Lib KwNet.Memory

variable {ι : Type}

/-- A connection whose `EPOLLRDHUP`s are recorded. -/
structure Watched (ι : Type) where
  conn : Conn ι
  /-- `handle_ep_rdhup` has run to its end. -/
  handled : Bool

/-- The step is the last one of `handle_ep_rdhup`. -/
def Conn.endsRdhup (s : Conn ι) : Action ι → Bool
  | .loop (.step _) => s.loop.head? == some (.handler .rdhupEnd)
  | _ => false

def Watched.step [DecidableEq ι] (cfg : Config) (s : Watched ι) (a : Action ι) : Option (Watched ι) :=
  (Tcp.step cfg s.conn a).map fun conn => { conn := conn, handled := s.handled || s.conn.endsRdhup a }

/-- The frames of `handle_ep_out`. -/
def Frame.inEpOut : Frame → Bool
  | .handler .epOut | .handler (.drain .out) | .handler (.drainWrite .out _) | .handler .drainClear => true
  | _ => false

/-- On the way from `s` to `s'`, `handle_ep_out` calls `handle_ep_hup`. -/
def OutCallsHup (s s' : Conn ι) : Prop :=
  ∃ f rest after, s.loop = f :: rest ∧ f.inEpOut = true ∧ s'.loop = .hup .load :: after ++ rest

/-- The write failed for another reason than one the loop of the class retries or returns on. -/
def WriteOutcome.isFault (k : Kind) (o : WriteOutcome) : Bool :=
  decide (o.ret ≤ 0) &&
    match k, o.err with
    | _, .wouldBlock | .plain, .interrupted | .ssl, .wantRead => false
    | _, _ => true

/-- The step is a write of `handle_ep_out` that fails. -/
def Conn.writeFails (cfg : Config) (s : Conn ι) (a : Action ι) : Bool :=
  match s.loop, a with
  | .handler (.drainWrite .out _) :: _, .loop (.step (.write o)) => o.isFault cfg.kind
  | _, _ => false

/-- A call of `handle_ep_hup` by `handle_ep_out` follows a failed write, or an `EPOLLRDHUP` that has been
handled. -/
def OnlyAfterRdhup [DecidableEq ι] (cfg : Config) (s : Watched ι) (a : Action ι) : Prop :=
  ∀ s', Tcp.step cfg s.conn a = some s' → OutCallsHup s.conn s' →
    s.conn.writeFails cfg a = true ∨ s.handled = true

/-- The connection as its constructor leaves it, where no event has been handled. -/
def Watched.init (ι : Type) (rdhupPhrase isIoChannel ssl : Bool) (mem : ℤ → UInt8) : Watched ι :=
  { conn := Conn.init ι rdhupPhrase isIoChannel ssl mem, handled := false }

/-! ### Who sets the flag -/

variable {cfg : Config} {w : Word} {io : Io}

/-- **The flag is set at the end of `handle_ep_rdhup` and nowhere else.** -/
theorem frameStep_rdhupPhrase {f : Frame} {inp : Input} {e : Effect} (h : frameStep cfg w io f inp = some e) :
    e.io.rdhupPhrase = (io.rdhupPhrase || f == .handler .rdhupEnd) := by
  by_cases hf : f = .handler .rdhupEnd
  · subst hf
    cases h
    exact (Bool.or_true io.rdhupPhrase).symm
  · rw [(frameStep_fixed hf h).rdhupPhrase, beq_false_of_ne hf, Bool.or_false]

/-- A set flag has been set by `handle_ep_rdhup`. -/
def Watched.PhraseHandled (s : Watched ι) : Prop := s.conn.io.rdhupPhrase = true → s.handled = true

variable [DecidableEq ι]

theorem step_rdhupPhrase {s s' : Conn ι} {a : Action ι} (h : Tcp.step cfg s a = some s') :
    s'.io.rdhupPhrase = s.io.rdhupPhrase ∨ s.endsRdhup a = true := by
  cases step_cases h with
  | @frame inp f rest e hl he =>
    show e.io.rdhupPhrase = s.io.rdhupPhrase ∨ (s.loop.head? == some (.handler .rdhupEnd)) = true
    rw [frameStep_rdhupPhrase he, hl]
    by_cases hf : f = .handler .rdhupEnd
    · exact .inr (by rw [hf]; rfl)
    · exact .inl (by rw [beq_false_of_ne hf, Bool.or_false])
  | @invoke t api ht =>
    left
    cases api <;> rfl
  | @userCall api rest hl =>
    left
    cases api <;> rfl
  | @call t c e ht he =>
    left
    show (ite _ _ _ : Conn ι).io.rdhupPhrase = _
    split <;> rfl
  | _ => exact .inl rfl

theorem phraseHandled_step {s s' : Watched ι} {a : Action ι} (hs : s.PhraseHandled)
    (h : s.step cfg a = some s') : s'.PhraseHandled := by
  obtain ⟨conn, hconn, rfl⟩ := Option.map_eq_some_iff.mp h
  intro hset
  show (s.handled || s.conn.endsRdhup a) = true
  obtain hsame | hends := step_rdhupPhrase hconn
  · rw [hs (hsame.symm.trans hset), Bool.true_or]
  · rw [hends, Bool.or_true]

/-! ### Why `handle_ep_out` closes -/

theorem popFront_out_frames (cfg : Config) (w : Word) (io : Io) :
    (popFront cfg w io .out).frames = [.handler (.drain .out)] := by
  unfold popFront
  split
  · next hmode => cases hmode
  · rfl

theorem drainStep_closes {after : List Frame} (h : (drainStep cfg w io .out).frames = .hup .load :: after) :
    io.rdhupPhrase = true := by
  unfold drainStep at h
  split at h
  · dsimp only [Effect.goto] at h
    split at h
    · next hphrase => exact hphrase
    · cases h
  · split at h
    · cases h
    · split at h
      · rw [popFront_out_frames] at h
        cases h
      · cases h

theorem drainWriteStep_closes {left : ℤ} {b : OutBuf} {bs : List OutBuf} {o : WriteOutcome} {after : List Frame}
    (h : (drainWriteStep cfg w io .out left b bs o).frames = .hup .load :: after) :
    o.isFault cfg.kind = true := by
  unfold drainWriteStep at h
  dsimp only at h
  split at h
  · split at h
    · cases h
    · split at h
      · cases h
      · split at h
        · simp only [popFront_out_frames] at h
          cases h
        · cases h
  · next hret =>
    unfold WriteOutcome.isFault
    rw [decide_eq_true (Int.not_lt.mp hret), Bool.true_and]
    split at h
    · cases h
    · cases h
    · next hkind hblock hintr =>
      rw [hkind]
      cases herr : o.err with
      | wouldBlock => exact (hblock herr).elim
      | interrupted => exact (hintr herr).elim
      | _ => rfl
    · cases h
    · cases h
    · next hkind hblock hread =>
      rw [hkind]
      cases herr : o.err with
      | wouldBlock => exact (hblock herr).elim
      | wantRead => exact (hread herr).elim
      | _ => rfl

/-- A step of a frame of `handle_ep_out` that calls `handle_ep_hup`. -/
theorem frameStep_closes {f : Frame} {inp : Input} {e : Effect} {after : List Frame} (hf : f.inEpOut = true)
    (h : frameStep cfg w io f inp = some e) (hframes : e.frames = .hup .load :: after) :
    (∃ left o, f = .handler (.drainWrite .out left) ∧ inp = .write o ∧ o.isFault cfg.kind = true) ∨
      io.rdhupPhrase = true := by
  unfold Frame.inEpOut at hf
  split at hf
  · simp only [frameStep, handlerStep] at h
    split at h <;> cases h <;> cases hframes
  · cases h
    exact .inr (drainStep_closes hframes)
  · next left =>
    left
    cases inp with
    | write o =>
      simp only [frameStep, handlerStep] at h
      split at h
      · cases h
      · split at h <;> cases h
        exact ⟨left, o, rfl, rfl, drainWriteStep_closes hframes⟩
    | _ => cases h
  · cases h
    cases hframes
  · cases hf

/-- No wake, and nothing but its own step, moves a frame of `handle_ep_out`. -/
theorem Frame.inEpOut_still {f : Frame} (hf : f.inEpOut = true) :
    f.wake = f ∧ f.spurious = none ∧ f ≠ .user ∧ f ≠ .hup .load := by
  unfold Frame.inEpOut at hf
  split at hf
  · exact ⟨rfl, rfl, by rintro ⟨⟩, by rintro ⟨⟩⟩
  · exact ⟨rfl, rfl, by rintro ⟨⟩, by rintro ⟨⟩⟩
  · exact ⟨rfl, rfl, by rintro ⟨⟩, by rintro ⟨⟩⟩
  · exact ⟨rfl, rfl, by rintro ⟨⟩, by rintro ⟨⟩⟩
  · cases hf

/-- **Why `handle_ep_out` closes.** -/
theorem outCallsHup_reason {s s' : Conn ι} {a : Action ι} (h : Tcp.step cfg s a = some s')
    (hcalls : OutCallsHup s s') : s.writeFails cfg a = true ∨ s.io.rdhupPhrase = true := by
  obtain ⟨f, rest, after, hloop, hf, hloop'⟩ := hcalls
  obtain ⟨hwake, hspurious, huser, hhup⟩ := f.inEpOut_still hf
  -- the frame is still on top unless the step is its own
  have hmoved : ∀ gs : List Frame, s'.loop ≠ f :: gs := by
    intro gs hgs
    rw [hgs] at hloop'
    exact hhup (List.head_eq_of_cons_eq hloop')
  have hsame : s'.loop ≠ s.loop := fun heq => hmoved rest (heq.trans hloop)
  have hbusy : s.loop ≠ [] := by
    rw [hloop]
    exact List.cons_ne_nil f rest
  have hcode : ∀ gs, s.loop ≠ .user :: gs := by
    intro gs hgs
    rw [hloop] at hgs
    exact huser (List.head_eq_of_cons_eq hgs)
  cases step_cases h with
  | @frame inp g rest' e hl he =>
    rw [hloop, List.cons.injEq] at hl
    obtain ⟨rfl, rfl⟩ := hl
    have hframes : e.frames = .hup .load :: after := List.append_cancel_right hloop'
    obtain ⟨left, o, rfl, rfl, hfault⟩ | hphrase := frameStep_closes hf he hframes
    · left
      unfold Conn.writeFails
      rw [hloop]
      exact hfault
    · exact .inr hphrase
  | @loopSpurious g g' rest' hl hg =>
    rw [hloop, List.cons.injEq] at hl
    obtain ⟨rfl, rfl⟩ := hl
    rw [hspurious] at hg
    cases hg
  | @invoke t api ht => cases api <;> exact absurd rfl hsame
  | @call t c e ht he =>
    have hstill : s.loop.map Frame.wake = f :: rest.map Frame.wake := by
      rw [hloop, List.map_cons, hwake]
    by_cases hw : e.wake = true
    · refine absurd ?_ (hmoved (rest.map Frame.wake))
      rw [← hstill]
      show (ite _ _ _ : Conn ι).loop = _
      rw [if_pos hw]
    · refine absurd ?_ hsame
      show (ite _ _ _ : Conn ι).loop = _
      rw [if_neg hw]
  | userCall hl | delay hl | ret hl => exact absurd hl (hcode _)
  | poll hl | dispatch hl | functor hl | timer hl | foreign hl => exact absurd hl hbusy
  | push | spurious | giveUp | space | overwrite => exact absurd rfl hsame

/-- Where a set flag has been set by `handle_ep_rdhup`, a close has its reason. -/
theorem onlyAfterRdhup_of_handled {s : Watched ι} (hs : s.PhraseHandled) (a : Action ι) :
    OnlyAfterRdhup cfg s a := by
  intro s' hstep hcalls
  obtain hfails | hphrase := outCallsHup_reason hstep hcalls
  · exact .inl hfails
  · exact .inr (hs hphrase)

/-! ### A close without a reason -/

/-- The loop thread stands with these frames, this word and this data, between its steps and without a failed
assertion. -/
structure Conn.At (s : Conn ι) (w : Word) (io : Io) (ready : Option Mask) (frames : List Frame) : Prop where
  word : s.word = w
  io : s.io = io
  ready : s.ready = ready
  loop : s.loop = frames
  crashed : s.crashed = false

/-- The run goes through and nothing in it is the end of a `handle_ep_rdhup`. -/
def Reaches (cfg : Config) (s : Conn ι) (as : List (Action ι)) (s' : Conn ι) : Prop :=
  run (Watched.step cfg) ⟨s, false⟩ as = some ⟨s', false⟩

theorem Reaches.trans {s s' s'' : Conn ι} {as bs : List (Action ι)} (h : Reaches cfg s as s')
    (h' : Reaches cfg s' bs s'') : Reaches cfg s (as ++ bs) s'' := by
  unfold Reaches at *
  rw [run_append, h]
  exact h'

theorem Reaches.single {s s' : Conn ι} {a : Action ι} (h : Tcp.step cfg s a = some s')
    (ha : s.endsRdhup a = false) : Reaches cfg s [a] s' := by
  refine run_cons_eq_some.mpr ⟨⟨s', false⟩, ?_, rfl⟩
  unfold Watched.step
  rw [h, Option.map_some, ha]
  rfl

/-- A message of one byte. -/
def oneByte (id : ℕ) : Job := ⟨id, .piece, 0, 1⟩

/-- The loop's data at the start, with the flag set. -/
def phraseIo (isIoChannel ssl : Bool) (mem : ℤ → UInt8) : Io :=
  (Conn.init Unit true isIoChannel ssl mem).io

/-- The answer to a `write` on a full socket. -/
def refusal : WriteOutcome := ⟨-1, .wouldBlock, true, false⟩

section

variable {s : Conn ι} {ready : Option Mask} {frames rest : List Frame}

/-- One step of the top frame. -/
theorem Conn.At.frame {f : Frame} (h : s.At w io none (f :: rest)) (hf : f ≠ .handler .rdhupEnd) (inp : Input)
    {e : Effect} (he : frameStep cfg w io f inp = some e) (hcrash : e.crash = false) :
    ∃ s', Reaches cfg s [.loop (.step inp)] s' ∧ s'.At e.word e.io none (e.frames ++ rest) := by
  refine ⟨s.apply rest e, .single ?_ ?_, ⟨rfl, rfl, h.ready, rfl, hcrash⟩⟩
  · unfold Tcp.step
    rw [h.crashed, if_neg Bool.false_ne_true]
    dsimp only [loopStep]
    rw [h.loop]
    dsimp only
    rw [h.word, h.io, he]
    rfl
  · unfold Conn.endsRdhup
    rw [h.loop]
    simpa using hf

/-- A step that is none of a frame. -/
theorem Conn.At.act {a : LoopAct} {s' : Conn ι} (h : s.At w io ready frames) (hs : loopStep cfg s a = some s')
    (ha : s.endsRdhup (.loop a) = false) : Reaches cfg s [.loop a] s' := by
  refine .single ?_ ha
  unfold Tcp.step
  rw [h.crashed, if_neg Bool.false_ne_true]
  exact hs

/-- User code returns. -/
theorem Conn.At.ret (h : s.At w io ready (.user :: rest)) :
    ∃ s', Reaches cfg s [.loop .ret] s' ∧ s'.At w io ready rest := by
  refine ⟨{ s with loop := rest }, h.act ?_ rfl, ⟨h.word, h.io, h.ready, rfl, h.crashed⟩⟩
  dsimp only [loopStep]
  rw [h.loop]

/-- A `send` on an idle connection, up to its `sendInLoop`. -/
theorem Conn.At.send (cfg : Config) (h : s.At established io none [.user]) :
    ∃ as s', Reaches cfg s as s' ∧ s'.At (Phase.busy 1).word io none
      [.sendInLoop .load (oneByte s.nextId) none, .user] := by
  let job := oneByte s.nextId
  have hcall : ∃ s₁, Reaches cfg s [.loop (.user (.send .piece 0 1))] s₁ ∧
      s₁.At established io none [.call (.send .load job) .ret, .user] := by
    refine ⟨s.userCall (.send .piece 0 1), h.act ?_ rfl, ⟨h.word, h.io, h.ready, ?_, h.crashed⟩⟩
    · dsimp only [loopStep]
      rw [h.loop]
    · show _ :: s.loop = _
      rw [h.loop]
      rfl
  obtain ⟨s₁, r₁, h₁⟩ := hcall
  obtain ⟨s₂, r₂, h₂⟩ : ∃ s₂, Reaches cfg s₁ [.loop (.step .none)] s₂ ∧
      s₂.At established io none [.call (.send (.casWriting established) job) .ret, .user] :=
    h₁.frame (by rintro ⟨⟩) .none rfl rfl
  obtain ⟨s₃, r₃, h₃⟩ : ∃ s₃, Reaches cfg s₂ [.loop (.step .none)] s₃ ∧
      s₃.At (Phase.busy 0).word io none [.call (.send (.casFirst (Phase.busy 0).word) job) .ret, .user] :=
    h₂.frame (by rintro ⟨⟩) .none rfl rfl
  obtain ⟨s₄, r₄, h₄⟩ : ∃ s₄, Reaches cfg s₃ [.loop (.step .none)] s₄ ∧
      s₄.At (Phase.busy 1).word io none [.sendInLoop .load job none, .user] :=
    h₃.frame (by rintro ⟨⟩) .none rfl rfl
  exact ⟨_, s₄, ((r₁.trans r₂).trans r₃).trans r₄, h₄⟩

/-- The data with a buffer queued behind a refused write. -/
def queuedBehind (isIoChannel ssl : Bool) (mem : ℤ → UInt8) (buf : Buffer) : Io :=
  { phraseIo isIoChannel ssl mem with
    turns := 1, oldLen := 1, outputBuffers := [⟨0, buf⟩]
    channel := { Channel.fresh isIoChannel with listen := ⟨true, true⟩ }
    kernel :=
      { isOpen := true, interest := some ⟨true, true⟩, writable := false, edge := false, armed := true,
        lastRefused := true } }

/-- The `sendInLoop` of a byte the socket refuses. -/
theorem Conn.At.queued (cfg : Config) {isIoChannel ssl : Bool} {mem : ℤ → UInt8} {id : ℕ}
    (h : s.At (Phase.busy 1).word (phraseIo isIoChannel ssl mem) none
      [.sendInLoop .load (oneByte id) none, .user]) :
    ∃ as s' buf, Reaches cfg s as s' ∧ buf.Valid ∧ buf.readableBytes = 1 ∧
      s'.At established (queuedBehind isIoChannel ssl mem buf) none [] := by
  let job := oneByte id
  let io₁ : Io := { phraseIo isIoChannel ssl mem with turns := 1 }
  let io₂ : Io := { io₁ with kernel := io₁.kernel.write refusal }
  obtain ⟨s₁, r₁, h₁⟩ : ∃ s₁, Reaches cfg s [.loop (.step .none)] s₁ ∧
      s₁.At (Phase.busy 1).word io₁ none [.sendInLoop (.write (Phase.busy 1).word 0 1) job none, .user] :=
    h.frame (by rintro ⟨⟩) .none rfl rfl
  obtain ⟨s₂, r₂, h₂⟩ : ∃ s₂, Reaches cfg s₁ [.loop (.step (.write refusal))] s₂ ∧
      s₂.At (Phase.busy 1).word io₂ none [.sendInLoop (.queue (Phase.busy 1).word 0 (-1) 1) job none, .user] :=
    h₁.frame (by rintro ⟨⟩) (.write refusal) rfl rfl
  obtain ⟨buf, hbuf, hvalid, hread⟩ := freshBuffer_append cfg 1 (job.bytes none mem (-1) 1)
  have hlen : buf.readableBytes = 1 := by
    rw [← hvalid.length_readable, hread, Job.length_bytes]
  obtain ⟨s₃, r₃, h₃⟩ : ∃ s₃, Reaches cfg s₂ [.loop (.step .none)] s₃ ∧
      s₃.At (Phase.busy 1).word (queuedBehind isIoChannel ssl mem buf) none
        [.sendInLoop (.cas (Phase.busy 1).word) job none, .user] := by
    have hqueue :
        frameStep cfg (Phase.busy 1).word io₂ (.sendInLoop (.queue (Phase.busy 1).word 0 (-1) 1) job none) .none
          = some { Effect.goto (Phase.busy 1).word (queuedBehind isIoChannel ssl mem buf)
              [.sendInLoop (.cas (Phase.busy 1).word) job none] with
            posted := cfg.highWater 1 1 } := by
      have hold : (io₂.oldLen + 1) % 2 ^ 64 = 1 := show (0 + 1) % 2 ^ 64 = 1 from rfl
      have hbuf' : (cfg.freshBuffer 1).append (job.bytes none io₂.mem (-1) 1) = some buf := hbuf
      simp only [frameStep, sendLoopStep, sendQueue, hold, hbuf']
      rfl
    exact h₂.frame (by rintro ⟨⟩) .none hqueue rfl
  obtain ⟨s₄, r₄, h₄⟩ : ∃ s₄, Reaches cfg s₃ [.loop (.step .none)] s₄ ∧
      s₄.At (Phase.busy 0).word (queuedBehind isIoChannel ssl mem buf) none
        [.sendInLoop (.clear (Phase.busy 0).word) job none, .user] :=
    h₃.frame (by rintro ⟨⟩) .none rfl rfl
  obtain ⟨s₅, r₅, h₅⟩ : ∃ s₅, Reaches cfg s₄ [.loop (.step .none)] s₅ ∧
      s₅.At established (queuedBehind isIoChannel ssl mem buf) none [.sendInLoop .wake job none, .user] :=
    h₄.frame (by rintro ⟨⟩) .none rfl rfl
  obtain ⟨s₆, r₆, h₆⟩ : ∃ s₆, Reaches cfg s₅ [.loop (.step .none)] s₆ ∧
      s₆.At established (queuedBehind isIoChannel ssl mem buf) none [.user] :=
    h₅.frame (by rintro ⟨⟩) .none rfl rfl
  obtain ⟨s₇, r₇, h₇⟩ := h₆.ret
  exact ⟨_, s₇, buf, (((((r₁.trans r₂).trans r₃).trans r₄).trans r₅).trans r₆).trans r₇, hvalid, hlen, h₇⟩

/-- The report of a writable socket. -/
def writableMask : Mask := ⟨false, false, false, false, true⟩

/-- The data after space has become free and the report of it has been taken. -/
def Io.reported (io : Io) : Io :=
  { io with kernel := { io.kernel with writable := true, edge := false, armed := false } }

/-- Space becomes free behind a refused write, and the loop thread goes into `handle_ep_out`. -/
theorem Conn.At.epOut (cfg : Config) (h : s.At w io none []) (hinterest : io.kernel.interest = some ⟨true, true⟩)
    (harmed : io.kernel.armed = true) (hcallbacks : io.channel.callbacks = true)
    (hqueued : io.outputBuffers ≠ []) :
    ∃ as s', Reaches cfg s as s' ∧ s'.At w io.reported none [.handler (.drain .out)] := by
  obtain ⟨s₁, r₁, h₁⟩ : ∃ s₁, Reaches cfg s [.space] s₁ ∧ s₁.At w { io with kernel := io.kernel.space } none [] := by
    refine ⟨{ s with io := { s.io with kernel := s.io.kernel.space } }, .single ?_ rfl,
      ⟨h.word, by rw [h.io], h.ready, h.loop, h.crashed⟩⟩
    unfold Tcp.step
    rw [h.crashed, if_neg Bool.false_ne_true]
  obtain ⟨s₂, r₂, h₂⟩ : ∃ s₂, Reaches cfg s₁ [.loop (.poll writableMask)] s₂ ∧
      s₂.At w io.reported (some writableMask) [] := by
    have hedge : io.kernel.space.edge = true := by
      unfold Kernel.space Kernel.listensWrite
      rw [hinterest, harmed]
      exact Bool.or_true io.kernel.edge
    refine ⟨{ s₁ with ready := some writableMask, io := io.reported }, h₁.act ?_ rfl,
      ⟨h₁.word, rfl, rfl, h₁.loop, h₁.crashed⟩⟩
    dsimp only [loopStep]
    rw [h₁.loop, h₁.ready, h₁.io]
    simp only [Kernel.space, Io.reported, hinterest] at hedge ⊢
    rw [hedge]
    rfl
  obtain ⟨s₃, r₃, h₃⟩ : ∃ s₃, Reaches cfg s₂ [.loop .dispatch] s₃ ∧
      s₃.At w io.reported none [.handler (.event writableMask)] := by
    refine ⟨{ s₂.enter [.handler (.event writableMask)] with ready := none }, h₂.act ?_ rfl,
      ⟨h₂.word, h₂.io, rfl, congrArg ([Frame.handler (.event writableMask)] ++ ·) h₂.loop, h₂.crashed⟩⟩
    dsimp only [loopStep]
    rw [h₂.loop, h₂.ready]
  obtain ⟨s₄, r₄, h₄⟩ : ∃ s₄, Reaches cfg s₃ [.loop (.step .none)] s₄ ∧
      s₄.At w io.reported none [.handler .eventOut] :=
    h₃.frame (by rintro ⟨⟩) .none rfl rfl
  obtain ⟨s₅, r₅, h₅⟩ : ∃ s₅, Reaches cfg s₄ [.loop (.step .none)] s₅ ∧
      s₅.At w io.reported none [.handler .epOut] := by
    have hstep : frameStep cfg w io.reported (.handler .eventOut) .none
        = some (Effect.goto w io.reported [.handler .epOut]) := by
      show some (Effect.goto w io.reported (if io.channel.callbacks then _ else [])) = _
      rw [hcallbacks, if_pos rfl]
    exact h₄.frame (by rintro ⟨⟩) .none hstep rfl
  obtain ⟨s₆, r₆, h₆⟩ : ∃ s₆, Reaches cfg s₅ [.loop (.step .none)] s₆ ∧
      s₆.At w io.reported none [.handler (.drain .out)] := by
    have hstep : frameStep cfg w io.reported (.handler .epOut) .none
        = some (Effect.goto w io.reported [.handler (.drain .out)]) := by
      show (if io.outputBuffers.isEmpty then _ else some (Effect.goto w io.reported [.handler (.drain .out)])) = _
      rw [if_neg (by rwa [List.isEmpty_iff])]
    exact h₅.frame (by rintro ⟨⟩) .none hstep rfl
  exact ⟨_, s₆, ((((r₁.trans r₂).trans r₃).trans r₄).trans r₅).trans r₆, h₆⟩

/-- The answer of a socket that takes a byte. -/
def oneTaken : WriteOutcome := ⟨1, .fault, false, false⟩

/-- The TLS class writes the byte and pops its buffer. -/
theorem Conn.At.taken_ssl {turn : ℕ} {buf buf' : Buffer} (h : s.At w io none [.handler (.drainWrite .out 1)])
    (hkind : cfg.kind = .ssl) (hout : io.outputBuffers = [⟨turn, buf⟩]) (hbuf' : buf.retrieve 1 = some buf')
    (hlen' : buf'.readableBytes = 0) (hadm : oneTaken.admissible io.kernel (countOf 1) = true) :
    ∃ as s' io', Reaches cfg s as s' ∧ s'.At w io' none [.handler (.drain .out)] ∧ io'.outputBuffers = [] ∧
      io'.rdhupPhrase = io.rdhupPhrase := by
  obtain ⟨s₂, r₂, h₂⟩ : ∃ s₂, Reaches cfg s [.loop (.step (.write oneTaken))] s₂ ∧
      s₂.At w { io with kernel := io.kernel.write oneTaken, outputBuffers := [] } none [.handler (.drain .out)] := by
    have hstep : frameStep cfg w io (.handler (.drainWrite .out 1)) (.write oneTaken)
        = some { Effect.goto w { io with kernel := io.kernel.write oneTaken, outputBuffers := [] }
            [.handler (.drain .out)] with
          posted := cfg.writeComplete, events := [.handed turn io.kernel.isOpen] } := by
      simp only [frameStep, handlerStep, hout, hadm, if_true, drainWriteStep]
      rw [if_pos (by decide), show buf.retrieve oneTaken.ret.toNat = some buf' from hbuf']
      simp only [hkind, hlen', if_true]
      unfold popFront
      rw [hkind]
      rfl
    exact h.frame (by rintro ⟨⟩) (.write oneTaken) hstep rfl
  exact ⟨_, s₂, _, r₂, h₂, rfl, rfl⟩

/-- The plain class, which does not count `left` down, writes the byte, is refused once more and pops the buffer
at the next report. -/
theorem Conn.At.taken_plain {turn : ℕ} {buf buf' : Buffer} (h : s.At w io none [.handler (.drainWrite .out 1)])
    (hkind : cfg.kind = .plain) (hout : io.outputBuffers = [⟨turn, buf⟩]) (hbuf' : buf.retrieve 1 = some buf')
    (hlen' : buf'.readableBytes = 0) (hadm : oneTaken.admissible io.kernel (countOf 1) = true)
    (hopen : io.kernel.isOpen = true) (hinterest : io.kernel.interest = some ⟨true, true⟩)
    (hcallbacks : io.channel.callbacks = true) :
    ∃ as s' io', Reaches cfg s as s' ∧ s'.At w io' none [.handler (.drain .out)] ∧ io'.outputBuffers = [] ∧
      io'.rdhupPhrase = io.rdhupPhrase := by
  let io₂ : Io := { io with kernel := io.kernel.write oneTaken, outputBuffers := [⟨turn, buf'⟩] }
  let io₃ : Io := { io₂ with kernel := io₂.kernel.write refusal }
  obtain ⟨s₂, r₂, h₂⟩ : ∃ s₂, Reaches cfg s [.loop (.step (.write oneTaken))] s₂ ∧
      s₂.At w io₂ none [.handler (.drainWrite .out 1)] := by
    have hstep : frameStep cfg w io (.handler (.drainWrite .out 1)) (.write oneTaken)
        = some { Effect.goto w io₂ [.handler (.drainWrite .out 1)] with
          events := [.handed turn io.kernel.isOpen] } := by
      simp only [frameStep, handlerStep, hout, hadm, if_true, drainWriteStep]
      rw [if_pos (by decide), show buf.retrieve oneTaken.ret.toNat = some buf' from hbuf']
      simp only [hkind]
      rfl
    exact h.frame (by rintro ⟨⟩) (.write oneTaken) hstep rfl
  obtain ⟨s₃, r₃, h₃⟩ : ∃ s₃, Reaches cfg s₂ [.loop (.step (.write refusal))] s₃ ∧ s₃.At w io₃ none [] := by
    have hstep : frameStep cfg w io₂ (.handler (.drainWrite .out 1)) (.write refusal)
        = some { Effect.goto w io₃ [] with events := [.handed turn io₂.kernel.isOpen] } := by
      simp only [frameStep, handlerStep, io₂, drainWriteStep, hkind]
      rfl
    exact h₂.frame (by rintro ⟨⟩) (.write refusal) hstep rfl
  have hrefused : (io₂.kernel.write refusal).armed = true ∧ (io₂.kernel.write refusal).interest = some ⟨true, true⟩ := by
    unfold Kernel.write
    rw [if_pos ((io.kernel.write_isOpen oneTaken).1.trans hopen)]
    exact ⟨rfl, (io.kernel.write_isOpen oneTaken).2.trans hinterest⟩
  obtain ⟨as, s₄, r₄, h₄⟩ := h₃.epOut cfg hrefused.2 hrefused.1 hcallbacks (List.cons_ne_nil _ _)
  obtain ⟨s₅, r₅, h₅⟩ : ∃ s₅, Reaches cfg s₄ [.loop (.step .none)] s₅ ∧
      s₅.At w { io₃.reported with outputBuffers := [] } none [.handler (.drain .out)] := by
    have hleft' : leftOf cfg buf' = 0 := by
      unfold leftOf
      rw [hlen']
      split <;> rfl
    have hstep : frameStep cfg w io₃.reported (.handler (.drain .out)) .none
        = some { Effect.goto w { io₃.reported with outputBuffers := [] } [.handler (.drain .out)] with
          posted := cfg.writeComplete } := by
      show some (drainStep cfg w io₃.reported .out) = _
      unfold drainStep
      dsimp only [io₃, io₂, Io.reported]
      rw [if_neg (not_not_intro hleft'), if_pos hlen']
      unfold popFront
      rw [hkind]
      rfl
    exact h₄.frame (by rintro ⟨⟩) .none hstep rfl
  exact ⟨_, s₅, _, ((r₂.trans r₃).trans r₄).trans r₅, h₅, rfl, rfl⟩

/-- `handle_ep_out` writes the byte that is queued and pops its buffer. -/
theorem Conn.At.emptied (cfg : Config) {turn : ℕ} {buf : Buffer} (h : s.At w io none [.handler (.drain .out)])
    (hout : io.outputBuffers = [⟨turn, buf⟩]) (hvalid : buf.Valid) (hlen : buf.readableBytes = 1)
    (hopen : io.kernel.isOpen = true) (hwritable : io.kernel.writable = true)
    (hinterest : io.kernel.interest = some ⟨true, true⟩) (hcallbacks : io.channel.callbacks = true) :
    ∃ as s' io', Reaches cfg s as s' ∧ s'.At w io' none [.handler (.drain .out)] ∧ io'.outputBuffers = [] ∧
      io'.rdhupPhrase = io.rdhupPhrase := by
  have hleft : leftOf cfg buf = 1 := by
    unfold leftOf
    rw [hlen]
    split <;> rfl
  obtain ⟨s₁, r₁, h₁⟩ : ∃ s₁, Reaches cfg s [.loop (.step .none)] s₁ ∧
      s₁.At w io none [.handler (.drainWrite .out 1)] := by
    have hstep : frameStep cfg w io (.handler (.drain .out)) .none
        = some (Effect.goto w io [.handler (.drainWrite .out 1)]) := by
      simp only [frameStep, handlerStep, drainStep, hout, hleft]
      rfl
    exact h.frame (by rintro ⟨⟩) .none hstep rfl
  obtain ⟨buf', hbuf', hvalid', hread'⟩ := Buffer.retrieve_spec hvalid (Nat.le_of_eq hlen.symm)
  have hlen' : buf'.readableBytes = 0 := by
    rw [← hvalid'.length_readable, hread', List.length_drop, hvalid.length_readable, hlen]
  have hadm : oneTaken.admissible io.kernel (countOf 1) = true := by
    unfold WriteOutcome.admissible
    rw [hopen, hwritable]
    decide
  cases hkind : cfg.kind with
  | ssl =>
    obtain ⟨as, s', io', r, hend⟩ := h₁.taken_ssl hkind hout hbuf' hlen' hadm
    exact ⟨_, s', io', r₁.trans r, hend⟩
  | plain =>
    obtain ⟨as, s', io', r, hend⟩ := h₁.taken_plain hkind hout hbuf' hlen' hadm hopen hinterest hcallbacks
    exact ⟨_, s', io', r₁.trans r, hend⟩

/-- With nothing queued and the flag set, the next step of `handle_ep_out` closes. -/
theorem Conn.At.closes (h : s.At w io none [.handler (.drain .out)]) (hout : io.outputBuffers = [])
    (hphrase : io.rdhupPhrase = true) : ¬OnlyAfterRdhup cfg ⟨s, false⟩ (.loop (.step .none)) := by
  intro honly
  have hstep : frameStep cfg w io (.handler (.drain .out)) .none = some (Effect.goto w io [.hup .load]) := by
    show some (drainStep cfg w io .out) = _
    unfold drainStep
    rw [hout]
    dsimp only
    rw [hphrase, if_pos rfl]
  have hgo : Tcp.step cfg s (.loop (.step .none)) = some (s.apply [] (Effect.goto w io [.hup .load])) := by
    unfold Tcp.step
    rw [h.crashed, if_neg Bool.false_ne_true]
    dsimp only [loopStep]
    rw [h.loop]
    dsimp only
    rw [h.word, h.io, hstep]
    rfl
  obtain hfails | hhandled := honly _ hgo ⟨_, [], [], h.loop, rfl, rfl⟩
  · unfold Conn.writeFails at hfails
    rw [h.loop] at hfails
    cases hfails
  · cases hhandled

end

/-- A connection whose flag is set from the start closes without a reason: a byte that is sent into a full
socket, and later written by `handle_ep_out`, is followed by `handle_ep_hup`. -/
theorem closes_without_rdhup (cfg : Config) (isIoChannel ssl : Bool) (mem : ℤ → UInt8) :
    ∃ as s, Reaches cfg (Conn.init ι true isIoChannel ssl mem) as s ∧
      ¬OnlyAfterRdhup cfg ⟨s, false⟩ (.loop (.step .none)) := by
  have h₀ : (Conn.init ι true isIoChannel ssl mem).At established (phraseIo isIoChannel ssl mem) none [.user] :=
    ⟨rfl, rfl, rfl, rfl, rfl⟩
  obtain ⟨as₁, s₁, r₁, h₁⟩ := h₀.send cfg
  obtain ⟨as₂, s₂, buf, r₂, hvalid, hlen, h₂⟩ := h₁.queued cfg
  obtain ⟨as₃, s₃, r₃, h₃⟩ := h₂.epOut cfg rfl rfl rfl (List.cons_ne_nil _ _)
  obtain ⟨as₄, s₄, io, r₄, h₄, hout, hphrase⟩ := h₃.emptied cfg rfl hvalid hlen rfl rfl rfl rfl
  exact ⟨_, s₄, ((r₁.trans r₂).trans r₃).trans r₄, h₄.closes hout hphrase⟩

/-- **Draining and half-close.**  In every run of a connection of either class, `handle_ep_out` calls
`handle_ep_hup` only because of a failed write or after an `EPOLLRDHUP` has been handled, exactly when the
storage the connection is constructed in holds `false` at `rdhup_phrase`. -/
theorem out_closes_after_rdhup (cfg : Config) (rdhupPhrase isIoChannel ssl : Bool) (mem : ℤ → UInt8) :
    (∀ as, Along (Watched.step cfg) (OnlyAfterRdhup cfg) (Watched.init ι rdhupPhrase isIoChannel ssl mem) as)
      ↔ rdhupPhrase = false := by
  constructor
  · intro honly
    cases rdhupPhrase with
    | false => rfl
    | true =>
      obtain ⟨as, s, hreach, hbad⟩ := closes_without_rdhup (ι := ι) cfg isIoChannel ssl mem
      exact absurd ((honly (as ++ [.loop (.step .none)])).append_right hreach).1 hbad
  · rintro rfl as
    refine (along_congr Watched.PhraseHandled ?_ (fun s a s' => phraseHandled_step)
      (fun s a hs => ?_) as).mp (along_true as)
    · rintro ⟨⟩
    · exact ⟨fun _ => onlyAfterRdhup_of_handled hs a, fun _ => trivial⟩

/-- A byte is sent into a full socket and written at the next report; the report after it finds the queue
drained. -/
def drainedRun : List (Action Unit) :=
  let go : Action Unit := .loop (.step .none)
  let report : List (Action Unit) := [.space, .loop (.poll writableMask), .loop .dispatch, go, go, go]
  [.loop (.user (.send .piece 0 1)), go, go, go, go, .loop (.step (.write refusal)), go, go, go, go, .loop .ret]
    ++ report ++ [go, .loop (.step (.write oneTaken)), .loop (.step (.write refusal))] ++ report ++ [go]

/-- The flag happens to be set: the connection is closed, and its peer has closed nothing. -/
theorem drained_connection_closed :
    ∃ s, run (Watched.step plainConfig) (Watched.init Unit true false false fun _ => 0) drainedRun = some s ∧
      s.handled = false ∧ ¬OnlyAfterRdhup plainConfig s (.loop (.step .none)) := by
  refine ⟨_, rfl, rfl, fun honly => ?_⟩
  exact absurd (honly _ rfl ⟨_, [], [], rfl, rfl, rfl⟩) (by decide)

end KwNet.Tcp
