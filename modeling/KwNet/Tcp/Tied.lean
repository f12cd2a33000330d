import KwNet.Tcp.AfterClose

/-!
# The channel of a connection and the tie to its owner

`connectEstablished` ties the channel to the connection, once: `tie_` sets `tiedObj` and `tied`, and
`HandleEvent` holds a `shared_ptr` to the connection while it dispatches only if the channel is tied.
`untie` is called by `Epoller::updateChannel`, when it takes a channel that listens for nothing out of
the interest set.  `Enable*` registers the channel again, but nobody ties it again: from then on the
handlers run without a guard.

* `Frame.request` — the events with which a step of the loop thread calls `updateChannel`;
* `Conn.detaches` — the steps that go wrong: they register a channel again that was taken out, or take
  one out while an event of it waits to be dispatched;
* **`registered_channel_tied`** — the channel is tied whenever it is registered or an event of it is
  about to be dispatched, in every state of a run up to the close, exactly when no step of the run
  detaches.

`tied` stands for `tied` together with `tiedObj`: both are set and reset together.
-/

namespace KwNet.Tcp

open KwNet.Lib

variable {ι : Type} {cfg : Config} {w : Word} {io io' : Io}

/-! ### The calls of `updateChannel` -/

/-- `listen_events` as a step of this frame passes them to `updateChannel`; `none` where the step leaves
the channel alone.  (`handle_ep_hup` disables everything in the step that closes the descriptor.) -/
def Frame.request (cfg : Config) (io : Io) : Frame → Input → Option Interest
  | .sendInLoop (.write _ _ _) _ _, .write o =>
    if o.ret < 0 ∧ cfg.kind = .ssl ∧ o.err = .wantRead then
      some { io.channel.listen with read := true }
    else none
  | .sendInLoop (.queue _ _ _ _) _ _, _ =>
    if io.channel.isWriting then none else some { io.channel.listen with write := true }
  | .handler (.epIn _), .read .wantWrite =>
    if cfg.kind = .ssl then some { io.channel.listen with write := true } else none
  | .handler .epOut, _ =>
    if io.outputBuffers.isEmpty then some { io.channel.listen with write := false } else none
  | .handler (.drainWrite mode _), .write o =>
    if o.ret ≤ 0 ∧ cfg.kind = .ssl ∧ o.err = .wantRead then
      some { io.channel.listen with read := true }
    else if o.ret ≤ 0 ∧ cfg.kind = .ssl ∧ o.err = .wouldBlock ∧ mode = .finish
        ∧ io.channel.isWriting = false then
      some { io.channel.listen with write := true }
    else none
  | .handler .startReadInLoop, _ =>
    if io.channel.isReading then none else some { io.channel.listen with read := true }
  | .handler .stopReadInLoop, _ =>
    if io.reading || io.channel.isReading then some { io.channel.listen with read := false }
    else none
  | _, _ => none

/-- The channel and its registration after a step with this request: as they were, or as
`updateChannel` leaves them. -/
def Io.Follows (io : Io) (io' : Io) : Option Interest → Prop
  | none => io'.channel = io.channel ∧ io'.kernel.isOpen = io.kernel.isOpen ∧
      io'.kernel.interest = io.kernel.interest
  | some i => ∃ k : Kernel, k.isOpen = io.kernel.isOpen ∧ k.interest = io.kernel.interest ∧
      Channel.updateChannel { io.channel with listen := i } k = (io'.channel, io'.kernel)

theorem Io.follows_same (hc : io'.channel = io.channel) (hk : io'.kernel = io.kernel) :
    io.Follows io' none :=
  ⟨hc, by rw [hk], by rw [hk]⟩

theorem Io.follows_write (hc : io'.channel = io.channel) {o : WriteOutcome}
    (hk : io'.kernel = io.kernel.write o) : io.Follows io' none := by
  obtain ⟨hopen, hint⟩ := io.kernel.write_isOpen o
  exact ⟨hc, by rw [hk, hopen], by rw [hk, hint]⟩

/-- The kernel after a write is still one with the same registration. -/
theorem Io.follows_update {i : Interest} {k : Kernel}
    (hk : k = io.kernel ∨ ∃ o, k = io.kernel.write o)
    (h : Channel.updateChannel { io.channel with listen := i } k = (io'.channel, io'.kernel)) :
    io.Follows io' (some i) := by
  rcases hk with rfl | ⟨o, rfl⟩
  · exact ⟨io.kernel, rfl, rfl, h⟩
  · obtain ⟨hopen, hint⟩ := io.kernel.write_isOpen o
    exact ⟨_, hopen, hint, h⟩

/-- A step that does not touch channel and kernel at all. -/
theorem Io.Follows.congr {io'' : Io} {req : Option Interest} (h : io.Follows io' req)
    (hc : io''.channel = io'.channel) (hk : io''.kernel = io'.kernel) : io.Follows io'' req := by
  cases req with
  | none => exact ⟨hc.trans h.1, by rw [hk]; exact h.2.1, by rw [hk]; exact h.2.2⟩
  | some i =>
    obtain ⟨k, ho, hi, hu⟩ := h
    exact ⟨k, ho, hi, by rw [hu, hc, hk]⟩

/-! ### Every step follows its request -/

theorem sendWrite_follows {old : Word} {turn remaining : ℕ} {job : Job}
    {copy : Option (List UInt8)} {o : WriteOutcome} :
    io.Follows (sendWrite cfg w io old turn remaining job copy o).io
      ((Frame.sendInLoop (.write old turn remaining) job copy).request cfg io (.write o)) := by
  have hwrite : io.Follows { io with kernel := io.kernel.write o } none := Io.follows_write rfl rfl
  unfold sendWrite
  simp only [Frame.request]
  by_cases hret : 0 ≤ o.ret
  · -- the request looks at failed writes only
    have hok : ¬(o.ret < 0 ∧ cfg.kind = .ssl ∧ o.err = .wantRead) := fun h => absurd h.1 hret.not_gt
    rw [if_pos hret, if_neg hok]
    split
    · dsimp only
      rw [sendEpilogue_io]
      exact hwrite
    · exact hwrite
  · rw [if_neg hret]
    have hneg : o.ret < 0 := not_le.mp hret
    cases hk : cfg.kind <;> cases he : o.err <;> simp only [hneg, reduceCtorEq, and_self,
      and_false, false_and, if_true, if_false]
    case ssl.wantRead => exact Io.follows_update (.inr ⟨o, rfl⟩) rfl
    all_goals first
      | exact hwrite
      | (rw [sendEpilogue_io]; exact hwrite)

theorem sendQueue_follows {old : Word} {turn remaining : ℕ} {nwrote : ℤ} {job : Job}
    {copy : Option (List UInt8)} {inp : Input} :
    io.Follows (sendQueue cfg w io old turn nwrote remaining job copy).io
      ((Frame.sendInLoop (.queue old turn nwrote remaining) job copy).request cfg io inp) := by
  obtain ⟨b, hb, -⟩ := freshBuffer_append cfg remaining (job.bytes copy io.mem nwrote remaining)
  unfold sendQueue
  simp only [Frame.request, hb, sendEpilogue_io]
  split
  · exact Io.follows_same rfl rfl
  · exact Io.follows_update (.inl rfl) rfl

theorem sendLoopStep_follows {job : Job} {copy : Option (List UInt8)} {pc : SendLoopPc}
    {inp : Input} {e : Effect} (h : sendLoopStep cfg w io job copy pc inp = some e) :
    io.Follows e.io ((Frame.sendInLoop pc job copy).request cfg io inp) := by
  have hsame : io.Follows io none := Io.follows_same rfl rfl
  unfold sendLoopStep at h
  split at h
  case h_1 =>
    cases h
    refine hsame.congr ?_ ?_ <;> dsimp only <;> (repeat' split) <;>
      first
        | rfl
        | rw [sendEpilogue_io]
  case h_2 =>
    split at h <;> cases h
    exact sendWrite_follows
  case h_3 => cases h
  case h_4 => cases h; exact sendQueue_follows
  all_goals (repeat' split at h) <;> cases h <;> exact hsame

theorem popFront_io (mode : DrainMode) :
    (popFront cfg w io mode).io.channel = io.channel ∧
      (popFront cfg w io mode).io.kernel = io.kernel := by
  unfold popFront
  split
  · split <;> exact ⟨rfl, rfl⟩
  · exact ⟨rfl, rfl⟩

theorem drainStep_io (mode : DrainMode) :
    (drainStep cfg w io mode).io.channel = io.channel ∧
      (drainStep cfg w io mode).io.kernel = io.kernel := by
  unfold drainStep
  split
  · split <;> exact ⟨rfl, rfl⟩
  · split
    · exact ⟨rfl, rfl⟩
    · split
      · exact popFront_io mode
      · exact ⟨rfl, rfl⟩

theorem drainWriteStep_follows {mode : DrainMode} {left : ℤ} {b : OutBuf} {bs : List OutBuf}
    {o : WriteOutcome} :
    io.Follows (drainWriteStep cfg w io mode left b bs o).io
      ((Frame.handler (.drainWrite mode left)).request cfg io (.write o)) := by
  have hwrite : io.Follows { io with kernel := io.kernel.write o } none := Io.follows_write rfl rfl
  have hfront : ∀ out, io.Follows { io with kernel := io.kernel.write o, outputBuffers := out } none :=
    fun out => Io.follows_write rfl rfl
  unfold drainWriteStep
  simp only [Frame.request]
  by_cases hret : 0 < o.ret
  · -- the request looks at failed writes only
    rw [if_pos hret, if_neg fun h => absurd h.1 hret.not_ge, if_neg fun h => absurd h.1 hret.not_ge]
    split
    · exact hwrite
    · split
      · exact hfront _
      · split
        · exact (hfront _).congr (popFront_io mode).1 (popFront_io mode).2
        · exact hfront _
  · rw [if_neg hret]
    have hle : o.ret ≤ 0 := not_lt.mp hret
    cases hk : cfg.kind <;> cases he : o.err <;> cases mode <;>
      simp only [hle, reduceCtorEq, and_self, and_false, false_and, true_and, if_true, if_false]
    case ssl.wouldBlock.finish =>
      cases hw : io.channel.isWriting
      · exact Io.follows_update (.inr ⟨o, rfl⟩) rfl
      · exact hwrite
    case ssl.wantRead.out => exact Io.follows_update (.inr ⟨o, rfl⟩) rfl
    case ssl.wantRead.finish => exact Io.follows_update (.inr ⟨o, rfl⟩) rfl
    all_goals exact hwrite

theorem epInStep_follows {n : ℕ} {r : ReadOutcome} :
    io.Follows (epInStep cfg w io n r).io
      ((Frame.handler (.epIn n)).request cfg io (.read r)) := by
  have hsame : io.Follows io none := Io.follows_same rfl rfl
  cases r with
  | wantWrite =>
    cases hk : cfg.kind <;> simp only [epInStep, Frame.request, hk, reduceCtorEq, if_true, if_false]
    · exact hsame
    · exact Io.follows_update (.inl rfl) rfl
  | interrupted => cases hk : cfg.kind <;> simp only [epInStep, Frame.request, hk] <;> exact hsame
  | _ => exact hsame

theorem finishReadStep_io (n : ℕ) (r : ReadOutcome) : (finishReadStep cfg w io n r).io = io := by
  cases r with
  | interrupted => cases hk : cfg.kind <;> simp only [finishReadStep, hk] <;> rfl
  | _ => rfl

theorem handlerStep_follows {pc : HandlerPc} {inp : Input} {e : Effect}
    (h : handlerStep cfg w io pc inp = some e) :
    io.Follows e.io ((Frame.handler pc).request cfg io inp) := by
  have hsame : io.Follows io none := Io.follows_same rfl rfl
  unfold handlerStep at h
  split at h
  case h_5 => cases h; exact epInStep_follows
  case h_7 =>
    simp only [Frame.request]
    by_cases hout : io.outputBuffers.isEmpty = true
    · rw [if_pos hout] at h ⊢
      cases h
      exact Io.follows_update (.inl rfl) rfl
    · rw [if_neg hout] at h ⊢
      cases h
      exact hsame
  case h_8 => cases h; exact hsame.congr (drainStep_io _).1 (drainStep_io _).2
  case h_9 =>
    split at h
    · cases h
    · split at h <;> cases h
      exact drainWriteStep_follows
  case h_12 =>
    cases h
    rw [finishReadStep_io]
    exact hsame
  case h_21 =>
    cases h
    simp only [Frame.request]
    split
    · exact hsame
    · exact Io.follows_update (.inl rfl) rfl
  case h_22 =>
    simp only [Frame.request]
    by_cases hreads : (io.reading || io.channel.isReading) = true
    · rw [if_pos hreads] at h ⊢
      cases h
      exact Io.follows_update (.inl rfl) rfl
    · rw [if_neg hreads] at h ⊢
      cases h
      exact hsame
  all_goals first
    | (cases h; done)
    | (cases h; exact Io.follows_same rfl rfl)
    | (split at h <;> cases h <;> exact hsame)

theorem frameStep_follows {f : Frame} {inp : Input} {e : Effect} (hf : f ≠ .hup .close)
    (h : frameStep cfg w io f inp = some e) : io.Follows e.io (f.request cfg io inp) := by
  have hsame : io.Follows io none := Io.follows_same rfl rfl
  cases f with
  | user => cases h
  | call c k =>
    obtain ⟨ce, -, rfl⟩ := Option.map_eq_some_iff.mp h
    exact hsame
  | sendInLoop pc job copy => exact sendLoopStep_follows h
  | shutdownInLoop =>
    cases h
    exact hsame
  | hup pc =>
    cases h
    cases pc with
    | close => exact absurd rfl hf
    | free => exact Io.follows_same rfl rfl
    | _ => simp only [hupStep]; (repeat' split) <;> exact hsame
  | delay pc =>
    cases h
    cases pc <;> simp only [delayStep] <;> (repeat' split) <;> exact hsame
  | handler pc => exact handlerStep_follows h

/-! ### The tie -/

/-- While the descriptor is open, the channel is tied whenever it is registered. -/
def Io.Tied (io : Io) : Prop :=
  io.kernel.isOpen = true →
    io.kernel.interest.isSome = io.channel.added ∧ io.channel.tied = io.channel.added

theorem Kernel.ctl_interest {k : Kernel} (h : k.isOpen = true) (op : CtlOp) (ev : Interest) :
    (k.ctl op ev).interest = if op = .del then none else some ev := by
  unfold Kernel.ctl
  rw [if_pos h]
  cases op <;> rfl

/-- `updateChannel` on a channel that is registered and tied: it stays so, or it listens for nothing any
more and is neither. -/
theorem Channel.updateChannel_tied {c : Channel} {k : Kernel} (hopen : k.isOpen = true)
    (hadded : c.added = true) (htied : c.tied = true) :
    (c.updateChannel k).2.interest.isSome = (c.updateChannel k).1.added ∧
      (c.updateChannel k).1.tied = (c.updateChannel k).1.added ∧
      ((c.updateChannel k).1.added = true ↔ c.listen ≠ .none) := by
  unfold Channel.updateChannel
  rw [if_neg (by simp [hadded])]
  by_cases h0 : c.listen = .none
  · rw [if_pos h0, Kernel.ctl_interest hopen]
    exact ⟨rfl, rfl, fun h => absurd h Bool.false_ne_true, fun h => absurd h0 h⟩
  · rw [if_neg h0, Kernel.ctl_interest hopen]
    exact ⟨hadded.symm, htied.trans hadded.symm, fun _ => h0, fun _ => hadded⟩

/-- `updateChannel` on a channel that was taken out registers it, and leaves the tie alone. -/
theorem Channel.updateChannel_absent {c : Channel} {k : Kernel} (hopen : k.isOpen = true)
    (hadded : c.added = false) :
    (c.updateChannel k).2.interest.isSome = true ∧ (c.updateChannel k).1.tied = c.tied := by
  unfold Channel.updateChannel
  rw [if_pos (by simp [hadded]), Kernel.ctl_interest hopen]
  exact ⟨rfl, rfl⟩

/-- The two steps that go wrong: a call that registers the channel again after it was taken out, and one
that takes it out while an event of it waits to be dispatched. -/
def Conn.detaches (cfg : Config) (s : Conn ι) : Action ι → Bool
  | .loop (.step inp) =>
    match s.loop with
    | [] => false
    | f :: _ =>
      match f.request cfg s.io inp with
      | none => false
      | some i =>
        s.io.kernel.isOpen && (!s.io.channel.added || i == .none && s.ready.isSome)
  | _ => false

/-- While the descriptor is open: the channel is tied to the connection whenever it is registered in
epoll, and whenever an event of it is about to be dispatched. -/
def Conn.Tied (s : Conn ι) : Prop :=
  s.io.kernel.isOpen = true →
    (s.io.kernel.interest.isSome = true → s.io.channel.tied = true) ∧
      (s.ready.isSome = true → s.io.channel.tied = true)

/-- What holds in every state of a run whose steps do not detach. -/
structure Conn.Held (s : Conn ι) : Prop where
  tied : s.io.Tied
  ready : s.io.kernel.isOpen = true → s.ready.isSome = true → s.io.channel.added = true

variable {s s' : Conn ι}

theorem Conn.Held.spec (h : s.Held) : s.Tied := by
  intro hopen
  obtain ⟨hint, htied⟩ := h.tied hopen
  refine ⟨fun hi => ?_, fun hr => ?_⟩
  · rw [htied, ← hint]
    exact hi
  · rw [htied]
    exact h.ready hopen hr

/-- Steps that leave channel and registration alone and report no event keep the tie. -/
theorem Conn.Held.congr (h : s.Held) (hc : s'.io.channel = s.io.channel)
    (hopen : s'.io.kernel.isOpen = s.io.kernel.isOpen)
    (hint : s'.io.kernel.interest = s.io.kernel.interest)
    (hr : s'.ready.isSome = true → s.ready.isSome = true ∨ s.io.kernel.interest.isSome = true) :
    s'.Held := by
  refine ⟨fun ho => ?_, fun ho hready => ?_⟩
  · rw [hc, hint]
    exact h.tied (hopen ▸ ho)
  · rw [hc]
    rcases hr hready with hready | hsome
    · exact h.ready (hopen ▸ ho) hready
    · rw [← (h.tied (hopen ▸ ho)).1]
      exact hsome

theorem Conn.Held.keep (h : s.Held) (hio : s'.io = s.io) (hr : s'.ready = s.ready) : s'.Held :=
  h.congr (by rw [hio]) (by rw [hio]) (by rw [hio]) fun hr' => .inl (hr ▸ hr')

/-- A step that calls `updateChannel` while the descriptor is open. -/
theorem Conn.Held.update {f : Frame} {rest : List Frame} {inp : Input} {e : Effect} {i : Interest}
    (h : s.Held) (hl : s.loop = f :: rest) (hreq : f.request cfg s.io inp = some i)
    (hsafe : s.detaches cfg (.loop (.step inp)) = false) (he : s.io.Follows e.io (some i)) :
    (s.apply rest e).Held := by
  obtain ⟨k, hopen, hint, hu⟩ := he
  have hc := congrArg Prod.fst hu
  have hk := congrArg Prod.snd hu
  have hko : e.io.kernel.isOpen = s.io.kernel.isOpen := by
    rw [← hopen, ← Channel.updateChannel_isOpen { s.io.channel with listen := i } k]
    exact congrArg Kernel.isOpen hk.symm
  simp only [Conn.detaches, hl, hreq] at hsafe
  by_cases ho : s.io.kernel.isOpen = true
  · rw [ho, Bool.true_and, Bool.or_eq_false_iff, Bool.not_eq_false'] at hsafe
    obtain ⟨hadded, hready⟩ := hsafe
    have htied : s.io.channel.tied = true := by rw [(h.tied ho).2, hadded]
    obtain ⟨hi, ht, hne⟩ := Channel.updateChannel_tied
      (c := { s.io.channel with listen := i }) (hopen.trans ho) hadded htied
    refine ⟨fun _ => ?_, fun _ hr => ?_⟩
    · show e.io.kernel.interest.isSome = e.io.channel.added ∧
        e.io.channel.tied = e.io.channel.added
      rw [hu] at hi ht
      exact ⟨hi, ht⟩
    · show e.io.channel.added = true
      rw [hu] at hne
      refine hne.mpr fun h0 => ?_
      have hr' : s.ready.isSome = true := hr
      rw [hr', Bool.and_true, beq_eq_false_iff_ne] at hready
      exact hready h0
  · have hclosed : (s.apply rest e).io.kernel.isOpen ≠ true := by
      show e.io.kernel.isOpen ≠ true
      rw [hko]
      exact ho
    exact ⟨fun ho' => absurd ho' hclosed, fun ho' => absurd ho' hclosed⟩

theorem hupClose_isOpen (cfg : Config) (w : Word) (io : Io) :
    (hupStep cfg w io .close).io.kernel.isOpen = false := by
  cases hk : cfg.kind <;> simp only [hupStep, hk] <;> rfl

theorem userCall_io (api : Api) : (s.userCall api).io = s.io ∧ (s.userCall api).ready = s.ready := by
  cases api <;> exact ⟨rfl, rfl⟩

variable [DecidableEq ι]

theorem invoke_io (t : ι) (api : Api) :
    (s.invoke t api).io = s.io ∧ (s.invoke t api).ready = s.ready := by
  cases api <;> exact ⟨rfl, rfl⟩

theorem afterCall_ready (t : ι) (e : CallEffect) : (s.afterCall t e).ready = s.ready := by
  unfold Conn.afterCall
  dsimp only
  split <;> rfl

theorem Conn.Held.step {a : Action ι} (h : s.Held) (hsafe : s.detaches cfg a = false)
    (hs : Tcp.step cfg s a = some s') : s'.Held := by
  cases step_cases hs with
  | @frame inp f rest e hl he =>
    by_cases hf : f = .hup .close
    · -- the step closes the descriptor
      subst hf
      rw [frameStep, Option.some.injEq] at he
      have hclosed : (s.apply rest e).io.kernel.isOpen = false := by
        rw [← he]
        exact hupClose_isOpen cfg s.word s.io
      rw [← Bool.not_eq_true] at hclosed
      exact ⟨fun ho => absurd ho hclosed, fun ho => absurd ho hclosed⟩
    · have hfollows := frameStep_follows hf he
      cases hreq : f.request cfg s.io inp with
      | none =>
        rw [hreq] at hfollows
        obtain ⟨hc, hopen, hint⟩ := hfollows
        exact Conn.Held.congr h hc hopen hint fun hr => .inl hr
      | some i =>
        rw [hreq] at hfollows
        exact h.update hl hreq hsafe hfollows
  | poll hl hr hi hm => exact h.congr rfl rfl rfl fun _ => .inr hi
  | dispatch hl hr => exact h.congr rfl rfl rfl fun hr' => absurd hr' (by simp)
  | invoke ht => exact h.keep (invoke_io _ _).1 (invoke_io _ _).2
  | userCall hl => exact h.keep (userCall_io _).1 (userCall_io _).2
  | call ht he => exact h.keep (afterCall_io _ _) (afterCall_ready _ _)
  | _ => exact h.congr rfl rfl rfl fun hr => .inl hr

/-- A step that detaches leaves the channel registered, or with an event to dispatch, and not tied. -/
theorem Conn.Held.not_detaches {a : Action ι} (h : s.Held) (hs : Tcp.step cfg s a = some s')
    (htied : s'.Tied) : s.detaches cfg a = false := by
  rw [← Bool.not_eq_true]
  intro hd
  cases step_cases hs with
  | @frame inp f rest e hl he =>
    simp only [Conn.detaches, hl] at hd
    cases hreq : f.request cfg s.io inp with
    | none =>
      rw [hreq] at hd
      exact absurd hd Bool.false_ne_true
    | some i =>
      simp only [hreq, Bool.and_eq_true, Bool.or_eq_true, Bool.not_eq_true'] at hd
      obtain ⟨ho, hd⟩ := hd
      have hf : f ≠ .hup .close := by
        intro hf
        rw [hf] at hreq
        exact absurd hreq (by simp [Frame.request])
      have hfollows := frameStep_follows hf he
      rw [hreq] at hfollows
      obtain ⟨k, hopen, hint, hu⟩ := hfollows
      have hko : e.io.kernel.isOpen = true := by
        rw [← ho, ← hopen, ← Channel.updateChannel_isOpen { s.io.channel with listen := i } k, hu]
      obtain ⟨hreg, hev⟩ := htied hko
      have hsame := (h.tied ho).2
      rcases hd with hadded | ⟨hi, hready⟩
      · -- registered again, by nobody who ties
        obtain ⟨hsome, ht⟩ := Channel.updateChannel_absent
          (c := { s.io.channel with listen := i }) (hopen.trans ho) hadded
        rw [hu] at hsome ht
        have hnow : e.io.channel.tied = true := hreg hsome
        rw [hnow] at ht
        rw [hadded] at hsame
        exact absurd (ht.trans hsame) (by simp)
      · -- taken out with an event waiting
        have hadded := h.ready ho hready
        obtain ⟨-, ht, hne⟩ := Channel.updateChannel_tied
          (c := { s.io.channel with listen := i }) (hopen.trans ho) hadded (hsame.trans hadded)
        rw [hu] at ht hne
        have hnow : e.io.channel.tied = true := hev hready
        exact hne.mp (ht ▸ hnow) (eq_of_beq hi)
  | _ => exact absurd hd Bool.false_ne_true

omit [DecidableEq ι] in
theorem held_init (rdhupPhrase isIoChannel ssl : Bool) (mem : ℤ → UInt8) :
    (Conn.init ι rdhupPhrase isIoChannel ssl mem).Held :=
  ⟨fun _ => ⟨rfl, rfl⟩, fun _ hr => absurd hr Bool.false_ne_true⟩

/-- **A registered channel is tied to its connection.**  In every state that a run passes through before
the descriptor is closed, the channel is tied whenever it is registered in epoll and whenever an event
of it is about to be dispatched, exactly when no step of the run detaches. -/
theorem registered_channel_tied (cfg : Config) (rdhupPhrase isIoChannel ssl : Bool)
    (mem : ℤ → UInt8) (as : List (Action ι)) (s : Conn ι)
    (h : run (step cfg) (Conn.init ι rdhupPhrase isIoChannel ssl mem) as = some s) :
    Along (step cfg) (fun t a => t.detaches cfg a = false)
        (Conn.init ι rdhupPhrase isIoChannel ssl mem) as ↔
      Throughout (step cfg) Conn.Tied (Conn.init ι rdhupPhrase isIoChannel ssl mem) as := by
  have hinit := held_init (ι := ι) rdhupPhrase isIoChannel ssl mem
  refine along_iff_throughout _ Conn.Held Conn.Tied ?_ ?_ hinit hinit.spec h
  · intro t a t' hheld hsafe ht
    have hheld' := hheld.step hsafe ht
    exact ⟨hheld', hheld'.spec⟩
  · intro t a t' hheld ht htied
    exact hheld.not_detaches ht htied

/-- Reading is stopped and started again while a refused message keeps the channel registered, which is
then reported writable. -/
def stopWhileWritingRun : List (Action Unit) :=
  [.loop (.user (.send .piece 0 1)), .loop (.step .none), .loop (.step .none), .loop (.step .none),
    .loop (.step .none), .loop (.step (.write ⟨-1, .wouldBlock, true, false⟩)), .loop (.step .none),
    .loop (.step .none), .loop (.step .none), .loop (.step .none), .loop (.user .stopRead),
    .loop (.step .none), .loop (.user .startRead), .loop (.step .none), .space, .loop .ret,
    .loop (.poll ⟨false, false, false, false, true⟩)]

theorem registered_channel_tied_stop_while_writing :
    Throughout (step plainConfig) Conn.Tied (Conn.init Unit false false false fun _ => 0)
      stopWhileWritingRun :=
  have hrun : run (step plainConfig) (Conn.init Unit false false false fun _ => 0)
      stopWhileWritingRun = some _ := rfl
  (registered_channel_tied plainConfig false false false (fun _ => 0) stopWhileWritingRun _ hrun).mp
    (by decide)

/-- The connection callback stops reading and starts it again: the channel is registered and reports
data, and `HandleEvent` finds it untied. -/
theorem restarted_not_tied :
    ∃ s, run (step plainConfig) (Conn.init Unit false false false fun _ => 0)
        [.loop (.user .stopRead), .loop (.step .none), .loop (.user .startRead), .loop (.step .none),
          .loop .ret, .loop (.poll ⟨false, false, false, true, false⟩)] = some s ∧
      s.io.kernel.isOpen = true ∧ s.io.kernel.interest = some ⟨true, false⟩ ∧
      s.ready = some ⟨false, false, false, true, false⟩ ∧ s.io.channel.tied = false :=
  ⟨_, rfl, rfl, rfl, rfl, rfl⟩

end KwNet.Tcp
