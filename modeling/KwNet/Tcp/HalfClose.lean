import KwNet.Tcp.Handlers
import KwNet.Tcp.Reading

/-!
# Unread bytes when the peer hangs up

The socket of an established plain connection holds some bytes and then the peer's FIN, and the channel
dispatches a mask with `EPOLLRDHUP` or `EPOLLHUP` and without `EPOLLERR`.

* `FromSocket` — the reads get these bytes, in any pieces, and then the end of the stream;
* `Passed` — the bytes were passed to `messageCallback_`;
* `SparesInput` — the step does not close, or fail an assertion, ahead of the reads;
* **`hangup_delivers`** — the bytes are passed on before the connection is closed exactly in the runs of
  such steps.
-/

namespace KwNet.Tcp

open KwNet.Lib KwNet.Memory

/-- The reads take what the socket holds; nothing but a signal interrupts them. -/
def FromSocket (unread : List UInt8) (s : Receipt) (x : Delivery) : Prop :=
  match s.visit.frames, x.tick.inp with
  | f :: _, .read r =>
    f.reads = true →
      match r with
      | .bytes _ => s.received ++ x.data <+: unread
      | .eof => s.received = unread
      | .interrupted => True
      | _ => False
  | _, _ => True

/-- All of it was passed on. -/
def Passed (unread : List UInt8) (log : List Notice) : Prop :=
  unread = [] ∨ ∃ content, .message content ∈ log ∧ unread <:+ content

/-- The bytes are passed on before `handle_ep_hup` is called, and at the latest when the dispatch is over. -/
def PassesOn (unread : List UInt8) (s : Receipt) : Prop :=
  (∀ pre post, s.log = pre ++ .hup :: post → Passed unread pre) ∧
    (s.visit.frames = [] ∨ s.visit.crashed = true → Passed unread s.log)

/-- The step is not the handler of `EPOLLHUP`, and `handle_ep_out` neither closes in it nor fails the
assertion of `retrieve`. -/
def Spares (s : Receipt) (x : Delivery) : Prop :=
  match s.visit.frames, s.visit.io.outputBuffers, x.tick.inp with
  | .handler .eventHup :: _, _, _ => False
  | .handler (.drain .out) :: _, [], _ => s.visit.io.rdhupPhrase = false
  | .handler (.drainWrite .out _) :: _, b :: _, .write o =>
    0 < o.ret ∧ o.ret ≤ b.buf.readableBytes ∨ o.ret ≤ 0 ∧ (o.err = .wouldBlock ∨ o.err = .interrupted)
  | _, _, _ => True

/-- Something is unread and was not passed on yet: the step spares it. -/
def SparesInput (unread : List UInt8) (s : Receipt) (x : Delivery) : Prop :=
  unread = [] ∨ s.log ≠ [] ∨ Spares s x

instance (s : Receipt) (x : Delivery) : Decidable (Spares s x) := by
  unfold Spares
  split <;> infer_instance

instance (unread : List UInt8) (s : Receipt) (x : Delivery) : Decidable (SparesInput unread s x) :=
  inferInstanceAs (Decidable (_ ∨ _ ∨ _))

instance (unread : List UInt8) (s : Receipt) (x : Delivery) : Decidable (FromSocket unread s x) := by
  unfold FromSocket
  split
  · refine @instDecidableForall _ _ inferInstance ?_
    split <;> infer_instance
  · infer_instance

variable {cfg : Config} {s s' : Receipt} {x : Delivery} {f : Frame} {rest : List Frame} {unread : List UInt8}

/-- A step of a frame that does not read. -/
theorem receipt_quiet (hf : s.visit.frames = f :: rest) (hreads : f.reads = false) (hloop : f.inLoop = true)
    (hs : s.step cfg x = some s') :
    s.visit.crashed = false ∧
    ∃ e, frameStep cfg s.visit.word (s.visit.io.free x.tick.space) f x.tick.inp = some e ∧
      s'.visit = s.visit.apply f rest x.tick.inp e ∧ s'.input = s.input ∧ s'.received = s.received ∧
      s'.log = s.log ++ f.calls s.input e.frames := by
  obtain ⟨filled, v, hfilled, hv, rfl⟩ := receipt_cases hf hs
  obtain ⟨hcrash, e, he, rfl⟩ := visit_frame hf hloop hv
  have hnone : filled = (s.input, []) := by
    unfold Frame.fills at hfilled
    rw [hreads] at hfilled
    split at hfilled
    · rw [if_neg Bool.false_ne_true, Option.some.injEq] at hfilled
      exact hfilled.symm
    · exact (Option.some.inj hfilled).symm
  rw [hnone]
  refine ⟨hcrash, e, he, rfl, rfl, List.append_nil _, ?_⟩
  show s.log ++ f.calls s.input (List.take ((e.frames ++ rest).length - rest.length) (e.frames ++ rest)) = _
  rw [List.length_append, Nat.add_sub_cancel, List.take_left']
  rfl

/-- The handler that the mask asks for behind `handle_ep_out`. -/
def Mask.last (m : Mask) : Frame := if m.hup then .handler .eventHup else .handler .eventRdhup

/-- Where the dispatch stands before the reads are over. -/
inductive Ahead (m : Mask) (unread : List UInt8) (s : Receipt) : Prop
  | event (hf : s.visit.frames = [.handler (.event m)]) (hreceived : s.received = [])
  /-- `handle_ep_out` runs first. -/
  | out (hf : s.visit.frames = [.handler .eventOut, m.last] ∨ s.visit.frames = [.handler .epOut, m.last] ∨
      s.visit.frames = [.handler (.drain .out), m.last] ∨
      ∃ left, s.visit.frames = [.handler (.drainWrite .out left), m.last]) (hreceived : s.received = [])
  | last (hf : s.visit.frames = [m.last]) (hreceived : s.received = [])
  | rdhup (hf : s.visit.frames = [.handler .rdhup] ∨ (∃ old, s.visit.frames = [.handler (.rdhupAwait old)]) ∨
      s.visit.frames = [.handler .rdhupBlocked]) (hreceived : s.received = [])
  | reading (hf : s.visit.frames = [ReadLoop.finish.frame s.received.length])
      (hread : s.received <:+ s.input.readable)

/-- What holds between the steps. -/
inductive HangupInv (m : Mask) (unread : List UInt8) (s : Receipt) : Prop
  | ahead (h : Ahead m unread s) (hlog : s.log = []) (hvalid : s.input.Valid) (hcrash : s.visit.crashed = false)
      (hcallbacks : s.visit.io.channel.callbacks = true)
  | past (hf : s.visit.frames.all Frame.afterRead = true) {content : List UInt8} {more : List Notice}
      (hlog : s.log = .message content :: more) (hsuffix : unread <:+ content)

variable {m : Mask}

theorem HangupInv.passesOn (h : HangupInv m unread s) : PassesOn unread s := by
  cases h with
  | ahead h hlog _ hcrash _ =>
    refine ⟨fun pre post hpre => ?_, fun hend => ?_⟩
    · rw [hlog] at hpre
      cases pre <;> cases hpre
    · exfalso
      obtain hnil | hc := hend
      · cases h with
        | event hf _ => rw [hnil] at hf; cases hf
        | out hf _ =>
          rw [hnil] at hf
          obtain hf | hf | hf | ⟨left, hf⟩ := hf <;> cases hf
        | last hf _ => rw [hnil] at hf; cases hf
        | rdhup hf _ =>
          rw [hnil] at hf
          obtain hf | ⟨old, hf⟩ | hf := hf <;> cases hf
        | reading hf _ => rw [hnil] at hf; cases hf
      · rw [hcrash] at hc
        cases hc
  | past hf hlog hsuffix =>
    refine ⟨fun pre post hpre => ?_, fun _ => .inr ⟨_, ?_, hsuffix⟩⟩
    · cases pre with
      | nil =>
        rw [List.nil_append, hlog] at hpre
        cases hpre
      | cons a pre =>
        rw [hlog, List.cons_append, List.cons.injEq] at hpre
        exact .inr ⟨_, hpre.1 ▸ List.mem_cons_self, hsuffix⟩
    · rw [hlog]
      exact List.mem_cons_self

/-! ### The steps ahead of the reads -/

/-- The loop thread goes on to where nothing is read yet. -/
theorem HangupInv.go {pc : HandlerPc} {e : Effect} (hlog : s.log = []) (hvalid : s.input.Valid)
    (hcallbacks : s.visit.io.channel.callbacks = true)
    (he : frameStep cfg s.visit.word (s.visit.io.free x.tick.space) (.handler pc) x.tick.inp = some e)
    (hvisit : s'.visit = s.visit.apply (.handler pc) rest x.tick.inp e) (hinput : s'.input = s.input)
    (hlog' : s'.log = s.log ++ (Frame.handler pc).calls s.input e.frames)
    (hcalls : (Frame.handler pc).calls s.input e.frames = []) (hcrash : e.crash = false)
    (hahead : Ahead m unread s') : HangupInv m unread s' := by
  refine .ahead hahead ?_ (hinput ▸ hvalid) ?_ ?_
  · rw [hlog', hlog, hcalls]
    rfl
  · rw [hvisit]
    exact hcrash
  · have hsame := (handlerStep_move (show handlerStep cfg _ _ pc _ = some e from he)).same.callbacks
    rw [hvisit]
    exact hsame.trans hcallbacks

/-- Closing ahead of the reads loses the bytes. -/
theorem not_passesOn_hup (hne : unread ≠ []) (post : List Notice) (hlog : s.log = .hup :: post) :
    ¬PassesOn unread s := by
  intro h
  obtain hnil | ⟨content, hmem, -⟩ := h.1 [] post hlog
  · exact hne hnil
  · cases hmem

/-- So does a failed assertion. -/
theorem not_passesOn_crashed (hne : unread ≠ []) (hlog : s.log = []) (hcrash : s.visit.crashed = true) :
    ¬PassesOn unread s := by
  intro h
  obtain hnil | ⟨content, hmem, -⟩ := h.2 (.inr hcrash)
  · exact hne hnil
  · rw [hlog] at hmem
    cases hmem

theorem Mask.last_cases (m : Mask) : m.hup = true ∧ m.last = .handler .eventHup ∨
    m.hup = false ∧ m.last = .handler .eventRdhup := by
  unfold Mask.last
  by_cases h : m.hup = true
  · rw [if_pos h]
    exact .inl ⟨h, rfl⟩
  · rw [if_neg h]
    exact .inr ⟨Bool.eq_false_iff.mpr h, rfl⟩

theorem spares_iff (hne : unread ≠ []) (hlog : s.log = []) : SparesInput unread s x ↔ Spares s x :=
  (or_iff_right hne).trans (or_iff_right (not_not.mpr hlog))

/-- The dispatch on entry. -/
theorem HangupInv.step_event (herr : m.err = false) (hmask : m.hup = true ∨ m.rdhup = true) (hlog : s.log = [])
    (hvalid : s.input.Valid) (hcallbacks : s.visit.io.channel.callbacks = true)
    (hf : s.visit.frames = [.handler (.event m)]) (hreceived : s.received = []) (hs : s.step cfg x = some s') :
    HangupInv m unread s' := by
  obtain ⟨-, e, he, hvisit, hinput, hreceived', hlog'⟩ := receipt_quiet hf rfl rfl hs
  have hgoto : e = Effect.goto s.visit.word (s.visit.io.free x.tick.space)
      (handleEvent (s.visit.io.free x.tick.space) m) := (Option.some.inj he).symm
  have hevent : ∃ b : Bool, handleEvent (s.visit.io.free x.tick.space) m
      = (if b then [.handler .eventOut] else []) ++ [m.last] := by
    refine ⟨(s.visit.io.free x.tick.space).channel.isIoChannel && !(s.visit.io.free x.tick.space).channel.tied
      && m.epout, ?_⟩
    obtain ⟨hhup, hlast⟩ | ⟨hhup, hlast⟩ := m.last_cases
    · simp [handleEvent, herr, hhup, hlast]
    · have hrdhup : m.rdhup = true := hmask.resolve_left (by rw [hhup]; decide)
      simp [handleEvent, herr, hhup, hlast, hrdhup]
  obtain ⟨b, hb⟩ := hevent
  have hframes : s'.visit.frames = (if b then [.handler .eventOut] else []) ++ [m.last] := by
    rw [hvisit]
    show e.frames ++ [] = _
    rw [List.append_nil, hgoto]
    exact hb
  refine .go hlog hvalid hcallbacks he hvisit hinput hlog' ?_ (by rw [hgoto]; rfl) ?_
  · rw [hgoto]
    show Frame.calls _ _ (handleEvent _ _) = []
    rw [hb]
    obtain ⟨-, hlast⟩ | ⟨-, hlast⟩ := m.last_cases
    all_goals
      rw [hlast]
      cases b <;> rfl
  · cases b with
    | true => exact .out (.inl hframes) (hreceived'.trans hreceived)
    | false => exact .last hframes (hreceived'.trans hreceived)

/-- The last handler of the dispatch: `handle_ep_hup` closes. -/
theorem HangupInv.step_last (hne : unread ≠ []) (hlog : s.log = []) (hvalid : s.input.Valid)
    (hcallbacks : s.visit.io.channel.callbacks = true) (hf : s.visit.frames = [m.last])
    (hreceived : s.received = []) (hs : s.step cfg x = some s') :
    (SparesInput unread s x → HangupInv m unread s') ∧ (PassesOn unread s' → SparesInput unread s x) := by
  obtain ⟨-, hlast⟩ | ⟨-, hlast⟩ := m.last_cases
  · rw [hlast] at hf
    obtain ⟨-, e, he, hvisit, hinput, hreceived', hlog'⟩ := receipt_quiet hf rfl rfl hs
    have hgoto : e = Effect.goto s.visit.word (s.visit.io.free x.tick.space) [.hup .load] := by
      have h : Effect.goto s.visit.word (s.visit.io.free x.tick.space)
        (if s.visit.io.channel.callbacks then [.hup .load] else []) = e := Option.some.inj he
      rw [if_pos hcallbacks] at h
      exact h.symm
    have hno : ¬PassesOn unread s' := by
      refine not_passesOn_hup hne [] ?_
      rw [hlog', hlog, hgoto]
      rfl
    refine ⟨fun hP => ?_, fun hJ => absurd hJ hno⟩
    rw [spares_iff hne hlog, Spares, hf] at hP
    exact hP.elim
  · have hP : SparesInput unread s x := by
      rw [spares_iff hne hlog, Spares, hf, hlast]
      trivial
    rw [hlast] at hf
    obtain ⟨-, e, he, hvisit, hinput, hreceived', hlog'⟩ := receipt_quiet hf rfl rfl hs
    have hgoto : e = Effect.goto s.visit.word (s.visit.io.free x.tick.space) [.handler .rdhup] := by
      have h : Effect.goto s.visit.word (s.visit.io.free x.tick.space)
        (if s.visit.io.channel.callbacks then [.handler .rdhup] else []) = e := Option.some.inj he
      rw [if_pos hcallbacks] at h
      exact h.symm
    refine ⟨fun _ => .go hlog hvalid hcallbacks he hvisit hinput hlog' ?_ (by rw [hgoto]; rfl) (.rdhup (.inl ?_) ?_),
      fun _ => hP⟩
    · rw [hgoto]
      rfl
    · rw [hvisit, hgoto]
      rfl
    · rw [hreceived', hreceived]

/-- `handle_ep_rdhup` up to its reads. -/
theorem HangupInv.step_rdhup (hlog : s.log = []) (hvalid : s.input.Valid)
    (hcallbacks : s.visit.io.channel.callbacks = true)
    (hf : s.visit.frames = [.handler .rdhup] ∨ (∃ old, s.visit.frames = [.handler (.rdhupAwait old)]) ∨
      s.visit.frames = [.handler .rdhupBlocked]) (hreceived : s.received = []) (hs : s.step cfg x = some s') :
    HangupInv m unread s' := by
  have hnext : ∀ pc, s.visit.frames = [.handler pc] → (Frame.handler pc).reads = false → ∀ fs : List Frame,
      frameStep cfg s.visit.word (s.visit.io.free x.tick.space) (.handler pc) x.tick.inp
        = some (Effect.goto s.visit.word (s.visit.io.free x.tick.space) fs) →
      (∃ old, fs = [.handler (.rdhupAwait old)]) ∨ fs = [.handler .rdhupBlocked] ∨ fs = [.handler (.finishRead 0)] →
      HangupInv m unread s' := by
    intro pc hpc hreads fs hstep hfs
    obtain ⟨-, e, he, hvisit, hinput, hreceived', hlog'⟩ := receipt_quiet hpc hreads rfl hs
    obtain rfl := Option.some.inj (hstep.symm.trans he)
    have hframes : s'.visit.frames = fs := by
      rw [hvisit]
      exact List.append_nil _
    have hnone : s'.received = [] := hreceived'.trans hreceived
    refine .go hlog hvalid hcallbacks he hvisit hinput hlog' ?_ rfl ?_
    · obtain ⟨old, rfl⟩ | rfl | rfl := hfs <;> rfl
    · obtain ⟨old, rfl⟩ | rfl | rfl := hfs
      · exact .rdhup (.inr (.inl ⟨old, hframes⟩)) hnone
      · exact .rdhup (.inr (.inr hframes)) hnone
      · refine .reading ?_ ?_
        · rw [hframes, hnone]
          rfl
        · rw [hnone]
          exact List.nil_suffix
  obtain hf | ⟨old, hf⟩ | hf := hf
  · by_cases hconn : has s.visit.word .connecting = true
    · refine hnext _ hf rfl [.handler (.rdhupAwait s.visit.word)] ?_ (.inl ⟨_, rfl⟩)
      rw [frameStep, handlerStep, if_pos hconn]
    · refine hnext _ hf rfl [.handler (.finishRead 0)] ?_ (.inr (.inr rfl))
      rw [frameStep, handlerStep, if_neg hconn]
  · by_cases hblocks : futexBlocks s.visit.word old = true
    · refine hnext _ hf rfl [.handler .rdhupBlocked] ?_ (.inr (.inl rfl))
      rw [frameStep, handlerStep, if_pos hblocks]
    · refine hnext _ hf rfl [.handler (.finishRead 0)] ?_ (.inr (.inr rfl))
      rw [frameStep, handlerStep, if_neg hblocks]
  · obtain ⟨-, e, he, -⟩ := receipt_quiet hf rfl rfl hs
    cases he

/-- The head of the output loop ahead of the reads. -/
theorem HangupInv.step_drain (hk : cfg.kind = .plain) (hne : unread ≠ []) (hlog : s.log = [])
    (hvalid : s.input.Valid) (hcallbacks : s.visit.io.channel.callbacks = true)
    (hf : s.visit.frames = [.handler (.drain .out), m.last]) (hreceived : s.received = [])
    (hs : s.step cfg x = some s') :
    (SparesInput unread s x → HangupInv m unread s') ∧ (PassesOn unread s' → SparesInput unread s x) := by
  obtain ⟨-, e, he, hvisit, hinput, hreceived', hlog'⟩ := receipt_quiet hf rfl rfl hs
  have hgoto : drainStep cfg s.visit.word (s.visit.io.free x.tick.space) .out = e := Option.some.inj he
  have hframes : s'.visit.frames = e.frames ++ [m.last] := by rw [hvisit]; rfl
  have hnone : s'.received = [] := hreceived'.trans hreceived
  cases hout : s.visit.io.outputBuffers with
  | nil =>
    have hnil : (s.visit.io.free x.tick.space).outputBuffers = [] := hout
    have hcond : SparesInput unread s x ↔ s.visit.io.rdhupPhrase = false := by
      rw [spares_iff hne hlog, Spares, hf, hout]
    rw [hcond]
    simp only [drainStep, hnil] at hgoto
    by_cases hphrase : s.visit.io.rdhupPhrase = true
    · rw [if_pos (show (s.visit.io.free x.tick.space).rdhupPhrase = true from hphrase)] at hgoto
      have hno : ¬PassesOn unread s' := by
        refine not_passesOn_hup hne [] ?_
        rw [hlog', hlog, ← hgoto]
        rfl
      refine ⟨fun hP => ?_, fun hJ => absurd hJ hno⟩
      rw [hphrase] at hP
      cases hP
    · rw [if_neg (show ¬(s.visit.io.free x.tick.space).rdhupPhrase = true from hphrase)] at hgoto
      refine ⟨fun _ => .go hlog hvalid hcallbacks he hvisit hinput hlog' ?_ ?_ (.last ?_ hnone),
        fun _ => Bool.eq_false_iff.mpr hphrase⟩
      · rw [← hgoto]
        rfl
      · rw [← hgoto]
        rfl
      · rw [hframes, ← hgoto]
        rfl
  | cons b bs =>
    have hcond : SparesInput unread s x := by
      rw [spares_iff hne hlog, Spares, hf, hout]
      trivial
    obtain ⟨hcrash, hcases⟩ := drainStep_cases hk s.visit.word (s.visit.io.free x.tick.space) .out
    rw [hgoto] at hcrash hcases
    obtain ⟨hnil, -⟩ | ⟨b', bs', -, ⟨-, -, hfs⟩ | ⟨-, hfs, -⟩⟩ := hcases
    · rw [show (s.visit.io.free x.tick.space).outputBuffers = b :: bs from hout] at hnil
      cases hnil
    · refine ⟨fun _ => .go hlog hvalid hcallbacks he hvisit hinput hlog' ?_ hcrash
        (.out (.inr (.inr (.inr ⟨leftOf plainConfig b'.buf, ?_⟩))) hnone), fun _ => hcond⟩
      · rw [hfs]
        rfl
      · rw [hframes, hfs]
        rfl
    · refine ⟨fun _ => .go hlog hvalid hcallbacks he hvisit hinput hlog' ?_ hcrash
        (.out (.inr (.inr (.inl ?_))) hnone), fun _ => hcond⟩
      · rw [hfs]
        rfl
      · rw [hframes, hfs]
        rfl

/-- A write ahead of the reads. -/
theorem HangupInv.step_drainWrite (hk : cfg.kind = .plain) (hne : unread ≠ []) (hlog : s.log = [])
    (hvalid : s.input.Valid) (hcallbacks : s.visit.io.channel.callbacks = true) {left : ℤ}
    (hf : s.visit.frames = [.handler (.drainWrite .out left), m.last]) (hreceived : s.received = [])
    (hs : s.step cfg x = some s') :
    (SparesInput unread s x → HangupInv m unread s') ∧ (PassesOn unread s' → SparesInput unread s x) := by
  obtain ⟨-, e, he, hvisit, hinput, hreceived', hlog'⟩ := receipt_quiet hf rfl rfl hs
  have hframes : s'.visit.frames = e.frames ++ [m.last] := by rw [hvisit]; rfl
  have hnone : s'.received = [] := hreceived'.trans hreceived
  have hgo : (Frame.handler (.drainWrite .out left)).calls s.input e.frames = [] → e.crash = false →
      Ahead m unread s' → HangupInv m unread s' :=
    HangupInv.go hlog hvalid hcallbacks he hvisit hinput hlog'
  obtain ⟨o, b, bs, ho, hcons, -, rfl⟩ := drainWrite_inv he
  have hout : s.visit.io.outputBuffers = b :: bs := hcons
  have hcond : SparesInput unread s x ↔ 0 < o.ret ∧ o.ret ≤ b.buf.readableBytes ∨
      o.ret ≤ 0 ∧ (o.err = .wouldBlock ∨ o.err = .interrupted) := by
    rw [spares_iff hne hlog, Spares, hf, hout, ho]
  rw [hcond]
  by_cases hpos : 0 < o.ret
  · cases hretrieve : b.buf.retrieve o.ret.toNat with
    | none =>
      -- the assertion fails
      have hbig : ¬o.ret ≤ b.buf.readableBytes := by
        rw [Buffer.retrieve] at hretrieve
        intro hle
        rw [if_pos (by omega)] at hretrieve
        cases hretrieve
      simp only [drainWriteStep, if_pos hpos, hretrieve] at hvisit hlog'
      have hno : ¬PassesOn unread s' := by
        refine not_passesOn_crashed hne ?_ ?_
        · rw [hlog', hlog]
          rfl
        · rw [hvisit]
          rfl
      refine ⟨fun hP => ?_, fun hJ => absurd hJ hno⟩
      obtain ⟨-, hle⟩ | ⟨hneg, -⟩ := hP
      · exact absurd hle hbig
      · omega
    | some buf =>
      have hsmall : o.ret ≤ b.buf.readableBytes := by
        rw [Buffer.retrieve, Option.ite_none_right_eq_some] at hretrieve
        omega
      simp only [drainWriteStep, if_pos hpos, hretrieve, hk] at hframes hgo
      refine ⟨fun _ => hgo rfl rfl (.out (.inr (.inr (.inr ⟨left, ?_⟩))) hnone), fun _ => .inl ⟨hpos, hsmall⟩⟩
      rw [hframes]
      rfl
  · have hneg : o.ret ≤ 0 := Int.not_lt.mp hpos
    obtain ⟨hcrash, -, hways⟩ := drainWriteStep_failed hk s.visit.word (s.visit.io.free x.tick.space) .out left b bs hneg
    obtain ⟨herr, hfs⟩ | ⟨herr, hfs⟩ | ⟨hnb, hni, ⟨-, hfs⟩ | ⟨hmode, -⟩⟩ := hways
    · refine ⟨fun _ => hgo ?_ hcrash (.last ?_ hnone), fun _ => .inr ⟨hneg, .inl herr⟩⟩
      · rw [hfs]
        rfl
      · rw [hframes, hfs]
        rfl
    · refine ⟨fun _ => hgo ?_ hcrash (.out (.inr (.inr (.inr ⟨left, ?_⟩))) hnone), fun _ => .inr ⟨hneg, .inr herr⟩⟩
      · rw [hfs]
        rfl
      · rw [hframes, hfs]
        rfl
    · have hno : ¬PassesOn unread s' := by
        refine not_passesOn_hup hne [] ?_
        rw [hlog', hlog, hfs]
        rfl
      refine ⟨fun hP => ?_, fun hJ => absurd hJ hno⟩
      obtain ⟨hp, -⟩ | ⟨-, hb | hi⟩ := hP
      · exact absurd hp hpos
      · exact absurd hb hnb
      · exact absurd hi hni
    · cases hmode

/-- `handle_ep_out` ahead of the reads. -/
theorem HangupInv.step_out (hk : cfg.kind = .plain) (hne : unread ≠ []) (hlog : s.log = [])
    (hvalid : s.input.Valid) (hcallbacks : s.visit.io.channel.callbacks = true)
    (hf : s.visit.frames = [.handler .eventOut, m.last] ∨ s.visit.frames = [.handler .epOut, m.last] ∨
      s.visit.frames = [.handler (.drain .out), m.last] ∨
      ∃ left, s.visit.frames = [.handler (.drainWrite .out left), m.last]) (hreceived : s.received = [])
    (hs : s.step cfg x = some s') :
    (SparesInput unread s x → HangupInv m unread s') ∧ (PassesOn unread s' → SparesInput unread s x) := by
  have hfree : ∀ pc, s.visit.frames = [.handler pc, m.last] → (Frame.handler pc).reads = false →
      SparesInput unread s x → ∀ (io : Io) (fs : List Frame),
      frameStep cfg s.visit.word (s.visit.io.free x.tick.space) (.handler pc) x.tick.inp
        = some (Effect.goto s.visit.word io fs) →
      fs = [] ∨ fs = [.handler .epOut] ∨ fs = [.handler (.drain .out)] →
      (SparesInput unread s x → HangupInv m unread s') ∧ (PassesOn unread s' → SparesInput unread s x) := by
    intro pc hpc hreads hcond io fs hstep hfs
    obtain ⟨-, e, he, hvisit, hinput, hreceived', hlog'⟩ := receipt_quiet hpc hreads rfl hs
    obtain rfl := Option.some.inj (hstep.symm.trans he)
    have hframes : s'.visit.frames = fs ++ [m.last] := by
      rw [hvisit]
      rfl
    refine ⟨fun _ => .go hlog hvalid hcallbacks he hvisit hinput hlog' ?_ rfl ?_, fun _ => hcond⟩
    · obtain rfl | rfl | rfl := hfs <;> rfl
    · obtain rfl | rfl | rfl := hfs
      · exact .last hframes (hreceived'.trans hreceived)
      · exact .out (.inr (.inl hframes)) (hreceived'.trans hreceived)
      · exact .out (.inr (.inr (.inl hframes))) (hreceived'.trans hreceived)
  obtain hf | hf | hf | ⟨left, hf⟩ := hf
  · have hcond : SparesInput unread s x := by
      rw [spares_iff hne hlog, Spares, hf]
      trivial
    refine hfree _ hf rfl hcond (s.visit.io.free x.tick.space) [.handler .epOut] ?_ (.inr (.inl rfl))
    rw [frameStep, handlerStep, if_pos (show (s.visit.io.free x.tick.space).channel.callbacks = true from hcallbacks)]
  · have hcond : SparesInput unread s x := by
      rw [spares_iff hne hlog, Spares, hf]
      trivial
    by_cases hempty : (s.visit.io.free x.tick.space).outputBuffers.isEmpty = true
    · refine hfree _ hf rfl hcond ((s.visit.io.free x.tick.space).setChannel
        ((s.visit.io.free x.tick.space).channel.disableWrite (s.visit.io.free x.tick.space).kernel)) [] ?_ (.inl rfl)
      rw [frameStep, handlerStep, if_pos hempty]
    · refine hfree _ hf rfl hcond (s.visit.io.free x.tick.space) [.handler (.drain .out)] ?_ (.inr (.inr rfl))
      rw [frameStep, handlerStep, if_neg hempty]
  · exact HangupInv.step_drain hk hne hlog hvalid hcallbacks hf hreceived hs
  · exact HangupInv.step_drainWrite hk hne hlog hvalid hcallbacks hf hreceived hs

/-- A read takes what the socket has, and the end of the stream comes with all of it received. -/
theorem HangupInv.step_reading (hk : cfg.kind = .plain) (hne : unread ≠ []) (hlog : s.log = [])
    (hvalid : s.input.Valid) (hcallbacks : s.visit.io.channel.callbacks = true)
    (hf : s.visit.frames = [ReadLoop.finish.frame s.received.length])
    (hread : s.received <:+ s.input.readable) (hsock : FromSocket unread s x) (hs : s.step cfg x = some s') :
    HangupInv m unread s' := by
  have hcallbacks' : s'.visit.crashed = false ∧ s'.visit.io.channel.callbacks = true := by
    obtain ⟨filled, v, -, hv, rfl⟩ := receipt_cases hf hs
    obtain ⟨-, e, he, rfl⟩ := visit_frame hf (ReadLoop.frame_reads _ _).2 hv
    obtain ⟨r, hr⟩ := ReadLoop.frame_inp he
    rw [hr] at he
    have hstep : handlerStep cfg s.visit.word (s.visit.io.free x.tick.space) (.finishRead s.received.length) (.read r)
        = some e := he
    have hsame := (handlerStep_move hstep).same.callbacks
    exact ⟨(read_leads .finish he).1, hsame.trans hcallbacks⟩
  obtain ⟨r, b, hr, hbvalid, hbread, hlen, hinput, hreceived, hlog', hleads⟩ := reading_cases hf hvalid hs
  rw [hlog, List.nil_append] at hlog'
  have hsuffix : s.received ++ r.taken x.data <:+ b.readable := by
    obtain ⟨front, hfront⟩ := hread
    refine ⟨front, ?_⟩
    rw [← List.append_assoc, hfront, hbread]
  have hin : Ahead m unread s' → s'.log = [] → HangupInv m unread s' := fun hahead hnolog =>
    .ahead hahead hnolog (hinput ▸ hbvalid) hcallbacks'.1 hcallbacks'.2
  cases hleads with
  | more k hm hfs =>
    refine hin (.reading ?_ ?_) ?_
    · rw [hfs, hreceived, List.length_append, hlen k hm]
    · rw [hreceived, hinput]
      exact hsuffix
    · rw [hlog', hfs]
      rfl
  | again hnone hcloses hfs =>
    rw [hnone, List.append_nil] at hreceived hsuffix
    refine hin (.reading ?_ ?_) ?_
    · rw [hfs, hreceived]
    · rw [hreceived, hinput]
      exact hsuffix
    · rw [hlog', hfs]
      rfl
  | tells tail hend hcloses hfs htail =>
    -- only the end of the stream ends this loop, and then everything was read
    rw [FromSocket, hf, hr] at hsock
    have hwhat := hsock (ReadLoop.frame_reads .finish _).1
    obtain rfl | rfl | rfl := hend
    · have hall : s.received = unread := hwhat
      rw [show ReadOutcome.eof.taken x.data = [] from rfl, List.append_nil, hall] at hsuffix
      have hpos : 0 < s.received.length := by
        rw [hall]
        exact List.length_pos_iff.mpr hne
      rw [hfs, calls_tells (ReadLoop.frame_reads .finish _).1, if_pos hpos] at hlog'
      refine .past ?_ hlog' hsuffix
      rw [hfs, List.all_append, messageCallback, if_pos hpos]
      obtain rfl | rfl | rfl := htail <;> rfl
    · exact hwhat.elim
    · exact hwhat.elim
  | closes tail hnone hcloses hfs htail =>
    exfalso
    rw [FromSocket, hf, hr] at hsock
    have hwhat := hsock (ReadLoop.frame_reads .finish _).1
    rw [hk] at hcloses
    cases r with
    | eof => cases hcloses
    | bytes k => cases hcloses
    | interrupted => cases hcloses
    | _ => exact hwhat

/-- Past the reads. -/
theorem HangupInv.step_past (hf : s.visit.frames.all Frame.afterRead = true) {content : List UInt8}
    {more : List Notice} (hlog : s.log = .message content :: more) (hsuffix : unread <:+ content)
    (hs : s.step cfg x = some s') : HangupInv m unread s' := by
  cases hfr : s.visit.frames with
  | nil =>
    rw [Receipt.step, hfr] at hs
    cases hs
  | cons f rest =>
    obtain ⟨filled, v, -, hv, rfl⟩ := receipt_cases hfr hs
    have hlog' : s.log ++ f.calls filled.1 (v.frames.take (v.frames.length - rest.length)) =
        .message content :: (more ++ f.calls filled.1 (v.frames.take (v.frames.length - rest.length))) := by
      rw [hlog, List.cons_append]
    exact .past (visit_afterRead hf hv) hlog' hsuffix

/-- A step of the dispatch loses nothing exactly under the condition. -/
theorem HangupInv.step (hk : cfg.kind = .plain) (herr : m.err = false) (hmask : m.hup = true ∨ m.rdhup = true)
    (hne : unread ≠ []) (h : HangupInv m unread s) (hsock : FromSocket unread s x) (hs : s.step cfg x = some s') :
    (SparesInput unread s x → HangupInv m unread s') ∧ (PassesOn unread s' → SparesInput unread s x) := by
  cases h with
  | ahead h hlog hvalid hcrash hcallbacks =>
    cases h with
    | event hf hreceived =>
      refine ⟨fun _ => step_event herr hmask hlog hvalid hcallbacks hf hreceived hs, fun _ => ?_⟩
      rw [spares_iff hne hlog, Spares, hf]
      trivial
    | out hf hreceived => exact step_out hk hne hlog hvalid hcallbacks hf hreceived hs
    | last hf hreceived => exact step_last hne hlog hvalid hcallbacks hf hreceived hs
    | rdhup hf hreceived =>
      refine ⟨fun _ => step_rdhup hlog hvalid hcallbacks hf hreceived hs, fun _ => ?_⟩
      obtain hf | ⟨old, hf⟩ | hf := hf
      all_goals
        rw [spares_iff hne hlog, Spares, hf]
        trivial
    | reading hf hread =>
      refine ⟨fun _ => step_reading hk hne hlog hvalid hcallbacks hf hread hsock hs, fun _ => ?_⟩
      rw [spares_iff hne hlog, Spares, hf]
      trivial
  | past hf hlog hsuffix =>
    refine ⟨fun _ => step_past hf hlog hsuffix hs, fun _ => .inr (.inl ?_)⟩
    rw [hlog]
    exact List.cons_ne_nil _ _

/-- **Hang-up.**  For every amount of unread data, read in any pieces, and every mask without `EPOLLERR`
that has `EPOLLRDHUP` or `EPOLLHUP`: all of it is passed to `messageCallback_` before `handle_ep_hup` is
called, exactly if the dispatch does not come to the handler of `EPOLLHUP`, and `handle_ep_out`, where it
runs first, does not close. -/
theorem hangup_delivers (hk : cfg.kind = .plain) (w : Word) {io : Io} (hcallbacks : io.channel.callbacks = true)
    {input : Buffer} (hvalid : input.Valid) (herr : m.err = false) (hmask : m.hup = true ∨ m.rdhup = true)
    (unread : List UInt8) {xs : List Delivery} {s : Receipt}
    (hrun : run (Receipt.step cfg) (.enter w io input (.handler (.event m))) xs = some s)
    (hsock : Along (Receipt.step cfg) (FromSocket unread) (.enter w io input (.handler (.event m))) xs) :
    Along (Receipt.step cfg) (SparesInput unread) (.enter w io input (.handler (.event m))) xs ↔
      Throughout (Receipt.step cfg) (PassesOn unread) (.enter w io input (.handler (.event m))) xs := by
  by_cases hne : unread = []
  · subst hne
    refine ⟨fun _ bs cs t _ _ => ⟨fun _ _ _ => .inl rfl, fun _ => .inl rfl⟩, fun _ => ?_⟩
    exact hsock.imp fun _ _ _ => .inl rfl
  · have hinit : HangupInv m unread (.enter w io input (.handler (.event m))) :=
      .ahead (.event rfl rfl) rfl hvalid rfl hcallbacks
    refine along_iff_throughout_of (SparesInput unread) (FromSocket unread) (HangupInv m unread) (PassesOn unread)
      ?_ ?_ hinit hinit.passesOn hsock hrun
    · intro s a s' h hQ hP hs
      have hnext := (h.step hk herr hmask hne hQ hs).1 hP
      exact ⟨hnext, hnext.passesOn⟩
    · intro s a s' h hQ hs hJ
      exact (h.step hk herr hmask hne hQ hs).2 hJ

/-- The byte 5 and the peer's FIN, reported with `EPOLLIN | EPOLLRDHUP`. -/
theorem hangup_delivers_rdhup :
    ∃ s, run (Receipt.step plainConfig)
        (.enter established queuedIo (Buffer.ctor 8) (.handler (.event ⟨false, false, true, true, false⟩)))
        [⟨⟨false, .none⟩, []⟩, ⟨⟨false, .none⟩, []⟩, ⟨⟨false, .none⟩, []⟩, ⟨⟨false, .read (.bytes 1)⟩, [5]⟩,
          ⟨⟨false, .read .eof⟩, []⟩] = some s ∧ s.log = [.message [5]] ∧ PassesOn [5] s := by
  have hrun : (run (Receipt.step plainConfig)
      (.enter established queuedIo (Buffer.ctor 8) (.handler (.event ⟨false, false, true, true, false⟩)))
      [⟨⟨false, .none⟩, []⟩, ⟨⟨false, .none⟩, []⟩, ⟨⟨false, .none⟩, []⟩, ⟨⟨false, .read (.bytes 1)⟩, [5]⟩,
        ⟨⟨false, .read .eof⟩, []⟩]).map Receipt.log = some [.message [5]] := by
    decide
  obtain ⟨s, hs, hlog⟩ := Option.map_eq_some_iff.mp hrun
  have hall := (hangup_delivers (show plainConfig.kind = .plain from rfl) established rfl (Buffer.ctor_valid 8)
    (m := ⟨false, false, true, true, false⟩) rfl (.inr rfl) [5] hs (by decide)).mp (by decide)
  exact ⟨s, hs, hlog, hall _ [] s (List.append_nil _).symm hs⟩

/-- The same with `EPOLLHUP`, after our own shutdown: the connection is closed without a read. -/
theorem hangup_discards :
    ∃ s, run (Receipt.step plainConfig)
        (.enter established queuedIo (Buffer.ctor 8) (.handler (.event ⟨false, true, true, true, false⟩)))
        [⟨⟨false, .none⟩, []⟩, ⟨⟨false, .none⟩, []⟩] = some s ∧ s.received = [] ∧ s.log = [.hup] ∧
      ¬PassesOn [5] s := by
  have hrun : (run (Receipt.step plainConfig)
      (.enter established queuedIo (Buffer.ctor 8) (.handler (.event ⟨false, true, true, true, false⟩)))
      [⟨⟨false, .none⟩, []⟩, ⟨⟨false, .none⟩, []⟩]).map (fun s => (s.received, s.log)) = some ([], [.hup]) := by
    decide
  obtain ⟨s, hs, hend⟩ := Option.map_eq_some_iff.mp hrun
  obtain ⟨hreceived, hlog⟩ := Prod.mk.inj hend
  exact ⟨s, hs, hreceived, hlog, not_passesOn_hup (by decide) _ hlog⟩

end KwNet.Tcp
