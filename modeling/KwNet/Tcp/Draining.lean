import KwNet.Tcp.Visit

/-!
# What the plain output loops do with the queue

`handle_ep_out` and the write half of `finish_in_out` take the length of the front buffer once, as `left`,
and never again while the buffer shrinks.

* `DrainKeeps` — every write asks for readable bytes only, no assertion has failed, the accepted bytes and
  the queued ones are those of the start, nothing is written after would-block, and the list is not cleared
  under the loop;
* `LeavesLength` — the step accepts nothing (or leaves as much as the loop asks for), and in `handle_ep_out`
  it is no hard error;
* **`drain_keeps`** — the one holds throughout exactly the runs of the other.
-/

namespace KwNet.Tcp

open KwNet.Lib KwNet.Memory

variable {cfg : Config} {w : Word} {io : Io} {v v' : Visit} {x : Tick}

/-- The output loop has something left to do. -/
def Frame.drains : Frame → Bool
  | .handler .epOut | .handler (.drain _) | .handler (.drainWrite _ _) => true
  | _ => false

/-- Bytes taken off the front buffer move from the queue to the accepted ones. -/
theorem retrieve_pending {b : OutBuf} (bs : List OutBuf) (hb : b.buf.Valid) {n left : ℕ}
    (hn : n ≤ b.buf.readableBytes) (hleft : n ≤ left) :
    ∃ buf, b.buf.retrieve n = some buf ∧ buf.Valid ∧ buf.readableBytes = b.buf.readableBytes - n ∧
      ((b.buf.buf.drop b.buf.readIdx).take left).take n
        ++ (({ b with buf := buf } :: bs : List OutBuf).flatMap fun b => b.buf.readable)
        = (b :: bs).flatMap fun b => b.buf.readable := by
  obtain ⟨buf, hbuf, hvalid, hread⟩ := Buffer.retrieve_spec hb hn
  refine ⟨buf, hbuf, hvalid, ?_, ?_⟩
  · rw [← hvalid.length_readable, hread, List.length_drop, hb.length_readable]
  · have htake : ((b.buf.buf.drop b.buf.readIdx).take left).take n = b.buf.readable.take n := by
      rw [Buffer.readable, List.take_take, List.take_take, Nat.min_eq_left hleft, Nat.min_eq_left hn]
    rw [htake, List.flatMap_cons, List.flatMap_cons, ← List.append_assoc]
    show b.buf.readable.take n ++ buf.readable ++ _ = _
    rw [hread, List.take_append_drop]

/-- What must hold at every point of a plain output loop. -/
structure DrainKeeps (io : Io) (v : Visit) : Prop where
  crashed : v.crashed = false
  request : ∀ mode left, v.frames.head? = some (.handler (.drainWrite mode left)) →
    ∃ b bs, v.io.outputBuffers = b :: bs ∧ countOf left ≤ b.buf.readableBytes
  conserved : v.accepted ++ v.io.pending = io.pending
  stops : (∃ o ∈ v.outcomes, o.ret ≤ 0 ∧ o.err = .wouldBlock) → ∀ f ∈ v.frames, f.drains = false
  /-- The list is not cleared while the loop holds its front buffer. -/
  cleared : .handler .drainClear ∉ v.frames

/-- The write leaves as much in the front buffer as the loop asks for. -/
def LeavesLength (v : Visit) (x : Tick) : Prop :=
  match v.frames.head?, v.io.outputBuffers, x.inp with
  | some (.handler (.drain _)), b :: _, _ =>
    leftOf plainConfig b.buf ≠ 0 → countOf (leftOf plainConfig b.buf) ≤ b.buf.readableBytes
  | some (.handler (.drainWrite mode left)), b :: _, .write o =>
    (0 < o.ret → countOf left + o.ret.toNat ≤ b.buf.readableBytes) ∧
      (o.ret ≤ 0 → mode = .out → o.err = .wouldBlock ∨ o.err = .interrupted)
  | _, _, _ => True

instance (v : Visit) (x : Tick) : Decidable (LeavesLength v x) := by
  unfold LeavesLength
  split <;> infer_instance

/-- The frames on the way out of the loop. -/
def Leaving (fs : List Frame) : Prop :=
  fs = [] ∨ fs = [.hup .load] ∨ fs = [.hup .load, .handler .rdhupEnd] ∨ fs = [.handler .rdhupEnd]

/-- Where the call stands. -/
inductive DrainAt (mode : DrainMode) (v : Visit) : Prop
  | entry (hf : v.frames = [.handler .epOut]) (hmode : mode = .out)
  | head (hf : v.frames = [.handler (.drain mode)])
  | write {left : ℤ} (hf : v.frames = [.handler (.drainWrite mode left)]) (hleft : left ≠ 0)
  | out (hf : Leaving v.frames)

/-- What holds between the steps. -/
structure DrainInv (mode : DrainMode) (io : Io) (v : Visit) : Prop where
  stands : DrainAt mode v
  keeps : DrainKeeps io v
  valid : ∀ b ∈ v.io.outputBuffers, b.buf.Valid

variable {mode : DrainMode}

/-- While the loop runs nothing was refused. -/
theorem DrainKeeps.running (h : DrainKeeps io v) {f : Frame} (hf : f ∈ v.frames) (hdrains : f.drains = true) :
    ¬∃ o ∈ v.outcomes, o.ret ≤ 0 ∧ o.err = .wouldBlock := by
  intro hblock
  have hno := h.stops hblock f hf
  rw [hdrains] at hno
  cases hno

/-- A step that writes nothing. -/
theorem apply_quiet {f : Frame} (rest : List Frame) (inp : Input) {e : Effect} (hf : f.writes = false) :
    (v.apply f rest inp e).outcomes = v.outcomes ∧ (v.apply f rest inp e).accepted = v.accepted := by
  have hnone : f.outcome inp = none := by
    unfold Frame.outcome
    split
    · rw [hf]
      rfl
    · rfl
  refine ⟨?_, ?_⟩
  · show v.outcomes ++ (f.outcome inp).toList = _
    rw [hnone]
    exact List.append_nil _
  · show v.accepted ++ (f.outcome inp).elim [] _ = _
    rw [hnone]
    exact List.append_nil _

/-- The loop is left: nothing more is written. -/
theorem DrainKeeps.leave (h : DrainKeeps io v) (hcrash : v'.crashed = false)
    (hout : Leaving v'.frames)
    (haccepted : v'.accepted = v.accepted) (hbuffers : v'.io.outputBuffers = v.io.outputBuffers) :
    DrainKeeps io v' := by
  refine ⟨hcrash, fun mode left hhead => ?_, ?_, fun _ f hf => ?_, fun hf => ?_⟩
  · obtain hn | hn | hn | hn := hout
    all_goals
      rw [hn] at hhead
      cases hhead
  · rw [haccepted, Io.pending, hbuffers]
    exact h.conserved
  · obtain hn | hn | hn | hn := hout
    all_goals
      rw [hn] at hf
      simp only [List.mem_cons, List.not_mem_nil, or_false] at hf
    · rw [hf]
      rfl
    · obtain rfl | rfl := hf
      · rfl
      · rfl
    · rw [hf]
      rfl
  · obtain hn | hn | hn | hn := hout
    all_goals
      rw [hn] at hf
      simp at hf

/-- The loop goes on at its head, with the queue as it was. -/
theorem DrainKeeps.head (h : DrainKeeps io v) (hcrash : v'.crashed = false)
    (hf : v'.frames = [.handler (.drain mode)]) (hblock : ¬∃ o ∈ v.outcomes, o.ret ≤ 0 ∧ o.err = .wouldBlock)
    (hquiet : v'.outcomes = v.outcomes ∧ v'.accepted = v.accepted) (hpending : v'.io.pending = v.io.pending) :
    DrainKeeps io v' := by
  refine ⟨hcrash, fun m left hhead => ?_, ?_, fun hb => ?_, fun hmem => ?_⟩
  · rw [hf] at hhead
    cases hhead
  · rw [hquiet.2, hpending]
    exact h.conserved
  · rw [hquiet.1] at hb
    exact absurd hb hblock
  · rw [hf] at hmem
    cases List.mem_singleton.mp hmem

/-- `handle_ep_out` on entry. -/
theorem DrainInv.step_entry (h : DrainInv mode io v) (hf : v.frames = [.handler .epOut]) (hmode : mode = .out)
    (hs : v.step cfg x = some v') : DrainInv mode io v' := by
  have hblock := h.keeps.running (f := .handler .epOut) (by rw [hf]; exact List.mem_singleton.mpr rfl) rfl
  obtain ⟨-, e, he, rfl⟩ := visit_frame hf rfl hs
  have hquiet := apply_quiet (v := v) (f := .handler .epOut) [] x.inp (e := e) rfl
  rw [frameStep, handlerStep] at he
  by_cases hempty : (v.io.free x.space).outputBuffers.isEmpty = true
  · rw [if_pos hempty, Option.some.injEq] at he
    subst he
    refine ⟨.out (.inl rfl), h.keeps.leave rfl (.inl rfl) hquiet.2 rfl, h.valid⟩
  · rw [if_neg hempty, Option.some.injEq] at he
    subst he
    subst hmode
    exact ⟨.head rfl, h.keeps.head rfl rfl hblock hquiet rfl, h.valid⟩

/-- What the head of a plain loop does. -/
theorem drainStep_cases (hk : cfg.kind = .plain) (w : Word) (io : Io) (mode : DrainMode) :
    (drainStep cfg w io mode).crash = false ∧
    (io.outputBuffers = [] ∧ Leaving (drainStep cfg w io mode).frames ∧
        (drainStep cfg w io mode).io = io ∨
      ∃ b bs, io.outputBuffers = b :: bs ∧
        (leftOf plainConfig b.buf ≠ 0 ∧ (drainStep cfg w io mode).io = io ∧
            (drainStep cfg w io mode).frames = [.handler (.drainWrite mode (leftOf plainConfig b.buf))] ∨
          leftOf plainConfig b.buf = 0 ∧ (drainStep cfg w io mode).frames = [.handler (.drain mode)] ∧
            ((drainStep cfg w io mode).io = io ∨
              b.buf.readableBytes = 0 ∧ (drainStep cfg w io mode).io = { io with outputBuffers := bs }))) := by
  cases hout : io.outputBuffers with
  | nil =>
    simp only [drainStep, hout]
    cases mode with
    | out =>
      refine ⟨rfl, .inl ⟨trivial, ?_, rfl⟩⟩
      show Leaving (if io.rdhupPhrase = true then [.hup .load] else [])
      by_cases hphrase : io.rdhupPhrase = true
      · rw [if_pos hphrase]
        exact .inr (.inl rfl)
      · rw [if_neg hphrase]
        exact .inl rfl
    | finish => exact ⟨rfl, .inl ⟨trivial, .inr (.inr (.inl rfl)), rfl⟩⟩
  | cons b bs =>
    have hleft : leftOf cfg b.buf = leftOf plainConfig b.buf := by
      unfold leftOf
      rw [hk]
      rfl
    simp only [drainStep, hout, hleft]
    by_cases hzero : leftOf plainConfig b.buf ≠ 0
    · rw [if_pos hzero]
      exact ⟨rfl, .inr ⟨b, bs, rfl, .inl ⟨hzero, rfl, rfl⟩⟩⟩
    · rw [if_neg hzero]
      by_cases hread : b.buf.readableBytes = 0
      · rw [if_pos hread]
        have hpop : popFront cfg w io mode
            = { Effect.goto w { io with outputBuffers := bs } [.handler (.drain mode)] with
                posted := cfg.writeComplete } := by
          simp only [popFront, hk, hout, List.tail_cons]
        rw [hpop]
        exact ⟨rfl, .inr ⟨b, bs, rfl, .inr ⟨not_not.mp hzero, rfl, .inr ⟨hread, rfl⟩⟩⟩⟩
      · rw [if_neg hread]
        exact ⟨rfl, .inr ⟨b, bs, rfl, .inr ⟨not_not.mp hzero, rfl, .inl rfl⟩⟩⟩

theorem readable_empty {b : Buffer} (h : b.readableBytes = 0) : b.readable = [] := by
  rw [Buffer.readable, h, List.take_zero]

/-- The head of the loop: what it starts to write is readable exactly under the condition. -/
theorem DrainInv.step_head (hk : cfg.kind = .plain) (h : DrainInv mode io v)
    (hf : v.frames = [.handler (.drain mode)]) (hs : v.step cfg x = some v') :
    (LeavesLength v x → DrainInv mode io v') ∧ (DrainKeeps io v' → LeavesLength v x) := by
  have hblock := h.keeps.running (f := .handler (.drain mode)) (by rw [hf]; exact List.mem_singleton.mpr rfl) rfl
  obtain ⟨-, e, he, rfl⟩ := visit_frame hf rfl hs
  have hquiet := apply_quiet (v := v) (f := .handler (.drain mode)) [] x.inp (e := e) rfl
  rw [frameStep, handlerStep, Option.some.injEq] at he
  obtain ⟨hcrash, hcases⟩ := drainStep_cases hk v.word (v.io.free x.space) mode
  rw [he] at hcrash hcases
  have hframes : (v.apply (.handler (.drain mode)) [] x.inp e).frames = e.frames := List.append_nil _
  obtain ⟨hnil, hleaving, hio⟩ | ⟨b, bs, hcons, ⟨hleft, hio, hfs⟩ | ⟨hleft, hfs, hio⟩⟩ := hcases
  · have hcond : LeavesLength v x := by
      rw [LeavesLength, hf, show v.io.outputBuffers = [] from hnil]
      trivial
    have hbuffers : e.io.outputBuffers = v.io.outputBuffers := by rw [hio]; rfl
    refine ⟨fun _ => ⟨.out (hframes ▸ hleaving), ?_, ?_⟩, fun _ => hcond⟩
    · exact h.keeps.leave hcrash (hframes ▸ hleaving) hquiet.2 hbuffers
    · show ∀ b ∈ e.io.outputBuffers, b.buf.Valid
      rw [hbuffers]
      exact h.valid
  · -- the loop starts to write
    have hcond : LeavesLength v x ↔ countOf (leftOf plainConfig b.buf) ≤ b.buf.readableBytes := by
      rw [LeavesLength, hf, show v.io.outputBuffers = b :: bs from hcons]
      exact ⟨fun hl => hl hleft, fun hl _ => hl⟩
    have hbuffers : e.io.outputBuffers = b :: bs := by
      rw [hio]
      exact hcons
    have hfs' := hframes.trans hfs
    rw [hcond]
    refine ⟨fun hle => ⟨.write hfs' hleft, ⟨hcrash, fun m left hhead => ?_, ?_, fun hb => ?_, fun hmem => ?_⟩,
      ?_⟩, fun hkeeps => ?_⟩
    · rw [hfs', List.head?_cons] at hhead
      cases hhead
      exact ⟨b, bs, hbuffers, hle⟩
    · rw [hquiet.2]
      show v.accepted ++ e.io.pending = _
      rw [Io.pending, hbuffers, ← show v.io.outputBuffers = b :: bs from hcons]
      exact h.keeps.conserved
    · rw [hquiet.1] at hb
      exact absurd hb hblock
    · rw [hfs'] at hmem
      cases List.mem_singleton.mp hmem
    · show ∀ b ∈ e.io.outputBuffers, b.buf.Valid
      rw [hbuffers, ← show v.io.outputBuffers = b :: bs from hcons]
      exact h.valid
    · obtain ⟨b', bs', hout', hle⟩ := hkeeps.request mode (leftOf plainConfig b.buf) (by
        rw [hfs', List.head?_cons])
      obtain ⟨rfl, -⟩ := List.cons.inj (hbuffers.symm.trans hout')
      exact hle
  · have hcond : LeavesLength v x := by
      rw [LeavesLength, hf, show v.io.outputBuffers = b :: bs from hcons]
      exact fun hne => absurd hleft hne
    refine ⟨fun _ => ⟨.head (hframes.trans hfs), ?_, ?_⟩, fun _ => hcond⟩
    · refine h.keeps.head hcrash (hframes.trans hfs) hblock hquiet ?_
      show e.io.pending = v.io.pending
      obtain hsame | ⟨hempty, hpop⟩ := hio
      · rw [hsame]
        rfl
      · rw [hpop, Io.pending, Io.pending, show v.io.outputBuffers = b :: bs from hcons, List.flatMap_cons,
          readable_empty hempty, List.nil_append]
    · show ∀ b ∈ e.io.outputBuffers, b.buf.Valid
      obtain hsame | ⟨-, hpop⟩ := hio
      · rw [hsame]
        exact h.valid
      · rw [hpop]
        intro b' hb'
        refine h.valid b' ?_
        rw [show v.io.outputBuffers = b :: bs from hcons]
        exact List.mem_cons_of_mem b hb'

/-- On the way out nothing is written. -/
theorem DrainInv.step_out (h : DrainInv mode io v) (hf : Leaving v.frames) (hs : v.step cfg x = some v') :
    DrainInv mode io v' := by
  have hpop : ∀ rest, v.frames = .hup .load :: rest → Leaving rest → DrainInv mode io v' := by
    intro rest hfr hrest
    rw [visit_hup hfr hs]
    exact ⟨.out hrest, h.keeps.leave h.keeps.crashed hrest rfl rfl, h.valid⟩
  obtain hfr | hfr | hfr | hfr := hf
  · rw [Visit.step, hfr] at hs
    cases hs
  · exact hpop [] hfr (.inl rfl)
  · exact hpop [.handler .rdhupEnd] hfr (.inr (.inr (.inr rfl)))
  · obtain ⟨-, e, he, rfl⟩ := visit_frame hfr rfl hs
    rw [frameStep, handlerStep, Option.some.injEq] at he
    have hquiet := apply_quiet (v := v) (f := .handler .rdhupEnd) [] x.inp (e := e) rfl
    subst he
    exact ⟨.out (.inl rfl), h.keeps.leave rfl (.inl rfl) hquiet.2 rfl, h.valid⟩

/-- A write that accepted nothing. -/
theorem drainWriteStep_failed (hk : cfg.kind = .plain) (w : Word) (io : Io) (mode : DrainMode) (left : ℤ)
    (b : OutBuf) (bs : List OutBuf) {o : WriteOutcome} (ho : o.ret ≤ 0) :
    (drainWriteStep cfg w io mode left b bs o).crash = false ∧
    (drainWriteStep cfg w io mode left b bs o).io.outputBuffers = io.outputBuffers ∧
    (o.err = .wouldBlock ∧ (drainWriteStep cfg w io mode left b bs o).frames = mode.stop ∨
      o.err = .interrupted ∧
        (drainWriteStep cfg w io mode left b bs o).frames = [.handler (.drainWrite mode left)] ∨
      o.err ≠ .wouldBlock ∧ o.err ≠ .interrupted ∧ (mode = .out ∧
        (drainWriteStep cfg w io mode left b bs o).frames = [.hup .load, .handler .drainClear] ∨
        mode = .finish ∧
        (drainWriteStep cfg w io mode left b bs o).frames = [.hup .load, .handler .rdhupEnd])) := by
  simp only [drainWriteStep, if_neg (Int.not_lt.mpr ho), hk]
  cases herr : o.err with
  | wouldBlock => exact ⟨rfl, rfl, .inl ⟨rfl, rfl⟩⟩
  | interrupted => exact ⟨rfl, rfl, .inr (.inl ⟨rfl, rfl⟩)⟩
  | wantRead =>
    cases mode with
    | out => exact ⟨rfl, rfl, .inr (.inr ⟨by decide, by decide, .inl ⟨rfl, rfl⟩⟩)⟩
    | finish => exact ⟨rfl, rfl, .inr (.inr ⟨by decide, by decide, .inr ⟨rfl, rfl⟩⟩)⟩
  | fault =>
    cases mode with
    | out => exact ⟨rfl, rfl, .inr (.inr ⟨by decide, by decide, .inl ⟨rfl, rfl⟩⟩)⟩
    | finish => exact ⟨rfl, rfl, .inr (.inr ⟨by decide, by decide, .inr ⟨rfl, rfl⟩⟩)⟩

theorem leaving_stop (mode : DrainMode) : Leaving mode.stop := by
  cases mode with
  | out => exact .inl rfl
  | finish => exact .inr (.inr (.inr rfl))

/-- A step of the write takes an answer the kernel can give. -/
theorem drainWrite_inv {left : ℤ} {e : Effect}
    (h : frameStep cfg w io (.handler (.drainWrite mode left)) x.inp = some e) :
    ∃ o b bs, x.inp = .write o ∧ io.outputBuffers = b :: bs ∧ o.ret ≤ countOf left ∧
      e = drainWriteStep cfg w io mode left b bs o := by
  cases hinp : x.inp with
  | none =>
    rw [hinp] at h
    cases h
  | read r =>
    rw [hinp] at h
    cases h
  | sockErr isError =>
    rw [hinp] at h
    cases h
  | write o =>
    rw [hinp, frameStep, handlerStep] at h
    cases hout : io.outputBuffers with
    | nil =>
      rw [hout] at h
      cases h
    | cons b bs =>
      rw [hout] at h
      dsimp only at h
      rw [Option.ite_none_right_eq_some, Option.some.injEq] at h
      obtain ⟨hadm, he⟩ := h
      simp only [WriteOutcome.admissible, Bool.and_eq_true] at hadm
      exact ⟨o, b, bs, rfl, rfl, of_decide_eq_true hadm.1.1.2, he.symm⟩

/-- A write: the loop goes on as it should exactly under the condition. -/
theorem DrainInv.step_write (hk : cfg.kind = .plain) (h : DrainInv mode io v) {left : ℤ}
    (hf : v.frames = [.handler (.drainWrite mode left)]) (hleft : left ≠ 0) (hs : v.step cfg x = some v') :
    (LeavesLength v x → DrainInv mode io v') ∧ (DrainKeeps io v' → LeavesLength v x) := by
  let f : Frame := .handler (.drainWrite mode left)
  have hblock := h.keeps.running (f := f) (by rw [hf]; exact List.mem_singleton.mpr rfl) rfl
  obtain ⟨-, e, he, rfl⟩ := visit_frame hf rfl hs
  obtain ⟨o, b, bs, ho, hcons, hle, he⟩ := drainWrite_inv he
  have hout : v.io.outputBuffers = b :: bs := hcons
  have houtcomes : (v.apply f [] x.inp e).outcomes = v.outcomes ++ [o] := by
    show v.outcomes ++ (f.outcome x.inp).toList = _
    rw [ho]
    rfl
  have haccepted : (v.apply f [] x.inp e).accepted
      = v.accepted ++ ((b.buf.buf.drop b.buf.readIdx).take (countOf left)).take o.ret.toNat := by
    show v.accepted ++ (f.outcome x.inp).elim [] (fun o => (f.offers v.io).take o.ret.toNat) = _
    rw [ho]
    show v.accepted ++ (f.offers v.io).take o.ret.toNat = _
    rw [Frame.offers, hout]
  have hframes : (v.apply f [] x.inp e).frames = e.frames := List.append_nil _
  obtain ⟨b', bs', hout', hreq⟩ := h.keeps.request mode left (by rw [hf, List.head?_cons])
  obtain ⟨rfl, rfl⟩ := List.cons.inj (hout'.symm.trans hout)
  have hcond : LeavesLength v x ↔ (0 < o.ret → countOf left + o.ret.toNat ≤ b'.buf.readableBytes) ∧
      (o.ret ≤ 0 → mode = .out → o.err = .wouldBlock ∨ o.err = .interrupted) := by
    rw [LeavesLength, hf, hout, ho]
    rfl
  rw [hcond]
  by_cases hpos : 0 < o.ret
  · -- some bytes were accepted
    have hvalid := h.valid b' (by rw [hout]; exact List.mem_cons_self)
    have hn : o.ret.toNat ≤ countOf left := by omega
    obtain ⟨buf, hbuf, hbufvalid, hread, hpending⟩ :=
      retrieve_pending bs' hvalid (hn.trans hreq) hn
    have hstep : drainWriteStep cfg v.word (v.io.free x.space) mode left b' bs' o
        = { Effect.goto v.word { v.io.free x.space with
              kernel := (v.io.free x.space).kernel.write o, outputBuffers := { b' with buf := buf } :: bs' }
              [.handler (.drainWrite mode left)] with
            events := [Event.handed b'.turn (v.io.free x.space).kernel.isOpen] } := by
      simp only [drainWriteStep, if_pos hpos, hbuf, hk]
    rw [hstep] at he
    have hfs : (v.apply f [] x.inp e).frames = [.handler (.drainWrite mode left)] := by
      rw [hframes, he]
      rfl
    have hbuffers : e.io.outputBuffers = { b' with buf := buf } :: bs' := by
      rw [he]
      rfl
    refine ⟨fun hP => ⟨.write hfs hleft, ⟨?_, fun m l hhead => ?_, ?_, fun hb => ?_, fun hmem => ?_⟩, ?_⟩,
      fun hkeeps => ⟨fun _ => ?_, fun hneg => absurd hpos (Int.not_lt.mpr hneg)⟩⟩
    · show e.crash = false
      rw [he]
      rfl
    · rw [hfs, List.head?_cons] at hhead
      cases hhead
      refine ⟨_, _, hbuffers, ?_⟩
      show countOf left ≤ buf.readableBytes
      have hP' := hP.1 hpos
      omega
    · rw [haccepted]
      show _ ++ e.io.pending = _
      rw [Io.pending, hbuffers, List.append_assoc, hpending, ← hout]
      exact h.keeps.conserved
    · rw [houtcomes] at hb
      obtain ⟨o', ho', hret, herr⟩ := hb
      obtain hold | hnew := List.mem_append.mp ho'
      · exact absurd ⟨o', hold, hret, herr⟩ hblock
      · rw [List.mem_singleton.mp hnew] at hret
        exact absurd hpos (Int.not_lt.mpr hret)
    · rw [hfs] at hmem
      cases List.mem_singleton.mp hmem
    · show ∀ b ∈ e.io.outputBuffers, b.buf.Valid
      rw [hbuffers]
      intro c hc
      obtain rfl | hin := List.mem_cons.mp hc
      · exact hbufvalid
      · exact h.valid c (by rw [hout]; exact List.mem_cons_of_mem _ hin)
    · obtain ⟨c, cs, hc, hreq'⟩ := hkeeps.request mode left (by rw [hfs, List.head?_cons])
      obtain ⟨rfl, -⟩ := List.cons.inj (hbuffers.symm.trans hc)
      have hless : countOf left ≤ buf.readableBytes := hreq'
      omega
  · -- the write failed
    have hret : o.ret ≤ 0 := Int.not_lt.mp hpos
    obtain ⟨hcrash, hbuffers, hways⟩ :=
      drainWriteStep_failed hk v.word (v.io.free x.space) mode left b' bs' hret
    rw [← he] at hcrash hbuffers hways
    have hsame : (v.apply f [] x.inp e).accepted = v.accepted := by
      rw [haccepted, Int.toNat_of_nonpos hret, List.take_zero, List.append_nil]
    have hvalid : ∀ b ∈ (v.apply f [] x.inp e).io.outputBuffers, b.buf.Valid := by
      show ∀ b ∈ e.io.outputBuffers, b.buf.Valid
      rw [hbuffers]
      exact h.valid
    have hleave : Leaving e.frames → DrainInv mode io (v.apply f [] x.inp e) := fun hl =>
      ⟨.out (hframes ▸ hl), h.keeps.leave hcrash (hframes ▸ hl) hsame hbuffers, hvalid⟩
    obtain ⟨herr, hfs⟩ | ⟨herr, hfs⟩ | ⟨hnb, hni, ⟨hmode, hfs⟩ | ⟨hmode, hfs⟩⟩ := hways
    · exact ⟨fun _ => hleave (hfs ▸ leaving_stop mode), fun _ => ⟨fun hp => absurd hp hpos, fun _ _ => .inl herr⟩⟩
    · have hfs' := hframes.trans hfs
      refine ⟨fun _ => ⟨.write hfs' hleft, ⟨hcrash, fun m l hhead => ?_, ?_, fun hb => ?_, fun hmem => ?_⟩,
        hvalid⟩, fun _ => ⟨fun hp => absurd hp hpos, fun _ _ => .inr herr⟩⟩
      · rw [hfs', List.head?_cons] at hhead
        cases hhead
        exact ⟨b', bs', hbuffers.trans hout, hreq⟩
      · rw [hsame]
        show v.accepted ++ e.io.pending = _
        rw [Io.pending, hbuffers]
        exact h.keeps.conserved
      · rw [houtcomes] at hb
        obtain ⟨o', ho', hret', herr'⟩ := hb
        obtain hold | hnew := List.mem_append.mp ho'
        · exact absurd ⟨o', hold, hret', herr'⟩ hblock
        · rw [List.mem_singleton.mp hnew, herr] at herr'
          cases herr'
      · rw [hfs'] at hmem
        cases List.mem_singleton.mp hmem
    · -- a hard error in `handle_ep_out`
      refine ⟨fun hP => ?_, fun hkeeps => ?_⟩
      · obtain hb | hi := hP.2 hret hmode
        · exact absurd hb hnb
        · exact absurd hi hni
      · refine absurd ?_ hkeeps.cleared
        rw [hframes, hfs]
        exact List.mem_cons_of_mem _ (List.mem_singleton.mpr rfl)
    · refine ⟨fun _ => hleave (hfs ▸ .inr (.inr (.inl rfl))), fun _ => ⟨fun hp => absurd hp hpos, fun _ ho => ?_⟩⟩
      rw [hmode] at ho
      cases ho

/-- Away from the two loop frames nothing is asked. -/
theorem leavesLength_other (hdrain : ∀ m, v.frames.head? ≠ some (.handler (.drain m)))
    (hwrite : ∀ m left, v.frames.head? ≠ some (.handler (.drainWrite m left))) : LeavesLength v x := by
  unfold LeavesLength
  split
  · rename_i hhead _
    exact absurd hhead (hdrain _)
  · rename_i hhead _ _
    exact absurd hhead (hwrite _ _)
  · trivial

/-- A step of the call keeps what must hold exactly under the condition. -/
theorem DrainInv.step (hk : cfg.kind = .plain) (h : DrainInv mode io v) (hs : v.step cfg x = some v') :
    (LeavesLength v x → DrainInv mode io v') ∧ (DrainKeeps io v' → LeavesLength v x) := by
  have hskip : ∀ f, v.frames.head? = f → (∀ m, f ≠ some (.handler (.drain m))) →
      (∀ m left, f ≠ some (.handler (.drainWrite m left))) → LeavesLength v x := by
    rintro f rfl
    exact leavesLength_other
  cases h.stands with
  | entry hf hmode =>
    refine ⟨fun _ => h.step_entry hf hmode hs, fun _ => hskip (some (.handler .epOut)) ?_ ?_ ?_⟩
    · rw [hf, List.head?_cons]
    · intro m heq
      cases heq
    · intro m left heq
      cases heq
  | head hf => exact h.step_head hk hf hs
  | write hf hleft => exact h.step_write hk hf hleft hs
  | out hf =>
    refine ⟨fun _ => h.step_out hf hs, fun _ => leavesLength_other ?_ ?_⟩
    · intro m heq
      obtain hfr | hfr | hfr | hfr := hf
      all_goals
        rw [hfr] at heq
        cases heq
    · intro m left heq
      obtain hfr | hfr | hfr | hfr := hf
      all_goals
        rw [hfr] at heq
        cases heq

/-- Both entries of the plain output loops. -/
def DrainMode.entry : DrainMode → Frame
  | .out => .handler .epOut
  | .finish => .handler (.drain .finish)

theorem DrainInv.enter (w : Word) (mode : DrainMode) {io : Io} (h : ∀ b ∈ io.outputBuffers, b.buf.Valid) :
    DrainInv mode io (.enter w io mode.entry) := by
  have hno : ∀ m left, mode.entry ≠ .handler (.drainWrite m left) := by
    intro m left
    cases mode with
    | out =>
      intro heq
      cases heq
    | finish =>
      intro heq
      cases heq
  refine ⟨?_, ⟨rfl, fun m left hhead => absurd (Option.some.inj hhead) (hno m left), List.nil_append _, ?_, ?_⟩, h⟩
  · cases mode with
    | out => exact .entry rfl rfl
    | finish => exact .head rfl
  · rintro ⟨o, ho, -⟩
    cases ho
  · intro hmem
    have heq := List.mem_singleton.mp hmem
    cases mode with
    | out => cases heq
    | finish => cases heq

/-- **The plain output drain.**  `handle_ep_out` and the write half of `finish_in_out`, for every queue and
all answers of `write`: every request is for readable bytes only, the assertion of `retrieve` holds, and the
accepted bytes followed by the queued ones stay those of the start, up to would-block and without a cleared
list in use, exactly if no write shrinks the front buffer below what the loop asks for. -/
theorem drain_keeps (hk : cfg.kind = .plain) (w : Word) (mode : DrainMode) {io : Io}
    (hvalid : ∀ b ∈ io.outputBuffers, b.buf.Valid) {xs : List Tick} {v : Visit}
    (hrun : run (Visit.step cfg) (.enter w io mode.entry) xs = some v) :
    Along (Visit.step cfg) LeavesLength (.enter w io mode.entry) xs ↔
      Throughout (Visit.step cfg) (DrainKeeps io) (.enter w io mode.entry) xs := by
  have hinit := DrainInv.enter w mode hvalid
  refine along_iff_throughout LeavesLength (DrainInv mode io) (DrainKeeps io) ?_ ?_ hinit hinit.keeps hrun
  · intro s a s' h hP hs
    have hnext := (h.step hk hs).1 hP
    exact ⟨hnext, hnext.keeps⟩
  · intro s a s' h hs hJ
    exact (h.step hk hs).2 hJ

/-- A connection with the bytes 1 and 2 in its queue. -/
def queuedIo : Io :=
  { (Conn.init Unit false false false fun _ => 0).io with outputBuffers := [⟨0, ⟨[1, 2], 0, 2⟩⟩] }

/-- An interrupted write, then would-block. -/
theorem drain_keeps_blocked :
    ∃ v, run (Visit.step plainConfig) (.enter established queuedIo DrainMode.out.entry)
        [⟨false, .none⟩, ⟨false, .none⟩, ⟨false, .write ⟨-1, .interrupted, false, false⟩⟩,
          ⟨false, .write ⟨-1, .wouldBlock, true, false⟩⟩] = some v ∧
      Throughout (Visit.step plainConfig) (DrainKeeps queuedIo) (.enter established queuedIo DrainMode.out.entry)
        [⟨false, .none⟩, ⟨false, .none⟩, ⟨false, .write ⟨-1, .interrupted, false, false⟩⟩,
          ⟨false, .write ⟨-1, .wouldBlock, true, false⟩⟩] := by
  have hrun : (run (Visit.step plainConfig) (.enter established queuedIo DrainMode.out.entry)
      [⟨false, .none⟩, ⟨false, .none⟩, ⟨false, .write ⟨-1, .interrupted, false, false⟩⟩,
        ⟨false, .write ⟨-1, .wouldBlock, true, false⟩⟩]).map (fun v => v.frames) = some [] := by
    decide
  obtain ⟨v, hv, -⟩ := Option.map_eq_some_iff.mp hrun
  refine ⟨v, hv, (drain_keeps rfl established .out ?_ hv).mp (by decide)⟩
  intro b hb
  rw [List.mem_singleton.mp hb]
  exact ⟨by decide, by decide⟩

/-- The write takes one of the two bytes, and the next one asks for two again. -/
theorem drain_reads_past_end :
    ∃ v, run (Visit.step plainConfig) (.enter established queuedIo DrainMode.out.entry)
        [⟨false, .none⟩, ⟨false, .none⟩, ⟨false, .write ⟨1, .fault, false, false⟩⟩,
          ⟨false, .write ⟨2, .fault, false, false⟩⟩] = some v ∧
      v.crashed = true ∧ ¬DrainKeeps queuedIo v := by
  have hrun : (run (Visit.step plainConfig) (.enter established queuedIo DrainMode.out.entry)
      [⟨false, .none⟩, ⟨false, .none⟩, ⟨false, .write ⟨1, .fault, false, false⟩⟩,
        ⟨false, .write ⟨2, .fault, false, false⟩⟩]).map (fun v => v.crashed) = some true := by
    decide
  obtain ⟨v, hv, hcrash⟩ := Option.map_eq_some_iff.mp hrun
  refine ⟨v, hv, hcrash, fun hkeeps => ?_⟩
  rw [hkeeps.crashed] at hcrash
  cases hcrash

end KwNet.Tcp
