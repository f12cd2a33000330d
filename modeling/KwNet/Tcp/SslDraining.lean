import KwNet.Lib.Bounded
import KwNet.Tcp.Draining

/-!
# What the output loops of `ssl_TcpConnection` do with the queue

`handle_ep_out` and the write half of `finish_in_out` of the TLS class look at the length of the front
buffer before every `SSL_write`.

* `SslDrain` — what holds between the steps of such a loop, after `k` buffers were popped;
* `Visit.fuel` — what is left to do at most;
* `SslDrain.step` — a step keeps the one and takes from the other, unless the loop spins on an empty front
  buffer that is not popped (`finish_in_out` without a write-complete callback);
* **`ssl_drain_conserves`** — `handle_ep_out` returns, loses and repeats nothing, pops what was accepted,
  and closes for a reason.
-/

namespace KwNet.Tcp

open KwNet.Lib KwNet.Memory

variable {cfg : Config} {mode : DrainMode} {w : Word} {io : Io} {v v' : Visit} {x : Tick} {k : ℕ}

/-- The bytes of a list of buffers. -/
def bytesOf (bs : List OutBuf) : List UInt8 := bs.flatMap fun b => b.buf.readable

/-- The work in the queue: each byte is one write at most, each buffer some steps around it. -/
def workOf (bs : List OutBuf) : ℕ := (bs.map fun b => b.buf.readableBytes + 3).sum

@[simp] theorem bytesOf_nil : bytesOf [] = [] := rfl

@[simp] theorem bytesOf_cons (b : OutBuf) (bs : List OutBuf) :
    bytesOf (b :: bs) = b.buf.readable ++ bytesOf bs := List.flatMap_cons

@[simp] theorem workOf_nil : workOf [] = 0 := rfl

@[simp] theorem workOf_cons (b : OutBuf) (bs : List OutBuf) :
    workOf (b :: bs) = b.buf.readableBytes + 3 + workOf bs := by
  rw [workOf, List.map_cons, List.sum_cons]
  rfl

/-- What is left to do at most. -/
def Visit.fuel (v : Visit) : ℕ :=
  match v.frames with
  | .handler .epOut :: _ => workOf v.io.outputBuffers + 4
  | .handler (.drain _) :: _ => workOf v.io.outputBuffers + 3
  | .handler (.drainWrite _ _) :: _ => workOf v.io.outputBuffers + 2
  | .user :: _ => workOf v.io.outputBuffers + 2
  | .handler .finishPop :: _ => workOf v.io.outputBuffers + 1
  | fs => fs.length

/-- Where the call stands. -/
inductive SslAt (cfg : Config) (mode : DrainMode) (v : Visit) : Prop
  | entry (hf : v.frames = [.handler .epOut]) (hmode : mode = .out)
  | head (hf : v.frames = [.handler (.drain mode)])
  | write {b : OutBuf} {bs : List OutBuf}
      (hf : v.frames = [.handler (.drainWrite mode b.buf.readableBytes)])
      (hout : v.io.outputBuffers = b :: bs) (hleft : 0 < b.buf.readableBytes)
  | callback {b : OutBuf} {bs : List OutBuf}
      (hf : v.frames = [.user, .handler .finishPop, .handler (.drain mode)])
      (hout : v.io.outputBuffers = b :: bs) (hempty : b.buf.readableBytes = 0) (hmode : mode = .finish)
  | pop {b : OutBuf} {bs : List OutBuf} (hf : v.frames = [.handler .finishPop, .handler (.drain mode)])
      (hout : v.io.outputBuffers = b :: bs) (hempty : b.buf.readableBytes = 0) (hmode : mode = .finish)
  | hup (hf : v.frames = .hup .load :: mode.stop)
  | stop (hf : v.frames = mode.stop)
  | out (hf : v.frames = [])

/-- A write was answered with an error that closes the connection. -/
def Visit.fatal (v : Visit) : Prop :=
  ∃ o ∈ v.outcomes, o.ret ≤ 0 ∧ o.err ≠ .wouldBlock ∧ o.err ≠ .wantRead

/-- What the loop hands to `queueInLoop` for `k` popped buffers. -/
def DrainMode.posts (cfg : Config) (k : ℕ) : DrainMode → List Functor
  | .out => List.replicate (if cfg.writeCompleteCallback then k else 0) .writeComplete
  | .finish => []

/-- What holds between the steps of a TLS output loop that found the queue as in `io`, once it has popped
`k` buffers. -/
structure SslDrain (cfg : Config) (mode : DrainMode) (io : Io) (v : Visit) (k : ℕ) : Prop where
  stands : SslAt cfg mode v
  crashed : v.crashed = false
  valid : ∀ b ∈ v.io.outputBuffers, b.buf.Valid
  conserved : v.accepted ++ v.io.pending = io.pending
  /-- All but the front buffer are as they were. -/
  rest : v.io.outputBuffers.tail = (io.outputBuffers.drop k).tail
  popped : v.io.outputBuffers.length + k = io.outputBuffers.length
  /-- The popped buffers were accepted as a whole. -/
  whole : bytesOf (io.outputBuffers.take k) <+: v.accepted
  posted : v.posted = mode.posts cfg k
  phrase : mode = .out → v.io.rdhupPhrase = io.rdhupPhrase
  closes : 0 < v.hangups ∨ .hup .load ∈ v.frames →
    v.fatal ∨ v.io.outputBuffers = [] ∧ (mode = .out → io.rdhupPhrase = true)

/-- The loop of `finish_in_out` is at its head with an empty front buffer that nobody pops. -/
def Visit.spins (cfg : Config) (v : Visit) : Prop :=
  cfg.writeCompleteCallback = false ∧ v.frames = [.handler (.drain .finish)] ∧
    ∃ b bs, v.io.outputBuffers = b :: bs ∧ b.buf.readableBytes = 0

theorem Visit.fatal.mono (h : v.fatal) (hout : ∀ o ∈ v.outcomes, o ∈ v'.outcomes) : v'.fatal := by
  obtain ⟨o, ho, hrest⟩ := h
  exact ⟨o, hout o ho, hrest⟩

/-- `left` of the TLS loops as the count of `SSL_write`. -/
theorem countOf_natCast (n : ℕ) : countOf n = n % 2 ^ 64 := by
  rw [countOf, BitVec.toNat_ofInt]
  omega

/-! ### What a step leaves as it was -/

/-- The queue and what was accepted stay the same. -/
theorem SslDrain.same (h : SslDrain cfg mode io v k) (hstands : SslAt cfg mode v') (hcrash : v'.crashed = false)
    (hbuffers : v'.io.outputBuffers = v.io.outputBuffers) (haccepted : v'.accepted = v.accepted)
    (hposted : v'.posted = v.posted) (hphrase : mode = .out → v'.io.rdhupPhrase = v.io.rdhupPhrase)
    (houtcomes : ∀ o ∈ v.outcomes, o ∈ v'.outcomes)
    (hcloses : 0 < v'.hangups ∨ .hup .load ∈ v'.frames → (0 < v.hangups ∨ .hup .load ∈ v.frames) ∨
      v'.fatal ∨ v.io.outputBuffers = [] ∧ (mode = .out → io.rdhupPhrase = true)) :
    SslDrain cfg mode io v' k where
  stands := hstands
  crashed := hcrash
  valid := by
    rw [hbuffers]
    exact h.valid
  conserved := by
    rw [haccepted, Io.pending, hbuffers]
    exact h.conserved
  rest := by
    rw [hbuffers]
    exact h.rest
  popped := by
    rw [hbuffers]
    exact h.popped
  whole := by
    rw [haccepted]
    exact h.whole
  posted := by
    rw [hposted]
    exact h.posted
  phrase := fun hm => (hphrase hm).trans (h.phrase hm)
  closes := by
    intro hc
    rw [hbuffers]
    obtain hold | hnew := hcloses hc
    · obtain hfatal | hempty := h.closes hold
      · exact .inl (hfatal.mono houtcomes)
      · exact .inr hempty
    · exact hnew

/-- The front buffer gives away some bytes. -/
theorem SslDrain.wrote (h : SslDrain cfg mode io v k) {b : OutBuf} {bs : List OutBuf}
    (hout : v.io.outputBuffers = b :: bs) {buf : Buffer} {taken : List UInt8} (hvalid : buf.Valid)
    (hbytes : taken ++ bytesOf ({ b with buf := buf } :: bs) = bytesOf (b :: bs))
    (hstands : SslAt cfg mode v') (hcrash : v'.crashed = false)
    (hbuffers : v'.io.outputBuffers = { b with buf := buf } :: bs) (haccepted : v'.accepted = v.accepted ++ taken)
    (hposted : v'.posted = v.posted) (hphrase : v'.io.rdhupPhrase = v.io.rdhupPhrase)
    (houtcomes : ∀ o ∈ v.outcomes, o ∈ v'.outcomes) (hhangups : v'.hangups = v.hangups)
    (hno : .hup .load ∉ v'.frames) : SslDrain cfg mode io v' k where
  stands := hstands
  crashed := hcrash
  valid := by
    rw [hbuffers]
    intro c hc
    obtain rfl | hin := List.mem_cons.mp hc
    · exact hvalid
    · exact h.valid c (by rw [hout]; exact List.mem_cons_of_mem _ hin)
  conserved := by
    have hold := h.conserved
    rw [Io.pending, hout] at hold
    rw [haccepted, Io.pending, hbuffers, List.append_assoc, ← hold]
    exact congrArg (v.accepted ++ ·) hbytes
  rest := by
    rw [hbuffers, ← h.rest, hout]
    rfl
  popped := by
    have hold := h.popped
    rw [hout] at hold
    rw [hbuffers]
    exact hold
  whole := by
    rw [haccepted]
    exact h.whole.trans (List.prefix_append _ _)
  posted := by
    rw [hposted]
    exact h.posted
  phrase := fun hm => hphrase.trans (h.phrase hm)
  closes := by
    rintro (hpos | hhup)
    · rw [hhangups] at hpos
      obtain hfatal | ⟨hnil, -⟩ := h.closes (.inl hpos)
      · exact .inl (hfatal.mono houtcomes)
      · rw [hout] at hnil
        cases hnil
    · exact absurd hhup hno

/-- An empty front buffer leaves the queue. -/
theorem SslDrain.popOff (h : SslDrain cfg mode io v k) {b : OutBuf} {bs : List OutBuf}
    (hout : v.io.outputBuffers = b :: bs) (hempty : b.buf.readableBytes = 0)
    (hstands : SslAt cfg mode v') (hcrash : v'.crashed = false) (hbuffers : v'.io.outputBuffers = bs)
    (haccepted : v'.accepted = v.accepted)
    (hposted : v'.posted = v.posted ++ mode.posts cfg 1)
    (hphrase : v'.io.rdhupPhrase = v.io.rdhupPhrase) (houtcomes : ∀ o ∈ v.outcomes, o ∈ v'.outcomes)
    (hhangups : v'.hangups = v.hangups) (hno : .hup .load ∉ v'.frames) :
    SslDrain cfg mode io v' (k + 1) := by
  have hrest : bs = io.outputBuffers.drop (k + 1) := by
    have hold := h.rest
    rw [hout, List.tail_cons, List.tail_drop] at hold
    exact hold
  refine ⟨hstands, hcrash, ?_, ?_, ?_, ?_, ?_, ?_, fun hm => hphrase.trans (h.phrase hm), ?_⟩
  · rw [hbuffers]
    intro c hc
    exact h.valid c (by rw [hout]; exact List.mem_cons_of_mem _ hc)
  · have hold := h.conserved
    rw [Io.pending, hout, List.flatMap_cons, readable_empty hempty, List.nil_append] at hold
    rw [haccepted, Io.pending, hbuffers]
    exact hold
  · rw [hbuffers, hrest]
  · have hold := h.popped
    rw [hout, List.length_cons] at hold
    rw [hbuffers]
    omega
  · -- what is accepted is all but what is still queued
    have hold := h.conserved
    rw [Io.pending, hout, List.flatMap_cons, readable_empty hempty, List.nil_append, hrest] at hold
    have hsplit : bytesOf (io.outputBuffers.take (k + 1)) ++ bytesOf (io.outputBuffers.drop (k + 1))
        = io.pending := by
      rw [bytesOf, bytesOf, ← List.flatMap_append, List.take_append_drop]
      rfl
    rw [haccepted, List.append_cancel_right (hold.trans hsplit.symm)]
  · rw [hposted, h.posted]
    cases mode with
    | out =>
      show List.replicate _ _ ++ List.replicate _ _ = List.replicate _ _
      rw [List.replicate_append_replicate]
      split <;> rfl
    | finish => rfl
  · rintro (hpos | hhup)
    · rw [hhangups] at hpos
      obtain hfatal | ⟨hnil, -⟩ := h.closes (.inl hpos)
      · exact .inl (hfatal.mono houtcomes)
      · rw [hout] at hnil
        cases hnil
    · exact absurd hhup hno

/-! ### The steps -/

theorem popFront_quiet : (popFront cfg w io mode).crash = false ∧ (popFront cfg w io mode).word = w := by
  unfold popFront
  split
  · split <;> exact ⟨rfl, rfl⟩
  · exact ⟨rfl, rfl⟩

/-- What the TLS class does with an empty front buffer. -/
theorem SslDrain.step_popFront (v' : Visit) (io₁ : Io) (hk : cfg.kind = .ssl) (h : SslDrain cfg mode io v k)
    {b : OutBuf} {bs : List OutBuf} (hout : v.io.outputBuffers = b :: bs) (hempty : b.buf.readableBytes = 0)
    (hbuffers : io₁.outputBuffers = v.io.outputBuffers) (hphrase : io₁.rdhupPhrase = v.io.rdhupPhrase)
    {e : Effect} (he : e = popFront cfg w io₁ mode) (hio : v'.io = e.io) (hframes : v'.frames = e.frames)
    (hposted : v'.posted = v.posted ++ e.posted.toList) (hcrash : v'.crashed = false)
    (haccepted : v'.accepted = v.accepted) (houtcomes : ∀ o ∈ v.outcomes, o ∈ v'.outcomes)
    (hhangups : v'.hangups = v.hangups) :
    (∃ k', SslDrain cfg mode io v' k') ∧ (v'.fuel < workOf v.io.outputBuffers + 3 ∨ v'.spins cfg) := by
  have hcloses : .hup .load ∉ v'.frames → 0 < v'.hangups ∨ .hup .load ∈ v'.frames →
      (0 < v.hangups ∨ .hup .load ∈ v.frames) ∨
        v'.fatal ∨ v.io.outputBuffers = [] ∧ (mode = .out → io.rdhupPhrase = true) := by
    rintro hno (hpos | hhup)
    · rw [hhangups] at hpos
      exact .inl (.inl hpos)
    · exact absurd hhup hno
  cases mode with
  | out =>
    simp only [popFront, hk, hbuffers, hout, List.tail_cons] at he
    have hfs : v'.frames = [.handler (.drain .out)] := hframes.trans (by rw [he]; rfl)
    have hbs : v'.io.outputBuffers = bs := by rw [hio, he]; rfl
    refine ⟨⟨k + 1, h.popOff hout hempty (.head hfs) hcrash hbs haccepted ?_ ?_ houtcomes hhangups ?_⟩, .inl ?_⟩
    · rw [hposted, he]
      show _ ++ cfg.writeComplete.toList = _
      rw [Config.writeComplete, DrainMode.posts]
      split <;> rfl
    · rw [hio, he]
      exact hphrase
    · rw [hfs]
      simp
    · simp only [Visit.fuel, hfs, hbs, hout, workOf_cons]
      omega
  | finish =>
    by_cases hcallback : cfg.writeCompleteCallback = true
    · simp only [popFront, hk, if_pos hcallback] at he
      have hfs : v'.frames = [.user, .handler .finishPop, .handler (.drain .finish)] :=
        hframes.trans (by rw [he]; rfl)
      have hbs : v'.io.outputBuffers = b :: bs := by rw [hio, he]; exact hbuffers.trans hout
      refine ⟨⟨k, h.same (.callback hfs hbs hempty rfl) hcrash (hbs.trans hout.symm) haccepted ?_
        (fun hm => by cases hm) houtcomes (hcloses ?_)⟩, .inl ?_⟩
      · rw [hposted, he]
        exact List.append_nil _
      · rw [hfs]
        simp
      · simp only [Visit.fuel, hfs, hbs, hout, workOf_cons]
        omega
    · simp only [popFront, hk, if_neg hcallback] at he
      have hfs : v'.frames = [.handler (.drain .finish)] := hframes.trans (by rw [he]; rfl)
      have hbs : v'.io.outputBuffers = b :: bs := by rw [hio, he]; exact hbuffers.trans hout
      refine ⟨⟨k, h.same (.head hfs) hcrash (hbs.trans hout.symm) haccepted ?_ (fun hm => by cases hm) houtcomes
        (hcloses ?_)⟩, .inr ⟨Bool.eq_false_iff.mpr hcallback, hfs, b, bs, hbs, hempty⟩⟩
      · rw [hposted, he]
        exact List.append_nil _
      · rw [hfs]
        simp

/-- `handle_ep_out` on entry. -/
theorem SslDrain.step_entry (h : SslDrain cfg mode io v k) (hf : v.frames = [.handler .epOut])
    (hmode : mode = .out) (hs : v.step cfg x = some v') :
    (∃ k', SslDrain cfg mode io v' k') ∧ v'.fuel < v.fuel := by
  obtain ⟨-, e, he, rfl⟩ := visit_frame hf rfl hs
  have hquiet := apply_quiet (v := v) (f := .handler .epOut) [] x.inp (e := e) rfl
  have houtcomes : ∀ o ∈ v.outcomes, o ∈ (v.apply (.handler .epOut) [] x.inp e).outcomes := by
    rw [hquiet.1]
    exact fun o ho => ho
  have hfuel : v.fuel = workOf v.io.outputBuffers + 4 := by
    unfold Visit.fuel
    rw [hf]
  rw [hfuel]
  subst hmode
  rw [frameStep, handlerStep] at he
  by_cases hempty : (v.io.free x.space).outputBuffers.isEmpty = true
  · rw [if_pos hempty, Option.some.injEq] at he
    subst he
    refine ⟨⟨k, h.same (.out rfl) rfl rfl hquiet.2 (List.append_nil _) (fun _ => rfl) houtcomes ?_⟩, ?_⟩
    · rintro (hpos | hhup)
      · exact .inl (.inl hpos)
      · cases hhup
    · exact Nat.zero_lt_of_lt (Nat.lt_add_of_pos_right (by decide))
  · rw [if_neg hempty, Option.some.injEq] at he
    subst he
    refine ⟨⟨k, h.same (.head rfl) rfl rfl hquiet.2 (List.append_nil _) (fun _ => rfl) houtcomes ?_⟩, ?_⟩
    · rintro (hpos | hhup)
      · exact .inl (.inl hpos)
      · cases List.mem_singleton.mp hhup
    · exact Nat.lt_succ_self _

/-- The head of the loop. -/
theorem SslDrain.step_head (hk : cfg.kind = .ssl) (h : SslDrain cfg mode io v k)
    (hf : v.frames = [.handler (.drain mode)]) (hs : v.step cfg x = some v') :
    (∃ k', SslDrain cfg mode io v' k') ∧ (v'.fuel < v.fuel ∨ v'.spins cfg) := by
  obtain ⟨-, e, he, rfl⟩ := visit_frame hf rfl hs
  have hquiet := apply_quiet (v := v) (f := .handler (.drain mode)) [] x.inp (e := e) rfl
  have houtcomes : ∀ o ∈ v.outcomes, o ∈ (v.apply (.handler (.drain mode)) [] x.inp e).outcomes := by
    rw [hquiet.1]
    exact fun o ho => ho
  have hframes : (v.apply (.handler (.drain mode)) [] x.inp e).frames = e.frames := List.append_nil _
  have hfuel : v.fuel = workOf v.io.outputBuffers + 3 := by
    unfold Visit.fuel
    rw [hf]
  rw [hfuel]
  rw [frameStep, handlerStep, Option.some.injEq] at he
  cases hout : v.io.outputBuffers with
  | nil =>
    have hnil : (v.io.free x.space).outputBuffers = [] := hout
    have hleave : ∀ fs, e = Effect.goto v.word (v.io.free x.space) fs →
        SslAt cfg mode (v.apply (.handler (.drain mode)) [] x.inp e) → fs.length ≤ 2 →
        (.hup .load ∈ fs → mode = .out → io.rdhupPhrase = true) →
        (v.apply (.handler (.drain mode)) [] x.inp e).fuel ≤ fs.length →
        (∃ k', SslDrain cfg mode io (v.apply (.handler (.drain mode)) [] x.inp e) k') ∧
          ((v.apply (.handler (.drain mode)) [] x.inp e).fuel < workOf [] + 3 ∨
            (v.apply (.handler (.drain mode)) [] x.inp e).spins cfg) := by
      intro fs hgoto hstands hlen hwhy hle
      refine ⟨⟨k, h.same hstands ?_ ?_ hquiet.2 ?_ ?_ houtcomes ?_⟩, .inl ?_⟩
      · show e.crash = false
        rw [hgoto]
        rfl
      · show e.io.outputBuffers = v.io.outputBuffers
        rw [hgoto]
        rfl
      · show v.posted ++ e.posted.toList = v.posted
        rw [hgoto]
        exact List.append_nil _
      · intro _
        show e.io.rdhupPhrase = _
        rw [hgoto]
        rfl
      · rintro (hpos | hhup)
        · exact .inl (.inl hpos)
        · rw [hframes, hgoto] at hhup
          exact .inr (.inr ⟨hout, hwhy hhup⟩)
      · rw [workOf_nil]
        omega
    simp only [drainStep, hnil] at he
    cases mode with
    | out =>
      have hphrase : (v.io.free x.space).rdhupPhrase = io.rdhupPhrase := h.phrase rfl
      dsimp only at he
      rw [hphrase] at he
      by_cases hup : io.rdhupPhrase = true
      · rw [if_pos hup] at he
        have hfs := hframes.trans (congrArg Effect.frames he.symm)
        refine hleave [.hup .load] he.symm (.hup hfs) (by decide) (fun _ _ => hup) ?_
        unfold Visit.fuel
        rw [hfs]
        exact le_refl _
      · rw [if_neg hup] at he
        have hfs := hframes.trans (congrArg Effect.frames he.symm)
        refine hleave [] he.symm (.out hfs) (by decide) (fun hhup => by cases hhup) ?_
        unfold Visit.fuel
        rw [hfs]
        exact le_refl _
    | finish =>
      have hfs := hframes.trans (congrArg Effect.frames he.symm)
      refine hleave [.hup .load, .handler .rdhupEnd] he.symm (.hup hfs) (by decide) (fun _ hm => by cases hm) ?_
      unfold Visit.fuel
      rw [hfs]
      exact le_refl _
  | cons b bs =>
    have hcons : (v.io.free x.space).outputBuffers = b :: bs := hout
    have hleft : leftOf cfg b.buf = b.buf.readableBytes := by
      unfold leftOf
      rw [hk]
    simp only [drainStep, hcons, hleft] at he
    by_cases hzero : (b.buf.readableBytes : ℤ) ≠ 0
    · rw [if_pos hzero] at he
      have hfs := hframes.trans (congrArg Effect.frames he.symm)
      subst he
      refine ⟨⟨k, h.same (.write hfs hout (by omega)) rfl rfl hquiet.2 (List.append_nil _) (fun _ => rfl)
        houtcomes ?_⟩, .inl ?_⟩
      · rintro (hpos | hhup)
        · exact .inl (.inl hpos)
        · rw [hfs] at hhup
          cases List.mem_singleton.mp hhup
      · unfold Visit.fuel
        rw [hfs]
        show workOf v.io.outputBuffers + 2 < _
        rw [hout]
        omega
    · rw [if_neg hzero, if_pos (by omega)] at he
      have hpop := h.step_popFront (v.apply (.handler (.drain mode)) [] x.inp e) (v.io.free x.space) hk hout (by omega)
        rfl rfl he.symm rfl hframes rfl ?_ hquiet.2 houtcomes rfl
      · rw [hout] at hpop
        exact hpop
      · show e.crash = false
        rw [← he]
        exact popFront_quiet.1

/-- A write that accepted nothing ends the loop. -/
theorem sslWriteStep_failed (hk : cfg.kind = .ssl) (w : Word) (io : Io) (mode : DrainMode) (left : ℤ)
    (b : OutBuf) (bs : List OutBuf) {o : WriteOutcome} (ho : o.ret ≤ 0) :
    (drainWriteStep cfg w io mode left b bs o).crash = false ∧
    (drainWriteStep cfg w io mode left b bs o).posted = none ∧
    (drainWriteStep cfg w io mode left b bs o).io.outputBuffers = io.outputBuffers ∧
    (drainWriteStep cfg w io mode left b bs o).io.rdhupPhrase = io.rdhupPhrase ∧
    ((drainWriteStep cfg w io mode left b bs o).frames = mode.stop ∨
      o.err ≠ .wouldBlock ∧ o.err ≠ .wantRead ∧
        (drainWriteStep cfg w io mode left b bs o).frames = .hup .load :: mode.stop) := by
  simp only [drainWriteStep, if_neg (Int.not_lt.mpr ho), hk]
  cases herr : o.err with
  | wouldBlock =>
    refine ⟨rfl, rfl, ?_, ?_, .inl rfl⟩
    all_goals
      cases mode with
      | out => rfl
      | finish =>
        dsimp only [Effect.goto]
        split <;> rfl
  | wantRead => exact ⟨rfl, rfl, rfl, rfl, .inl rfl⟩
  | interrupted => exact ⟨rfl, rfl, rfl, rfl, .inr ⟨by decide, by decide, rfl⟩⟩
  | fault => exact ⟨rfl, rfl, rfl, rfl, .inr ⟨by decide, by decide, rfl⟩⟩

theorem DrainMode.stop_length (mode : DrainMode) : mode.stop.length ≤ 1 := by
  cases mode with
  | out => exact Nat.zero_le 1
  | finish => exact le_refl 1

theorem hup_notMem_stop (mode : DrainMode) : Frame.hup .load ∉ mode.stop := by
  cases mode with
  | out => exact List.not_mem_nil
  | finish => simp [DrainMode.stop]

/-- Nothing is left to do but to return. -/
theorem fuel_stop (mode : DrainMode) (hf : v.frames = mode.stop) : v.fuel = mode.stop.length := by
  unfold Visit.fuel
  rw [hf]
  cases mode with
  | out => rfl
  | finish => rfl

theorem fuel_hup (mode : DrainMode) (hf : v.frames = .hup .load :: mode.stop) :
    v.fuel = mode.stop.length + 1 := by
  unfold Visit.fuel
  rw [hf]
  rfl

/-- A write of the front buffer. -/
theorem SslDrain.step_write (hk : cfg.kind = .ssl) (h : SslDrain cfg mode io v k) {b : OutBuf}
    {bs : List OutBuf} (hf : v.frames = [.handler (.drainWrite mode b.buf.readableBytes)])
    (hout : v.io.outputBuffers = b :: bs) (hs : v.step cfg x = some v') :
    (∃ k', SslDrain cfg mode io v' k') ∧ (v'.fuel < v.fuel ∨ v'.spins cfg) := by
  have houtcomes := visit_outcomes hs
  obtain ⟨-, e, he, rfl⟩ := visit_frame hf rfl hs
  let f : Frame := .handler (.drainWrite mode b.buf.readableBytes)
  obtain ⟨o, b', bs', ho, hcons, hle, he⟩ := drainWrite_inv he
  obtain ⟨rfl, rfl⟩ := List.cons.inj ((show v.io.outputBuffers = b' :: bs' from hcons).symm.trans hout)
  have haccepted : (v.apply f [] x.inp e).accepted
      = v.accepted ++ ((b'.buf.buf.drop b'.buf.readIdx).take (countOf b'.buf.readableBytes)).take o.ret.toNat := by
    show v.accepted ++ (f.outcome x.inp).elim [] (fun o => (f.offers v.io).take o.ret.toNat) = _
    rw [ho]
    show v.accepted ++ (f.offers v.io).take o.ret.toNat = _
    rw [Frame.offers, hout]
  have hframes : (v.apply f [] x.inp e).frames = e.frames := List.append_nil _
  have hcount : countOf b'.buf.readableBytes ≤ b'.buf.readableBytes := by
    rw [countOf_natCast]
    exact Nat.mod_le _ _
  have hfuel : v.fuel = workOf v.io.outputBuffers + 2 := by
    unfold Visit.fuel
    rw [hf]
  rw [hfuel, hout, workOf_cons]
  by_cases hpos : 0 < o.ret
  · -- some bytes were accepted
    have hvalid := h.valid b' (by rw [hout]; exact List.mem_cons_self)
    have hn : o.ret.toNat ≤ countOf b'.buf.readableBytes := by omega
    obtain ⟨buf, hbuf, hbufvalid, hread, hbytes⟩ := retrieve_pending bs' hvalid (hn.trans hcount) hn
    simp only [drainWriteStep, if_pos hpos, hbuf, hk] at he
    -- the queue after the write, with the loop at its head
    let io₁ : Io := { v.io.free x.space with
      kernel := (v.io.free x.space).kernel.write o, outputBuffers := { b' with buf := buf } :: bs' }
    let v₁ : Visit := { v with
      io := io₁, frames := [.handler (.drain mode)], outcomes := (v.apply f [] x.inp e).outcomes,
      accepted := (v.apply f [] x.inp e).accepted }
    by_cases hempty : buf.readableBytes = 0
    · rw [if_pos hempty] at he
      have h₁ : SslDrain cfg mode io v₁ k := by
        refine h.wrote hout hbufvalid hbytes (.head rfl) h.crashed rfl haccepted rfl rfl houtcomes rfl ?_
        show Frame.hup .load ∉ [Frame.handler (.drain mode)]
        simp
      have hpop := h₁.step_popFront (v.apply f [] x.inp e) io₁ hk rfl hempty (w := v.word) rfl rfl
        rfl ?_ ?_ ?_ ?_ rfl (fun o ho => ho) rfl
      · refine ⟨hpop.1, hpop.2.imp_left fun hlt => hlt.trans_le ?_⟩
        show workOf ({ b' with buf := buf } :: bs') + 3 ≤ _
        rw [workOf_cons]
        dsimp only
        omega
      · show e.io = _
        rw [he]
      · rw [hframes, he]
      · show v.posted ++ e.posted.toList = _
        rw [he]
      · show e.crash = false
        rw [he]
        exact popFront_quiet.1
    · rw [if_neg hempty] at he
      have hfs : (v.apply f [] x.inp e).frames = [.handler (.drainWrite mode buf.readableBytes)] := by
        rw [hframes, he]
        rfl
      have hbuffers : (v.apply f [] x.inp e).io.outputBuffers = { b' with buf := buf } :: bs' := by
        show e.io.outputBuffers = _
        rw [he]
        rfl
      refine ⟨⟨k, h.wrote hout hbufvalid hbytes (.write hfs hbuffers (Nat.pos_of_ne_zero hempty)) ?_ hbuffers
        haccepted ?_ ?_ houtcomes rfl ?_⟩, .inl ?_⟩
      · show e.crash = false
        rw [he]
        rfl
      · show v.posted ++ e.posted.toList = _
        rw [he]
        exact List.append_nil _
      · show e.io.rdhupPhrase = _
        rw [he]
        rfl
      · rw [hfs]
        exact fun hmem => by cases List.mem_singleton.mp hmem
      · unfold Visit.fuel
        rw [hfs]
        show workOf (v.apply f [] x.inp e).io.outputBuffers + 2 < _
        rw [hbuffers, workOf_cons]
        dsimp only
        omega
  · -- the write failed
    have hret : o.ret ≤ 0 := Int.not_lt.mp hpos
    have hsame : (v.apply f [] x.inp e).accepted = v.accepted := by
      rw [haccepted, Int.toNat_of_nonpos hret, List.take_zero, List.append_nil]
    obtain ⟨hcrash, hposted, hbuffers, hphrase, hways⟩ :=
      sslWriteStep_failed hk v.word (v.io.free x.space) mode b'.buf.readableBytes b' bs' hret
    rw [← he] at hcrash hposted hbuffers hphrase hways
    have hend : SslAt cfg mode (v.apply f [] x.inp e) →
        (Frame.hup .load ∈ e.frames → (v.apply f [] x.inp e).fatal) →
        SslDrain cfg mode io (v.apply f [] x.inp e) k := by
      intro hstands hwhy
      refine h.same hstands hcrash hbuffers hsame ?_ (fun _ => hphrase) houtcomes ?_
      · show v.posted ++ e.posted.toList = _
        rw [hposted]
        exact List.append_nil _
      · rintro (hpos' | hhup)
        · exact .inl (.inl hpos')
        · rw [hframes] at hhup
          exact .inr (.inl (hwhy hhup))
    have hlen := mode.stop_length
    obtain hstop | ⟨hnb, hnr, hhup⟩ := hways
    · refine ⟨⟨k, hend (.stop (hframes.trans hstop)) fun hmem => ?_⟩, .inl ?_⟩
      · rw [hstop] at hmem
        exact absurd hmem (hup_notMem_stop mode)
      · rw [fuel_stop mode (hframes.trans hstop)]
        omega
    · refine ⟨⟨k, hend (.hup (hframes.trans hhup)) fun _ => ⟨o, ?_, hret, hnb, hnr⟩⟩, .inl ?_⟩
      · show o ∈ v.outcomes ++ (f.outcome x.inp).toList
        rw [ho]
        exact List.mem_append_right _ (List.mem_singleton.mpr rfl)
      · rw [fuel_hup mode (hframes.trans hhup)]
        omega

/-- The user's callback returns. -/
theorem SslDrain.step_callback (h : SslDrain cfg mode io v k) {b : OutBuf} {bs : List OutBuf}
    (hf : v.frames = [.user, .handler .finishPop, .handler (.drain mode)])
    (hout : v.io.outputBuffers = b :: bs) (hempty : b.buf.readableBytes = 0) (hmode : mode = .finish)
    (hs : v.step cfg x = some v') : (∃ k', SslDrain cfg mode io v' k') ∧ v'.fuel < v.fuel := by
  have houtcomes := visit_outcomes hs
  rw [visit_user hf hs] at houtcomes ⊢
  refine ⟨⟨k, h.same (.pop rfl hout hempty hmode) h.crashed rfl rfl rfl (fun _ => rfl) houtcomes ?_⟩, ?_⟩
  · rintro (hpos | hhup)
    · exact .inl (.inl hpos)
    · simp at hhup
  · unfold Visit.fuel
    rw [hf]
    exact Nat.lt_succ_self _

/-- The front buffer is popped behind the callback. -/
theorem SslDrain.step_pop (h : SslDrain cfg mode io v k) {b : OutBuf} {bs : List OutBuf}
    (hf : v.frames = [.handler .finishPop, .handler (.drain mode)])
    (hout : v.io.outputBuffers = b :: bs) (hempty : b.buf.readableBytes = 0) (hmode : mode = .finish)
    (hs : v.step cfg x = some v') : (∃ k', SslDrain cfg mode io v' k') ∧ v'.fuel < v.fuel := by
  have houtcomes := visit_outcomes hs
  obtain ⟨-, e, he, rfl⟩ := visit_frame hf rfl hs
  have hquiet := apply_quiet (v := v) (f := .handler .finishPop) [.handler (.drain mode)] x.inp
    (e := e) rfl
  rw [frameStep, handlerStep, Option.some.injEq] at he
  have hbuffers : e.io.outputBuffers = bs := by
    rw [← he]
    show v.io.outputBuffers.tail = bs
    rw [hout, List.tail_cons]
  have hfs : (v.apply (.handler .finishPop) [.handler (.drain mode)] x.inp e).frames = [.handler (.drain mode)] := by
    rw [← he]
    rfl
  refine ⟨⟨k + 1, h.popOff hout hempty (.head hfs) ?_ hbuffers hquiet.2 ?_ ?_ houtcomes rfl ?_⟩, ?_⟩
  · rw [← he]
    rfl
  · rw [hmode, ← he]
    rfl
  · rw [← he]
    rfl
  · rw [hfs]
    exact fun hmem => by cases List.mem_singleton.mp hmem
  · unfold Visit.fuel
    rw [hf, hfs]
    show workOf e.io.outputBuffers + 3 < workOf v.io.outputBuffers + 1
    rw [hbuffers, hout, workOf_cons]
    omega

/-- `handle_ep_hup` returns. -/
theorem SslDrain.step_hup (h : SslDrain cfg mode io v k) (hf : v.frames = .hup .load :: mode.stop)
    (hs : v.step cfg x = some v') : (∃ k', SslDrain cfg mode io v' k') ∧ v'.fuel < v.fuel := by
  have houtcomes := visit_outcomes hs
  rw [fuel_hup mode hf]
  rw [visit_hup hf hs] at houtcomes ⊢
  refine ⟨⟨k, h.same (.stop rfl) h.crashed rfl rfl rfl (fun _ => rfl) houtcomes fun _ => .inl (.inr ?_)⟩, ?_⟩
  · rw [hf]
    exact List.mem_cons_self
  · rw [fuel_stop mode rfl]
    exact Nat.lt_succ_self _

/-- The call returns. -/
theorem SslDrain.step_stop (h : SslDrain cfg mode io v k) (hf : v.frames = mode.stop)
    (hs : v.step cfg x = some v') : (∃ k', SslDrain cfg mode io v' k') ∧ v'.fuel < v.fuel := by
  have houtcomes := visit_outcomes hs
  rw [fuel_stop mode hf]
  cases mode with
  | out =>
    rw [Visit.step, show v.frames = [] from hf] at hs
    cases hs
  | finish =>
    have hf' : v.frames = [.handler .rdhupEnd] := hf
    obtain ⟨-, e, he, rfl⟩ := visit_frame hf' rfl hs
    have hquiet := apply_quiet (v := v) (f := .handler .rdhupEnd) [] x.inp (e := e) rfl
    rw [frameStep, handlerStep, Option.some.injEq] at he
    subst he
    refine ⟨⟨k, h.same (.out rfl) rfl rfl hquiet.2 (List.append_nil _) (fun hm => by cases hm) houtcomes ?_⟩,
      Nat.zero_lt_one⟩
    rintro (hpos | hhup)
    · exact .inl (.inl hpos)
    · cases hhup

/-- **A step of a TLS output loop** keeps the queue in order and takes from what is left to do, unless the
loop spins. -/
theorem SslDrain.step (hk : cfg.kind = .ssl) (h : SslDrain cfg mode io v k) (hs : v.step cfg x = some v') :
    (∃ k', SslDrain cfg mode io v' k') ∧ (v'.fuel < v.fuel ∨ v'.spins cfg) := by
  cases h.stands with
  | entry hf hmode => exact (h.step_entry hf hmode hs).imp_right .inl
  | head hf => exact h.step_head hk hf hs
  | write hf hout hleft => exact h.step_write hk hf hout hs
  | callback hf hout hempty hmode => exact (h.step_callback hf hout hempty hmode hs).imp_right .inl
  | pop hf hout hempty hmode => exact (h.step_pop hf hout hempty hmode hs).imp_right .inl
  | hup hf => exact (h.step_hup hf hs).imp_right .inl
  | stop hf => exact (h.step_stop hf hs).imp_right .inl
  | out hf =>
    rw [Visit.step, hf] at hs
    cases hs

theorem SslDrain.enter (cfg : Config) (w : Word) (mode : DrainMode) {io : Io}
    (h : ∀ b ∈ io.outputBuffers, b.buf.Valid) : SslDrain cfg mode io (.enter w io mode.entry) 0 := by
  refine ⟨?_, rfl, h, List.nil_append _, rfl, rfl, List.nil_prefix, ?_, fun _ => rfl, ?_⟩
  · cases mode with
    | out => exact .entry rfl rfl
    | finish => exact .head rfl
  · cases mode with
    | out =>
      show [] = List.replicate (if cfg.writeCompleteCallback then 0 else 0) _
      rw [ite_self, List.replicate_zero]
    | finish => rfl
  · rintro (hpos | hhup)
    · cases hpos
    · have heq := List.mem_singleton.mp hhup
      cases mode with
      | out => cases heq
      | finish => cases heq

/-- In `handle_ep_out` the loop does not spin. -/
theorem SslDrain.not_spins (h : SslDrain cfg .out io v k) : ¬v.spins cfg := by
  rintro ⟨-, hf, -⟩
  cases h.stands <;> simp_all [DrainMode.stop]

/-- As long as the call has not returned, it goes on, whatever the answer to its write. -/
theorem SslDrain.goes_on (h : SslDrain cfg mode io v k) (hf : v.frames ≠ []) (space : Bool) {o : WriteOutcome}
    (ho : ∀ left, v.frames.head? = some (.handler (.drainWrite mode left)) →
      o.admissible (v.io.free space).kernel (countOf left) = true) :
    ∃ v', v.step cfg ⟨space, .write o⟩ = some v' := by
  have hloop : ∀ f rest, v.frames = f :: rest → f.inLoop = true →
      (∃ e, frameStep cfg v.word (v.io.free space) f (.write o) = some e) →
      ∃ v', v.step cfg ⟨space, .write o⟩ = some v' := by
    rintro f rest hfr hin ⟨e, he⟩
    refine ⟨v.apply f rest (.write o) e, ?_⟩
    rw [visit_step hfr h.crashed hin]
    show (frameStep cfg v.word (v.io.free space) f (.write o)).map _ = _
    rw [he]
    rfl
  cases h.stands with
  | entry hfr _ =>
    refine hloop _ _ hfr rfl ?_
    rw [frameStep, handlerStep]
    split <;> exact ⟨_, rfl⟩
  | head hfr => exact hloop _ _ hfr rfl ⟨_, rfl⟩
  | write hfr hout _ =>
    refine hloop _ _ hfr rfl ?_
    rw [frameStep, handlerStep, show (v.io.free space).outputBuffers = _ from hout]
    dsimp only
    rw [if_pos (ho _ (by rw [hfr, List.head?_cons]))]
    exact ⟨_, rfl⟩
  | callback hfr _ _ _ => exact ⟨_, user_step hfr h.crashed⟩
  | pop hfr _ _ _ => exact hloop _ _ hfr rfl ⟨_, rfl⟩
  | hup hfr => exact ⟨_, hup_step hfr h.crashed⟩
  | stop hfr =>
    cases mode with
    | out => exact absurd hfr hf
    | finish => exact hloop (.handler .rdhupEnd) [] hfr rfl ⟨_, rfl⟩
  | out hfr => exact absurd hfr hf

/-- What `handle_ep_out` of the TLS class has done at any point of the call. -/
structure SslDrained (cfg : Config) (io : Io) (v : Visit) : Prop where
  crashed : v.crashed = false
  valid : ∀ b ∈ v.io.outputBuffers, b.buf.Valid
  conserved : v.accepted ++ v.io.pending = io.pending
  /-- Only whole buffers were popped, with one callback for each. -/
  popped : ∃ k, v.io.outputBuffers.length + k = io.outputBuffers.length ∧
    v.io.outputBuffers.tail = (io.outputBuffers.drop k).tail ∧
    bytesOf (io.outputBuffers.take k) <+: v.accepted ∧
    v.posted = List.replicate (if cfg.writeCompleteCallback then k else 0) .writeComplete
  closes : 0 < v.hangups ∨ .hup .load ∈ v.frames →
    v.fatal ∨ v.io.outputBuffers = [] ∧ io.rdhupPhrase = true

theorem SslDrain.drained (h : SslDrain cfg .out io v k) : SslDrained cfg io v where
  crashed := h.crashed
  valid := h.valid
  conserved := h.conserved
  popped := ⟨k, h.popped, h.rest, h.whole, h.posted⟩
  closes := fun hc => (h.closes hc).imp_right fun hw => ⟨hw.1, hw.2 rfl⟩

end KwNet.Tcp
