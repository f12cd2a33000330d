import KwNet.Memory.Fifo
import KwNet.Tcp.Draining

/-!
# What the read loops do with what they read

`handle_ep_in` and `finish_in_out`, of both classes, with the bytes the reads bring and the buffer they go
to.  As in a `Visit`, what they call returns and leaves the connection alone.

* `Receipt` — a visit with `inputBuffer_` and the calls of `messageCallback_` and `handle_ep_hup`;
* `Frame.closesOn` — the answers on which a loop closes the connection without further ado;
* **`received_delivered`** — what was read is passed to the user before the connection is closed, exactly as
  long as no such answer follows on received bytes.
-/

namespace KwNet.Tcp

open KwNet.Lib KwNet.Memory

/-- A call made on the way. -/
inductive Notice where
  /-- `messageCallback_`, with the readable bytes of `inputBuffer_`. -/
  | message (content : List UInt8)
  /-- `handle_ep_hup`. -/
  | hup
  deriving DecidableEq, Repr

/-- A visit that reads. -/
structure Receipt where
  visit : Visit
  input : Buffer
  /-- The bytes the call has put into `inputBuffer_`. -/
  received : List UInt8
  log : List Notice

/-- What comes from outside with one step: an answer, and the bytes of a read. -/
structure Delivery where
  tick : Tick
  data : List UInt8
  deriving DecidableEq, Repr

/-- The frames that read. -/
def Frame.reads : Frame → Bool
  | .handler (.epIn _) | .handler (.finishRead _) => true
  | _ => false

/-- The bytes of an answer. -/
def ReadOutcome.taken (data : List UInt8) : ReadOutcome → List UInt8
  | .bytes _ => data
  | _ => []

/-- `readFd`, or `ensureWritableBytes`, `SSL_read` and `hasWritten`, with the answer `r`. -/
def receive (k : Kind) (input : Buffer) (r : ReadOutcome) (data : List UInt8) : Option Buffer :=
  match k, r with
  | .plain, .bytes n =>
    if data.length = n ∧ 0 < n ∧ n ≤ input.iovLength then (input.readFd (.bytes data)).map Prod.fst else none
  | .plain, .eof => (input.readFd (.bytes [])).map Prod.fst
  | .plain, _ => (input.readFd .error).map Prod.fst
  | .ssl, .bytes n =>
    (input.ensureWritableBytes 65536).bind fun b =>
      if data.length = n ∧ 0 < n ∧ n ≤ b.writableBytes then (b.store data).hasWritten data.length else none
  | .ssl, _ => input.ensureWritableBytes 65536

/-- The calls a step leads to at once, with `inputBuffer_` as it is then. -/
def Frame.calls (f : Frame) (input : Buffer) (frames : List Frame) : List Notice :=
  frames.filterMap fun
    | .user => if f.reads then some (.message input.readable) else none
    | .hup .load => some .hup
    | _ => none

/-- What a read does to the buffer; other steps leave it. -/
def Frame.fills (f : Frame) (k : Kind) (input : Buffer) : Input → List UInt8 → Option (Buffer × List UInt8)
  | .read r, data => if f.reads then (receive k input r data).map fun b => (b, r.taken data) else some (input, [])
  | _, _ => some (input, [])

/-- One step: that of the visit, with the buffer and the calls. -/
def Receipt.step (cfg : Config) (s : Receipt) (x : Delivery) : Option Receipt :=
  match s.visit.frames with
  | [] => none
  | f :: rest =>
    (f.fills cfg.kind s.input x.tick.inp x.data).bind fun filled =>
      (s.visit.step cfg x.tick).map fun v =>
        { visit := v
          input := filled.1
          received := s.received ++ filled.2
          log := s.log ++ f.calls filled.1 (v.frames.take (v.frames.length - rest.length)) }

/-- The loop thread enters `f` with this buffer. -/
def Receipt.enter (w : Word) (io : Io) (input : Buffer) (f : Frame) : Receipt :=
  { visit := .enter w io f, input := input, received := [], log := [] }

/-- The four loops: which function, and the bytes read so far. -/
inductive ReadLoop where
  | epIn
  | finish
  deriving DecidableEq, Repr

def ReadLoop.frame (n : ℕ) : ReadLoop → Frame
  | .epIn => .handler (.epIn n)
  | .finish => .handler (.finishRead n)

/-- The answers on which a read loop calls `handle_ep_hup` and nothing else. -/
def Frame.closesOn (k : Kind) : Frame → ReadOutcome → Bool
  | .handler (.epIn _), r =>
    match k, r with
    | .plain, .wantWrite | .plain, .fault | .ssl, .interrupted | .ssl, .fault => true
    | _, _ => false
  | .handler (.finishRead _), r =>
    match k, r with
    | _, .bytes _ | _, .eof | .plain, .interrupted => false
    | _, _ => true
  | _, _ => false

/-- Received bytes are passed on before the connection is closed. -/
def Receipt.delivers (s : Receipt) : Prop :=
  ∀ pre post, s.log = pre ++ .hup :: post → s.received ≠ [] →
    ∃ content, .message content ∈ pre ∧ s.received <:+ content

/-- The step is a read on whose answer the loop closes. -/
def Receipt.closesNow (cfg : Config) (s : Receipt) (x : Delivery) : Bool :=
  match s.visit.frames, x.tick.inp with
  | f :: _, .read r => f.closesOn cfg.kind r
  | _, _ => false

/-- The read does not close a connection that has received something. -/
def KeepsReceived (cfg : Config) (s : Receipt) (x : Delivery) : Prop :=
  s.received = [] ∨ s.closesNow cfg x = false

instance (cfg : Config) (s : Receipt) (x : Delivery) : Decidable (KeepsReceived cfg s x) :=
  inferInstanceAs (Decidable (_ ∨ _))

variable {cfg : Config} {s s' : Receipt} {x : Delivery} {f : Frame} {rest : List Frame}

/-! ### One step -/

/-- A step inverted. -/
theorem receipt_cases (hf : s.visit.frames = f :: rest) (h : s.step cfg x = some s') :
    ∃ filled v, f.fills cfg.kind s.input x.tick.inp x.data = some filled ∧ s.visit.step cfg x.tick = some v ∧
      s' = { visit := v
             input := filled.1
             received := s.received ++ filled.2
             log := s.log ++ f.calls filled.1 (v.frames.take (v.frames.length - rest.length)) } := by
  rw [Receipt.step, hf] at h
  obtain ⟨filled, hfilled, h⟩ := Option.bind_eq_some_iff.mp h
  obtain ⟨v, hv, rfl⟩ := Option.map_eq_some_iff.mp h
  exact ⟨filled, v, hfilled, hv, rfl⟩

/-- A read appends what it brings. -/
theorem receive_spec {k : Kind} {input b : Buffer} {r : ReadOutcome} {data : List UInt8} (hvalid : input.Valid)
    (h : receive k input r data = some b) : b.Valid ∧ b.readable = input.readable ++ r.taken data ∧
      ∀ n, r = .bytes n → (r.taken data).length = n := by
  have hensure : ∀ c, input.ensureWritableBytes 65536 = some c → c.Valid ∧ c.readable = input.readable := by
    intro c hc
    obtain ⟨c', hc', hv, hread, -⟩ := Buffer.ensureWritableBytes_spec hvalid 65536
    obtain rfl := Option.some.inj (hc'.symm.trans hc)
    exact ⟨hv, hread⟩
  have hfd : ∀ data c, (input.readFd (.bytes data)).map Prod.fst = some c →
      c.Valid ∧ c.readable = input.readable ++ data := by
    intro data c hc
    obtain ⟨c', hc', hv, hread⟩ := Buffer.readFd_spec hvalid data
    rw [hc', Option.map_some, Option.some.injEq] at hc
    exact hc ▸ ⟨hv, hread⟩
  have hquiet : ∀ c : Buffer, c.Valid ∧ c.readable = input.readable → (∀ n, r ≠ .bytes n) →
      c.Valid ∧ c.readable = input.readable ++ r.taken data ∧ ∀ n, r = .bytes n → (r.taken data).length = n := by
    intro c hc hr
    have hnone : r.taken data = [] := by
      cases r with
      | bytes n => exact absurd rfl (hr n)
      | _ => rfl
    rw [hnone, List.append_nil]
    exact ⟨hc.1, hc.2, fun n heq => absurd heq (hr n)⟩
  cases k with
  | plain =>
    cases r with
    | bytes n =>
      simp only [receive] at h
      rw [Option.ite_none_right_eq_some] at h
      obtain ⟨⟨hlen, -, -⟩, h⟩ := h
      obtain ⟨hv, hread⟩ := hfd data b h
      refine ⟨hv, hread, fun m hm => ?_⟩
      cases hm
      exact hlen
    | eof =>
      refine hquiet b ?_ (fun n heq => by cases heq)
      have hb := hfd [] b h
      rwa [List.append_nil] at hb
    | _ =>
      refine hquiet b ?_ (fun n heq => by cases heq)
      obtain rfl := Option.some.inj (show some input = some b from h)
      exact ⟨hvalid, rfl⟩
  | ssl =>
    cases r with
    | bytes n =>
      simp only [receive] at h
      obtain ⟨c, hc, h⟩ := Option.bind_eq_some_iff.mp h
      rw [Option.ite_none_right_eq_some] at h
      obtain ⟨⟨hlen, -, hroom⟩, h⟩ := h
      obtain ⟨hcv, hcread⟩ := hensure c hc
      obtain ⟨b', hb', hv, hread⟩ := Buffer.hasWritten_spec hcv data (by omega)
      obtain rfl := Option.some.inj (hb'.symm.trans h)
      refine ⟨hv, ?_, fun m hm => ?_⟩
      · rw [hread, hcread]
        rfl
      · cases hm
        exact hlen
    | _ => exact hquiet b (hensure b h) (fun n heq => by cases heq)

/-- What a read leads to. -/
inductive ReadLeads (k : Kind) (loop : ReadLoop) (n : ℕ) (r : ReadOutcome) (fs : List Frame) : Prop
  | more (m : ℕ) (hr : r = .bytes m) (hf : fs = [loop.frame (n + m)])
  | again (hr : ∀ data, r.taken data = []) (hcloses : (loop.frame n).closesOn k r = false)
      (hf : fs = [loop.frame n])
  /-- The loop is over, and the callback comes first. -/
  | tells (tail : List Frame) (hr : r = .eof ∨ r = .wouldBlock ∨ r = .wantWrite) (hcloses : (loop.frame n).closesOn k r = false)
      (hf : fs = messageCallback n ++ tail) (htail : tail = [] ∨ tail = [.hup .load] ∨ tail = [.handler (.drain .finish)])
  | closes (tail : List Frame) (hr : ∀ data, r.taken data = []) (hcloses : (loop.frame n).closesOn k r = true)
      (hf : fs = .hup .load :: tail) (htail : tail = [] ∨ tail = [.handler .rdhupEnd])

theorem epIn_leads (cfg : Config) (w : Word) (io : Io) (n : ℕ) (r : ReadOutcome) :
    (epInStep cfg w io n r).crash = false ∧ ReadLeads cfg.kind .epIn n r (epInStep cfg w io n r).frames := by
  cases r with
  | bytes m => exact ⟨rfl, .more m rfl rfl⟩
  | eof =>
    refine ⟨rfl, .tells [.hup .load] (.inl rfl) ?_ rfl (.inr (.inl rfl))⟩
    cases cfg.kind <;> rfl
  | wouldBlock =>
    refine ⟨rfl, .tells [] (.inr (.inl rfl)) ?_ (List.append_nil _).symm (.inl rfl)⟩
    cases cfg.kind <;> rfl
  | interrupted =>
    cases hk : cfg.kind with
    | plain =>
      simp only [epInStep, hk]
      exact ⟨rfl, .again (fun _ => rfl) rfl rfl⟩
    | ssl =>
      simp only [epInStep, hk]
      exact ⟨rfl, .closes [] (fun _ => rfl) rfl rfl (.inl rfl)⟩
  | wantWrite =>
    cases hk : cfg.kind with
    | plain =>
      simp only [epInStep, hk]
      exact ⟨rfl, .closes [] (fun _ => rfl) rfl rfl (.inl rfl)⟩
    | ssl =>
      simp only [epInStep, hk]
      exact ⟨rfl, .tells [] (.inr (.inr rfl)) rfl (List.append_nil _).symm (.inl rfl)⟩
  | fault =>
    refine ⟨rfl, .closes [] (fun _ => rfl) ?_ rfl (.inl rfl)⟩
    cases cfg.kind <;> rfl

theorem finishRead_leads (cfg : Config) (w : Word) (io : Io) (n : ℕ) (r : ReadOutcome) :
    (finishReadStep cfg w io n r).crash = false ∧
      ReadLeads cfg.kind .finish n r (finishReadStep cfg w io n r).frames := by
  cases r with
  | bytes m => exact ⟨rfl, .more m rfl rfl⟩
  | eof =>
    refine ⟨rfl, .tells [.handler (.drain .finish)] (.inl rfl) ?_ rfl (.inr (.inr rfl))⟩
    cases cfg.kind <;> rfl
  | interrupted =>
    cases hk : cfg.kind with
    | plain =>
      simp only [finishReadStep, hk]
      exact ⟨rfl, .again (fun _ => rfl) rfl rfl⟩
    | ssl =>
      simp only [finishReadStep, hk]
      exact ⟨rfl, .closes [.handler .rdhupEnd] (fun _ => rfl) rfl rfl (.inr rfl)⟩
  | wouldBlock =>
    refine ⟨rfl, .closes [.handler .rdhupEnd] (fun _ => rfl) ?_ rfl (.inr rfl)⟩
    cases cfg.kind <;> rfl
  | wantWrite =>
    refine ⟨rfl, .closes [.handler .rdhupEnd] (fun _ => rfl) ?_ rfl (.inr rfl)⟩
    cases cfg.kind <;> rfl
  | fault =>
    refine ⟨rfl, .closes [.handler .rdhupEnd] (fun _ => rfl) ?_ rfl (.inr rfl)⟩
    cases cfg.kind <;> rfl

theorem read_leads {w : Word} {io : Io} (loop : ReadLoop) {n : ℕ} {r : ReadOutcome} {e : Effect}
    (h : frameStep cfg w io (loop.frame n) (.read r) = some e) :
    e.crash = false ∧ ReadLeads cfg.kind loop n r e.frames := by
  cases loop with
  | epIn =>
    obtain rfl := Option.some.inj (show some (epInStep cfg w io n r) = some e from h)
    exact epIn_leads cfg w io n r
  | finish =>
    obtain rfl := Option.some.inj (show some (finishReadStep cfg w io n r) = some e from h)
    exact finishRead_leads cfg w io n r

/-! ### After the reads -/

/-- The frames of what comes after the reads. -/
def Frame.afterRead : Frame → Bool
  | .user | .hup .load => true
  | .handler (.drain _) | .handler (.drainWrite _ _) | .handler .drainClear | .handler .finishPop
  | .handler .rdhupEnd => true
  | _ => false

theorem popFront_afterRead {w : Word} {io : Io} (mode : DrainMode) :
    (popFront cfg w io mode).frames.all Frame.afterRead = true := by
  unfold popFront
  split
  · split <;> rfl
  · rfl

theorem drainStep_afterRead {w : Word} {io : Io} (mode : DrainMode) :
    (drainStep cfg w io mode).frames.all Frame.afterRead = true := by
  unfold drainStep
  split
  · split
    · dsimp only [Effect.goto]
      split <;> rfl
    · rfl
  · split
    · rfl
    · split
      · exact popFront_afterRead mode
      · rfl

theorem drainWriteStep_afterRead {w : Word} {io : Io} (mode : DrainMode) (left : ℤ) (b : OutBuf)
    (bs : List OutBuf) (o : WriteOutcome) :
    (drainWriteStep cfg w io mode left b bs o).frames.all Frame.afterRead = true := by
  have hstop : mode.stop.all Frame.afterRead = true := by
    cases mode <;> rfl
  unfold drainWriteStep
  dsimp only
  split
  · split
    · rfl
    · split
      · rfl
      · split
        · exact popFront_afterRead mode
        · rfl
  · split
    · exact hstop
    · rfl
    · split <;> rfl
    · exact hstop
    · exact hstop
    · exact hstop

/-- After the reads nothing reads any more. -/
theorem frameStep_afterRead {w : Word} {io : Io} {inp : Input} {e : Effect} (hf : f.afterRead = true)
    (hloop : f.inLoop = true) (h : frameStep cfg w io f inp = some e) : e.frames.all Frame.afterRead = true := by
  cases f with
  | handler pc =>
    cases pc with
    | drain mode =>
      obtain rfl := Option.some.inj (show some (drainStep cfg w io mode) = some e from h)
      exact drainStep_afterRead mode
    | drainWrite mode left =>
      obtain ⟨o, b, bs, -, -, -, rfl⟩ := drainWrite_inv (x := ⟨false, inp⟩) h
      exact drainWriteStep_afterRead mode left b bs o
    | drainClear | finishPop | rdhupEnd =>
      obtain rfl := Option.some.inj h
      rfl
    | _ => cases hf
  | user | hup => cases hloop
  | _ => cases hf

/-- A visit that is past its reads stays so. -/
theorem visit_afterRead {v v' : Visit} {t : Tick} (hall : v.frames.all Frame.afterRead = true)
    (h : v.step cfg t = some v') : v'.frames.all Frame.afterRead = true := by
  cases hf : v.frames with
  | nil =>
    rw [Visit.step, hf] at h
    cases h
  | cons f rest =>
    rw [hf, List.all_cons, Bool.and_eq_true] at hall
    by_cases hloop : f.inLoop = true
    · obtain ⟨-, e, he, rfl⟩ := visit_frame hf hloop h
      show (e.frames ++ rest).all Frame.afterRead = true
      rw [List.all_append, frameStep_afterRead hall.1 hloop he, hall.2]
      rfl
    · rw [Visit.step, hf] at h
      dsimp only at h
      rw [Option.ite_none_left_eq_some, if_neg hloop] at h
      obtain ⟨-, h⟩ := h
      split at h
      · rw [← Option.some.inj h]
        exact hall.2
      · rw [Option.ite_none_right_eq_some, Option.some.injEq] at h
        rw [← h.2]
        exact hall.2

theorem reads_of_afterRead (h : f.afterRead = true) : f.reads = false := by
  cases f with
  | handler pc => cases pc <;> first | rfl | cases h
  | _ => rfl

theorem closesOn_of_afterRead (k : Kind) (r : ReadOutcome) (h : f.afterRead = true) : f.closesOn k r = false := by
  cases f with
  | handler pc => cases pc <;> first | rfl | cases h
  | _ => rfl

/-! ### The calls -/

/-- What was received has been passed on, and that came first. -/
def Receipt.told (s : Receipt) : Prop :=
  s.received = [] ∨ ∃ content rest, s.log = .message content :: rest ∧ s.received <:+ content

theorem Receipt.told.delivers (h : s.told) : s.delivers := by
  intro pre post hlog hne
  obtain hnil | ⟨content, rest, hfirst, hsuffix⟩ := h
  · exact absurd hnil hne
  · cases pre with
    | nil =>
      rw [List.nil_append, hfirst] at hlog
      cases hlog
    | cons a pre =>
      rw [hfirst, List.cons_append, List.cons.injEq] at hlog
      exact ⟨content, hlog.1 ▸ List.mem_cons_self, hsuffix⟩

/-- Where the call stands. -/
inductive ReceiptInv (loop : ReadLoop) (s : Receipt) : Prop
  | reading (hf : s.visit.frames = [loop.frame s.received.length]) (hlog : s.log = []) (hvalid : s.input.Valid)
      (hread : s.received <:+ s.input.readable)
  | past (hf : s.visit.frames.all Frame.afterRead = true) (htold : s.told)

variable {loop : ReadLoop}

theorem ReceiptInv.delivers (h : ReceiptInv loop s) : s.delivers := by
  cases h with
  | reading hf hlog hvalid hread =>
    intro pre post hpre
    rw [hlog] at hpre
    cases pre <;> cases hpre
  | past hf htold => exact htold.delivers

/-- Past the reads nothing is received, and calls are only added. -/
theorem ReceiptInv.step_past (hf : s.visit.frames.all Frame.afterRead = true) (htold : s.told)
    (hs : s.step cfg x = some s') : ReceiptInv loop s' := by
  cases hfr : s.visit.frames with
  | nil =>
    rw [Receipt.step, hfr] at hs
    cases hs
  | cons f rest =>
    obtain ⟨filled, v, hfilled, hv, rfl⟩ := receipt_cases hfr hs
    have hafter : f.afterRead = true := by
      rw [hfr, List.all_cons, Bool.and_eq_true] at hf
      exact hf.1
    have hnone : filled = (s.input, []) := by
      unfold Frame.fills at hfilled
      rw [reads_of_afterRead hafter] at hfilled
      split at hfilled
      · rw [if_neg Bool.false_ne_true, Option.some.injEq] at hfilled
        exact hfilled.symm
      · exact (Option.some.inj hfilled).symm
    refine .past (visit_afterRead hf hv) ?_
    rw [hnone]
    obtain hnil | ⟨content, more, hlog, hsuffix⟩ := htold
    · refine .inl ?_
      show s.received ++ [] = []
      rw [hnil]
      rfl
    · refine .inr ⟨content, more ++ f.calls s.input (v.frames.take (v.frames.length - rest.length)), ?_, ?_⟩
      · show s.log ++ _ = _
        rw [hlog, List.cons_append]
      · show s.received ++ [] <:+ content
        rw [List.append_nil]
        exact hsuffix

theorem ReadLoop.frame_reads (loop : ReadLoop) (n : ℕ) : (loop.frame n).reads = true ∧
    (loop.frame n).inLoop = true := by
  cases loop <;> exact ⟨rfl, rfl⟩

theorem ReadLoop.frame_inp {w : Word} {io : Io} {n : ℕ} {inp : Input} {e : Effect}
    (h : frameStep cfg w io (loop.frame n) inp = some e) : ∃ r, inp = .read r := by
  cases inp with
  | read r => exact ⟨r, rfl⟩
  | _ => cases loop <;> cases h

/-- A read inverted. -/
theorem reading_cases {n : ℕ} (hf : s.visit.frames = [loop.frame n]) (hvalid : s.input.Valid)
    (hs : s.step cfg x = some s') :
    ∃ r b, x.tick.inp = .read r ∧ b.Valid ∧ b.readable = s.input.readable ++ r.taken x.data ∧
      (∀ m, r = .bytes m → (r.taken x.data).length = m) ∧ s'.input = b ∧
      s'.received = s.received ++ r.taken x.data ∧
      s'.log = s.log ++ (loop.frame n).calls b s'.visit.frames ∧
      ReadLeads cfg.kind loop n r s'.visit.frames := by
  obtain ⟨hreads, hloop⟩ := loop.frame_reads n
  obtain ⟨filled, v, hfilled, hv, rfl⟩ := receipt_cases hf hs
  obtain ⟨-, e, he, rfl⟩ := visit_frame hf hloop hv
  obtain ⟨r, hr⟩ := ReadLoop.frame_inp he
  rw [hr] at he hfilled
  rw [Frame.fills, if_pos hreads] at hfilled
  obtain ⟨b, hb, rfl⟩ := Option.map_eq_some_iff.mp hfilled
  obtain ⟨hbvalid, hread, hlen⟩ := receive_spec hvalid hb
  refine ⟨r, b, hr, hbvalid, hread, hlen, rfl, rfl, ?_, ?_⟩
  · show s.log ++ (loop.frame n).calls b (List.take (_ - 0) _) = _
    rw [Nat.sub_zero, List.take_length]
  · have hleads := (read_leads loop he).2
    rw [← List.append_nil e.frames] at hleads
    exact hleads

/-- The calls of a loop that is over. -/
theorem calls_tells (hreads : f.reads = true) (b : Buffer) (n : ℕ) (tail : List Frame) :
    f.calls b (messageCallback n ++ tail)
      = (if 0 < n then [.message b.readable] else []) ++ f.calls b tail := by
  rw [Frame.calls, List.filterMap_append, Frame.calls, messageCallback]
  by_cases hn : 0 < n
  · rw [if_pos hn, if_pos hn, List.filterMap_cons]
    dsimp only
    rw [if_pos hreads]
    rfl
  · rw [if_neg hn, if_neg hn]
    rfl

/-- A read keeps what must hold exactly if it does not close the connection with received bytes. -/
theorem ReceiptInv.step_reading (hf : s.visit.frames = [loop.frame s.received.length]) (hlog : s.log = [])
    (hvalid : s.input.Valid) (hread : s.received <:+ s.input.readable) (hs : s.step cfg x = some s') :
    (KeepsReceived cfg s x → ReceiptInv loop s') ∧ (s'.delivers → KeepsReceived cfg s x) := by
  obtain ⟨hreads, -⟩ := loop.frame_reads s.received.length
  obtain ⟨r, b, hr, hbvalid, hbread, hlen, hinput, hreceived, hlog', hleads⟩ := reading_cases hf hvalid hs
  rw [hlog, List.nil_append] at hlog'
  have hsuffix : s.received ++ r.taken x.data <:+ b.readable := by
    obtain ⟨front, hfront⟩ := hread
    refine ⟨front, ?_⟩
    rw [← List.append_assoc, hfront, hbread]
  have hcond : KeepsReceived cfg s x ↔
      s.received = [] ∨ (loop.frame s.received.length).closesOn cfg.kind r = false := by
    rw [KeepsReceived, Receipt.closesNow, hf, hr]
  rw [hcond]
  cases hleads with
  | more m hm hfs =>
    have hsame : (loop.frame s.received.length).closesOn cfg.kind r = false := by
      rw [hm]
      cases loop <;> cases cfg.kind <;> rfl
    refine ⟨fun _ => .reading ?_ ?_ (hinput ▸ hbvalid) ?_, fun _ => .inr hsame⟩
    · rw [hfs, hreceived, List.length_append, hlen m hm]
    · rw [hlog', hfs]
      cases loop <;> rfl
    · rw [hreceived, hinput]
      exact hsuffix
  | again hnone hcloses hfs =>
    rw [hnone, List.append_nil] at hreceived hsuffix
    refine ⟨fun _ => .reading ?_ ?_ (hinput ▸ hbvalid) ?_, fun _ => .inr hcloses⟩
    · rw [hfs, hreceived]
    · rw [hlog', hfs]
      cases loop <;> rfl
    · rw [hreceived, hinput]
      exact hsuffix
  | tells tail hend hcloses hfs htail =>
    have hnone : r.taken x.data = [] := by
      obtain rfl | rfl | rfl := hend <;> rfl
    rw [hnone, List.append_nil] at hreceived hsuffix
    refine ⟨fun _ => .past ?_ ?_, fun _ => .inr hcloses⟩
    · rw [hfs, List.all_append, Bool.and_eq_true]
      refine ⟨?_, ?_⟩
      · unfold messageCallback
        split <;> rfl
      · obtain rfl | rfl | rfl := htail <;> rfl
    · by_cases hn : 0 < s.received.length
      · refine .inr ⟨b.readable, (loop.frame s.received.length).calls b tail, ?_, hreceived ▸ hsuffix⟩
        rw [hlog', hfs, calls_tells hreads, if_pos hn]
        rfl
      · refine .inl ?_
        rw [hreceived]
        exact List.length_eq_zero_iff.mp (Nat.eq_zero_of_not_pos hn)
  | closes tail hnone hcloses hfs htail =>
    rw [hnone, List.append_nil] at hreceived
    refine ⟨fun hP => .past ?_ (.inl ?_), fun hJ => .inl ?_⟩
    · rw [hfs]
      obtain rfl | rfl := htail <;> rfl
    · obtain hnil | hno := hP
      · rw [hreceived, hnil]
      · rw [hcloses] at hno
        cases hno
    · -- the first call is the one of `handle_ep_hup`
      by_contra hne
      have hfirst : ∃ post, s'.log = [] ++ .hup :: post := by
        rw [hlog', hfs]
        exact ⟨_, rfl⟩
      obtain ⟨post, hpost⟩ := hfirst
      obtain ⟨content, hmem, -⟩ := hJ [] post hpost (hreceived ▸ hne)
      cases hmem

/-- **Received bytes.**  For every sequence of answers of the reads (and whatever the calls that follow do):
what `handle_ep_in` or `finish_in_out` has put into `inputBuffer_` is passed to `messageCallback_` before
`handle_ep_hup` is called, in every state of the call, exactly as long as no answer on which the loop closes
at once follows on received bytes. -/
theorem received_delivered (cfg : Config) (w : Word) (io : Io) {input : Buffer} (hvalid : input.Valid)
    (loop : ReadLoop) {xs : List Delivery} {s : Receipt}
    (hrun : run (Receipt.step cfg) (.enter w io input (loop.frame 0)) xs = some s) :
    Along (Receipt.step cfg) (KeepsReceived cfg) (.enter w io input (loop.frame 0)) xs ↔
      Throughout (Receipt.step cfg) Receipt.delivers (.enter w io input (loop.frame 0)) xs := by
  have hinit : ReceiptInv loop (.enter w io input (loop.frame 0)) :=
    .reading rfl rfl hvalid (List.nil_suffix)
  refine along_iff_throughout (KeepsReceived cfg) (ReceiptInv loop) Receipt.delivers ?_ ?_ hinit hinit.delivers hrun
  · intro s a s' h hP hs
    have hnext : ReceiptInv loop s' := by
      cases h with
      | reading hf hlog hv hread => exact (ReceiptInv.step_reading hf hlog hv hread hs).1 hP
      | past hf htold => exact ReceiptInv.step_past hf htold hs
    exact ⟨hnext, hnext.delivers⟩
  · intro s a s' h hs hJ
    cases h with
    | reading hf hlog hv hread => exact (ReceiptInv.step_reading hf hlog hv hread hs).2 hJ
    | past hf htold =>
      refine .inr ?_
      unfold Receipt.closesNow
      split
      · next f rest r hfr _ =>
        rw [hfr, List.all_cons, Bool.and_eq_true] at hf
        exact closesOn_of_afterRead _ _ hf.1
      · rfl

/-- A byte, then the end of the stream. -/
theorem received_delivered_eof :
    ∃ s, run (Receipt.step plainConfig) (.enter established queuedIo (Buffer.ctor 8) (ReadLoop.epIn.frame 0))
        [⟨⟨false, .read (.bytes 1)⟩, [5]⟩, ⟨⟨false, .read .eof⟩, []⟩] = some s ∧
      s.log = [.message [5], .hup] ∧
      Throughout (Receipt.step plainConfig) Receipt.delivers
        (.enter established queuedIo (Buffer.ctor 8) (ReadLoop.epIn.frame 0))
        [⟨⟨false, .read (.bytes 1)⟩, [5]⟩, ⟨⟨false, .read .eof⟩, []⟩] := by
  have hrun : (run (Receipt.step plainConfig)
      (.enter established queuedIo (Buffer.ctor 8) (ReadLoop.epIn.frame 0))
      [⟨⟨false, .read (.bytes 1)⟩, [5]⟩, ⟨⟨false, .read .eof⟩, []⟩]).map Receipt.log
      = some [.message [5], .hup] := by
    decide
  obtain ⟨s, hs, hlog⟩ := Option.map_eq_some_iff.mp hrun
  exact ⟨s, hs, hlog,
    (received_delivered plainConfig established queuedIo (Buffer.ctor_valid 8) .epIn hs).mp (by decide)⟩

/-- A byte, then an error: the connection is closed, and the byte was never passed on. -/
theorem received_lost :
    ∃ s, run (Receipt.step plainConfig) (.enter established queuedIo (Buffer.ctor 8) (ReadLoop.epIn.frame 0))
        [⟨⟨false, .read (.bytes 1)⟩, [5]⟩, ⟨⟨false, .read .fault⟩, []⟩] = some s ∧
      s.received = [5] ∧ s.log = [.hup] ∧ ¬s.delivers := by
  have hrun : (run (Receipt.step plainConfig)
      (.enter established queuedIo (Buffer.ctor 8) (ReadLoop.epIn.frame 0))
      [⟨⟨false, .read (.bytes 1)⟩, [5]⟩, ⟨⟨false, .read .fault⟩, []⟩]).map (fun s => (s.received, s.log))
      = some ([5], [.hup]) := by
    decide
  obtain ⟨s, hs, hend⟩ := Option.map_eq_some_iff.mp hrun
  obtain ⟨hreceived, hlog⟩ := Prod.mk.inj hend
  refine ⟨s, hs, hreceived, hlog, fun hdelivers => ?_⟩
  obtain ⟨content, hmem, -⟩ := hdelivers [] [] hlog (by rw [hreceived]; decide)
  cases hmem

end KwNet.Tcp
