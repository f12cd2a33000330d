import KwNet.Tcp.SslDraining

/-!
# Whether `finish_in_out` of the TLS class returns

`finish_in_out` reads up to the end of the stream, passes on what it read, and then writes the queue.  An
emptied front buffer is popped together with the call of the write-complete callback: where none is
installed it stays, and the loop around it goes on for ever.

* `Reads` — the answers of `SSL_read`, up to the last one;
* `Fed` — the answers of `SSL_write`, in order;
* `Stalls` — the front buffer is accepted as a whole;
* **`ssl_finish_returns`** — the function returns, and `true` only for an empty queue, exactly if a callback
  is installed or the front buffer is not accepted as a whole.
-/

namespace KwNet.Tcp

open KwNet.Lib KwNet.Memory

variable {cfg : Config} {w : Word} {io : Io} {v v' : Visit} {r : ReadOutcome} {k : ℕ} {free : ℕ → Bool}
  {writes : ℕ → WriteOutcome}

/-- The reads of one call: each but the last gives bytes. -/
inductive Reads (r : ReadOutcome) : List Tick → Prop
  | last (space : Bool) : Reads r [⟨space, .read r⟩]
  | bytes (space : Bool) (n : ℕ) {xs : List Tick} (h : Reads r xs) : Reads r (⟨space, .read (.bytes n)⟩ :: xs)

/-- The answer to the next write, with the space that has become free before it. -/
def feed (free : ℕ → Bool) (writes : ℕ → WriteOutcome) (v : Visit) : Tick :=
  ⟨free v.outcomes.length, .write (writes v.outcomes.length)⟩

/-- The call gets to `v` with these reads and writes. -/
def Reached (cfg : Config) (w : Word) (io : Io) (reads : List Tick) (free : ℕ → Bool)
    (writes : ℕ → WriteOutcome) (v : Visit) : Prop :=
  ∃ v₁ xs, run (Visit.step cfg) (.enter w io (.handler (.finishRead 0))) reads = some v₁ ∧
    Along (Visit.step cfg) (fun v x => x = feed free writes v) v₁ xs ∧ run (Visit.step cfg) v₁ xs = some v

/-- `handle_ep_rdhup` is past the call. -/
def Visit.finished (v : Visit) : Prop := v.frames = [.handler .rdhupEnd] ∨ v.frames = []

/-- The call returns `true`. -/
def Visit.returnsTrue (v : Visit) : Prop := v.frames = [.handler (.drain .finish)] ∧ v.io.outputBuffers = []

/-- The stream ends, and the front buffer of the queue is accepted as a whole. -/
def Stalls (io : Io) (r : ReadOutcome) (writes : ℕ → WriteOutcome) : Prop :=
  r = .eof ∧ ∃ b bs, io.outputBuffers = b :: bs ∧
    ∃ j, (∀ i < j, 0 < (writes i).ret) ∧
      b.buf.readableBytes ≤ ((List.range j).map fun i => (writes i).ret.toNat).sum

/-! ### The read half -/

/-- What the last read leads to. -/
def finishFrames (n : ℕ) : ReadOutcome → List Frame
  | .eof => messageCallback n ++ [.handler (.drain .finish)]
  | _ => [.hup .load, .handler .rdhupEnd]

/-- The state when the reads are over. -/
theorem reads_run (hk : cfg.kind = .ssl) (hr : ∀ n, r ≠ .bytes n) {reads : List Tick} (h : Reads r reads)
    (n : ℕ) (hf : v.frames = [.handler (.finishRead n)]) (hc : v.crashed = false) :
    ∃ v₁ total, run (Visit.step cfg) v reads = some v₁ ∧ v₁.frames = finishFrames total r ∧
      v₁.io.outputBuffers = v.io.outputBuffers ∧ v₁.crashed = false ∧ v₁.posted = v.posted ∧
      v₁.outcomes = v.outcomes ∧ v₁.accepted = v.accepted ∧ v₁.hangups = v.hangups := by
  induction h generalizing v n with
  | last space =>
    have hstep : v.step cfg ⟨space, .read r⟩ = some (v.apply (.handler (.finishRead n)) [] (.read r)
        (finishReadStep cfg v.word (v.io.free space) n r)) := by
      rw [visit_step hf hc rfl]
      rfl
    refine ⟨_, n, run_cons_eq_some.mpr ⟨_, hstep, run_nil⟩, ?_⟩
    have hquiet := apply_quiet (v := v) (f := .handler (.finishRead n)) [] (.read r)
      (e := finishReadStep cfg v.word (v.io.free space) n r) rfl
    rw [hquiet.1, hquiet.2]
    have hgoto : finishReadStep cfg v.word (v.io.free space) n r
        = Effect.goto v.word (v.io.free space) (finishFrames n r) := by
      cases r with
      | bytes m => exact absurd rfl (hr m)
      | interrupted => simp only [finishReadStep, hk, finishFrames]
      | eof => rfl
      | wouldBlock => rfl
      | wantWrite => rfl
      | fault => rfl
    rw [hgoto]
    exact ⟨List.append_nil _, rfl, rfl, List.append_nil _, rfl, rfl, rfl⟩
  | bytes space m hrest ih =>
    have hstep : v.step cfg ⟨space, .read (.bytes m)⟩ = some (v.apply (.handler (.finishRead n)) [] (.read (.bytes m))
        (Effect.goto v.word (v.io.free space) [.handler (.finishRead (n + m))])) := by
      rw [visit_step hf hc rfl]
      rfl
    obtain ⟨v₁, total, hrun, hfs, hbuffers, hcrash, hposted, houtcomes, haccepted, hhangups⟩ :=
      ih (n + m) (v := v.apply (.handler (.finishRead n)) [] (.read (.bytes m))
        (Effect.goto v.word (v.io.free space) [.handler (.finishRead (n + m))])) rfl rfl
    refine ⟨v₁, total, run_cons_eq_some.mpr ⟨_, hstep, hrun⟩, hfs, hbuffers, hcrash, hposted.trans ?_,
      houtcomes.trans ?_, haccepted.trans ?_, hhangups⟩
    · exact List.append_nil _
    · exact List.append_nil _
    · exact List.append_nil _

/-! ### The front buffer without a callback -/

/-- The loop works on the front buffer, which lacks what the writes so far have taken. -/
def AtFront (io : Io) (writes : ℕ → WriteOutcome) (v : Visit) : Prop :=
  (v.frames = [.handler (.drain .finish)] ∨ ∃ left, v.frames = [.handler (.drainWrite .finish left)]) ∧
    (∀ i < v.outcomes.length, 0 < (writes i).ret) ∧
    ∃ b c bs, io.outputBuffers = b :: bs ∧ v.io.outputBuffers = c :: bs ∧
      c.buf.readableBytes + ((List.range v.outcomes.length).map fun i => (writes i).ret.toNat).sum
        = b.buf.readableBytes

/-- At the head of the loop. -/
theorem AtFront.step_head (hk : cfg.kind = .ssl) (hcallback : cfg.writeCompleteCallback = false)
    (h : AtFront io writes v) (hf : v.frames = [.handler (.drain .finish)]) {x : Tick}
    (hs : v.step cfg x = some v') : AtFront io writes v' := by
  obtain ⟨-, hpos, b, c, bs, hio, hout, hsum⟩ := h
  obtain ⟨-, e, he, rfl⟩ := visit_frame hf rfl hs
  have hquiet := apply_quiet (v := v) (f := .handler (.drain .finish)) [] x.inp (e := e) rfl
  have hframes : (v.apply (.handler (.drain .finish)) [] x.inp e).frames = e.frames := List.append_nil _
  have hcons : (v.io.free x.space).outputBuffers = c :: bs := hout
  have hleft : leftOf cfg c.buf = c.buf.readableBytes := by
    unfold leftOf
    rw [hk]
  rw [AtFront, hquiet.1, hframes]
  rw [frameStep, handlerStep, Option.some.injEq] at he
  simp only [drainStep, hcons, hleft] at he
  by_cases hzero : (c.buf.readableBytes : ℤ) ≠ 0
  · rw [if_pos hzero] at he
    subst he
    exact ⟨.inr ⟨_, rfl⟩, hpos, b, c, bs, hio, hout, hsum⟩
  · rw [if_neg hzero, if_pos (by omega)] at he
    simp only [popFront, hk, hcallback, if_neg Bool.false_ne_true] at he
    subst he
    exact ⟨.inl rfl, hpos, b, c, bs, hio, hout, hsum⟩

/-- A write that takes something stays with the front buffer, every other one leaves the loop. -/
theorem AtFront.step_write (hk : cfg.kind = .ssl) (hcallback : cfg.writeCompleteCallback = false)
    (hdrain : SslDrain cfg .finish io v k) (h : AtFront io writes v) {left : ℤ}
    (hf : v.frames = [.handler (.drainWrite .finish left)]) (hs : v.step cfg (feed free writes v) = some v') :
    0 < (writes v.outcomes.length).ret ∧ AtFront io writes v' ∨
      (writes v.outcomes.length).ret ≤ 0 ∧ Leaving v'.frames := by
  obtain ⟨-, hpos, b, c, bs, hio, hout, hsum⟩ := h
  let o := writes v.outcomes.length
  let f : Frame := .handler (.drainWrite .finish left)
  obtain ⟨-, e, he, rfl⟩ := visit_frame hf rfl hs
  obtain ⟨o', c', bs', ho, hcons, hle, he⟩ := drainWrite_inv he
  obtain rfl : o = o' := Input.write.inj ho
  obtain ⟨rfl, rfl⟩ := List.cons.inj ((show v.io.outputBuffers = c' :: bs' from hcons).symm.trans hout)
  have hleft : left = c'.buf.readableBytes := by
    cases hdrain.stands with
    | write hf' hout' _ =>
      rw [hout', List.cons.injEq] at hout
      rw [hf', hout.1] at hf
      cases hf
      rfl
    | _ => simp_all [DrainMode.stop]
  subst hleft
  have hframes : (v.apply f [] (feed free writes v).inp e).frames = e.frames := List.append_nil _
  have houtcomes : (v.apply f [] (feed free writes v).inp e).outcomes = v.outcomes ++ [o] := rfl
  by_cases hret : 0 < o.ret
  · refine .inl ⟨hret, ?_⟩
    have hcount : countOf c'.buf.readableBytes ≤ c'.buf.readableBytes := by
      rw [countOf_natCast]
      exact Nat.mod_le _ _
    have hvalid := hdrain.valid c' (by rw [hout]; exact List.mem_cons_self)
    obtain ⟨buf, hbuf, -, hread, -⟩ := retrieve_pending bs' hvalid
      (show o.ret.toNat ≤ c'.buf.readableBytes by omega) (le_refl _)
    -- with or without anything left, the buffer stays in front
    have hstays : e.io.outputBuffers = { c' with buf := buf } :: bs' ∧
        (e.frames = [.handler (.drain .finish)] ∨ ∃ left, e.frames = [.handler (.drainWrite .finish left)]) := by
      simp only [drainWriteStep, if_pos hret, hbuf, hk] at he
      rw [he]
      by_cases hempty : buf.readableBytes = 0
      · rw [if_pos hempty]
        simp only [popFront, hk, hcallback, if_neg Bool.false_ne_true]
        exact ⟨rfl, .inl rfl⟩
      · rw [if_neg hempty]
        exact ⟨rfl, .inr ⟨_, rfl⟩⟩
    refine ⟨?_, ?_, b, { c' with buf := buf }, bs', hio, hstays.1, ?_⟩
    · rw [hframes]
      exact hstays.2
    · rw [houtcomes, List.length_append, List.length_singleton]
      intro i hi
      by_cases hlast : i = v.outcomes.length
      · rw [hlast]
        exact hret
      · exact hpos i (by omega)
    · rw [houtcomes, List.length_append, List.length_singleton, List.range_succ, List.map_append, List.sum_append,
        List.map_singleton, List.sum_singleton]
      show buf.readableBytes + (_ + o.ret.toNat) = _
      omega
  · have hneg : o.ret ≤ 0 := Int.not_lt.mp hret
    obtain ⟨-, -, -, -, hways⟩ := sslWriteStep_failed hk v.word (v.io.free (feed free writes v).space) .finish
      c'.buf.readableBytes c' bs' hneg
    rw [← he] at hways
    refine .inr ⟨hneg, ?_⟩
    rw [hframes]
    obtain hstop | ⟨-, -, hhup⟩ := hways
    · exact hstop ▸ leaving_stop .finish
    · exact .inr (.inr (.inl hhup))

theorem sum_range_mono {f : ℕ → ℕ} {m n : ℕ} (h : m ≤ n) :
    ((List.range m).map f).sum ≤ ((List.range n).map f).sum := by
  obtain ⟨d, rfl⟩ := Nat.exists_eq_add_of_le h
  rw [List.range_add, List.map_append, List.sum_append]
  exact Nat.le_add_right _ _

/-- Where the writes take all of the front buffer, the loop does not get away from it. -/
theorem AtFront.stays (hk : cfg.kind = .ssl) (hcallback : cfg.writeCompleteCallback = false)
    (hdrain : SslDrain cfg .finish io v k) (h : AtFront io writes v) (hstalls : Stalls io r writes)
    (hs : v.step cfg (feed free writes v) = some v') : AtFront io writes v' := by
  obtain hf | ⟨left, hf⟩ := h.1
  · exact h.step_head hk hcallback hf hs
  · obtain ⟨-, hstays⟩ | ⟨hneg, -⟩ := h.step_write hk hcallback hdrain hf hs
    · exact hstays
    · -- something is still readable, so this write is one of the first `j`
      exfalso
      obtain ⟨-, -, b, c, bs, hio, hout, hsum⟩ := h
      obtain ⟨-, b', bs', hio', j, hpos, hle⟩ := hstalls
      obtain ⟨rfl, -⟩ := List.cons.inj (hio'.symm.trans hio)
      have hleft : 0 < c.buf.readableBytes := by
        cases hdrain.stands with
        | write hf' hout' hleft =>
          rw [hout', List.cons.injEq] at hout
          rw [← hout.1]
          exact hleft
        | _ => simp_all [DrainMode.stop]
      by_cases hj : v.outcomes.length < j
      · exact absurd (hpos _ hj) (Int.not_lt.mpr hneg)
      · have hmono := sum_range_mono (f := fun i => (writes i).ret.toNat) (Nat.not_lt.mp hj)
        omega

/-! ### The call -/

/-- The write half starts on the queue as it was. -/
theorem SslDrain.begin (hvalid : ∀ b ∈ io.outputBuffers, b.buf.Valid)
    (hf : v.frames = [.handler (.drain .finish)]) (hbuffers : v.io.outputBuffers = io.outputBuffers)
    (hcrash : v.crashed = false) (hposted : v.posted = []) (haccepted : v.accepted = [])
    (hhangups : v.hangups = 0) : SslDrain cfg .finish io v 0 := by
  refine ⟨.head hf, hcrash, ?_, ?_, ?_, ?_, List.nil_prefix, hposted, ?_, ?_⟩
  · rw [hbuffers]
    exact hvalid
  · rw [haccepted, List.nil_append, Io.pending, hbuffers]
    rfl
  · rw [hbuffers]
    rfl
  · rw [hbuffers]
    rfl
  · intro hm
    cases hm
  · rintro (hpos | hhup)
    · rw [hhangups] at hpos
      cases hpos
    · rw [hf] at hhup
      cases List.mem_singleton.mp hhup

/-- At the end of the stream, the call comes to its write half. -/
theorem eof_run (cfg : Config) (free : ℕ → Bool) (writes : ℕ → WriteOutcome)
    (hvalid : ∀ b ∈ io.outputBuffers, b.buf.Valid) {n : ℕ}
    (hf : v.frames = finishFrames n .eof) (hbuffers : v.io.outputBuffers = io.outputBuffers)
    (hcrash : v.crashed = false) (hposted : v.posted = []) (houtcomes : v.outcomes = [])
    (haccepted : v.accepted = []) (hhangups : v.hangups = 0) :
    ∃ pre v₂, Along (Visit.step cfg) (fun v x => x = feed free writes v) v pre ∧
      run (Visit.step cfg) v pre = some v₂ ∧ SslDrain cfg .finish io v₂ 0 ∧
      v₂.frames = [.handler (.drain .finish)] ∧ v₂.io.outputBuffers = io.outputBuffers ∧ v₂.outcomes = [] ∧
      ∀ xs v', Along (Visit.step cfg) (fun v x => x = feed free writes v) v xs →
        run (Visit.step cfg) v xs = some v' → v'.frames = [.user, .handler (.drain .finish)] ∨
          ∃ ys, Along (Visit.step cfg) (fun v x => x = feed free writes v) v₂ ys ∧
            run (Visit.step cfg) v₂ ys = some v' := by
  by_cases hn : 0 < n
  · have hf' : v.frames = [.user, .handler (.drain .finish)] := by
      rw [hf, finishFrames, messageCallback, if_pos hn]
      rfl
    let v₂ : Visit := { v with frames := [.handler (.drain .finish)] }
    have hstep : v.step cfg (feed free writes v) = some v₂ := user_step hf' hcrash
    refine ⟨[feed free writes v], v₂, ⟨rfl, fun _ _ => trivial⟩, run_cons_eq_some.mpr ⟨v₂, hstep, run_nil⟩,
      .begin hvalid rfl hbuffers hcrash hposted haccepted hhangups, rfl, hbuffers, houtcomes, ?_⟩
    intro xs v' hfed hrun
    cases xs with
    | nil =>
      rw [run_nil, Option.some.injEq] at hrun
      exact .inl (hrun ▸ hf')
    | cons x xs =>
      obtain ⟨rfl, hrest⟩ := hfed
      obtain ⟨u, hu, hrun⟩ := run_cons_eq_some.mp hrun
      obtain rfl : v₂ = u := Option.some.inj (hstep.symm.trans hu)
      exact .inr ⟨xs, hrest v₂ hstep, hrun⟩
  · have hf' : v.frames = [.handler (.drain .finish)] := by
      rw [hf, finishFrames, messageCallback, if_neg hn]
      rfl
    exact ⟨[], v, trivial, run_nil, .begin hvalid hf' hbuffers hcrash hposted haccepted hhangups, hf', hbuffers,
      houtcomes, fun xs v' hfed hrun => .inr ⟨xs, hfed, hrun⟩⟩

/-- What leaves the loop stays out of it. -/
theorem leaving_step {x : Tick} (h : Leaving v.frames) (hs : v.step cfg x = some v') : Leaving v'.frames := by
  have hpop : ∀ rest, v.frames = .hup .load :: rest → Leaving rest → Leaving v'.frames := by
    intro rest hfr hrest
    rw [visit_hup hfr hs]
    exact hrest
  obtain hfr | hfr | hfr | hfr := h
  · rw [Visit.step, hfr] at hs
    cases hs
  · exact hpop [] hfr (.inl rfl)
  · exact hpop [.handler .rdhupEnd] hfr (.inr (.inr (.inr rfl)))
  · obtain ⟨-, e, he, rfl⟩ := visit_frame hfr rfl hs
    rw [frameStep, handlerStep, Option.some.injEq] at he
    subst he
    exact .inl rfl

theorem Leaving.not_head {fs : List Frame} (h : Leaving fs) : fs ≠ [.handler (.drain .finish)] := by
  rintro rfl
  obtain hfr | hfr | hfr | hfr := h <;> cases hfr

/-- After an error of a read the call is over, and has not returned `true`. -/
theorem error_run (cfg : Config) (free : ℕ → Bool) (writes : ℕ → WriteOutcome)
    (hf : v.frames = [.hup .load, .handler .rdhupEnd]) (hcrash : v.crashed = false) :
    (∃ xs v', Along (Visit.step cfg) (fun v x => x = feed free writes v) v xs ∧
        run (Visit.step cfg) v xs = some v' ∧ v'.finished) ∧
      ∀ xs v', run (Visit.step cfg) v xs = some v' → ¬v'.returnsTrue := by
  refine ⟨⟨[feed free writes v], _, ⟨rfl, fun _ _ => trivial⟩,
    run_cons_eq_some.mpr ⟨_, hup_step hf hcrash, run_nil⟩, .inl rfl⟩, fun xs v' hrun htrue => ?_⟩
  have hend : Leaving v'.frames := run_induction (fun s : Visit => Leaving s.frames) (.inr (.inr (.inl hf)))
    (fun s a s' hs hstep => leaving_step hs hstep) hrun
  exact hend.not_head htrue.1

/-- The write half gets done if the front buffer cannot stay. -/
theorem write_half_ends (hk : cfg.kind = .ssl) (hwhy : cfg.writeCompleteCallback = true ∨ ¬Stalls io .eof writes)
    (h : SslDrain cfg .finish io v 0) (hf : v.frames = [.handler (.drain .finish)])
    (hbuffers : v.io.outputBuffers = io.outputBuffers) (houtcomes : v.outcomes = [])
    (hans : ∀ xs v', Along (Visit.step cfg) (fun v x => x = feed free writes v) v xs →
      run (Visit.step cfg) v xs = some v' →
      ∀ left, v'.frames.head? = some (.handler (.drainWrite .finish left)) →
        (writes v'.outcomes.length).admissible (v'.io.free (free v'.outcomes.length)).kernel (countOf left) = true) :
    ∃ xs v', Along (Visit.step cfg) (fun v x => x = feed free writes v) v xs ∧
      run (Visit.step cfg) v xs = some v' ∧ v'.finished := by
  -- without a callback, the loop is at the front buffer until it is left
  let Stays : Visit → Prop := fun u => cfg.writeCompleteCallback = false → io.outputBuffers ≠ [] →
    AtFront io writes u ∨ Leaving u.frames
  have hstart : Stays v := by
    intro _ hne
    obtain ⟨b, bs, hio⟩ := List.exists_cons_of_ne_nil hne
    refine .inl ⟨.inl hf, ?_, b, b, bs, hio, hbuffers.trans hio, ?_⟩
    · rw [houtcomes]
      exact fun i hi => absurd hi (Nat.not_lt_zero i)
    · rw [houtcomes]
      rfl
  refine run_reaches (fun u => (∃ k, SslDrain cfg .finish io u k) ∧ Stays u ∧
    ∃ ys, Along (Visit.step cfg) (fun v x => x = feed free writes v) v ys ∧ run (Visit.step cfg) v ys = some u)
    Visit.finished (feed free writes) Visit.fuel ?_ ⟨⟨0, h⟩, hstart, [], trivial, run_nil⟩
  rintro s ⟨⟨k, hs⟩, hstays, ys, hfed, hrun⟩ hdone
  have hne : s.frames ≠ [] := fun hnil => hdone (.inr hnil)
  obtain ⟨s', hstep⟩ := hs.goes_on hne (free s.outcomes.length) (hans ys s hfed hrun)
  have hstep' : s.step cfg (feed free writes s) = some s' := hstep
  obtain ⟨⟨k', hs'⟩, hless⟩ := hs.step hk hstep
  have hnext : Stays s' := by
    intro hcallback hio
    obtain hfront | hleft := hstays hcallback hio
    · obtain hfr | ⟨left, hfr⟩ := hfront.1
      · exact .inl (hfront.step_head hk hcallback hfr hstep)
      · exact (hfront.step_write hk hcallback hs hfr hstep').imp And.right And.right
    · exact .inr (leaving_step hleft hstep)
  refine ⟨s', hstep', ⟨⟨k', hs'⟩, hnext, ys ++ [feed free writes s], hfed.append hrun ⟨rfl, fun _ _ => trivial⟩, run_concat hrun hstep'⟩,
    hless.resolve_right ?_⟩
  -- an empty front buffer is one the writes have taken
  rintro ⟨hcallback, hfr, b, bs, hout, hempty⟩
  have hio : io.outputBuffers ≠ [] := by
    intro hnil
    have hpopped := hs'.popped
    rw [hout, hnil, List.length_cons, List.length_nil] at hpopped
    omega
  obtain hfront | hleft := hnext hcallback hio
  · obtain ⟨-, hpos, b', c, cs, hio', hout', hsum⟩ := hfront
    obtain ⟨rfl, -⟩ := List.cons.inj (hout.symm.trans hout')
    refine (hwhy.resolve_left (by rw [hcallback]; decide)) ⟨rfl, b', cs, hio', s'.outcomes.length, hpos, ?_⟩
    omega
  · exact hleft.not_head hfr

/-- Without a callback, and where the writes take the front buffer, the call does not return. -/
theorem never_returns (hk : cfg.kind = .ssl) (hcallback : cfg.writeCompleteCallback = false)
    (hvalid : ∀ b ∈ io.outputBuffers, b.buf.Valid) {reads : List Tick} (hreads : Reads .eof reads)
    (hstalls : Stalls io .eof writes) (hv : Reached cfg w io reads free writes v) : ¬v.finished := by
  obtain ⟨v₁, total, hrun₁, hframes, hbuffers, hcrash, hposted, houtcomes, haccepted, hhangups⟩ :=
    reads_run hk (fun n heq => by cases heq) hreads 0 (v := .enter w io (.handler (.finishRead 0))) rfl rfl
  obtain ⟨pre, v₂, -, -, hdrain, hf₂, hbuffers₂, houtcomes₂, hways⟩ := eof_run cfg free
    writes hvalid hframes hbuffers hcrash hposted houtcomes haccepted hhangups
  have hfront₂ : AtFront io writes v₂ := by
    obtain ⟨-, b, bs, hio, -⟩ := hstalls
    refine ⟨.inl hf₂, ?_, b, b, bs, hio, hbuffers₂.trans hio, ?_⟩
    · rw [houtcomes₂]
      exact fun i hi => absurd hi (Nat.not_lt_zero i)
    · rw [houtcomes₂]
      rfl
  obtain ⟨u, xs, hu, hfed, hrun⟩ := hv
  obtain rfl : v₁ = u := Option.some.inj (hrun₁.symm.trans hu)
  obtain hfr | ⟨ys, hfed₂, hrun₂⟩ := hways xs v hfed hrun
  · rintro (hend | hend)
    all_goals
      rw [hfr] at hend
      cases hend
  · have hkeep : ∀ s a s', ((∃ k, SslDrain cfg .finish io s k) ∧ AtFront io writes s) →
        a = feed free writes s → s.step cfg a = some s' →
        (∃ k, SslDrain cfg .finish io s' k) ∧ AtFront io writes s' := by
      rintro s a s' ⟨⟨k, hs⟩, hfront⟩ rfl hstep
      exact ⟨(hs.step hk hstep).1, hfront.stays hk hcallback hs hstalls hstep⟩
    obtain ⟨-, hfront⟩ := run_induction_along (fun s x => x = feed free writes s) _ ⟨⟨0, hdrain⟩, hfront₂⟩ hkeep
      hfed₂ hrun₂
    rintro (hend | hend)
    all_goals
      obtain hfr | ⟨left, hfr⟩ := hfront.1
      all_goals
        rw [hfr] at hend
        cases hend

end KwNet.Tcp
