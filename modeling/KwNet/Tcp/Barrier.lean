import KwNet.Tcp.Phases

/-!
# `set_unused` is a barrier for sends

A `send` that has added itself to the sender field owes one `sendInLoop`; the field may only lag behind
what is owed on the safe side.  The invariant is that a busy connection has at least as many senders in
its field as sends are outstanding, and that nothing is outstanding in any other phase but `closed`.
It survives the two-step acquire of `send`, the two-step release of `sendInLoop`, the CASes that give
up and the unconditional store of `Disconnected`, as long as the field (58 bits) does not overflow.

* `owed` — the sends admitted and not yet released;
* `Phase.Allows` — how much may be outstanding in a phase;
* `BarrierInv` — the invariant;
* **`BarrierInv.step`**, **`barrierInv_of_run`** — it holds along every run whose admissions fit the
  sender field.
-/

namespace KwNet.Tcp

open KwNet.Lib

variable {ι : Type} {cfg : Config} {io : Io} {p : Phase}

/-! ### The sends that are outstanding -/

/-- `sendInLoop` owes its release until its first CAS. -/
def SendLoopPc.holds : SendLoopPc → ℕ
  | .load | .write _ _ _ | .queue _ _ _ _ | .cas _ => 1
  | .clear _ | .wake => 0

/-- One for every send from its admission to the release of its sender. -/
def owed : Measure :=
  { call := fun _ => 0, pending := fun pc _ => pc.holds, fin := 0, event := fun _ => 0 }

/-- The sends admitted whose `sendInLoop` still has to release them. -/
def Conn.owed [Fintype ι] (s : Conn ι) : ℕ := s.total KwNet.Tcp.owed

/-- What may be outstanding in a phase. -/
def Phase.Allows (n : ℕ) : Phase → Prop
  | .busy c => n ≤ c ∧ c < 2 ^ 58
  | .closed => True
  | .idle | .unused | .shut => n = 0

theorem Phase.Allows.mono {n m : ℕ} (h : p.Allows n) (hm : m ≤ n) : p.Allows m := by
  cases p with
  | busy c => exact ⟨Nat.le_trans hm h.1, h.2⟩
  | closed => trivial
  | _ => exact Nat.le_zero.mp (h ▸ hm)

theorem owed_events (evs : List Event) : owed.events evs = 0 := by
  induction evs with
  | nil => rfl
  | cons ev evs ih => rw [Measure.events_cons, ih]; rfl

theorem owed_ofCall (c : Call) : owed.ofCall c = 0 := by
  cases c <;> rfl

/-! ### The steps the statements are about -/

/-- The call that performs an access in this step, if one does. -/
def Conn.moving (s : Conn ι) : Action ι → Option Call
  | .move t =>
    match s.callers t with
    | .calling c => some c
    | _ => none
  | .loop (.step _) =>
    match s.loop with
    | .call c _ :: _ => some c
    | _ => none
  | _ => none

/-- The step admits a send. -/
def Admits (s : Conn ι) (a : Action ι) : Prop :=
  ∃ c, s.moving a = some c ∧ c.admitting s.word = true

/-- The step is the CAS of `set_unused`, and it succeeds. -/
def ClearsUsed (s : Conn ι) (a : Action ι) : Prop :=
  s.moving a = some (.setUnused (.casUnused s.word))

/-- An admission finds room in the 58 bits of the sender field. -/
def NoOverflow (s : Conn ι) (a : Action ι) : Prop :=
  Admits s a → (s.word >>> sendersOffset).toNat + 1 < 2 ^ 58

theorem moving_caller {s : Conn ι} {t : ι} {c : Call} (ht : s.callers t = .calling c) :
    s.moving (.move t) = some c := by
  simp only [Conn.moving, ht]

theorem moving_loop {s : Conn ι} {c : Call} {k : Cont} {rest : List Frame} {inp : Input}
    (hl : s.loop = .call c k :: rest) : s.moving (.loop (.step inp)) = some c := by
  simp only [Conn.moving, hl]

theorem PhaseInv.moving_ok {s : Conn ι} {a : Action ι} {c : Call} (h : PhaseInv cfg s)
    (hc : s.moving a = some c) : c.Ok := by
  unfold Conn.moving at hc
  split at hc
  · next t =>
    split at hc <;> cases hc
    next ht =>
    have hok := h.callers t
    rw [ht] at hok
    exact hok
  · split at hc <;> cases hc
    next k rest hl =>
    have hok := h.loop (.call c k) (by rw [hl]; exact List.mem_cons_self)
    exact hok.1
  · cases hc

instance (s : Conn ι) (a : Action ι) : Decidable (Admits s a) :=
  decidable_of_iff ((s.moving a).any (Call.admitting s.word) = true) (by
    simp only [Admits, Option.any_eq_true])

instance (s : Conn ι) (a : Action ι) : Decidable (NoOverflow s a) :=
  inferInstanceAs (Decidable (_ → _))

/-! ### One step -/

theorem busy_field {c : ℕ} (hc : c < 2 ^ 58) :
    ((Phase.busy c).word >>> sendersOffset).toNat = c := by
  rw [busy_shiftRight, BitVec.toNat_ofNat]
  omega

theorem Next.Keeps.owed {c : Call} {next : Next} (h : next.Keeps c) :
    owed.caller next.caller = 0 := by
  cases next with
  | goto c' => exact owed_ofCall c'
  | admits job => cases h
  | _ => rfl

/-- An access of a call: one more is owed exactly when it admits. -/
theorem CallMove.allows {c : Call} {e : CallEffect} {n : ℕ} (h : CallMove p c e) (hn : p.Allows n)
    (hroom : c.admitting p.word = true → (p.word >>> sendersOffset).toNat + 1 < 2 ^ 58) :
    ∃ q : Phase, e.word = q.word ∧ q.Allows (n + owed.caller e.next.caller) := by
  cases h with
  | quiet hk => exact ⟨p, rfl, by rw [hk.owed]; exact hn⟩
  | mark => exact ⟨.busy 0, rfl, Nat.le_of_eq hn, Nat.two_pow_pos 58⟩
  | @admits d pc job hadm =>
    refine ⟨.busy (d + 1), rfl, Nat.add_le_add_right hn.1 1, ?_⟩
    have hlt := hroom hadm
    rw [busy_field hn.2] at hlt
    exact hlt
  | clear => exact ⟨.unused, rfl, hn⟩
  | win => exact ⟨.shut, rfl, hn⟩

/-- With `n` outstanding before the step of the frame `f`, its effect leaves a phase that allows what
is outstanding after it. -/
def FrameAllows (n : ℕ) (f : Frame) (e : Effect) : Prop :=
  ∃ q : Phase, e.word = q.word ∧ ∀ m, m + owed.frame f = n + owed.frames e.frames → q.Allows m

theorem FrameAllows.same {n : ℕ} {f : Frame} {e : Effect} (hn : p.Allows n) (hw : e.word = p.word)
    (hle : owed.frames e.frames ≤ owed.frame f) : FrameAllows n f e :=
  ⟨p, hw, fun m hm => hn.mono (by omega)⟩

theorem SendMid.owed_le {old : Word} {job : Job} {copy : Option (List UInt8)} {fs : List Frame}
    {evs : List Event} (h : SendMid old job copy fs evs) : owed.frames fs ≤ 1 := by
  cases h <;> first | exact Nat.le_refl 1 | exact Nat.zero_le 1

theorem sendLoopStep_allows {job : Job} {copy : Option (List UInt8)} {pc : SendLoopPc} {inp : Input}
    {e : Effect} {n : ℕ} (hpc : pc.Ok) (hn : p.Allows n) (hle : pc.holds ≤ n)
    (h : sendLoopStep cfg p.word io job copy pc inp = some e) :
    FrameAllows n (.sendInLoop pc job copy) e := by
  -- the field of the word is the one the invariant counts with
  have hrelease : ∀ old : Word, (SendLoopPc.cas old).Ok → p.word = old → 1 ≤ n →
      ∃ c, old - oneSender = (Phase.busy c).word ∧ ∀ m, m + 1 = n → (Phase.busy c).Allows m := by
    rintro old ⟨d, rfl⟩ heq hle
    obtain ⟨c, rfl⟩ := Phase.eq_busy heq
    have hnc := hn.1
    have hlt := hn.2
    obtain ⟨c, rfl⟩ : ∃ c', c = c' + 1 := Nat.exists_eq_succ_of_ne_zero (by omega)
    exact ⟨c, by rw [← heq, busy_sub], fun m hm => ⟨by omega, by omega⟩⟩
  cases sendLoopStep_move h with
  | load hm =>
    obtain ⟨evs, -, hmid⟩ := hm.mid
    exact .same hn hm.word hmid.owed_le
  | write hm =>
    obtain ⟨evs, -, hmid⟩ := hm.mid
    exact .same hn hm.word hmid.owed_le
  | queue hm =>
    obtain ⟨evs, -, hmid⟩ := hm.mid
    exact .same hn hm.word hmid.owed_le
  | last hw =>
    obtain ⟨c, hc, hm⟩ := hrelease _ hpc hw hle
    exact ⟨.busy c, hc, hm⟩
  | release hw =>
    obtain ⟨c, hc, hm⟩ := hrelease _ hpc hw hle
    exact ⟨.busy c, hc, hm⟩
  | clear heq =>
    obtain rfl : _ = (Phase.busy 0).word := hpc
    obtain ⟨c, rfl⟩ := Phase.eq_busy heq
    obtain rfl := busy_inj hn.2 (Nat.two_pow_pos 58) heq
    refine ⟨.idle, busy_zero_xor, fun m hm => ?_⟩
    have hzero := Nat.le_zero.mp hn.1
    have hm' : m = n := hm
    exact hm'.trans hzero
  | casFailed => exact .same hn rfl (Nat.zero_le _)
  | clearFailed => exact .same hn rfl (Nat.zero_le _)
  | wake => exact .same hn rfl (Nat.zero_le _)

theorem hupStep_allows {pc : HupPc} {n : ℕ} (hn : p.Allows n) :
    FrameAllows n (.hup pc) (hupStep cfg p.word io pc) := by
  cases pc with
  | load =>
    simp only [hupStep]
    split
    · exact .same hn rfl (Nat.le_refl 0)
    · split <;> exact .same hn rfl (Nat.le_refl 0)
  | free => exact .same hn rfl (Nat.le_refl 0)
  | close =>
    simp only [hupStep]
    split <;> exact .same hn rfl (Nat.le_refl 0)
  | store => exact ⟨.closed, rfl, fun _ _ => trivial⟩
  | wake =>
    simp only [hupStep]
    split <;> exact .same hn rfl (Nat.le_refl 0)
  | callback =>
    simp only [hupStep]
    split <;> exact .same hn rfl (Nat.le_refl 0)

theorem delayStep_allows {pc : DelayPc} {n : ℕ} {kind : Kind} (hn : p.Allows n)
    (hg : (Frame.delay pc).Guards kind p.word) :
    FrameAllows n (.delay pc) (delayStep p.word io pc) := by
  cases pc with
  | store =>
    refine ⟨.shut, rfl, fun m hm => ?_⟩
    have hm' : m = n := hm
    have hp : p = .unused ∨ p = .shut :=
      Or.imp (Phase.eq_of_word (by simp)) (Phase.eq_of_word (by simp)) hg
    rcases hp with rfl | rfl <;> exact hm'.trans hn
  | isConnected =>
    simp only [delayStep]
    split <;> exact .same hn rfl (Nat.le_refl 0)
  | isDisconnecting =>
    simp only [delayStep]
    split <;> exact .same hn rfl (Nat.le_refl 0)

theorem frameStep_allows {f : Frame} {inp : Input} {e : Effect} {n : ℕ} {kind : Kind} (hf : f.Ok)
    (hg : f.Guards kind p.word) (hn : p.Allows n) (hle : owed.frame f ≤ n)
    (hroom : ∀ c k, f = .call c k → c.admitting p.word = true →
      (p.word >>> sendersOffset).toNat + 1 < 2 ^ 58)
    (h : frameStep cfg p.word io f inp = some e) : FrameAllows n f e := by
  cases f with
  | user => cases h
  | call c k =>
    obtain ⟨ce, hce, rfl⟩ := Option.map_eq_some_iff.mp h
    obtain ⟨q, hq, hallows⟩ := (callStep_move hf.1 hce).allows hn (hroom c k rfl)
    refine ⟨q, hq, fun m hm => ?_⟩
    have hm' : m + owed.ofCall c = n + owed.frames (ce.next.frames k) := hm
    rw [owed_ofCall, Next.frames_measure, Nat.add_zero] at hm'
    rw [hm']
    exact hallows
  | sendInLoop pc job copy => exact sendLoopStep_allows hf hn hle h
  | shutdownInLoop =>
    cases h
    exact .same hn rfl (Nat.le_refl 0)
  | hup pc =>
    cases h
    exact hupStep_allows hn
  | delay pc =>
    cases h
    exact delayStep_allows hn hg
  | handler pc =>
    have hm := handlerStep_move h
    exact .same hn hm.word (by rw [owed.frames_eq_zero hm.frames]; exact Nat.zero_le _)

/-! ### The invariant -/

variable [Fintype ι]

/-- What `sendInLoop` read on entry: `used` and `writing`, unless the connection was closed. -/
def SendLoopPc.Snap : SendLoopPc → Prop
  | .write old _ _ | .queue old _ _ _ =>
    has old .disconnected = true ∨ has old .used = true ∧ has old .writing = true
  | _ => True

def Frame.Snap : Frame → Prop
  | .sendInLoop pc _ _ => pc.Snap
  | _ => True

/-- The word allows what is outstanding. -/
structure BarrierInv (cfg : Config) (s : Conn ι) : Prop extends PhaseInv cfg s where
  counted : ∃ p : Phase, s.word = p.word ∧ p.Allows s.owed
  snaps : ∀ f ∈ s.loop, f.Snap

variable {s s' : Conn ι}

theorem owed_total_le (f : Frame) (hf : f ∈ s.loop) : owed.frame f ≤ s.owed := by
  have hmem : owed.frame f ≤ owed.frames s.loop := by
    rw [Measure.frames]
    exact List.single_le_sum (by simp) _ (List.mem_map_of_mem hf)
  unfold Conn.owed Conn.total
  omega

theorem Frame.snap_of_isHandler {f : Frame} (h : f.isHandler = true) : f.Snap := by
  cases f <;> trivial

theorem SendMid.snap {old : Word} {job : Job} {copy : Option (List UInt8)} {fs : List Frame}
    {evs : List Event} (h : SendMid old job copy fs evs)
    (hold : has old .disconnected = true ∨ has old .used = true ∧ has old .writing = true) :
    ∀ f ∈ fs, f.Snap := by
  intro f hf
  cases h with
  | write => exact List.mem_singleton.mp hf ▸ hold
  | queue => exact List.mem_singleton.mp hf ▸ hold
  | cas => exact List.mem_singleton.mp hf ▸ trivial
  | unused => cases hf
  | impossible => cases hf

/-- With something outstanding the connection is busy or closed. -/
theorem Phase.Allows.live {n : ℕ} (h : p.Allows n) (hn : 1 ≤ n) :
    has p.word .disconnected = true ∨ has p.word .used = true ∧ has p.word .writing = true := by
  cases p with
  | busy c => exact .inr (by simp)
  | closed => exact .inl (by simp)
  | _ =>
    have hzero : n = 0 := h
    omega

theorem sendLoopStep_snap {job : Job} {copy : Option (List UInt8)} {pc : SendLoopPc} {inp : Input}
    {e : Effect} {n : ℕ} (hn : p.Allows n) (hle : pc.holds ≤ n) (hsnap : pc.Snap)
    (h : sendLoopStep cfg p.word io job copy pc inp = some e) : ∀ g ∈ e.frames, g.Snap := by
  cases sendLoopStep_move h with
  | load hm =>
    obtain ⟨evs, -, hmid⟩ := hm.mid
    exact hmid.snap (hn.live hle)
  | write hm =>
    obtain ⟨evs, -, hmid⟩ := hm.mid
    exact hmid.snap hsnap
  | queue hm =>
    obtain ⟨evs, -, hmid⟩ := hm.mid
    exact hmid.snap hsnap
  | _ => simp [Effect.goto, Frame.Snap, SendLoopPc.Snap]

theorem frameStep_snap {f : Frame} {inp : Input} {e : Effect} {n : ℕ} (hn : p.Allows n)
    (hle : owed.frame f ≤ n) (hsnap : f.Snap) (h : frameStep cfg p.word io f inp = some e) :
    ∀ g ∈ e.frames, g.Snap := by
  cases f with
  | user => cases h
  | call c k =>
    obtain ⟨ce, hce, rfl⟩ := Option.map_eq_some_iff.mp h
    intro g hg
    have hg' : g ∈ ce.next.frames k := hg
    have hk : ∀ g ∈ k.frames, g.Snap := by cases k <;> simp [Cont.frames, Frame.Snap]
    cases hnext : ce.next <;> rw [hnext] at hg' <;>
      simp only [Next.frames, List.mem_cons, List.not_mem_nil, or_false] at hg'
    case goto c' => exact hg' ▸ trivial
    case admits job => exact hg'.elim (fun h => h ▸ trivial) (hk g)
    case win => exact hg'.elim (fun h => h ▸ trivial) (hk g)
    case refuse => exact hk g hg'
    case ret => exact hk g hg'
  | sendInLoop pc job copy => exact sendLoopStep_snap hn hle hsnap h
  | shutdownInLoop =>
    cases h
    simp [Effect.goto]
  | hup pc =>
    cases h
    cases pc <;> simp only [hupStep] <;> (repeat' split) <;> simp [Effect.goto, Frame.Snap]
  | delay pc =>
    cases h
    cases pc <;> simp only [delayStep] <;> (repeat' split) <;> simp [Effect.goto, Frame.Snap]
  | handler pc =>
    intro g hg
    exact Frame.snap_of_isHandler (List.all_eq_true.mp (handlerStep_move h).frames g hg)

theorem Frame.snap_of_isEntry {f : Frame} (h : f.isEntry = true) : f.Snap := by
  unfold Frame.isEntry at h
  split at h <;> trivial

theorem Frame.wake_snap {f : Frame} (h : f.Snap) : f.wake.Snap := by
  unfold Frame.wake
  split
  · trivial
  · trivial
  · exact h

variable [DecidableEq ι]

omit [Fintype ι] in
theorem afterCall_snaps {t : ι} {e : CallEffect} (h : ∀ f ∈ s.loop, f.Snap) :
    ∀ f ∈ (s.afterCall t e).loop, f.Snap := by
  unfold Conn.afterCall
  dsimp only
  split
  · intro f hf
    obtain ⟨g, hg, rfl⟩ := List.mem_map.mp hf
    exact Frame.wake_snap (h g hg)
  · exact h

omit [Fintype ι] [DecidableEq ι] in
/-- An admission in a step that does not overflow, in terms of the phase. -/
theorem NoOverflow.field {a : Action ι} {c : Call} (h : NoOverflow s a) (hp : s.word = p.word)
    (hmove : s.moving a = some c) (hadm : c.admitting p.word = true) :
    (p.word >>> sendersOffset).toNat + 1 < 2 ^ 58 := by
  have hlt := h ⟨c, hmove, by rw [hp]; exact hadm⟩
  rw [hp] at hlt
  exact hlt

omit [DecidableEq ι] in
theorem Admin.owed {a : Action ι} (h : Admin s a s') : s'.owed = s.owed := by
  have hopen : KwNet.Tcp.owed.opened (a.job? s.nextId) = 0 := by
    cases a.job? s.nextId <;> rfl
  have htot := h.total KwNet.Tcp.owed
  rw [hopen] at htot
  exact htot

/-- **The barrier invariant is kept by every step** that does not overflow the sender field. -/
theorem BarrierInv.step {a : Action ι} (h : BarrierInv cfg s) (hroom : NoOverflow s a)
    (hs : step cfg s a = some s') : BarrierInv cfg s' := by
  have hp' := h.toPhaseInv.step hs
  obtain ⟨p, hp, hallows⟩ := h.counted
  rcases step_kinds hs with ⟨t, c, e, rfl, ht, he, rfl⟩ | ⟨inp, f, rest, e, rfl, hl, he, rfl⟩ |
    ⟨t, f, rfl, ht, rfl⟩ | hadmin
  · have hc := h.toPhaseInv.moving_ok (moving_caller ht)
    have htot := total_afterCall (μ := owed) (e := e) ht
    rw [owed_ofCall, owed_events] at htot
    rw [hp] at he
    obtain ⟨q, hq, hq'⟩ := (callStep_move hc he).allows hallows (hroom.field hp (moving_caller ht))
    have ho : (s.afterCall t e).owed = s.owed + owed.caller e.next.caller := htot
    exact ⟨hp', ⟨q, hq, by rw [ho]; exact hq'⟩, afterCall_snaps h.snaps⟩
  · have hmem : f ∈ s.loop := by rw [hl]; exact List.mem_cons_self
    have htop := h.top f (by rw [hl]; rfl)
    have htot := total_apply (μ := owed) hl (frameStep_posted he)
    rw [owed_events] at htot
    rw [hp] at he htop
    have hle := owed_total_le f hmem
    obtain ⟨q, hq, hq'⟩ := frameStep_allows (h.loop f hmem) htop hallows hle
      (fun c k hc => hroom.field hp (moving_loop (hc ▸ hl))) he
    refine ⟨hp', ⟨q, hq, hq' _ htot⟩, fun g hg => ?_⟩
    rcases List.mem_append.mp hg with hg | hg
    · exact frameStep_snap hallows hle (h.snaps f hmem) he g hg
    · exact h.snaps g (by rw [hl]; exact List.mem_cons_of_mem f hg)
  · have htot := total_giveUp (μ := owed) ht
    rw [owed_events] at htot
    refine ⟨hp', ⟨p, hp, hallows.mono ?_⟩, h.snaps⟩
    unfold Conn.owed
    omega
  · refine ⟨hp', ⟨p, by rw [hadmin.word, hp], by rw [hadmin.owed]; exact hallows⟩, fun f hf => ?_⟩
    exact (hadmin.loop f hf).elim (h.snaps f) fun hentry => Frame.snap_of_isEntry hentry.1

omit [DecidableEq ι] in
theorem barrierInv_init (cfg : Config) (rdhupPhrase isIoChannel ssl : Bool) (mem : ℤ → UInt8) :
    BarrierInv cfg (Conn.init ι rdhupPhrase isIoChannel ssl mem) := by
  refine ⟨phaseInv_init _ _ _ _ _, ⟨.idle, rfl, ?_⟩, by simp [Conn.init, Frame.Snap]⟩
  show weight owed.caller (fun _ : ι => Caller.idle) + 0 + 0 + 0 = 0
  rw [weight_const_zero owed.caller .idle rfl]

/-- The barrier invariant along every run whose admissions fit the sender field. -/
theorem barrierInv_of_run {rdhupPhrase isIoChannel ssl : Bool} {mem : ℤ → UInt8}
    {as : List (Action ι)}
    (hroom : Along (Tcp.step cfg) NoOverflow (Conn.init ι rdhupPhrase isIoChannel ssl mem) as)
    (h : run (Tcp.step cfg) (Conn.init ι rdhupPhrase isIoChannel ssl mem) as = some s) :
    BarrierInv cfg s :=
  run_induction_along NoOverflow (BarrierInv cfg) (barrierInv_init cfg _ _ _ _)
    (fun _ _ _ hinv hP hs => hinv.step hP hs) hroom h

end KwNet.Tcp
