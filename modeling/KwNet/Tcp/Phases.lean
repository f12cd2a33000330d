import KwNet.Tcp.Transition

/-!
# The state word only ever takes the phases

Whatever the threads and the loop do, in any order, the state word of an established connection is one
of the `Phase`s, every CAS in flight expects a word of the phase its call read, and below the top of
the loop's stack there are only activations that wait for a callback or a handler to return.

* `PhaseInv` — the invariant;
* **`PhaseInv.step`** — it is kept by every step, so it holds in every reachable state;
* **`PhaseInv.closed_step`** — `Disconnected` is never overwritten.
-/

namespace KwNet.Tcp

open KwNet.Lib

variable {ι : Type} {cfg : Config} {io : Io} {p : Phase}

/-- The snapshots of `sendInLoop`. -/
def SendLoopPc.Ok : SendLoopPc → Prop
  | .write old _ _ => ∃ p : Phase, old = p.word
  | .queue old _ _ _ => ∃ p : Phase, old = p.word
  | .cas old => ∃ c, old = (Phase.busy c).word
  | .clear old => old = (Phase.busy 0).word
  | _ => True

/-- A frame the loop thread can have: its snapshots are words of a phase, and only `set_unused` is
followed by something else in the same function. -/
def Frame.Ok : Frame → Prop
  | .call c k => c.Ok ∧ (k = .ret ∨ c.origin = .setUnused .load)
  | .sendInLoop pc _ _ => pc.Ok
  | _ => True

def Caller.Ok : Caller → Prop
  | .calling c => c.Ok
  | _ => True

/-- A frame that can wait below another one.  The TLS `handle_ep_hup` waits for its callback before it
stores `Disconnected`. -/
def Frame.suspended (kind : Kind) : Frame → Bool
  | .hup .store => kind == .ssl
  | f => f.isHandler

/-- What the frame on top of the stack knows about the word: `forceCloseWithDelay` is about to
overwrite a word without `used`, and `handle_ep_hup` has passed its guard. -/
def Frame.Guards (kind : Kind) (w : Word) : Frame → Prop
  | .delay .store => w = Phase.unused.word ∨ w = Phase.shut.word
  | .call _ .close | .hup .free => kind = .ssl ∧ w ≠ Phase.closed.word
  | .hup .close => w ≠ Phase.closed.word
  | .hup .store => kind = .plain → w ≠ Phase.closed.word
  | .hup .wake => w = Phase.closed.word
  | .hup .callback =>
    match kind with
    | .plain => w = Phase.closed.word
    | .ssl => w ≠ Phase.closed.word
  | _ => True

/-- The invariant of the state word. -/
structure PhaseInv (cfg : Config) (s : Conn ι) : Prop where
  word : ∃ p : Phase, s.word = p.word
  callers : ∀ t, (s.callers t).Ok
  loop : ∀ f ∈ s.loop, f.Ok
  tail : s.loop.tail.all (Frame.suspended cfg.kind) = true
  top : ∀ f, s.loop.head? = some f → f.Guards cfg.kind s.word

/-! ### Frames -/

theorem Frame.ok_of_isHandler {f : Frame} (h : f.isHandler = true) : f.Ok := by
  cases f <;> trivial

theorem Frame.suspended_of_isHandler {f : Frame} {kind : Kind} (h : f.isHandler = true) :
    f.suspended kind = true := by
  unfold Frame.suspended
  split
  · cases h
  · exact h

theorem Frame.guards_of_isHandler {f : Frame} {kind : Kind} {w : Word} (h : f.isHandler = true) :
    f.Guards kind w := by
  unfold Frame.Guards
  split <;> trivial

/-- A suspended frame knows nothing about the word. -/
theorem Frame.guards_of_suspended {f : Frame} {kind : Kind} {w : Word}
    (h : f.suspended kind = true) : f.Guards kind w := by
  unfold Frame.suspended at h
  split at h
  · intro hk
    rw [hk] at h
    cases h
  · exact Frame.guards_of_isHandler h

theorem suspended_of_all_isHandler {fs : List Frame} {kind : Kind}
    (h : fs.all Frame.isHandler = true) : fs.all (Frame.suspended kind) = true :=
  List.all_eq_true.mpr fun f hf => Frame.suspended_of_isHandler (List.all_eq_true.mp h f hf)

theorem tail_all {α : Type} {q : α → Bool} {l : List α} (h : l.all q = true) :
    l.tail.all q = true := by
  cases l with
  | nil => rfl
  | cons a l => exact (Bool.and_eq_true _ _ ▸ (List.all_cons ▸ h)).2

theorem Frame.wake_ok {f : Frame} (h : f.Ok) : f.wake.Ok := by
  unfold Frame.wake
  split
  · next c k =>
    exact ⟨Call.wake_ok h.1, by rw [Call.wake_origin]; exact h.2⟩
  · trivial
  · exact h

theorem Frame.wake_suspended (f : Frame) (kind : Kind) (h : f.suspended kind = true) :
    f.wake.suspended kind = true := by
  unfold Frame.wake
  split
  · cases h
  · rfl
  · exact h

theorem Frame.wake_guards {f : Frame} {kind : Kind} {w : Word} (h : f.Guards kind w) :
    f.wake.Guards kind w := by
  unfold Frame.wake
  split
  · next c k => cases k <;> exact h
  · trivial
  · exact h

theorem Frame.spurious_guards {f f' : Frame} {kind : Kind} {w : Word} (h : f.spurious = some f')
    (hf : f.Guards kind w) : f'.Guards kind w := by
  unfold Frame.spurious at h
  split at h
  · next c k =>
    obtain ⟨c', hc, rfl⟩ := Option.map_eq_some_iff.mp h
    cases k <;> exact hf
  · cases h
    trivial
  · cases h

theorem Functor.frame_guards (f : Functor) {kind : Kind} {w : Word} : f.frame.Guards kind w := by
  cases f <;> trivial

theorem Frame.spurious_ok {f f' : Frame} (h : f.spurious = some f') (hf : f.Ok) : f'.Ok := by
  unfold Frame.spurious at h
  split at h
  · next c k =>
    obtain ⟨c', hc, rfl⟩ := Option.map_eq_some_iff.mp h
    exact ⟨(Call.spurious_ok hc).1, by rw [(Call.spurious_ok hc).2]; exact hf.2⟩
  · cases h
    trivial
  · cases h

theorem Caller.wake_ok {c : Caller} (h : c.Ok) : c.wake.Ok := by
  cases c with
  | calling c => exact Call.wake_ok h
  | _ => trivial

theorem Functor.frame_ok (f : Functor) : f.frame.Ok := by
  cases f <;> trivial

/-! ### One step of the top frame -/

/-- What every step of a frame keeps. -/
structure FrameKeeps (cfg : Config) (p : Phase) (e : Effect) : Prop where
  word : ∃ q : Phase, e.word = q.word
  frames : ∀ f ∈ e.frames, f.Ok
  tail : e.frames.tail.all (Frame.suspended cfg.kind) = true
  top : ∀ f, e.frames.head? = some f → f.Guards cfg.kind e.word
  closed : p = .closed → e.word = Phase.closed.word

theorem CallMove.word_phase {c : Call} {e : CallEffect} (h : CallMove p c e) :
    ∃ q : Phase, e.word = q.word := by
  cases h with
  | quiet => exact ⟨p, rfl⟩
  | mark => exact ⟨.busy 0, rfl⟩
  | admits => exact ⟨.busy _, rfl⟩
  | clear => exact ⟨.unused, rfl⟩
  | win => exact ⟨.shut, rfl⟩

/-- A call neither enters nor leaves `closed`, and cannot bring `used` back. -/
theorem CallMove.closed_iff {c : Call} {e : CallEffect} (h : CallMove p c e) :
    e.word = Phase.closed.word ↔ p = .closed := by
  cases h with
  | quiet => exact ⟨Phase.eq_of_word (by simp), fun hp => by rw [hp]⟩
  | mark => exact ⟨fun h => absurd h (busy_ne 0 (p := .closed) (by simp)), (by rintro ⟨⟩)⟩
  | @admits c => exact ⟨fun h => absurd h (busy_ne (c + 1) (p := .closed) (by simp)), (by rintro ⟨⟩)⟩
  | clear => exact ⟨fun h => absurd h (by decide), (by rintro ⟨⟩)⟩
  | win => exact ⟨fun h => absurd h (by decide), (by rintro ⟨⟩)⟩

theorem CallMove.unused_or_shut {c : Call} {e : CallEffect} (h : CallMove p c e)
    (hp : p.word = Phase.unused.word ∨ p.word = Phase.shut.word) :
    e.word = Phase.unused.word ∨ e.word = Phase.shut.word := by
  cases h with
  | quiet => exact hp
  | @admits c =>
    exact hp.elim (fun h => absurd h (busy_ne c (p := .unused) (by simp)))
      (fun h => absurd h (busy_ne c (p := .shut) (by simp)))
  | win => exact .inr rfl
  | mark => exact absurd hp (by decide)
  | clear => exact absurd hp (by decide)

/-- What the top frame knows survives a call of another thread. -/
theorem CallMove.guards {c : Call} {e : CallEffect} (h : CallMove p c e) {f : Frame} {kind : Kind}
    (hf : f.Guards kind p.word) : f.Guards kind e.word := by
  have hne : p.word ≠ Phase.closed.word → e.word ≠ Phase.closed.word := by
    intro hp he
    exact hp (by rw [h.closed_iff.mp he])
  have heq : p.word = Phase.closed.word → e.word = Phase.closed.word := by
    intro hp
    exact h.closed_iff.mpr (Phase.eq_of_word (q := .closed) (by simp) hp)
  unfold Frame.Guards at hf ⊢
  split
  · exact h.unused_or_shut hf
  · exact ⟨hf.1, hne hf.2⟩
  · exact ⟨hf.1, hne hf.2⟩
  · exact hne hf
  · exact fun hk => hne (hf hk)
  · exact heq hf
  · cases kind with
    | plain => exact heq hf
    | ssl => exact hne hf
  · trivial

theorem CallMove.caller_ok {c : Call} {e : CallEffect} (h : CallMove p c e) :
    e.next.caller.Ok := by
  cases h with
  | @quiet p c next wake h =>
    cases next with
    | goto c' => exact h.1
    | admits => cases h
    | win => cases h
    | _ => trivial
  | _ => trivial

theorem call_keeps (cfg : Config) {c : Call} {k : Cont} {e : CallEffect} (h : CallMove p c e)
    (hk : k = .ret ∨ c.origin = .setUnused .load) :
    (∀ f ∈ e.next.frames k, f.Ok)
      ∧ (e.next.frames k).tail.all (Frame.suspended cfg.kind) = true := by
  have hcont : ∀ f ∈ k.frames, f.Ok := by
    cases k <;> simp [Cont.frames, Frame.Ok]
  have htail : k.frames.tail.all (Frame.suspended cfg.kind) = true := by
    cases k <;> rfl
  have hgoto : ∀ c' : Call, c'.Ok → c'.origin = c.origin → ∀ f ∈ [Frame.call c' k], f.Ok := by
    intro c' hok horigin f hf
    obtain rfl := List.mem_singleton.mp hf
    exact ⟨hok, by rw [horigin]; exact hk⟩
  cases h with
  | @quiet p c next wake h =>
    cases next with
    | goto c' => exact ⟨hgoto c' h.1 h.2, rfl⟩
    | refuse job why => exact ⟨hcont, htail⟩
    | ret => exact ⟨hcont, htail⟩
    | admits => cases h
    | win => cases h
  | mark => exact ⟨hgoto _ rfl rfl, rfl⟩
  | clear => exact ⟨hgoto _ trivial rfl, rfl⟩
  | admits =>
    obtain rfl : k = .ret := by simpa [Call.origin] using hk
    exact ⟨by simp [Next.frames, Cont.frames, Frame.Ok, SendLoopPc.Ok], rfl⟩
  | win =>
    obtain rfl : k = .ret := by simpa [Call.origin] using hk
    exact ⟨by simp [Next.frames, Cont.frames, Frame.Ok], rfl⟩

theorem SendMid.keeps {old : Word} {job : Job} {copy : Option (List UInt8)} {fs : List Frame}
    {evs : List Event} (h : SendMid old job copy fs evs) (hold : ∃ q : Phase, old = q.word) :
    (∀ f ∈ fs, f.Ok) ∧ fs.tail.all (Frame.suspended cfg.kind) = true := by
  cases h with
  | write => exact ⟨by simpa [Frame.Ok, SendLoopPc.Ok] using hold, rfl⟩
  | queue => exact ⟨by simpa [Frame.Ok, SendLoopPc.Ok] using hold, rfl⟩
  | cas hu hw =>
    obtain ⟨q, rfl⟩ := hold
    cases q with
    | busy c => exact ⟨by simpa [Frame.Ok, SendLoopPc.Ok] using ⟨c, rfl⟩, rfl⟩
    | _ => simp at hw
  | unused => exact ⟨by simp, rfl⟩
  | impossible => exact ⟨by simp, rfl⟩

theorem SendMid.guards {old w : Word} {job : Job} {copy : Option (List UInt8)} {fs : List Frame}
    {evs : List Event} {kind : Kind} (h : SendMid old job copy fs evs) :
    ∀ f, fs.head? = some f → f.Guards kind w := by
  intro f hf
  cases h <;> cases hf <;> trivial

theorem SendMove.keeps {old : Word} {job : Job} {copy : Option (List UInt8)} {pre : List Event}
    {e : Effect} (h : SendMove p.word old io job copy pre e) (hold : ∃ q : Phase, old = q.word) :
    FrameKeeps cfg p e := by
  obtain ⟨evs, -, hmid⟩ := h.mid
  obtain ⟨hok, htail⟩ := hmid.keeps hold
  exact ⟨⟨p, h.word⟩, hok, htail, hmid.guards, fun hp => by rw [h.word, hp]⟩

/-- `old_state - (1 << senders_offset)`, whatever the field holds. -/
theorem busy_sub_phase (c : ℕ) : ∃ d, (Phase.busy c).word - oneSender = (Phase.busy d).word := by
  cases c with
  | zero =>
    refine ⟨2 ^ 58 - 1, ?_⟩
    rw [← busy_sub (2 ^ 58 - 1), ← busy_mod (2 ^ 58 - 1 + 1)]
    rfl
  | succ c => exact ⟨c, busy_sub c⟩

/-- The last sender expects nobody in the field. -/
theorem busy_last_xor {c : ℕ} (h : ((Phase.busy c).word >>> sendersOffset) ^^^ 1 = 0) :
    (Phase.busy c).word ^^^ oneSender = (Phase.busy 0).word := by
  rw [← busy_mod c, (busy_last c).mp h]
  exact busy_one_xor

theorem FrameKeeps.goto {fs : List Frame} (hok : ∀ f ∈ fs, f.Ok)
    (htail : fs.tail.all (Frame.suspended cfg.kind) = true)
    (htop : ∀ f, fs.head? = some f → f.Guards cfg.kind p.word) :
    FrameKeeps cfg p (Effect.goto p.word io fs) :=
  ⟨⟨p, rfl⟩, hok, htail, htop, fun hp => by rw [hp]; rfl⟩

/-- The history and the other outputs of an effect are not looked at. -/
theorem FrameKeeps.congr {e e' : Effect} (h : FrameKeeps cfg p e) (hw : e'.word = e.word)
    (hf : e'.frames = e.frames) : FrameKeeps cfg p e' := by
  refine ⟨?_, ?_, ?_, ?_, ?_⟩
  · rw [hw]; exact h.word
  · rw [hf]; exact h.frames
  · rw [hf]; exact h.tail
  · rw [hf, hw]; exact h.top
  · rw [hw]; exact h.closed

theorem sendLoopStep_keeps {job : Job} {copy : Option (List UInt8)} {pc : SendLoopPc} {inp : Input}
    {e : Effect} (hpc : pc.Ok) (h : sendLoopStep cfg p.word io job copy pc inp = some e) :
    FrameKeeps cfg p e := by
  have hbusy : ∀ c, p.word = (Phase.busy c).word → p ≠ .closed := by
    rintro c heq rfl
    exact busy_ne c (p := .closed) (by simp) heq.symm
  have hret : FrameKeeps cfg p (Effect.goto p.word io []) := .goto (by simp) rfl forall_none
  cases sendLoopStep_move h with
  | load hm => exact hm.keeps ⟨p, rfl⟩
  | write hm => exact hm.keeps hpc
  | queue hm => exact hm.keeps hpc
  | last hw hlast =>
    obtain ⟨c, rfl⟩ := hpc
    obtain ⟨d, hd⟩ := busy_sub_phase c
    exact ⟨⟨.busy d, hd⟩, by simpa [Effect.goto, Frame.Ok, SendLoopPc.Ok] using busy_last_xor hlast,
      rfl, by rintro f ⟨⟩; trivial, fun hp => absurd hp (hbusy c hw)⟩
  | release hw =>
    obtain ⟨c, rfl⟩ := hpc
    obtain ⟨d, hd⟩ := busy_sub_phase c
    exact ⟨⟨.busy d, hd⟩, by simp [Effect.goto], rfl, forall_none, fun hp => absurd hp (hbusy c hw)⟩
  | clear hw =>
    obtain rfl : _ = (Phase.busy 0).word := hpc
    exact ⟨⟨.idle, busy_zero_xor⟩, by simp [Effect.goto, Frame.Ok, SendLoopPc.Ok], rfl,
      by rintro f ⟨⟩; trivial, fun hp => absurd hp (hbusy 0 hw)⟩
  | casFailed => exact hret.congr rfl rfl
  | clearFailed => exact hret.congr rfl rfl
  | wake => exact hret.congr rfl rfl

theorem hupStep_keeps {pc : HupPc} (hg : (Frame.hup pc).Guards cfg.kind p.word) :
    FrameKeeps cfg p (hupStep cfg p.word io pc) := by
  cases pc with
  | load =>
    simp only [hupStep]
    split
    · exact .goto (by simp) rfl forall_none
    · next hd =>
      have hne : p.word ≠ Phase.closed.word := by
        intro hp
        rw [hp] at hd
        exact hd (by decide)
      split
      · exact .goto (by simp [Frame.Ok]) rfl (by rintro f ⟨⟩; exact hne)
      · next hk => exact .goto (by simp [Frame.Ok]) rfl (by rintro f ⟨⟩; exact ⟨hk, hne⟩)
  | free =>
    refine FrameKeeps.congr (e := Effect.goto p.word io [.call (.setUnused .load) .close])
      (.goto ?_ rfl ?_) rfl rfl
    · simp [Frame.Ok, Call.Ok, Call.origin]
    · rintro f ⟨⟩
      exact hg
  | close =>
    have hne : p.word ≠ Phase.closed.word := hg
    simp only [hupStep]
    split
    · refine FrameKeeps.congr (e := Effect.goto p.word io [.hup .store]) (.goto (by simp [Frame.Ok]) rfl ?_)
        rfl rfl
      rintro f ⟨⟩
      exact fun _ => hne
    · next hk =>
      refine FrameKeeps.congr (e := Effect.goto p.word io [.hup .callback]) (.goto (by simp [Frame.Ok]) rfl ?_)
        rfl rfl
      rintro f ⟨⟩
      simp only [Frame.Guards, hk]
      exact hne
  | store =>
    exact ⟨⟨.closed, rfl⟩, by simp [hupStep, Effect.goto, Frame.Ok], rfl, by rintro f ⟨⟩; rfl,
      fun _ => rfl⟩
  | wake =>
    have heq : p.word = Phase.closed.word := hg
    simp only [hupStep]
    split
    · next hk =>
      refine FrameKeeps.congr (e := Effect.goto p.word io [.hup .callback]) (.goto (by simp [Frame.Ok]) rfl ?_)
        rfl rfl
      rintro f ⟨⟩
      simp only [Frame.Guards, hk]
      exact heq
    · exact FrameKeeps.congr (e := Effect.goto p.word io []) (.goto (by simp) rfl forall_none) rfl rfl
  | callback =>
    simp only [hupStep]
    split
    · exact FrameKeeps.congr (e := Effect.goto p.word io [.user]) (.goto (by simp [Frame.Ok]) rfl
        (by rintro f ⟨⟩; trivial)) rfl rfl
    · next hk =>
      exact FrameKeeps.congr (e := Effect.goto p.word io [.user, .hup .store]) (.goto (by simp [Frame.Ok])
        (by rw [hk]; rfl) (by rintro f ⟨⟩; trivial)) rfl rfl

theorem delayStep_keeps {pc : DelayPc} (hg : (Frame.delay pc).Guards cfg.kind p.word) :
    FrameKeeps cfg p (delayStep p.word io pc) := by
  cases pc with
  | store =>
    refine ⟨⟨.shut, rfl⟩, by simp [delayStep, Effect.goto], rfl, forall_none, ?_⟩
    rintro rfl
    have hg' : Phase.closed.word = Phase.unused.word ∨ Phase.closed.word = Phase.shut.word := hg
    exact absurd hg' (by decide)
  | isConnected =>
    simp only [delayStep]
    split
    · next hw => exact .goto (by simp [Frame.Ok]) rfl (by rintro f ⟨⟩; exact .inl hw)
    · exact .goto (by simp [Frame.Ok]) rfl (by rintro f ⟨⟩; trivial)
  | isDisconnecting =>
    simp only [delayStep]
    split
    · next hw => exact .goto (by simp [Frame.Ok]) rfl (by rintro f ⟨⟩; exact .inr hw)
    · exact .goto (by simp) rfl forall_none

theorem call_guards {c : Call} {k : Cont} {e : CallEffect} {kind : Kind} (h : CallMove p c e)
    (hg : (Frame.call c k).Guards kind p.word) :
    ∀ f, (e.next.frames k).head? = some f → f.Guards kind e.word := by
  have hg' := h.guards hg
  have hgoto : ∀ c' : Call, (Frame.call c' k).Guards kind e.word := by
    intro c'
    cases k <;> exact hg'
  have hcont : ∀ f, k.frames.head? = some f → f.Guards kind e.word := by
    intro f hf
    cases k <;> cases hf
    · trivial
    · exact hg'.2
  intro f hf
  cases hn : e.next with
  | goto c' =>
    rw [hn] at hf
    cases hf
    exact hgoto c'
  | refuse job why =>
    rw [hn] at hf
    exact hcont f hf
  | ret =>
    rw [hn] at hf
    exact hcont f hf
  | admits job =>
    rw [hn] at hf
    cases hf
    trivial
  | win =>
    rw [hn] at hf
    cases hf
    trivial

theorem frameStep_keeps {f : Frame} {inp : Input} {e : Effect} (hf : f.Ok)
    (hg : f.Guards cfg.kind p.word) (h : frameStep cfg p.word io f inp = some e) :
    FrameKeeps cfg p e := by
  cases f with
  | user => cases h
  | call c k =>
    obtain ⟨ce, hce, rfl⟩ := Option.map_eq_some_iff.mp h
    have hm := callStep_move hf.1 hce
    obtain ⟨hok, htail⟩ := call_keeps cfg hm hf.2
    exact ⟨hm.word_phase, hok, htail, call_guards hm hg, fun hp => hm.closed_iff.mpr hp⟩
  | sendInLoop pc job copy => exact sendLoopStep_keeps hf h
  | shutdownInLoop =>
    cases h
    exact FrameKeeps.congr (e := Effect.goto p.word io []) (.goto (by simp) rfl forall_none) rfl rfl
  | hup pc =>
    cases h
    exact hupStep_keeps hg
  | delay pc =>
    cases h
    exact delayStep_keeps hg
  | handler pc =>
    have hm := handlerStep_move h
    refine ⟨⟨p, hm.word⟩, fun g hg => ?_, tail_all (suspended_of_all_isHandler hm.frames), ?_,
      fun hp => by rw [hm.word, hp]⟩
    · exact Frame.ok_of_isHandler (List.all_eq_true.mp hm.frames g hg)
    · intro g hg
      exact Frame.guards_of_isHandler (List.all_eq_true.mp hm.frames g (List.mem_of_head? hg))

/-! ### One step of the machine -/

variable {s s' : Conn ι}

/-- The invariant looks at the word, the callers and the stack only. -/
theorem PhaseInv.congr (h : PhaseInv cfg s) (hw : s'.word = s.word) (hc : s'.callers = s.callers)
    (hl : s'.loop = s.loop) : PhaseInv cfg s' := by
  refine ⟨?_, ?_, ?_, ?_, ?_⟩
  · rw [hw]; exact h.word
  · rw [hc]; exact h.callers
  · rw [hl]; exact h.loop
  · rw [hl]; exact h.tail
  · rw [hl, hw]; exact h.top

theorem PhaseInv.apply (h : PhaseInv cfg s) {f : Frame} {rest : List Frame} {e : Effect}
    (hl : s.loop = f :: rest) (he : FrameKeeps cfg p e) : PhaseInv cfg (s.apply rest e) := by
  have hrest : rest.all (Frame.suspended cfg.kind) = true := by
    have htail := h.tail
    rw [hl] at htail
    exact htail
  refine ⟨he.word, ?_, ?_, ?_, ?_⟩
  · intro t
    unfold Conn.apply
    dsimp only
    split
    · exact Caller.wake_ok (h.callers t)
    · exact h.callers t
  · intro g hg
    rcases List.mem_append.mp hg with hg | hg
    · exact he.frames g hg
    · exact h.loop g (by rw [hl]; exact List.mem_cons_of_mem f hg)
  · show (e.frames ++ rest).tail.all _ = true
    cases hfs : e.frames with
    | nil => exact tail_all hrest
    | cons g gs =>
      have hgs := he.tail
      rw [hfs] at hgs
      rw [List.cons_append, List.tail_cons, List.all_append, hrest]
      simpa using hgs
  · intro g hg
    have hg' : (e.frames ++ rest).head? = some g := hg
    cases hfs : e.frames with
    | nil =>
      rw [hfs, List.nil_append] at hg'
      exact Frame.guards_of_suspended (List.all_eq_true.mp hrest g (List.mem_of_head? hg'))
    | cons f' fs =>
      rw [hfs] at hg'
      exact he.top g (by rw [hfs]; exact hg')

/-- Starting a frame on an empty stack or on top of user code. -/
theorem PhaseInv.enter (h : PhaseInv cfg s) {f : Frame} (hf : f.Ok)
    (hg : f.Guards cfg.kind s.word) (hl : s.loop.all (Frame.suspended cfg.kind) = true) :
    PhaseInv cfg (s.enter [f]) := by
  refine ⟨h.word, h.callers, ?_, hl, by rintro g ⟨⟩; exact hg⟩
  intro g hg
  rcases List.mem_cons.mp hg with rfl | hg
  · exact hf
  · exact h.loop g hg

theorem PhaseInv.under_user (h : PhaseInv cfg s) {rest : List Frame} (hl : s.loop = .user :: rest) :
    s.loop.all (Frame.suspended cfg.kind) = true := by
  have htail := h.tail
  rw [hl] at htail ⊢
  rw [List.all_cons]
  exact htail

variable [DecidableEq ι]

theorem PhaseInv.setCaller (h : PhaseInv cfg s) {t : ι} {c : Caller} (hc : c.Ok) :
    PhaseInv cfg (s.setCaller t c) := by
  refine ⟨h.word, fun u => ?_, h.loop, h.tail, h.top⟩
  unfold Conn.setCaller
  dsimp only
  by_cases hu : u = t
  · rw [hu, Function.update_self]
    exact hc
  · rw [Function.update_of_ne hu]
    exact h.callers u

omit [DecidableEq ι] in
theorem PhaseInv.wakeAll (h : PhaseInv cfg s) :
    PhaseInv cfg
      { s with callers := fun u => (s.callers u).wake, loop := s.loop.map Frame.wake } := by
  refine ⟨h.word, fun u => Caller.wake_ok (h.callers u), ?_, ?_, ?_⟩
  · intro f hf
    obtain ⟨g, hg, rfl⟩ := List.mem_map.mp hf
    exact Frame.wake_ok (h.loop g hg)
  · show (s.loop.map Frame.wake).tail.all _ = true
    rw [← List.map_tail, List.all_map]
    refine List.all_eq_true.mpr fun g hg => ?_
    exact Frame.wake_suspended g _ (List.all_eq_true.mp h.tail g hg)
  · intro f hf
    have hf' : (s.loop.map Frame.wake).head? = some f := hf
    rw [List.head?_map] at hf'
    obtain ⟨g, hg, rfl⟩ := Option.map_eq_some_iff.mp hf'
    exact Frame.wake_guards (h.top g hg)

theorem PhaseInv.afterCall (h : PhaseInv cfg s) {t : ι} {c : Call} {e : CallEffect}
    (hp : s.word = p.word) (hm : CallMove p c e) : PhaseInv cfg (s.afterCall t e) := by
  have key : ∀ s₁ : Conn ι, s₁.word = p.word → PhaseInv cfg s₁ →
      PhaseInv cfg { s₁.setCaller t e.next.caller with
        word := e.word, log := s.log ++ e.next.events } := by
    intro s₁ hp₁ h₁
    have h₂ := h₁.setCaller (t := t) hm.caller_ok
    refine ⟨hm.word_phase, h₂.callers, h₂.loop, h₂.tail, fun f hf => ?_⟩
    have htop := h₁.top f hf
    rw [hp₁] at htop
    exact hm.guards htop
  unfold Conn.afterCall
  dsimp only
  split
  · exact key _ hp h.wakeAll
  · exact key s hp h

/-- **The invariant is kept by every step.** -/
theorem PhaseInv.step {a : Action ι} (h : PhaseInv cfg s) (hs : step cfg s a = some s') :
    PhaseInv cfg s' := by
  have hnil : s.loop = [] → s.loop.all (Frame.suspended cfg.kind) = true := by
    intro hl
    rw [hl]
    rfl
  cases step_cases hs with
  | @invoke t api ht =>
    cases api <;> exact (h.setCaller (t := t) (by trivial)).congr rfl rfl rfl
  | @call t c e ht he =>
    obtain ⟨p, hp⟩ := h.word
    have hc : c.Ok := by
      have hok := h.callers t
      rw [ht] at hok
      exact hok
    rw [hp] at he
    exact h.afterCall hp (callStep_move hc he)
  | push => exact (h.setCaller (by trivial)).congr rfl rfl rfl
  | spurious ht hc => exact h.setCaller (Call.spurious_ok hc).1
  | giveUp => exact (h.setCaller (by trivial)).congr rfl rfl rfl
  | @frame inp f rest e hl he =>
    obtain ⟨p, hp⟩ := h.word
    rw [hp] at he
    have htop := h.top f (by rw [hl]; rfl)
    rw [hp] at htop
    exact h.apply hl (frameStep_keeps (h.loop f (by rw [hl]; exact List.mem_cons_self)) htop he)
  | @loopSpurious f f' rest hl hf =>
    have htail := h.tail
    rw [hl] at htail
    refine ⟨h.word, h.callers, ?_, htail, ?_⟩
    · intro g hg
      rcases List.mem_cons.mp hg with rfl | hg
      · exact Frame.spurious_ok hf (h.loop f (by rw [hl]; exact List.mem_cons_self))
      · exact h.loop g (by rw [hl]; exact List.mem_cons_of_mem f hg)
    · rintro g ⟨⟩
      exact Frame.spurious_guards hf (h.top f (by rw [hl]; rfl))
  | @userCall api rest hl =>
    have hu := h.under_user hl
    cases api with
    | task => exact h.congr rfl rfl rfl
    | send kind data size =>
      exact (h.enter (f := .call (.send .load ⟨s.nextId, kind, data, size⟩) .ret)
        ⟨trivial, .inl rfl⟩ trivial hu).congr rfl rfl rfl
    | setUnused => exact h.enter ⟨trivial, .inl rfl⟩ trivial hu
    | shutdown => exact h.enter ⟨trivial, .inl rfl⟩ trivial hu
    | forceClose => exact h.enter ⟨trivial, .inr rfl⟩ trivial hu
    | startRead => exact h.enter trivial trivial hu
    | stopRead => exact h.enter trivial trivial hu
  | delay hl => exact h.enter trivial trivial (h.under_user hl)
  | @ret rest hl =>
    have htail := h.tail
    rw [hl] at htail
    refine ⟨h.word, h.callers, fun g hg => ?_, tail_all htail, fun g hg => ?_⟩
    · exact h.loop g (by rw [hl]; exact List.mem_cons_of_mem _ hg)
    · exact Frame.guards_of_suspended (List.all_eq_true.mp htail g (List.mem_of_head? hg))
  | poll => exact h.congr rfl rfl rfl
  | @dispatch m hl =>
    exact (h.enter (f := .handler (.event m)) trivial trivial (hnil hl)).congr rfl rfl rfl
  | @functor f fs hl =>
    exact (h.enter f.frame_ok f.frame_guards (hnil hl)).congr rfl rfl rfl
  | timer hl =>
    exact (h.enter (f := forceCloseInLoop) ⟨trivial, .inr rfl⟩ trivial (hnil hl)).congr rfl rfl rfl
  | foreign hl => exact h.enter trivial trivial (hnil hl)
  | space => exact h.congr rfl rfl rfl
  | overwrite => exact h.congr rfl rfl rfl

omit [DecidableEq ι] in
theorem phaseInv_init (cfg : Config) (rdhupPhrase isIoChannel ssl : Bool) (mem : ℤ → UInt8) :
    PhaseInv cfg (Conn.init ι rdhupPhrase isIoChannel ssl mem) :=
  ⟨⟨.idle, rfl⟩, fun _ => trivial, by simp [Conn.init, Frame.Ok], rfl, by rintro f ⟨⟩; trivial⟩

/-- **`Disconnected` is absorbing.** -/
theorem PhaseInv.closed_step {a : Action ι} (h : PhaseInv cfg s) (hs : Tcp.step cfg s a = some s')
    (hw : s.word = Phase.closed.word) : s'.word = Phase.closed.word := by
  cases step_cases hs with
  | @call t c e ht he =>
    have hc : c.Ok := by
      have hok := h.callers t
      rw [ht] at hok
      exact hok
    rw [hw] at he
    have hm := (callStep_move (p := .closed) hc he).closed_iff.mpr rfl
    unfold Conn.afterCall
    dsimp only
    exact hm
  | @frame inp f rest e hl he =>
    have htop := h.top f (by rw [hl]; rfl)
    rw [hw] at he htop
    exact (frameStep_keeps (p := .closed) (h.loop f (by rw [hl]; exact List.mem_cons_self)) htop
      he).closed rfl
  | @invoke t api ht => cases api <;> exact hw
  | @userCall api rest hl => cases api <;> exact hw
  | _ => exact hw

end KwNet.Tcp
