import KwNet.Tcp.Barrier

/-!
# Sends and `set_unused`

What the barrier invariant gives the users of the connection.  Once `used` is cleared it never comes
back, so no later CAS of `send` can succeed; and because nothing is outstanding when it is cleared,
`sendInLoop` always finds `used` and `writing` on a connection that is not closed.

On a closed connection `sendInLoop` goes astray: its first test, meant for `Disconnected`, is
`kw_unlikely(old_state & Disconnected)`, which the macro turns into `!!old_state & Disconnected`, and
that is never true.  It falls through to "send must before set_unused".

* **`PhaseInv.no_admission`** — no admission without `used`;
* **`set_unused_barrier`** — the barrier, over every run.
-/

namespace KwNet.Tcp

open KwNet.Lib

variable {ι : Type} {cfg : Config} {io : Io} {p : Phase} {s s' : Conn ι}

/-! ### After `used` is cleared -/

/-- The phases without `used`. -/
def Phase.retired : Phase → Bool
  | .unused | .shut | .closed => true
  | .idle | .busy _ => false

theorem CallMove.retired {c : Call} {e : CallEffect} (h : CallMove p c e) (hp : p.retired = true) :
    ∃ q : Phase, e.word = q.word ∧ q.retired = true := by
  cases h with
  | quiet => exact ⟨p, rfl, hp⟩
  | win => exact ⟨.shut, rfl, rfl⟩
  | mark => cases hp
  | admits => cases hp
  | clear => cases hp

theorem frameStep_retired {f : Frame} {inp : Input} {e : Effect} (hf : f.Ok)
    (hp : p.retired = true) (h : frameStep cfg p.word io f inp = some e) :
    ∃ q : Phase, e.word = q.word ∧ q.retired = true := by
  have hbusy : ∀ d, p.word ≠ (Phase.busy d).word := by
    intro d heq
    obtain ⟨c, rfl⟩ := Phase.eq_busy heq
    cases hp
  have hsame : ∃ q : Phase, p.word = q.word ∧ q.retired = true := ⟨p, rfl, hp⟩
  cases f with
  | user => cases h
  | call c k =>
    obtain ⟨ce, hce, rfl⟩ := Option.map_eq_some_iff.mp h
    exact (callStep_move hf.1 hce).retired hp
  | sendInLoop pc job copy =>
    cases sendLoopStep_move h with
    | load hm => rw [hm.word]; exact hsame
    | write hm => rw [hm.word]; exact hsame
    | queue hm => rw [hm.word]; exact hsame
    | last hw =>
      obtain ⟨d, rfl⟩ : ∃ d, _ = (Phase.busy d).word := hf
      exact absurd hw (hbusy d)
    | release hw =>
      obtain ⟨d, rfl⟩ : ∃ d, _ = (Phase.busy d).word := hf
      exact absurd hw (hbusy d)
    | clear hw =>
      obtain rfl : _ = (Phase.busy 0).word := hf
      exact absurd hw (hbusy 0)
    | _ => exact hsame
  | shutdownInLoop =>
    cases h
    exact hsame
  | hup pc =>
    cases h
    cases pc with
    | store => exact ⟨.closed, rfl, rfl⟩
    | _ => simp only [hupStep]; (repeat' split) <;> exact hsame
  | delay pc =>
    cases h
    cases pc with
    | store => exact ⟨.shut, rfl, rfl⟩
    | _ => simp only [delayStep]; split <;> exact hsame
  | handler pc => rw [(handlerStep_move h).word]; exact hsame

/-- Admissions happen on a busy connection only. -/
theorem PhaseInv.admits_busy {a : Action ι} (h : PhaseInv cfg s) (hadm : Admits s a) :
    ∃ d, s.word = (Phase.busy d).word := by
  obtain ⟨c, hmove, hc⟩ := hadm
  have hok := h.moving_ok hmove
  unfold Call.admitting at hc
  split at hc
  · obtain ⟨d, hd⟩ := hok
    exact ⟨d, by rw [beq_iff_eq.mp hc, hd]⟩
  · have hd : _ = (Phase.busy 0).word := hok
    exact ⟨0, by rw [beq_iff_eq.mp hc, hd]⟩
  · cases hc

section Steps

variable [DecidableEq ι]

theorem PhaseInv.retired_step {a : Action ι} (h : PhaseInv cfg s) (hs : Tcp.step cfg s a = some s')
    (hr : ∃ q : Phase, s.word = q.word ∧ q.retired = true) :
    ∃ q : Phase, s'.word = q.word ∧ q.retired = true := by
  obtain ⟨q, hq, hret⟩ := hr
  cases step_cases hs with
  | @call t c e ht he =>
    rw [hq] at he
    exact (callStep_move (h.moving_ok (moving_caller ht)) he).retired hret
  | @frame inp f rest e hl he =>
    rw [hq] at he
    exact frameStep_retired (h.loop f (by rw [hl]; exact List.mem_cons_self)) hret he
  | @invoke t api ht => cases api <;> exact ⟨q, hq, hret⟩
  | @userCall api rest hl => cases api <;> exact ⟨q, hq, hret⟩
  | _ => exact ⟨q, hq, hret⟩

/-- Once `used` is gone no send is admitted, in any continuation. -/
theorem PhaseInv.no_admission {bs : List (Action ι)} (h : PhaseInv cfg s)
    (hr : ∃ q : Phase, s.word = q.word ∧ q.retired = true)
    (hrun : run (Tcp.step cfg) s bs = some s') (b : Action ι) : ¬ Admits s' b := by
  have hinv := run_induction
    (fun s => PhaseInv cfg s ∧ ∃ q : Phase, s.word = q.word ∧ q.retired = true) ⟨h, hr⟩
    (fun _ _ _ hi hs => ⟨hi.1.step hs, hi.1.retired_step hs hi.2⟩) hrun
  intro hadm
  obtain ⟨d, hd⟩ := hinv.1.admits_busy hadm
  obtain ⟨q, hq, hret⟩ := hinv.2
  obtain ⟨c, rfl⟩ := Phase.eq_busy (hq.symm.trans hd)
  cases hret

/-- A step in which the call `c` performs an access has the effect of that access on the word. -/
theorem moving_step {a : Action ι} {c : Call} (hs : Tcp.step cfg s a = some s')
    (hc : s.moving a = some c) : ∃ e, callStep s.word c = some e ∧ s'.word = e.word := by
  cases step_cases hs with
  | @call t c' e ht he =>
    rw [moving_caller ht] at hc
    cases hc
    exact ⟨e, he, rfl⟩
  | @push t f ht => simp only [Conn.moving, ht, reduceCtorEq] at hc
  | @frame inp f rest e hl he =>
    cases f with
    | call c' k =>
      rw [moving_loop hl] at hc
      cases hc
      obtain ⟨ce, hce, rfl⟩ := Option.map_eq_some_iff.mp he
      exact ⟨ce, hce, rfl⟩
    | _ => simp only [Conn.moving, hl, reduceCtorEq] at hc
  | _ => cases hc

/-- The CAS of `set_unused` turns an idle connection into one without `used`. -/
theorem PhaseInv.clears_used {a : Action ι} (h : PhaseInv cfg s) (hc : ClearsUsed s a)
    (hs : Tcp.step cfg s a = some s') :
    s.word = Phase.idle.word ∧ s'.word = Phase.unused.word := by
  have hidle : s.word = Phase.idle.word := h.moving_ok hc
  obtain ⟨e, he, hw⟩ := moving_step hs hc
  simp only [callStep, unusedStep, if_true, Option.some.injEq] at he
  refine ⟨hidle, ?_⟩
  rw [hw, ← he, hidle]
  exact idle_sub_used

end Steps

/-! ### The exits of `sendInLoop` -/

/-- `sendInLoop` returned through "send must before set_unused" or its final "impossible state". -/
def Event.isStray : Event → Bool
  | .ended _ .unused | .ended _ .impossible => true
  | _ => false

/-- The loop thread is about to perform the first access of `sendInLoop`. -/
def EntersSend (s : Conn ι) (a : Action ι) : Prop :=
  (∃ inp, a = .loop (.step inp)) ∧ ∃ job copy rest, s.loop = .sendInLoop .load job copy :: rest

/-- A `sendInLoop` starts on a connection that is closed. -/
def LateSend (s : Conn ι) (a : Action ι) : Prop :=
  EntersSend s a ∧ has s.word .disconnected = true

/-- A snapshot with `used` and `writing`. -/
def Frame.Live : Frame → Prop
  | .sendInLoop (.write old _ _) _ _ | .sendInLoop (.queue old _ _ _) _ _ =>
    has old .used = true ∧ has old .writing = true
  | _ => True

/-- No `sendInLoop` has strayed and none is going to. -/
structure LiveInv (s : Conn ι) : Prop where
  log : ∀ ev ∈ s.log, ev.isStray = false
  loop : ∀ f ∈ s.loop, f.Live

theorem SendMove.live {old : Word} {job : Job} {copy : Option (List UInt8)} {pre : List Event}
    {e : Effect} (h : SendMove p.word old io job copy pre e)
    (hpre : ∀ ev ∈ pre, ev.isStray = false) (hu : has old .used = true)
    (hw : has old .writing = true) :
    (∀ ev ∈ e.events, ev.isStray = false) ∧ ∀ f ∈ e.frames, f.Live := by
  obtain ⟨evs, hev, hmid⟩ := h.mid
  have hlive : evs = [] ∧ ∀ f ∈ e.frames, f.Live := by
    generalize e.frames = fs at hmid
    cases hmid with
    | write => exact ⟨rfl, by simpa [Frame.Live] using ⟨hu, hw⟩⟩
    | queue => exact ⟨rfl, by simpa [Frame.Live] using ⟨hu, hw⟩⟩
    | cas => exact ⟨rfl, by simp [Frame.Live]⟩
    | unused hu' => rw [hu] at hu'; cases hu'
    | impossible _ hw' => rw [hw] at hw'; cases hw'
  rw [hev, hlive.1, List.append_nil]
  exact ⟨hpre, hlive.2⟩

theorem frameStep_live {f : Frame} {inp : Input} {e : Effect} (hlive : f.Live)
    (hload : ∀ job copy, f = .sendInLoop .load job copy →
      has p.word .used = true ∧ has p.word .writing = true)
    (h : frameStep cfg p.word io f inp = some e) :
    (∀ ev ∈ e.events, ev.isStray = false) ∧ ∀ g ∈ e.frames, g.Live := by
  cases f with
  | user => cases h
  | call c k =>
    obtain ⟨ce, -, rfl⟩ := Option.map_eq_some_iff.mp h
    constructor
    · show ∀ ev ∈ ce.next.events, _
      cases ce.next <;> simp [Next.events, Event.isStray]
    · show ∀ g ∈ ce.next.frames k, _
      cases ce.next <;> cases k <;> simp [Next.frames, Cont.frames, Frame.Live]
  | sendInLoop pc job copy =>
    cases sendLoopStep_move h with
    | load hm =>
      have hb := hload job copy rfl
      exact hm.live (by simp [Event.isStray]) hb.1 hb.2
    | write hm => exact hm.live (by simp [Event.isStray]) hlive.1 hlive.2
    | queue hm => exact hm.live (by simp) hlive.1 hlive.2
    | _ => simp [Effect.goto, Frame.Live, Event.isStray]
  | shutdownInLoop =>
    cases h
    simp [Effect.goto, Event.isStray]
  | hup pc =>
    cases h
    cases pc <;> simp only [hupStep] <;> (repeat' split) <;>
      simp [Effect.goto, Frame.Live, Event.isStray]
  | delay pc =>
    cases h
    cases pc <;> simp only [delayStep] <;> (repeat' split) <;>
      simp [Effect.goto, Frame.Live]
  | handler pc =>
    have hm := handlerStep_move h
    refine ⟨fun ev hev => ?_, fun g hg => ?_⟩
    · have hout := List.all_eq_true.mp hm.events ev hev
      cases ev <;> first | rfl | cases hout
    · have hhandler := List.all_eq_true.mp hm.frames g hg
      cases g <;> trivial

theorem Frame.wake_live {f : Frame} (h : f.Live) : f.wake.Live := by
  unfold Frame.wake
  split
  · trivial
  · trivial
  · exact h

theorem Frame.live_of_isEntry {f : Frame} (h : f.isEntry = true) : f.Live := by
  unfold Frame.isEntry at h
  split at h <;> trivial

variable [Fintype ι] [DecidableEq ι]

/-- Sends that start before the close do not stray. -/
theorem LiveInv.step {a : Action ι} (h : LiveInv s) (hb : BarrierInv cfg s)
    (hlate : ¬ LateSend s a) (hs : step cfg s a = some s') : LiveInv s' := by
  have happend : ∀ evs : List Event, (∀ ev ∈ evs, ev.isStray = false) →
      ∀ ev ∈ s.log ++ evs, ev.isStray = false := by
    intro evs hevs ev hev
    exact (List.mem_append.mp hev).elim (h.log ev) (hevs ev)
  rcases step_kinds hs with ⟨t, c, e, rfl, ht, he, rfl⟩ | ⟨inp, f, rest, e, rfl, hl, he, rfl⟩ |
    ⟨t, f, rfl, ht, rfl⟩ | hadmin
  · refine ⟨happend _ ?_, ?_⟩
    · cases e.next <;> simp [Next.events, Event.isStray]
    · unfold Conn.afterCall
      dsimp only
      split
      · intro f hf
        obtain ⟨g, hg, rfl⟩ := List.mem_map.mp hf
        exact Frame.wake_live (h.loop g hg)
      · exact h.loop
  · obtain ⟨p, hp, hallows⟩ := hb.counted
    have hmem : f ∈ s.loop := by rw [hl]; exact List.mem_cons_self
    have hle := owed_total_le f hmem
    rw [hp] at he
    have hload : ∀ job copy, f = .sendInLoop .load job copy →
        has p.word .used = true ∧ has p.word .writing = true := by
      rintro job copy rfl
      refine (hallows.live hle).resolve_left fun hd => hlate ?_
      exact ⟨⟨⟨inp, rfl⟩, job, copy, rest, hl⟩, by rw [hp]; exact hd⟩
    obtain ⟨hev, hfr⟩ := frameStep_live (h.loop f hmem) hload he
    refine ⟨happend _ hev, fun g hg => ?_⟩
    rcases List.mem_append.mp hg with hg | hg
    · exact hfr g hg
    · exact h.loop g (by rw [hl]; exact List.mem_cons_of_mem f hg)
  · exact ⟨happend _ (by cases f <;> simp [Functor.droppedEvents, Event.isStray]), h.loop⟩
  · refine ⟨?_, fun f hf => (hadmin.loop f hf).elim (h.loop f) fun hentry => Frame.live_of_isEntry hentry.1⟩
    rw [hadmin.log]
    refine happend _ fun ev hev => ?_
    obtain ⟨job, -, rfl⟩ := List.mem_map.mp hev
    rfl

/-- **`set_unused` is a barrier for sends.**  Along every run whose admissions fit the sender field:
when a CAS of `set_unused` clears `used` nothing is outstanding and nothing is admitted afterwards;
`sendInLoop` finds `used` and `writing` unless it finds `Disconnected`; and its "send must before
set_unused" and final "impossible state" are never reached, provided no `sendInLoop` starts on a closed
connection. -/
theorem set_unused_barrier (cfg : Config) (rdhupPhrase isIoChannel ssl : Bool) (mem : ℤ → UInt8)
    (as : List (Action ι)) (s : Conn ι)
    (hroom : Along (step cfg) NoOverflow (Conn.init ι rdhupPhrase isIoChannel ssl mem) as)
    (h : run (step cfg) (Conn.init ι rdhupPhrase isIoChannel ssl mem) as = some s) :
    (∀ a s', ClearsUsed s a → step cfg s a = some s' →
      s.owed = 0 ∧ ∀ bs s'', run (step cfg) s' bs = some s'' → ∀ b, ¬ Admits s'' b) ∧
    (∀ a, EntersSend s a →
      has s.word .disconnected = true ∨ has s.word .used = true ∧ has s.word .writing = true) ∧
    (Along (step cfg) (fun t a => ¬ LateSend t a) (Conn.init ι rdhupPhrase isIoChannel ssl mem) as →
      ∀ job, .ended job .unused ∉ s.log ∧ .ended job .impossible ∉ s.log) := by
  have hinv := barrierInv_of_run hroom h
  obtain ⟨p, hp, hallows⟩ := hinv.counted
  refine ⟨?_, ?_, ?_⟩
  · intro a s' hc hs
    obtain ⟨hidle, hunused⟩ := hinv.toPhaseInv.clears_used hc hs
    obtain rfl : p = .idle := Phase.eq_of_word (by simp) (hp.symm.trans hidle)
    refine ⟨hallows, fun bs s'' hrun b => ?_⟩
    exact (hinv.toPhaseInv.step hs).no_admission ⟨.unused, hunused, rfl⟩ hrun b
  · rintro a ⟨-, job, copy, rest, hl⟩
    have hle := owed_total_le (.sendInLoop .load job copy)
      (show _ ∈ s.loop by rw [hl]; exact List.mem_cons_self)
    rw [hp]
    exact hallows.live hle
  · intro hlate job
    have hlive := run_induction_along (fun t a => NoOverflow t a ∧ ¬ LateSend t a)
      (fun t => BarrierInv cfg t ∧ LiveInv t)
      ⟨barrierInv_init cfg _ _ _ _, List.forall_mem_nil _, by simp [Conn.init, Frame.Live]⟩
      (fun _ _ _ hi hP hs => ⟨hi.1.step hP.1 hs, hi.2.step hi.1 hP.2 hs⟩) (hroom.and hlate) h
    exact ⟨fun hmem => Bool.noConfusion (hlive.2.log _ hmem),
      fun hmem => Bool.noConfusion (hlive.2.log _ hmem)⟩

/-- A send and a `set_unused` that has to wait for it. -/
def unusedRun : List (Action Bool) :=
  [.loop .ret, .invoke false (.send .piece 0 1), .move false, .move false, .move false, .move false,
    .invoke true .setUnused, .move true, .loop .functor, .loop (.step .none),
    .loop (.step (.write ⟨1, .fault, false, false⟩)), .loop (.step .none), .loop (.step .none),
    .loop (.step .none), .move true, .move true]

theorem set_unused_barrier_waits :
    ∃ s s', run (step plainConfig) (Conn.init Bool false false false fun _ => 0) unusedRun
        = some s ∧ ClearsUsed s (.move true) ∧ step plainConfig s (.move true) = some s' ∧
      s.owed = 0 ∧ ∀ bs s'', run (step plainConfig) s' bs = some s'' → ∀ b, ¬ Admits s'' b :=
  have hrun : run (step plainConfig) (Conn.init Bool false false false fun _ => 0) unusedRun
      = some _ := rfl
  have h := set_unused_barrier plainConfig false false false (fun _ => 0) unusedRun _ (by decide) hrun
  ⟨_, _, hrun, rfl, rfl, h.1 (.move true) _ rfl rfl⟩

/-- A message admitted before the peer hangs up, whose functor runs after the close. -/
def lateSendRun : List (Action Unit) :=
  List.flatten [[.loop .ret, .invoke () (.send .piece 0 1), .move (), .move (), .move (), .move (),
      .loop (.poll ⟨false, true, false, false, false⟩), .loop .dispatch],
    List.replicate 7 (.loop (.step .none)),
    [.loop .ret, .loop .functor, .loop (.step .none),
      .loop (.step (.write ⟨-1, .fault, false, false⟩))]]

/-- On the closed connection `sendInLoop` takes the "send must before set_unused" branch. -/
theorem sendInLoop_strays_when_closed :
    ∃ s, run (step plainConfig) (Conn.init Unit false false false fun _ => 0) lateSendRun
        = some s ∧
      Along (step plainConfig) NoOverflow (Conn.init Unit false false false fun _ => 0)
        lateSendRun ∧ .ended ⟨0, .piece, 0, 1⟩ .unused ∈ s.log :=
  ⟨_, rfl, by decide, by decide⟩

end KwNet.Tcp
