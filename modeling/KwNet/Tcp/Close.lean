import KwNet.Tcp.Phases

/-!
# Closing a connection

`handle_ep_hup` is where a connection ends: it closes the socket, reports the close to
`closeCallback_` and stores `Disconnected`.  Everything that closes a connection funnels through it:
hang-up, error and end-of-file events, `forceClose` from any thread or from a callback, the timer of
`forceCloseWithDelay`.  All of them stop at its guard once the word is `Disconnected`.

* `Conn.closings` — the closing events of a run, in order;
* **`close_cases`** — only `handle_ep_hup` adds to them;
* **`plain_closes_once`** — the plain class stores `Disconnected` before its callback, so it closes and
  reports once and `Disconnected` stays.
-/

namespace KwNet.Tcp

open KwNet.Lib

variable {ι : Type} {cfg : Config} {io : Io} {p : Phase}

/-- The events of `handle_ep_hup`. -/
def Event.isClose : Event → Bool
  | .sslFree | .socketClose | .closeCallback _ => true
  | _ => false

/-- Calls of `closeCallback_`. -/
def Event.isReport : Event → Bool
  | .closeCallback _ => true
  | _ => false

/-- The closing events so far. -/
def Conn.closings (s : Conn ι) : List Event := s.log.filter Event.isClose

theorem count_closings (s : Conn ι) {ev : Event} (h : ev.isClose = true) :
    s.closings.count ev = s.log.count ev :=
  List.count_filter h

theorem countP_closings (s : Conn ι) :
    s.closings.countP Event.isReport = s.log.countP Event.isReport := by
  rw [Conn.closings, List.countP_filter]
  refine List.countP_congr fun ev _ => ?_
  cases ev <;> rfl

/-- How far `handle_ep_hup` has got after its `socket_->close()`; the TLS class is past its callback
when it stores. -/
def Frame.stage (kind : Kind) : Frame → Option HupPc
  | .hup .store => if kind = .plain then some .store else none
  | .hup .wake => some .wake
  | .hup .callback => some .callback
  | _ => none

def Conn.stage (kind : Kind) (s : Conn ι) : Option HupPc := s.loop.head?.bind (Frame.stage kind)

theorem Frame.stage_of_isHandler {f : Frame} {kind : Kind} (h : f.isHandler = true) :
    f.stage kind = none := by
  unfold Frame.isHandler at h
  split at h <;> first | rfl | cases h

theorem Frame.stage_of_suspended {f : Frame} {kind : Kind} (h : f.suspended kind = true) :
    f.stage kind = none := by
  unfold Frame.suspended at h
  split at h
  · cases kind
    · cases h
    · rfl
  · exact Frame.stage_of_isHandler h

/-! ### Steps that do not close -/

/-- Neither `handle_ep_hup` nor anything it decides on moves. -/
structure CloseQuiet (kind : Kind) (s s' : Conn ι) : Prop where
  closings : s'.closings = s.closings
  ssl : s'.io.ssl = s.io.ssl
  stage : s'.stage kind = s.stage kind
  closed : s'.word = Phase.closed.word ↔ s.word = Phase.closed.word

/-- The same for the effect of one frame. -/
structure Effect.CloseQuiet (kind : Kind) (p : Phase) (io : Io) (e : Effect) : Prop where
  events : e.events.filter Event.isClose = []
  ssl : e.io.ssl = io.ssl
  stage : ∀ f, e.frames.head? = some f → f.stage kind = none
  closed : e.word = Phase.closed.word ↔ p = .closed

theorem phase_closed_iff : p.word = Phase.closed.word ↔ p = .closed :=
  ⟨Phase.eq_of_word (by simp), fun h => by rw [h]⟩

theorem Next.events_close (next : Next) : next.events.filter Event.isClose = [] := by
  cases next <;> rfl

theorem Next.frames_stage (next : Next) (k : Cont) (kind : Kind) :
    ∀ f, (next.frames k).head? = some f → f.stage kind = none := by
  intro f hf
  cases next <;> cases k <;> cases hf <;> rfl

theorem SendMid.closeQuiet {old : Word} {job : Job} {copy : Option (List UInt8)} {fs : List Frame}
    {evs : List Event} (h : SendMid old job copy fs evs) (kind : Kind) :
    evs.filter Event.isClose = [] ∧ ∀ f, fs.head? = some f → f.stage kind = none := by
  refine ⟨by cases h <;> rfl, fun f hf => ?_⟩
  cases h <;> cases hf <;> rfl

theorem SendMove.closeQuiet {old : Word} {job : Job} {copy : Option (List UInt8)} {pre : List Event}
    {e : Effect} {kind : Kind} (h : SendMove p.word old io job copy pre e)
    (hpre : pre.filter Event.isClose = []) : e.CloseQuiet kind p io := by
  obtain ⟨evs, hev, hmid⟩ := h.mid
  obtain ⟨hclose, hstage⟩ := hmid.closeQuiet kind
  refine ⟨?_, h.same.ssl, hstage, by rw [h.word]; exact phase_closed_iff⟩
  rw [hev, List.filter_append, hpre, hclose]
  rfl

theorem HandlerMove.closeQuiet {e : Effect} {kind : Kind} (h : HandlerMove p.word io e) :
    e.CloseQuiet kind p io := by
  refine ⟨?_, h.same.ssl, ?_, by rw [h.word]; exact phase_closed_iff⟩
  · rw [List.filter_eq_nil_iff]
    intro ev hev
    have hout := List.all_eq_true.mp h.events ev hev
    cases ev <;> first | (cases hout; done) | exact Bool.false_ne_true
  · intro f hf
    exact Frame.stage_of_isHandler (List.all_eq_true.mp h.frames f (List.mem_of_head? hf))

/-- An effect that keeps the loop's data, logs no closing event and leaves a phase that is closed
exactly when the old one is. -/
theorem Effect.CloseQuiet.mk' {e : Effect} {kind : Kind} {q : Phase} (hio : e.io = io)
    (hev : e.events.filter Event.isClose = [])
    (hst : ∀ f, e.frames.head? = some f → f.stage kind = none) (hw : e.word = q.word)
    (hq : q = .closed ↔ p = .closed) : e.CloseQuiet kind p io :=
  ⟨hev, by rw [hio], hst, by rw [hw, phase_closed_iff]; exact hq⟩

theorem sendLoopStep_closeQuiet {job : Job} {copy : Option (List UInt8)} {pc : SendLoopPc}
    {inp : Input} {e : Effect} {kind : Kind} (hpc : pc.Ok)
    (h : sendLoopStep cfg p.word io job copy pc inp = some e) : e.CloseQuiet kind p io := by
  cases sendLoopStep_move h with
  | load hm => exact hm.closeQuiet rfl
  | write hm => exact hm.closeQuiet rfl
  | queue hm => exact hm.closeQuiet rfl
  | last hw =>
    obtain ⟨c, rfl⟩ := hpc
    obtain ⟨c', rfl⟩ := Phase.eq_busy hw
    obtain ⟨d, hd⟩ := busy_sub_phase c
    exact .mk' (q := .busy d) rfl rfl (by rintro f ⟨⟩; rfl) hd (by simp)
  | release hw =>
    obtain ⟨c, rfl⟩ := hpc
    obtain ⟨c', rfl⟩ := Phase.eq_busy hw
    obtain ⟨d, hd⟩ := busy_sub_phase c
    exact .mk' (q := .busy d) rfl rfl forall_none hd (by simp)
  | clear hw =>
    obtain rfl : _ = (Phase.busy 0).word := hpc
    obtain ⟨c', rfl⟩ := Phase.eq_busy hw
    exact .mk' (q := .idle) rfl rfl (by rintro f ⟨⟩; rfl) busy_zero_xor (by simp)
  | _ => exact .mk' rfl rfl forall_none rfl .rfl

theorem delayStep_closeQuiet {pc : DelayPc} {kind : Kind}
    (hg : (Frame.delay pc).Guards kind p.word) : (delayStep p.word io pc).CloseQuiet kind p io := by
  cases pc with
  | store =>
    have hp : p ≠ .closed := by
      rintro rfl
      have hg' : Phase.closed.word = Phase.unused.word ∨ Phase.closed.word = Phase.shut.word := hg
      exact absurd hg' (by decide)
    exact .mk' (q := .shut) rfl rfl forall_none rfl ⟨(by rintro ⟨⟩), fun h => absurd h hp⟩
  | isConnected =>
    simp only [delayStep]
    split <;> exact .mk' rfl rfl (by rintro f ⟨⟩; rfl) rfl .rfl
  | isDisconnecting =>
    simp only [delayStep]
    split
    · exact .mk' rfl rfl (by rintro f ⟨⟩; rfl) rfl .rfl
    · exact .mk' rfl rfl forall_none rfl .rfl

/-- Only `handle_ep_hup` closes. -/
theorem frameStep_closeQuiet {f : Frame} {inp : Input} {e : Effect} {kind : Kind} (hf : f.Ok)
    (hg : f.Guards kind p.word) (hhup : ∀ pc, f ≠ .hup pc)
    (h : frameStep cfg p.word io f inp = some e) : e.CloseQuiet kind p io := by
  cases f with
  | user => cases h
  | call c k =>
    obtain ⟨ce, hce, rfl⟩ := Option.map_eq_some_iff.mp h
    exact ⟨Next.events_close _, rfl, Next.frames_stage _ k kind, (callStep_move hf.1 hce).closed_iff⟩
  | sendInLoop pc job copy => exact sendLoopStep_closeQuiet hf h
  | shutdownInLoop =>
    cases h
    exact .mk' rfl rfl forall_none rfl .rfl
  | hup pc => exact absurd rfl (hhup pc)
  | delay pc =>
    cases h
    exact delayStep_closeQuiet hg
  | handler pc => exact (handlerStep_move h).closeQuiet

variable [DecidableEq ι] {s s' : Conn ι}

omit [DecidableEq ι] in
theorem CloseQuiet.of_loop {kind : Kind} (hlog : s'.closings = s.closings)
    (hssl : s'.io.ssl = s.io.ssl) (hst : s'.stage kind = s.stage kind) (hw : s'.word = s.word) :
    CloseQuiet kind s s' :=
  ⟨hlog, hssl, hst, by rw [hw]⟩

omit [DecidableEq ι] in
theorem closings_append (evs : List Event) (hlog : s'.log = s.log ++ evs)
    (h : evs.filter Event.isClose = []) : s'.closings = s.closings := by
  rw [Conn.closings, Conn.closings, hlog, List.filter_append, h, List.append_nil]

omit [DecidableEq ι] in
theorem stage_of_head {kind : Kind} {f : Frame} (hl : s.loop.head? = some f) :
    s.stage kind = f.stage kind := by
  rw [Conn.stage, hl]
  rfl

omit [DecidableEq ι] in
theorem stage_of_suspended {kind : Kind} (h : s.loop.all (Frame.suspended kind) = true) :
    s.stage kind = none := by
  rw [Conn.stage]
  cases hl : s.loop.head? with
  | none => rfl
  | some f => exact Frame.stage_of_suspended (List.all_eq_true.mp h f (List.mem_of_head? hl))

theorem Frame.wake_stage (f : Frame) (kind : Kind) : f.wake.stage kind = f.stage kind := by
  unfold Frame.wake
  split <;> rfl

theorem Frame.spurious_stage {f f' : Frame} {kind : Kind} (h : f.spurious = some f') :
    f'.stage kind = f.stage kind := by
  unfold Frame.spurious at h
  split at h
  · obtain ⟨c', hc, rfl⟩ := Option.map_eq_some_iff.mp h
    rfl
  · cases h
    rfl
  · cases h

theorem Functor.frame_stage (f : Functor) (kind : Kind) : f.frame.stage kind = none := by
  cases f <;> rfl

theorem afterCall_stage (t : ι) (e : CallEffect) (kind : Kind) :
    (s.afterCall t e).stage kind = s.stage kind := by
  unfold Conn.afterCall
  dsimp only
  split
  · show ((s.loop.map Frame.wake).head?.bind (Frame.stage kind)) = s.stage kind
    rw [Conn.stage, List.head?_map]
    cases s.loop.head? with
    | none => rfl
    | some f => exact f.wake_stage kind
  · rfl

/-- A step of `handle_ep_hup` on top of the stack. -/
structure HupMove (cfg : Config) (s s' : Conn ι) (pc : HupPc) (rest : List Frame) : Prop where
  loop : s.loop = .hup pc :: rest
  guards : (Frame.hup pc).Guards cfg.kind s.word
  suspended : rest.all (Frame.suspended cfg.kind) = true
  next : s' = s.apply rest (hupStep cfg s.word s.io pc)

/-- **Only `handle_ep_hup` closes**: every other step leaves the closing events and everything the next
`handle_ep_hup` will look at as they are. -/
theorem close_cases {a : Action ι} (h : PhaseInv cfg s) (hs : step cfg s a = some s') :
    CloseQuiet cfg.kind s s' ∨
      ∃ inp pc rest, a = .loop (.step inp) ∧ HupMove cfg s s' pc rest := by
  have hnil : s.loop = [] → s.stage cfg.kind = none := by
    intro hl
    rw [Conn.stage, hl]
    rfl
  have huser : ∀ rest, s.loop = .user :: rest → s.stage cfg.kind = none := by
    intro rest hl
    exact stage_of_head (f := .user) (by rw [hl]; rfl)
  cases step_cases hs with
  | @invoke t api ht =>
    cases api with
    | send kind data size =>
      exact .inl <| .of_loop (closings_append [.called ⟨s.nextId, kind, data, size⟩] rfl rfl) rfl rfl
        rfl
    | _ => exact .inl <| .of_loop rfl rfl rfl rfl
  | @call t c e ht he =>
    obtain ⟨p, hp⟩ := h.word
    have hc : c.Ok := by
      have hok := h.callers t
      rw [ht] at hok
      exact hok
    rw [hp] at he
    refine .inl ⟨closings_append _ rfl (Next.events_close e.next), ?_, afterCall_stage t e _, ?_⟩
    · unfold Conn.afterCall
      dsimp only
      split <;> rfl
    · rw [hp, phase_closed_iff]
      exact (callStep_move hc he).closed_iff
  | push => exact .inl <| .of_loop rfl rfl rfl rfl
  | spurious => exact .inl <| .of_loop rfl rfl rfl rfl
  | @giveUp t f ht hfull => exact .inl <| .of_loop (closings_append _ rfl (by cases f <;> rfl)) rfl rfl rfl
  | @frame inp f rest e hl he =>
    obtain ⟨p, hp⟩ := h.word
    have htop := h.top f (by rw [hl]; rfl)
    have hrest : rest.all (Frame.suspended cfg.kind) = true := by
      have htail := h.tail
      rw [hl] at htail
      exact htail
    by_cases hhup : ∃ pc, f = .hup pc
    · obtain ⟨pc, rfl⟩ := hhup
      cases he
      exact .inr ⟨inp, pc, rest, rfl, hl, htop, hrest, rfl⟩
    left
    have hne : ∀ pc, f ≠ .hup pc := fun pc hpc => hhup ⟨pc, hpc⟩
    rw [hp] at he htop
    have hq := frameStep_closeQuiet (h.loop f (by rw [hl]; exact List.mem_cons_self)) htop hne he
    refine ⟨closings_append _ rfl hq.events, hq.ssl, ?_, by rw [hp, phase_closed_iff]; exact hq.closed⟩
    have hbefore : s.stage cfg.kind = none := by
      rw [stage_of_head (f := f) (by rw [hl]; rfl)]
      cases f with
      | hup pc => exact absurd rfl (hne pc)
      | _ => rfl
    rw [hbefore]
    cases hfs : e.frames with
    | nil =>
      refine stage_of_suspended ?_
      show (e.frames ++ rest).all _ = true
      rw [hfs]
      exact hrest
    | cons g gs =>
      rw [stage_of_head (f := g) (by show (e.frames ++ rest).head? = some g; rw [hfs]; rfl)]
      exact hq.stage g (by rw [hfs]; rfl)
  | @loopSpurious f f' rest hl hf =>
    refine .inl <| .of_loop rfl rfl ?_ rfl
    rw [stage_of_head (f := f') rfl, stage_of_head (f := f) (by rw [hl]; rfl)]
    exact Frame.spurious_stage hf
  | @userCall api rest hl =>
    cases api with
    | task => exact .inl <| .of_loop rfl rfl rfl rfl
    | send kind data size =>
      exact .inl <| .of_loop (closings_append [.called ⟨s.nextId, kind, data, size⟩] rfl rfl) rfl
        (huser rest hl).symm rfl
    | _ => exact .inl <| .of_loop rfl rfl (huser rest hl).symm rfl
  | @delay rest hl => exact .inl <| .of_loop rfl rfl (huser rest hl).symm rfl
  | @ret rest hl =>
    have htail := h.tail
    rw [hl] at htail
    exact .inl <| .of_loop rfl rfl ((stage_of_suspended htail).trans (huser rest hl).symm) rfl
  | poll => exact .inl <| .of_loop rfl rfl rfl rfl
  | dispatch hl => exact .inl <| .of_loop rfl rfl (hnil hl).symm rfl
  | @functor f fs hl => exact .inl <| .of_loop rfl rfl ((f.frame_stage _).trans (hnil hl).symm) rfl
  | timer hl => exact .inl <| .of_loop rfl rfl (hnil hl).symm rfl
  | foreign hl => exact .inl <| .of_loop rfl rfl (hnil hl).symm rfl
  | space => exact .inl <| .of_loop rfl rfl rfl rfl
  | overwrite => exact .inl <| .of_loop rfl rfl rfl rfl

/-! ### The plain class -/

/-- The close so far, of a plain connection: the socket is closed from `socket_->close()` on, and the
close is reported once `handle_ep_hup` is done. -/
def Conn.PlainClose (s : Conn ι) : Prop :=
  match s.stage .plain with
  | some _ => s.closings = [.socketClose]
  | none =>
    s.closings = if s.word = Phase.closed.word then
      [.socketClose, .closeCallback Phase.closed.word] else []

omit [DecidableEq ι] in
theorem CloseQuiet.plainClose (h : CloseQuiet .plain s s') (hc : s.PlainClose) :
    s'.PlainClose := by
  unfold Conn.PlainClose at hc ⊢
  rw [h.stage, h.closings]
  simp only [h.closed]
  exact hc

omit [DecidableEq ι] in
theorem Conn.PlainClose.open {s : Conn ι} (h : s.PlainClose) (hst : s.stage .plain = none)
    (hw : s.word ≠ Phase.closed.word) : s.closings = [] := by
  unfold Conn.PlainClose at h
  rw [hst] at h
  exact h.trans (if_neg hw)

omit [DecidableEq ι] in
theorem Conn.PlainClose.closing {s : Conn ι} (h : s.PlainClose) {pc : HupPc}
    (hst : s.stage .plain = some pc) : s.closings = [.socketClose] := by
  unfold Conn.PlainClose at h
  rw [hst] at h
  exact h

omit [DecidableEq ι] in
/-- Leaving `handle_ep_hup` at its guard or after its callback. -/
theorem apply_stage_nil {kind : Kind} {rest : List Frame} {e : Effect}
    (hrest : rest.all (Frame.suspended kind) = true) (hfs : e.frames = []) :
    (s.apply rest e).stage kind = none := by
  refine stage_of_suspended ?_
  show (e.frames ++ rest).all _ = true
  rw [hfs]
  exact hrest

omit [DecidableEq ι] in
theorem closings_apply (rest : List Frame) (e : Effect) :
    (s.apply rest e).closings = s.closings ++ e.events.filter Event.isClose :=
  List.filter_append ..

omit [DecidableEq ι] in
/-- One step of the plain `handle_ep_hup`. -/
theorem HupMove.plainClose (hk : cfg.kind = .plain) {pc : HupPc} {rest : List Frame}
    (h : HupMove cfg s s' pc rest) (hc : s.PlainClose) : s'.PlainClose := by
  obtain ⟨hl, hg, hrest, rfl⟩ := h
  rw [hk] at hg hrest
  have hst : s.stage .plain = (Frame.hup pc).stage .plain := stage_of_head (by rw [hl]; rfl)
  cases pc with
  | load =>
    have hsame : ∀ fs : List Frame, (s.apply rest (Effect.goto s.word s.io fs)).stage .plain = none →
        (s.apply rest (Effect.goto s.word s.io fs)).PlainClose := by
      intro fs hfs
      unfold Conn.PlainClose at hc ⊢
      rw [hst] at hc
      rw [hfs, closings_apply]
      exact (List.append_nil _).trans hc
    simp only [hupStep, hk]
    split
    · exact hsame [] (apply_stage_nil hrest rfl)
    · exact hsame [.hup .close] rfl
  | free => cases hg.1
  | close =>
    have hnil := hc.open hst hg
    simp only [hupStep, hk]
    show (s.apply rest _).closings = _
    rw [closings_apply, hnil]
    rfl
  | store =>
    have hone := hc.closing hst
    show (s.apply rest _).closings = _
    rw [closings_apply, hone]
    rfl
  | wake =>
    have hone := hc.closing hst
    simp only [hupStep, hk]
    show (s.apply rest _).closings = _
    rw [closings_apply, hone]
    rfl
  | callback =>
    have hone := hc.closing hst
    have hw : s.word = Phase.closed.word := hg
    simp only [hupStep, hk]
    show (s.apply rest _).closings = _
    rw [closings_apply, hone, hw]
    exact (if_pos rfl).symm

/-- The word and the close of a plain connection, over a whole run. -/
theorem plainClose_of_run (hk : cfg.kind = .plain) {rdhupPhrase isIoChannel ssl : Bool}
    {mem : ℤ → UInt8} {as : List (Action ι)}
    (h : run (step cfg) (Conn.init ι rdhupPhrase isIoChannel ssl mem) as = some s) :
    PhaseInv cfg s ∧ s.PlainClose := by
  refine run_induction (fun s => PhaseInv cfg s ∧ s.PlainClose) ⟨phaseInv_init _ _ _ _ _, ?_⟩ ?_ h
  · exact (if_neg (show established ≠ Phase.closed.word by decide)).symm
  · rintro s a s' ⟨hinv, hc⟩ hs
    refine ⟨hinv.step hs, ?_⟩
    rcases close_cases hinv hs with hq | ⟨-, pc, rest, -, hm⟩
    · rw [hk] at hq
      exact hq.plainClose hc
    · exact hm.plainClose hk hc

/-- **A plain connection closes once.**  In every run of any threads, events, callbacks, functors and
timers, `socket_->close()` and `closeCallback_` each run at most once, and from the moment the state
word has `Disconnected` it is `Disconnected` and nothing else. -/
theorem plain_closes_once (cfg : Config) (hk : cfg.kind = .plain)
    (rdhupPhrase isIoChannel ssl : Bool) (mem : ℤ → UInt8) (as : List (Action ι)) (s : Conn ι)
    (h : run (step cfg) (Conn.init ι rdhupPhrase isIoChannel ssl mem) as = some s) :
    s.log.count .socketClose ≤ 1 ∧ s.log.countP Event.isReport ≤ 1 ∧
      (has s.word .disconnected = true → ∀ bs s', run (step cfg) s bs = some s' →
        s'.word = StateE.disconnected.word) := by
  obtain ⟨hinv, hc⟩ := plainClose_of_run hk h
  refine ⟨?_, ?_, ?_⟩
  · rw [← count_closings s rfl]
    unfold Conn.PlainClose at hc
    split at hc
    · rw [hc]; decide
    · split at hc <;> rw [hc] <;> decide
  · rw [← countP_closings s]
    unfold Conn.PlainClose at hc
    split at hc
    · rw [hc]; decide
    · split at hc <;> rw [hc] <;> decide
  · intro hd bs s' hrun
    have hclosed : s.word = Phase.closed.word := by
      obtain ⟨p, hp⟩ := hinv.word
      rw [hp] at hd ⊢
      cases p <;> first | rfl | simp at hd
    refine (run_induction (fun s => PhaseInv cfg s ∧ s.word = Phase.closed.word) ⟨hinv, hclosed⟩
      ?_ hrun).2
    rintro t a t' ⟨ht, hw⟩ hs
    exact ⟨ht.step hs, ht.closed_step hs hw⟩

/-- A close callback that calls `forceClose`, a plain connection. -/
def plainReentrantRun : List (Action Unit) :=
  List.flatten [[.loop .ret, .loop (.poll ⟨false, true, false, false, false⟩), .loop .dispatch],
    List.replicate 7 (.loop (.step .none)), [.loop (.user .forceClose)],
    List.replicate 2 (.loop (.step .none))]

theorem plain_closes_once_reentrant :
    ∃ s, run (step plainConfig) (Conn.init Unit false false false fun _ => 0) plainReentrantRun
        = some s ∧ s.word = StateE.disconnected.word ∧ s.log.count .socketClose = 1 ∧
      s.log.count .socketClose ≤ 1 ∧ s.log.countP Event.isReport ≤ 1 :=
  have h := plain_closes_once plainConfig rfl false false false (fun _ => 0) plainReentrantRun _
    (show run (step plainConfig) (Conn.init Unit false false false fun _ => 0) plainReentrantRun
      = some _ from rfl)
  ⟨_, rfl, by decide, by decide, h.1, h.2.1⟩

end KwNet.Tcp
