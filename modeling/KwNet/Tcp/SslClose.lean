import KwNet.Tcp.Close

/-!
# Closing a TLS connection

`ssl_TcpConnection::handle_ep_hup` overrides the base class with the steps in another order: it frees
the session, runs `set_unused`, closes the socket, calls `closeCallback_` and only then stores
`Disconnected`.  The callback therefore never finds `Disconnected`, and one that calls `forceClose`
passes the guard a second time.

* `CloseContract` — what the base class keeps;
* **`ssl_closeContract_iff`** — the TLS class keeps it exactly in the runs that report no close.
-/

namespace KwNet.Tcp

open KwNet.Lib

variable {ι : Type} {cfg : Config} [DecidableEq ι] {s s' : Conn ι}

/-- What a connection owes its close callback. -/
structure CloseContract (s : Conn ι) : Prop where
  socketClose : s.log.count .socketClose ≤ 1
  closeCallback : s.log.countP Event.isReport ≤ 1
  sslFree : s.log.count .sslFree ≤ 1
  disconnected : ∀ seen, .closeCallback seen ∈ s.log → has seen .disconnected = true

/-- The close so far, of a TLS connection: one close for each report and one more between them, one
free for the one session, and no report that found `Disconnected`. -/
structure Conn.SslClose (s : Conn ι) : Prop where
  paired : s.closings.count .socketClose
    = s.closings.countP Event.isReport + if s.stage .ssl = some .callback then 1 else 0
  freed : s.closings.count .sslFree + (if s.io.ssl then 1 else 0) ≤ 1
  early : ∀ seen, .closeCallback seen ∈ s.closings → has seen .disconnected = false

omit [DecidableEq ι] in
theorem CloseQuiet.sslClose (h : CloseQuiet .ssl s s') (hc : s.SslClose) : s'.SslClose := by
  refine ⟨?_, ?_, ?_⟩
  · rw [h.closings, h.stage]
    exact hc.paired
  · rw [h.closings, h.ssl]
    exact hc.freed
  · rw [h.closings]
    exact hc.early

omit [DecidableEq ι] in
/-- A step that closes nothing. -/
theorem Conn.SslClose.silent {e : Effect} {rest : List Frame} (hc : s.SslClose) (hev : e.events = [])
    (hssl : e.io.ssl = s.io.ssl) (hst : s.stage .ssl ≠ some .callback)
    (hst' : (s.apply rest e).stage .ssl ≠ some .callback) : (s.apply rest e).SslClose := by
  have hcl : (s.apply rest e).closings = s.closings := by
    rw [closings_apply, hev]
    exact List.append_nil _
  have hpaired := hc.paired
  rw [if_neg hst] at hpaired
  refine ⟨?_, ?_, ?_⟩
  · rw [hcl, if_neg hst']
    exact hpaired
  · rw [hcl]
    show _ + (if e.io.ssl then 1 else 0) ≤ 1
    rw [hssl]
    exact hc.freed
  · rw [hcl]
    exact hc.early

omit [DecidableEq ι] in
/-- A step that logs the closing event `ev`. -/
theorem Conn.SslClose.logged {e : Effect} {rest : List Frame} {ev : Event} (hc : s.SslClose)
    (hev : e.events = [ev]) (hclose : ev.isClose = true)
    (hpaired : s.closings.count .socketClose + [ev].count .socketClose
      = s.closings.countP Event.isReport + [ev].countP Event.isReport
        + if (s.apply rest e).stage .ssl = some .callback then 1 else 0)
    (hfreed : s.closings.count .sslFree + [ev].count .sslFree + (if e.io.ssl then 1 else 0) ≤ 1)
    (hearly : ∀ seen, ev = .closeCallback seen → has seen .disconnected = false) :
    (s.apply rest e).SslClose := by
  have hcl : (s.apply rest e).closings = s.closings ++ [ev] := by
    rw [closings_apply, hev, List.filter_cons_of_pos hclose]
    rfl
  refine ⟨?_, ?_, ?_⟩
  · rw [hcl, List.count_append, List.countP_append]
    exact hpaired
  · rw [hcl, List.count_append]
    exact hfreed
  · intro seen hseen
    rw [hcl] at hseen
    rcases List.mem_append.mp hseen with hseen | hseen
    · exact hc.early seen hseen
    · exact hearly seen (List.mem_singleton.mp hseen).symm

omit [DecidableEq ι] in
/-- One step of the TLS `handle_ep_hup`. -/
theorem HupMove.sslClose (hk : cfg.kind = .ssl) {pc : HupPc} {rest : List Frame}
    (hword : ∃ p : Phase, s.word = p.word) (h : HupMove cfg s s' pc rest) (hc : s.SslClose) :
    s'.SslClose := by
  obtain ⟨hl, hg, hrest, rfl⟩ := h
  rw [hk] at hg hrest
  have hst : s.stage .ssl = (Frame.hup pc).stage .ssl := stage_of_head (by rw [hl]; rfl)
  have hpaired := hc.paired
  have hfreed := hc.freed
  rw [hst] at hpaired
  cases pc with
  | load =>
    have hne : s.stage .ssl ≠ some .callback := by rw [hst]; rintro ⟨⟩
    simp only [hupStep, hk]
    split
    · exact hc.silent rfl rfl hne (by rw [apply_stage_nil hrest rfl]; rintro ⟨⟩)
    · exact hc.silent rfl rfl hne (by rintro ⟨⟩)
  | free =>
    cases hssl : s.io.ssl with
    | false =>
      have hne : s.stage .ssl ≠ some .callback := by rw [hst]; rintro ⟨⟩
      refine hc.silent ?_ hssl.symm hne (by rintro ⟨⟩)
      simp only [hupStep, hssl]
      rfl
    | true =>
      rw [hssl] at hfreed
      have hev : (hupStep cfg s.word s.io .free).events = [.sslFree] := by
        simp only [hupStep, hssl]
        rfl
      exact hc.logged hev rfl hpaired hfreed (by rintro _ ⟨⟩)
  | close =>
    simp only [hupStep, hk]
    exact hc.logged rfl rfl (congrArg (· + 1) hpaired) hfreed (by rintro _ ⟨⟩)
  | store => exact hc.silent rfl rfl (by rw [hst]; rintro ⟨⟩) (by rintro ⟨⟩)
  | wake =>
    simp only [hupStep, hk]
    exact hc.silent rfl rfl (by rw [hst]; rintro ⟨⟩) (by rw [apply_stage_nil hrest rfl]; rintro ⟨⟩)
  | callback =>
    simp only [hupStep, hk]
    refine hc.logged rfl rfl hpaired hfreed ?_
    rintro seen ⟨⟩
    obtain ⟨p, hp⟩ := hword
    have hne : p.word ≠ Phase.closed.word := hp ▸ hg
    rw [hp]
    cases p with
    | closed => exact absurd rfl hne
    | _ => simp

theorem sslClose_of_run (hk : cfg.kind = .ssl) {rdhupPhrase isIoChannel ssl : Bool}
    {mem : ℤ → UInt8} {as : List (Action ι)}
    (h : run (step cfg) (Conn.init ι rdhupPhrase isIoChannel ssl mem) as = some s) :
    PhaseInv cfg s ∧ s.SslClose := by
  refine run_induction (fun s => PhaseInv cfg s ∧ s.SslClose) ⟨phaseInv_init _ _ _ _ _, ?_⟩ ?_ h
  · refine ⟨rfl, ?_, fun _ h => absurd h List.not_mem_nil⟩
    cases ssl
    · exact Nat.zero_le 1
    · exact Nat.le_refl 1
  · rintro s a s' ⟨hinv, hc⟩ hs
    refine ⟨hinv.step hs, ?_⟩
    rcases close_cases hinv hs with hq | ⟨-, pc, rest, -, hm⟩
    · rw [hk] at hq
      exact hq.sslClose hc
    · exact hm.sslClose hk hinv.word hc

/-- The step invokes `closeCallback_`. -/
def ReportsClose (s : Conn ι) (a : Action ι) : Prop :=
  (∃ inp, a = .loop (.step inp)) ∧ s.loop.head? = some (.hup .callback)

omit [DecidableEq ι] in
theorem HupMove.reports {pc : HupPc} {rest : List Frame} (h : HupMove cfg s s' pc rest)
    (hpc : pc ≠ .callback) :
    s'.log.countP Event.isReport = s.log.countP Event.isReport := by
  obtain ⟨-, -, -, rfl⟩ := h
  show (s.log ++ (hupStep cfg s.word s.io pc).events).countP _ = _
  have hzero : (hupStep cfg s.word s.io pc).events.countP Event.isReport = 0 := by
    cases pc with
    | callback => exact absurd rfl hpc
    | store => rfl
    | free => cases hssl : s.io.ssl <;> simp only [hupStep, hssl] <;> rfl
    | load => simp only [hupStep]; split <;> [rfl; (split <;> rfl)]
    | close => simp only [hupStep]; split <;> rfl
    | wake => simp only [hupStep]; split <;> rfl
  rw [List.countP_append, hzero, Nat.add_zero]

/-- A step adds a report exactly when it invokes the callback. -/
theorem reports_step {a : Action ι} (h : PhaseInv cfg s) (hs : step cfg s a = some s') :
    s'.log.countP Event.isReport = 0 ↔ s.log.countP Event.isReport = 0 ∧ ¬ ReportsClose s a := by
  by_cases hr : ReportsClose s a
  · obtain ⟨⟨inp, rfl⟩, htop⟩ := hr
    cases step_cases hs with
    | @frame _ f rest e hl he =>
      rw [hl] at htop
      cases htop
      cases he
      have hev : (hupStep cfg s.word s.io .callback).events = [.closeCallback s.word] := by
        simp only [hupStep]
        split <;> rfl
      have hlog : (s.apply rest (hupStep cfg s.word s.io .callback)).log
          = s.log ++ [.closeCallback s.word] := by
        show s.log ++ _ = _
        rw [hev]
      rw [hlog, List.countP_append]
      have hone : [Event.closeCallback s.word].countP Event.isReport = 1 := rfl
      have hyes : ReportsClose s (.loop (.step inp)) := ⟨⟨inp, rfl⟩, by rw [hl]; rfl⟩
      rw [hone]
      exact ⟨fun h => by omega, fun h => absurd hyes h.2⟩
  · have hsame : s'.log.countP Event.isReport = s.log.countP Event.isReport := by
      rcases close_cases h hs with hq | ⟨inp, pc, rest, rfl, hm⟩
      · rw [← countP_closings, ← countP_closings, hq.closings]
      · refine hm.reports ?_
        rintro rfl
        exact hr ⟨⟨inp, rfl⟩, by rw [hm.loop]; rfl⟩
    rw [hsame]
    exact ⟨fun h => ⟨h, hr⟩, fun h => h.1⟩

theorem reports_of_run {s₀ : Conn ι} {as : List (Action ι)} (h₀ : PhaseInv cfg s₀)
    (h : run (step cfg) s₀ as = some s) :
    s.log.countP Event.isReport = 0 ↔
      s₀.log.countP Event.isReport = 0 ∧ Along (step cfg) (fun t a => ¬ ReportsClose t a) s₀ as := by
  induction as generalizing s₀ with
  | nil =>
    rw [run_nil, Option.some.injEq] at h
    rw [h]
    exact ⟨fun h => ⟨h, trivial⟩, fun h => h.1⟩
  | cons a as ih =>
    obtain ⟨t, ht, hr⟩ := run_cons_eq_some.mp h
    rw [ih (h₀.step ht) hr, reports_step h₀ ht]
    constructor
    · rintro ⟨⟨hz, hn⟩, hal⟩
      refine ⟨hz, hn, fun t' ht' => ?_⟩
      rw [ht] at ht'
      cases ht'
      exact hal
    · rintro ⟨hz, hn, hal⟩
      exact ⟨⟨hz, hn⟩, hal t ht⟩

/-- **The TLS class breaks the close contract as soon as it reports a close**, and only then: the run
keeps the contract exactly when no step of it invokes `closeCallback_`. -/
theorem ssl_closeContract_iff (cfg : Config) (hk : cfg.kind = .ssl)
    (rdhupPhrase isIoChannel ssl : Bool) (mem : ℤ → UInt8) (as : List (Action ι)) (s : Conn ι)
    (h : run (step cfg) (Conn.init ι rdhupPhrase isIoChannel ssl mem) as = some s) :
    CloseContract s ↔ Along (step cfg) (fun t a => ¬ ReportsClose t a)
      (Conn.init ι rdhupPhrase isIoChannel ssl mem) as := by
  obtain ⟨-, hc⟩ := sslClose_of_run hk h
  have hiff := reports_of_run (phaseInv_init cfg rdhupPhrase isIoChannel ssl mem) h
  have hmem : ∀ seen, .closeCallback seen ∈ s.log → .closeCallback seen ∈ s.closings := by
    intro seen hseen
    exact List.mem_filter.mpr ⟨hseen, rfl⟩
  have hpaired := hc.paired
  have hfreed := hc.freed
  rw [countP_closings, count_closings s rfl] at hpaired
  rw [count_closings s rfl] at hfreed
  constructor
  · intro hcon
    refine (hiff.mp (List.countP_eq_zero.mpr fun ev hev => ?_)).2
    cases ev with
    | closeCallback seen =>
      have htrue := hcon.disconnected seen hev
      rw [hc.early seen (hmem seen hev)] at htrue
      cases htrue
    | _ => exact Bool.false_ne_true
  · intro hal
    have hzero := hiff.mpr ⟨rfl, hal⟩
    rw [hzero] at hpaired
    refine ⟨?_, by omega, by omega, fun seen hseen => ?_⟩
    · rw [hpaired]
      split <;> omega
    · exact absurd rfl (List.countP_eq_zero.mp hzero _ hseen)

/-- An event that reads nothing. -/
def sslQuietRun : List (Action Unit) :=
  [.loop .ret, .loop (.poll ⟨false, false, false, true, false⟩), .loop .dispatch,
    .loop (.step .none), .loop (.step (.read .wouldBlock))]

theorem ssl_closeContract_iff_quiet :
    ∃ s, run (step sslConfig) (Conn.init Unit false false true fun _ => 0) sslQuietRun = some s ∧
      (CloseContract s ↔ Along (step sslConfig) (fun t a => ¬ ReportsClose t a)
        (Conn.init Unit false false true fun _ => 0) sslQuietRun) ∧ s.loop = [] :=
  ⟨_, rfl,
    ssl_closeContract_iff sslConfig rfl false false true (fun _ => 0) sslQuietRun _
      (show run (step sslConfig) (Conn.init Unit false false true fun _ => 0) sslQuietRun
        = some _ from rfl),
    rfl⟩

/-- The peer hangs up and the close callback calls `forceClose`. -/
def sslReentrantRun : List (Action Unit) :=
  List.flatten [[.loop .ret, .loop (.poll ⟨false, true, false, false, false⟩), .loop .dispatch],
    List.replicate 9 (.loop (.step .none)), [.loop (.user .forceClose)],
    List.replicate 6 (.loop (.step .none))]

/-- The session is freed once, but the socket is closed and the close reported twice, each time to a
callback that finds the connection `Connected`. -/
theorem ssl_reports_twice :
    ∃ s, run (step sslConfig) (Conn.init Unit false false true fun _ => 0) sslReentrantRun
        = some s ∧
      s.closings = [.sslFree, .socketClose, .closeCallback StateE.connected.word, .socketClose,
        .closeCallback StateE.connected.word] ∧ ¬ CloseContract s :=
  ⟨_, rfl, by decide, fun h => absurd h.socketClose (by decide)⟩

end KwNet.Tcp
