import KwNet.Tcp.Barrier

/-!
# Who sleeps in a futex, and who can wake it

`set_unused` waits for `writing` to be cleared, `shutdown` for `used`.  Both waits go wrong for a reason
that one line does not show.

`writing` is cleared by `sendInLoop`, which only the loop thread runs.  When `set_unused` itself runs on
the loop thread (in `forceCloseInLoop`, in the TLS `handle_ep_hup`, from a callback) and finds an
admitted send that is still queued, the loop thread sleeps until it has run a functor behind its own
back.

`shutdown` passes the address of its local `old_state` to `futex_wait`, and `set_unused` wakes
`state_`: the two never meet.

* **`step_loop_calls`**, **`step_caller_calls`** — where a call in progress comes from;
* **`loop_never_waits_on_itself`** — the loop thread does not sleep in `set_unused`, provided none of
  its accesses there finds `writing`;
* **`shutdown_released`** — no `shutdown` sleeps through the wake of a `set_unused`, provided none finds
  the connection idle.
-/

namespace KwNet.Tcp

open KwNet.Lib

variable {ι : Type} {cfg : Config} {w : Word} {io : Io} {p : Phase} {s s' : Conn ι}

/-! ### Where calls come from -/

/-- A call about to read `state_` afresh: at its start, or after a wait. -/
def Call.isEntry : Call → Bool
  | .send .load _ | .send .reload _ | .setUnused .load | .setUnused .reload => true
  | .shutdown .load | .shutdown .reload => true
  | _ => false

theorem Call.wake_eq (c : Call) : c.wake = c ∨ c.wake.isEntry = true := by
  unfold Call.wake
  split
  · exact .inr rfl
  · exact .inr rfl
  · exact .inr rfl
  · exact .inl rfl

theorem Call.spurious_isEntry {c c' : Call} (h : c.spurious = some c') : c'.isEntry = true := by
  unfold Call.spurious at h
  split at h <;> cases h <;> rfl

theorem Call.isEntry_of_frame {c : Call} {k : Cont} (h : (Frame.call c k).isEntry = true) :
    c.isEntry = true := by
  cases c with
  | send pc job => cases pc <;> first | rfl | cases h
  | setUnused pc => cases pc <;> first | rfl | cases h
  | shutdown pc => cases pc <;> first | rfl | cases h

theorem CallMove.origin {c c' : Call} {e : CallEffect} (h : CallMove p c e)
    (hn : e.next = .goto c') : c'.origin = c.origin := by
  cases h with
  | quiet hk =>
    dsimp only at hn
    subst hn
    exact hk.2
  | mark => cases hn; rfl
  | admits => cases hn
  | clear => cases hn; rfl
  | win => cases hn

theorem SendMid.no_call {old : Word} {job : Job} {copy : Option (List UInt8)} {fs : List Frame}
    {evs : List Event} (h : SendMid old job copy fs evs) (c : Call) (k : Cont) : .call c k ∉ fs := by
  cases h <;> simp

/-- A step of a frame leaves a call on the stack when it is a step of that call, or when the TLS
`handle_ep_hup` starts its `set_unused`. -/
theorem frameStep_calls {f : Frame} {inp : Input} {e : Effect} {c : Call} {k : Cont}
    (hs : frameStep cfg w io f inp = some e) (hc : .call c k ∈ e.frames) :
    c.isEntry = true ∨ ∃ c' ce, f = .call c' k ∧ callStep w c' = some ce ∧ ce.next = .goto c := by
  cases f with
  | user => cases hs
  | call c' k' =>
    obtain ⟨ce, hce, rfl⟩ := Option.map_eq_some_iff.mp hs
    have hmem : .call c k ∈ ce.next.frames k' := hc
    cases hn : ce.next with
    | goto d =>
      rw [hn] at hmem
      cases List.mem_singleton.mp hmem
      exact .inr ⟨c', ce, rfl, hce, hn⟩
    | _ =>
      rw [hn] at hmem
      cases k' <;> simp [Next.frames, Cont.frames] at hmem
  | sendInLoop pc job copy =>
    cases sendLoopStep_move hs with
    | load hm =>
      obtain ⟨evs, -, h⟩ := hm.mid
      exact absurd hc (h.no_call c k)
    | write hm =>
      obtain ⟨evs, -, h⟩ := hm.mid
      exact absurd hc (h.no_call c k)
    | queue hm =>
      obtain ⟨evs, -, h⟩ := hm.mid
      exact absurd hc (h.no_call c k)
    | _ => simp [Effect.goto] at hc
  | shutdownInLoop =>
    cases hs
    cases hc
  | hup pc =>
    cases hs
    cases pc with
    | free =>
      cases List.mem_singleton.mp hc
      exact .inl rfl
    | _ =>
      simp only [hupStep] at hc
      (repeat' split at hc) <;> simp [Effect.goto] at hc
  | delay pc =>
    cases hs
    cases pc <;> simp only [delayStep] at hc <;> (repeat' split at hc) <;> simp [Effect.goto] at hc
  | handler pc => cases List.all_eq_true.mp (handlerStep_move hs).frames _ hc

/-- A call on the loop's stack was there before, or is at its start, or has just moved. -/
theorem step_loop_calls [Fintype ι] [DecidableEq ι] {a : Action ι} {c : Call} {k : Cont}
    (hs : step cfg s a = some s') (hc : .call c k ∈ s'.loop) :
    .call c k ∈ s.loop ∨ c.isEntry = true ∨
      ∃ inp c' rest e, a = .loop (.step inp) ∧ s.loop = .call c' k :: rest ∧
        callStep s.word c' = some e ∧ e.next = .goto c := by
  rcases step_kinds hs with ⟨t, c', e, rfl, ht, he, rfl⟩ | ⟨inp, f, rest, e, rfl, hl, he, rfl⟩ |
    ⟨t, f, rfl, ht, rfl⟩ | hadmin
  · obtain ⟨g, hg, rfl | hwake⟩ := afterCall_mem_loop hc
    · exact .inl hg
    · unfold Frame.wake at hwake
      split at hwake
      · next d _ =>
        cases hwake
        rcases d.wake_eq with heq | hentry
        · rw [heq]
          exact .inl hg
        · exact .inr (.inl hentry)
      · cases hwake
      · exact .inl (hwake ▸ hg)
  · rcases List.mem_append.mp hc with hc | hc
    · rcases frameStep_calls he hc with hentry | ⟨c', ce, rfl, hce, hn⟩
      · exact .inr (.inl hentry)
      · exact .inr (.inr ⟨inp, c', rest, ce, rfl, hl, hce, hn⟩)
    · exact .inl (by rw [hl]; exact List.mem_cons_of_mem f hc)
  · exact .inl hc
  · rcases hadmin.loop _ hc with hold | ⟨hentry, -⟩
    · exact .inl hold
    · exact .inr (.inl (Call.isEntry_of_frame hentry))

/-- The same for a thread outside the loop. -/
theorem step_caller_calls [DecidableEq ι] {a : Action ι} {c : Call} {t : ι}
    (hs : step cfg s a = some s') (hc : s'.callers t = .calling c) :
    s.callers t = .calling c ∨ c.isEntry = true ∨
      ∃ c' e, a = .move t ∧ s.callers t = .calling c' ∧ callStep s.word c' = some e ∧
        e.next = .goto c := by
  -- a wake leaves a call alone or sends it back to its load
  have hwake : ∀ {u : Caller}, u.wake = .calling c → u = .calling c ∨ c.isEntry = true := by
    intro u hu
    cases u with
    | calling d =>
      cases hu
      rcases d.wake_eq with heq | hentry
      · exact .inl (by rw [heq])
      · exact .inr hentry
    | idle => cases hu
    | queueing f => cases hu
  have hset : ∀ {t' : ι} {d : Caller}, (s.setCaller t' d).callers t = .calling c →
      s.callers t = .calling c ∨ t = t' ∧ d = .calling c := by
    intro t' d h
    have hupd : Function.update s.callers t' d t = .calling c := h
    by_cases ht : t = t'
    · subst ht
      rw [Function.update_self] at hupd
      exact .inr ⟨rfl, hupd⟩
    · rw [Function.update_of_ne ht] at hupd
      exact .inl hupd
  cases step_cases hs with
  | @invoke t' api ht =>
    have hd : ∃ d : Caller, (s.invoke t' api).callers = (s.setCaller t' d).callers ∧
        ∀ c, d = .calling c → c.isEntry = true := by
      cases api with
      | send kind data size => exact ⟨_, rfl, by rintro _ ⟨⟩; rfl⟩
      | setUnused => exact ⟨_, rfl, by rintro _ ⟨⟩; rfl⟩
      | shutdown => exact ⟨_, rfl, by rintro _ ⟨⟩; rfl⟩
      | _ => exact ⟨_, rfl, by rintro _ ⟨⟩⟩
    obtain ⟨d, hd, hentry⟩ := hd
    rw [hd] at hc
    rcases hset hc with hold | ⟨-, hnew⟩
    · exact .inl hold
    · exact .inr (.inl (hentry c hnew))
  | @call t' c' e ht he =>
    by_cases htt : t = t'
    · subst htt
      have hnext : e.next.caller = .calling c := by
        unfold Conn.afterCall Conn.setCaller at hc
        simpa using hc
      cases hn : e.next with
      | goto d =>
        rw [hn] at hnext
        cases hnext
        exact .inr (.inr ⟨c', e, rfl, ht, he, hn⟩)
      | _ => rw [hn] at hnext; cases hnext
    · have hcall : (s.afterCall t' e).callers t = s.callers t ∨
          (s.afterCall t' e).callers t = (s.callers t).wake := by
        unfold Conn.afterCall Conn.setCaller
        dsimp only
        rw [Function.update_of_ne htt]
        split
        · exact .inr rfl
        · exact .inl rfl
      rcases hcall with h | h
      · exact .inl (h ▸ hc)
      · exact (hwake (h ▸ hc)).imp_right .inl
  | @push t' f ht =>
    rcases hset hc with hold | ⟨-, hnew⟩
    · exact .inl hold
    · cases hnew
  | @spurious t' d d' ht hd =>
    rcases hset hc with hold | ⟨-, hnew⟩
    · exact .inl hold
    · cases hnew
      exact .inr (.inl (Call.spurious_isEntry hd))
  | @giveUp t' f ht =>
    rcases hset hc with hold | ⟨-, hnew⟩
    · exact .inl hold
    · cases hnew
  | @frame inp f rest e hl he =>
    have hcall : (if e.wake then fun t => (s.callers t).wake else s.callers) t = .calling c := hc
    split at hcall
    · exact (hwake hcall).imp_right .inl
    · exact .inl hcall
  | @userCall api rest hl => cases api <;> exact .inl hc
  | _ => exact .inl hc

/-! ### `set_unused` on the loop thread -/

/-- The call waits for `writing` to be cleared, or is about to. -/
def Call.awaitsWriting : Call → Bool
  | .setUnused (.await _) | .setUnused .blocked => true
  | _ => false

/-- The loop thread performs an access of `set_unused` and finds `writing` set. -/
def Conn.findsWriting (s : Conn ι) : Action ι → Bool
  | .loop (.step _) =>
    match s.loop with
    | .call (.setUnused _) _ :: _ => has s.word .writing
    | _ => false
  | _ => false

/-- `set_unused` goes to sleep only after it has read `writing`. -/
theorem unusedHead_awaits {c : Call} (hw : has w .writing = false)
    (hc : unusedHead w = .goto c) : c.awaitsWriting = false := by
  unfold unusedHead at hc
  rw [hw] at hc
  split at hc
  · cases hc
  · split at hc
    · cases hc
    · cases hc
      rfl

theorem unusedStep_awaits {pc : UnusedPc} {e : CallEffect} {c : Call}
    (hw : has p.word .writing = false) (hpc : (Call.setUnused pc).awaitsWriting = false)
    (h : unusedStep p.word pc = some e) (hn : e.next = .goto c) : c.awaitsWriting = false := by
  cases pc with
  | load =>
    simp only [unusedStep, phase_not_connecting, Bool.false_eq_true, if_false,
      Option.some.injEq] at h
    subst h
    exact unusedHead_awaits hw hn
  | await expected => cases hpc
  | blocked => cases h
  | reload =>
    cases h
    exact unusedHead_awaits hw hn
  | casUnused old =>
    simp only [unusedStep] at h
    split at h <;> cases h
    · cases hn
      rfl
    · exact unusedHead_awaits hw hn
  | wake =>
    cases h
    cases hn

section SelfWait

variable [Fintype ι] [DecidableEq ι]

/-- As long as `set_unused` on the loop thread never finds `writing`, it does not wait there. -/
theorem PhaseInv.no_wait_step {a : Action ι} (h : PhaseInv cfg s)
    (hq : ∀ c k, .call c k ∈ s.loop → c.awaitsWriting = false) (hfind : s.findsWriting a = false)
    (hs : Tcp.step cfg s a = some s') : ∀ c k, .call c k ∈ s'.loop → c.awaitsWriting = false := by
  intro c k hc
  rcases step_loop_calls hs hc with hold | hentry | ⟨inp, c', rest, e, rfl, hl, he, hn⟩
  · exact hq c k hold
  · unfold Call.isEntry at hentry
    split at hentry <;> first | rfl | cases hentry
  · have hmem : .call c' k ∈ s.loop := by rw [hl]; exact List.mem_cons_self
    obtain ⟨p, hp⟩ := h.word
    have horigin := (callStep_move (h.loop _ hmem).1 (hp ▸ he)).origin hn
    cases c' with
    | send pc job => cases c <;> first | rfl | cases horigin
    | shutdown pc => cases c <;> first | rfl | cases horigin
    | setUnused pc =>
      simp only [Conn.findsWriting, hl] at hfind
      rw [hp] at hfind he
      exact unusedStep_awaits hfind (hq _ k hmem) he hn

/-- **The loop thread does not wait on itself**, in every run in which no access of `set_unused` on the
loop thread finds `writing` set. -/
theorem loop_never_waits_on_itself (cfg : Config) (rdhupPhrase isIoChannel ssl : Bool)
    (mem : ℤ → UInt8) (as : List (Action ι)) (s : Conn ι)
    (hfind : Along (step cfg) (fun t a => t.findsWriting a = false)
      (Conn.init ι rdhupPhrase isIoChannel ssl mem) as)
    (h : run (step cfg) (Conn.init ι rdhupPhrase isIoChannel ssl mem) as = some s) :
    ∀ k, .call (.setUnused .blocked) k ∉ s.loop := by
  have hinv := run_induction_along _
    (fun t => PhaseInv cfg t ∧ ∀ c k, .call c k ∈ t.loop → c.awaitsWriting = false)
    ⟨phaseInv_init cfg _ _ _ _, by simp [Conn.init]⟩
    (fun _ _ _ hi hP hs => ⟨hi.1.step hs, hi.1.no_wait_step hi.2 hP hs⟩) hfind h
  intro k hk
  cases hinv.2 _ k hk

end SelfWait

/-- The peer hangs up on a TLS connection without sends in flight. -/
def quietHupRun : List (Action Unit) :=
  [.loop .ret, .loop (.poll ⟨false, true, false, false, false⟩), .loop .dispatch,
    .loop (.step .none), .loop (.step .none), .loop (.step .none), .loop (.step .none),
    .loop (.step .none), .loop (.step .none)]

theorem loop_never_waits_on_itself_quiet_hup :
    ∃ s, run (step sslConfig) (Conn.init Unit false false true fun _ => 0) quietHupRun = some s ∧
      s.loop = [.call (.setUnused .wake) .close] ∧
      ∀ k, .call (.setUnused .blocked) k ∉ s.loop :=
  have hrun : run (step sslConfig) (Conn.init Unit false false true fun _ => 0) quietHupRun
      = some _ := rfl
  ⟨_, hrun, rfl, loop_never_waits_on_itself sslConfig false false true (fun _ => 0) quietHupRun _
    (by decide) hrun⟩

/-- A message is admitted and its functor queued; then code on the loop thread calls `forceClose`. -/
def selfWaitRun : List (Action Unit) :=
  [.loop .ret, .invoke () (.send .piece 0 1), .move (), .move (), .move (), .move (),
    .loop .foreign, .loop (.user .forceClose), .loop (.step .none), .loop (.step .none)]

/-- The functor that would clear `writing` is in the queue of the thread that waits for it. -/
theorem loop_waits_on_itself :
    ∃ s job, run (step plainConfig) (Conn.init Unit false false false fun _ => 0) selfWaitRun
        = some s ∧
      .call (.setUnused .blocked) .hup ∈ s.loop ∧ s.functors = [.send job none] ∧
      has s.word .writing = true :=
  ⟨_, ⟨0, .piece, 0, 1⟩, rfl, List.mem_cons_self, rfl, rfl⟩

/-! ### `shutdown` -/

/-- A `shutdown` asleep, or about to be. -/
def Call.shutdownSleeps : Call → Bool
  | .shutdown .await | .shutdown .blocked | .shutdown .blockedLocal => true
  | _ => false

/-- An access of `shutdown` finds the connection used and idle. -/
def Conn.findsIdle (s : Conn ι) (a : Action ι) : Bool :=
  match s.moving a with
  | some (.shutdown _) => s.word == established
  | _ => false

/-- The step is the `futex_wake` of a `set_unused` that has cleared `used`. -/
def Conn.releases (s : Conn ι) (a : Action ι) : Bool := s.moving a == some (.setUnused .wake)

/-- A `shutdown` is inside a `futex_wait`, on the loop thread or on another one. -/
def Conn.ShutdownBlocked (s : Conn ι) : Prop :=
  ∃ pc, (pc = .blocked ∨ pc = .blockedLocal) ∧
    ((∃ t, s.callers t = .calling (.shutdown pc)) ∨ ∃ k, .call (.shutdown pc) k ∈ s.loop)

/-- A connection with a writer does not look like `Connected | used` to `futex_wait`. -/
theorem futexBlocks_busy (c : ℕ) : futexBlocks (Phase.busy c).word established = false := by
  refine beq_eq_false_iff_ne.mpr fun h => ?_
  have hnat := congrArg BitVec.toNat h
  have hestablished : (low32 established).toNat = 24 := by decide
  rw [hestablished, low32, BitVec.toNat_setWidth, Phase.word,
    toNat_pack _ (by decide) (by decide)] at hnat
  omega

/-- `shutdown` goes to sleep only after it has read an idle word. -/
theorem shutdownHead_sleeps {c : Call} (hp : p ≠ .idle) (hc : shutdownHead p.word = .goto c) :
    c.shutdownSleeps = false := by
  cases p with
  | idle => exact absurd rfl hp
  | busy d =>
    simp only [shutdownHead, futexBlocks_busy, has_busy, reduceCtorEq, decide_false, decide_true,
      Bool.or_self, Bool.or_true, Bool.or_false, Bool.false_eq_true, if_false, if_true,
      Next.goto.injEq] at hc
    subst hc
    rfl
  | unused =>
    cases hc
    rfl
  | shut => cases hc
  | closed => cases hc

theorem shutdownStep_sleeps {pc : ShutdownPc} {e : CallEffect} {c : Call} (hp : p ≠ .idle)
    (hpc : (Call.shutdown pc).shutdownSleeps = false) (h : shutdownStep p.word pc = some e)
    (hn : e.next = .goto c) : c.shutdownSleeps = false := by
  cases pc with
  | load =>
    simp only [shutdownStep, phase_not_connecting, Bool.false_eq_true, if_false,
      Option.some.injEq] at h
    subst h
    exact shutdownHead_sleeps hp hn
  | await => cases hpc
  | blocked => cases h
  | blockedLocal => cases h
  | reload =>
    cases h
    exact shutdownHead_sleeps hp hn
  | casDisconnecting old =>
    simp only [shutdownStep] at h
    split at h <;> cases h
    · cases hn
    · exact shutdownHead_sleeps hp hn

/-- No `shutdown` is asleep, or about to be. -/
structure AwakeInv (s : Conn ι) : Prop where
  callers : ∀ t c, s.callers t = .calling c → c.shutdownSleeps = false
  loop : ∀ c k, .call c k ∈ s.loop → c.shutdownSleeps = false

theorem Call.isEntry_awake {c : Call} (h : c.isEntry = true) : c.shutdownSleeps = false := by
  unfold Call.isEntry at h
  split at h <;> first | rfl | cases h

/-- An access in a state that is not idle puts no `shutdown` to sleep. -/
theorem PhaseInv.awake_move {a : Action ι} {c c' : Call} {e : CallEffect} (h : PhaseInv cfg s)
    (hfind : s.findsIdle a = false) (hc' : s.moving a = some c')
    (hawake : c'.shutdownSleeps = false) (he : callStep s.word c' = some e)
    (hn : e.next = .goto c) : c.shutdownSleeps = false := by
  obtain ⟨p, hp⟩ := h.word
  have horigin := (callStep_move (h.moving_ok hc') (hp ▸ he)).origin hn
  cases c' with
  | send pc job => cases c <;> first | rfl | cases horigin
  | setUnused pc => cases c <;> first | rfl | cases horigin
  | shutdown pc =>
    simp only [Conn.findsIdle, hc', beq_eq_false_iff_ne] at hfind
    have hidle : p ≠ .idle := by
      rintro rfl
      exact hfind hp
    rw [hp] at he
    exact shutdownStep_sleeps hidle hawake he hn

variable [Fintype ι] [DecidableEq ι]

theorem AwakeInv.step {a : Action ι} (h : AwakeInv s) (hp : PhaseInv cfg s)
    (hfind : s.findsIdle a = false) (hs : Tcp.step cfg s a = some s') : AwakeInv s' := by
  constructor
  · intro t c hc
    rcases step_caller_calls hs hc with hold | hentry | ⟨c', e, rfl, ht, he, hn⟩
    · exact h.callers t c hold
    · exact Call.isEntry_awake hentry
    · exact hp.awake_move hfind (moving_caller ht) (h.callers t c' ht) he hn
  · intro c k hc
    rcases step_loop_calls hs hc with hold | hentry | ⟨inp, c', rest, e, rfl, hl, he, hn⟩
    · exact h.loop c k hold
    · exact Call.isEntry_awake hentry
    · have hmem : .call c' k ∈ s.loop := by rw [hl]; exact List.mem_cons_self
      exact hp.awake_move hfind (moving_loop hl) (h.loop c' k hmem) he hn

/-- **`set_unused` releases `shutdown`**, in every run in which no access of `shutdown` finds the
connection used and idle: nobody sleeps through the wake. -/
theorem shutdown_released (cfg : Config) (rdhupPhrase isIoChannel ssl : Bool) (mem : ℤ → UInt8)
    (as : List (Action ι)) (s : Conn ι)
    (hfind : Along (step cfg) (fun t a => t.findsIdle a = false)
      (Conn.init ι rdhupPhrase isIoChannel ssl mem) as)
    (h : run (step cfg) (Conn.init ι rdhupPhrase isIoChannel ssl mem) as = some s)
    (a : Action ι) (s' : Conn ι) (hrel : s.releases a = true) (hs : step cfg s a = some s') :
    ¬ s'.ShutdownBlocked := by
  have hinv := run_induction_along _ (fun t => PhaseInv cfg t ∧ AwakeInv t)
    ⟨phaseInv_init cfg _ _ _ _, by simp [Conn.init], by simp [Conn.init]⟩
    (fun _ _ _ hi hP hs => ⟨hi.1.step hs, hi.2.step hi.1 hP hs⟩) hfind h
  -- the wake itself is no access of `shutdown`
  have hwake : s.findsIdle a = false := by
    unfold Conn.findsIdle
    rw [beq_iff_eq.mp hrel]
  have hawake := hinv.2.step hinv.1 hwake hs
  rintro ⟨pc, rfl | rfl, ⟨t, ht⟩ | ⟨k, hk⟩⟩
  · cases hawake.callers t _ ht
  · cases hawake.loop _ k hk
  · cases hawake.callers t _ ht
  · cases hawake.loop _ k hk

/-- `shutdown` finds a writer and spins until `set_unused` has cleared `used`. -/
def spinningRun : List (Action Bool) :=
  [.loop .ret, .loop .foreign, .loop (.user (.send .piece 0 1)), .loop (.step .none),
    .loop (.step .none), .loop (.step .none), .invoke true .shutdown, .move true,
    .loop (.step .none), .loop (.step (.write ⟨1, .fault, false, false⟩)), .loop (.step .none),
    .loop (.step .none), .loop (.step .none), .invoke false .setUnused, .move false, .move false]

theorem shutdown_released_spinning :
    ∃ s s', run (step plainConfig) (Conn.init Bool false false false fun _ => 0) spinningRun
        = some s ∧ s.releases (.move false) = true ∧ s.callers true = .calling (.shutdown .reload) ∧
      step plainConfig s (.move false) = some s' ∧ ¬ s'.ShutdownBlocked :=
  have hrun : run (step plainConfig) (Conn.init Bool false false false fun _ => 0) spinningRun
      = some _ := rfl
  ⟨_, _, hrun, rfl, rfl, rfl, shutdown_released plainConfig false false false (fun _ => 0)
    spinningRun _ (by decide) hrun (.move false) _ rfl rfl⟩

/-- A `shutdown` on an idle connection, and a `set_unused` after it. -/
def deafRun : List (Action Bool) :=
  [.loop .ret, .invoke true .shutdown, .move true, .invoke false .setUnused, .move false,
    .move false]

/-- `set_unused` has cleared `used` and woken `state_`; `shutdown` still sleeps on its local. -/
theorem shutdown_sleeps_through_release :
    ∃ s s', run (step plainConfig) (Conn.init Bool false false false fun _ => 0) deafRun = some s ∧
      s.releases (.move false) = true ∧ step plainConfig s (.move false) = some s' ∧
      s'.word = Phase.unused.word ∧ s'.ShutdownBlocked :=
  ⟨_, _, rfl, rfl, rfl, rfl, .blockedLocal, .inr rfl, .inl ⟨true, rfl⟩⟩

end KwNet.Tcp
