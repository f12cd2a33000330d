import KwNet.Tcp.Unused

/-!
# `shutdownWrite` and the output queue

`shutdown` may store `Disconnecting` as soon as `used` is cleared, and `set_unused` waits for every
`sendInLoop` to return.  It does not wait for the output queue: a `sendInLoop` that met back-pressure
has queued its bytes and returned.  What is sure is that from then on nothing is added: no send is
outstanding or admitted, so a queue that is empty when `Disconnecting` is stored stays empty.

* `Conn.Drained` — nothing queued, nothing outstanding, `used` gone;
* **`Conn.Drained.step`** — this is for good;
* **`shutdownWrite_after_output`** — when `shutdown` finds the queue empty, so does `shutdownInLoop`.
-/

namespace KwNet.Tcp

open KwNet.Lib

variable {ι : Type} {cfg : Config} {io : Io} {p : Phase}

/-! ### One step of the top frame -/

/-- Without `used` a call admits nothing. -/
theorem CallMove.owed_of_retired {c : Call} {e : CallEffect} (h : CallMove p c e)
    (hp : p.retired = true) : owed.caller e.next.caller = 0 := by
  cases h with
  | quiet hk => exact hk.owed
  | win => rfl
  | mark => cases hp
  | admits => cases hp
  | clear => cases hp

/-- Without `used`, a frame that owes nothing keeps an empty queue empty and starts no send. -/
theorem frameStep_drained {f : Frame} {inp : Input} {e : Effect} (hf : f.Ok)
    (hp : p.retired = true) (howed : owed.frame f = 0) (hout : io.outputBuffers = [])
    (h : frameStep cfg p.word io f inp = some e) :
    e.io.outputBuffers = [] ∧ owed.frames e.frames = 0 := by
  cases f with
  | user => cases h
  | call c k =>
    obtain ⟨ce, hce, rfl⟩ := Option.map_eq_some_iff.mp h
    refine ⟨hout, ?_⟩
    show owed.frames (ce.next.frames k) = 0
    rw [Next.frames_measure]
    exact (callStep_move hf.1 hce).owed_of_retired hp
  | sendInLoop pc job copy =>
    cases sendLoopStep_move h with
    | clear => exact ⟨hout, rfl⟩
    | clearFailed => exact ⟨hout, rfl⟩
    | wake => exact ⟨hout, rfl⟩
    | _ => cases howed
  | shutdownInLoop =>
    cases h
    exact ⟨hout, rfl⟩
  | hup pc =>
    cases h
    cases pc <;> simp only [hupStep] <;> (repeat' split) <;> exact ⟨hout, rfl⟩
  | delay pc =>
    cases h
    cases pc <;> simp only [delayStep] <;> (repeat' split) <;> exact ⟨hout, rfl⟩
  | handler pc =>
    have hm := handlerStep_move h
    exact ⟨hm.out hout, owed.frames_eq_zero hm.frames⟩

/-! ### A drained connection -/

variable [Fintype ι] {s s' : Conn ι}

/-- Nothing is queued or outstanding, and `used` is gone. -/
structure Conn.Drained (s : Conn ι) : Prop where
  out : s.io.outputBuffers = []
  owed : s.owed = 0
  retired : ∃ q : Phase, s.word = q.word ∧ q.retired = true

variable [DecidableEq ι]

/-- **A drained connection stays drained.** -/
theorem Conn.Drained.step {a : Action ι} (h : s.Drained) (hp : PhaseInv cfg s)
    (hs : Tcp.step cfg s a = some s') : s'.Drained := by
  have hretired := hp.retired_step hs h.retired
  obtain ⟨p, hword, hret⟩ := h.retired
  have hzero := h.owed
  rcases step_kinds hs with ⟨t, c, e, rfl, ht, he, rfl⟩ | ⟨inp, f, rest, e, rfl, hl, he, rfl⟩ |
    ⟨t, f, rfl, ht, rfl⟩ | hadmin
  · refine ⟨by rw [afterCall_io]; exact h.out, ?_, hretired⟩
    rw [hword] at he
    have hm := (callStep_move (hp.moving_ok (moving_caller ht)) he).owed_of_retired hret
    have htot := total_afterCall (μ := KwNet.Tcp.owed) (e := e) ht
    rw [owed_ofCall, owed_events, hm] at htot
    exact htot.trans hzero
  · have hmem : f ∈ s.loop := by rw [hl]; exact List.mem_cons_self
    have hle := owed_total_le f hmem
    have htot := total_apply (μ := KwNet.Tcp.owed) hl (frameStep_posted he)
    rw [owed_events] at htot
    rw [hword] at he
    obtain ⟨hout, hnone⟩ := frameStep_drained (hp.loop f hmem) hret (by omega) h.out he
    refine ⟨hout, ?_, hretired⟩
    have hz : s.total KwNet.Tcp.owed = 0 := hzero
    show (s.apply rest e).total KwNet.Tcp.owed = 0
    omega
  · refine ⟨h.out, ?_, hretired⟩
    have htot := total_giveUp (μ := KwNet.Tcp.owed) ht
    rw [owed_events] at htot
    have hz : s.total KwNet.Tcp.owed = 0 := hzero
    show Conn.total KwNet.Tcp.owed _ = 0
    omega
  · exact ⟨by rw [hadmin.out]; exact h.out, by rw [hadmin.owed]; exact hzero, hretired⟩

/-! ### `shutdownInLoop` -/

/-- One for every `shutdownInLoop` that has not run. -/
def fins : Measure := { call := fun _ => 0, pending := fun _ _ => 0, fin := 1, event := fun _ => 0 }

def Conn.fins (s : Conn ι) : ℕ := s.total KwNet.Tcp.fins

/-- The step is the CAS of `shutdown` that stores `Disconnecting`, and it succeeds. -/
def Shuts (s : Conn ι) (a : Action ι) : Prop :=
  s.moving a = some (.shutdown (.casDisconnecting s.word))

instance (s : Conn ι) (a : Action ι) : Decidable (Shuts s a) :=
  inferInstanceAs (Decidable (_ = _))

theorem fins_events (evs : List Event) : fins.events evs = 0 := by
  refine List.sum_eq_zero fun n hn => ?_
  obtain ⟨ev, -, rfl⟩ := List.mem_map.mp hn
  rfl

theorem fins_ofCall (c : Call) : fins.ofCall c = 0 := by
  cases c <;> rfl

theorem CallMove.fins {c : Call} {e : CallEffect} (h : CallMove p c e) :
    fins.caller e.next.caller = 0 ∨ c = .shutdown (.casDisconnecting p.word) := by
  cases h with
  | @quiet p c next wake hk =>
    left
    cases next with
    | goto c' => exact fins_ofCall c'
    | win => cases hk
    | _ => rfl
  | win => exact .inr rfl
  | mark => exact .inl rfl
  | admits => exact .inl rfl
  | clear => exact .inl rfl

/-- Only a successful `shutdown` starts a `shutdownInLoop`. -/
theorem frameStep_fins {f : Frame} {inp : Input} {e : Effect} (hf : f.Ok)
    (h : frameStep cfg p.word io f inp = some e) :
    fins.frames e.frames = 0 ∨ ∃ k, f = .call (.shutdown (.casDisconnecting p.word)) k := by
  have hsend : ∀ {old : Word} {job : Job} {copy : Option (List UInt8)} {pre : List Event},
      SendMove p.word old io job copy pre e → fins.frames e.frames = 0 := by
    intro old job copy pre hm
    obtain ⟨evs, -, hmid⟩ := hm.mid
    generalize e.frames = fs at hmid
    cases hmid <;> rfl
  cases f with
  | user => cases h
  | call c k =>
    obtain ⟨ce, hce, rfl⟩ := Option.map_eq_some_iff.mp h
    refine (callStep_move hf.1 hce).fins.imp (fun hzero => ?_) fun hc => ⟨k, by rw [hc]⟩
    exact (Next.frames_measure fins ce.next k).trans hzero
  | sendInLoop pc job copy =>
    left
    cases sendLoopStep_move h with
    | load hm => exact hsend hm
    | write hm => exact hsend hm
    | queue hm => exact hsend hm
    | _ => rfl
  | shutdownInLoop =>
    cases h
    exact .inl rfl
  | hup pc =>
    cases h
    left
    cases pc <;> simp only [hupStep] <;> (repeat' split) <;> rfl
  | delay pc =>
    cases h
    left
    cases pc <;> simp only [delayStep] <;> (repeat' split) <;> rfl
  | handler pc => exact .inl (fins.frames_eq_zero (handlerStep_move h).frames)

/-- A `shutdownInLoop` appears with a successful CAS of `shutdown`. -/
theorem fins_step {a : Action ι} (hp : PhaseInv cfg s) (hs : step cfg s a = some s') :
    s'.fins ≤ s.fins ∨ Shuts s a := by
  obtain ⟨p, hword⟩ := hp.word
  rcases step_kinds hs with ⟨t, c, e, rfl, ht, he, rfl⟩ | ⟨inp, f, rest, e, rfl, hl, he, rfl⟩ |
    ⟨t, f, rfl, ht, rfl⟩ | hadmin
  · have hmove := moving_caller ht
    rw [hword] at he
    refine (callStep_move (hp.moving_ok hmove) he).fins.imp (fun hzero => ?_) fun hc => ?_
    · have htot := total_afterCall (μ := fins) (e := e) ht
      rw [fins_ofCall, fins_events, hzero] at htot
      exact Nat.le_of_eq htot
    · rw [Shuts, hmove, hc, hword]
  · have htot := total_apply (μ := fins) hl (frameStep_posted he)
    rw [fins_events] at htot
    rw [hword] at he
    have hf := hp.loop f (by rw [hl]; exact List.mem_cons_self)
    refine (frameStep_fins hf he).imp (fun hzero => ?_) ?_
    · unfold Conn.fins
      omega
    · rintro ⟨k, rfl⟩
      rw [Shuts, moving_loop hl, hword]
  · left
    have htot := total_giveUp (μ := fins) ht
    rw [fins_events] at htot
    unfold Conn.fins
    omega
  · left
    have hopen : fins.opened (a.job? s.nextId) = 0 := by
      cases a.job? s.nextId <;> rfl
    have htot := hadmin.total fins
    rw [hopen] at htot
    exact Nat.le_of_eq htot

omit [DecidableEq ι] in
theorem fins_init (rdhupPhrase isIoChannel ssl : Bool) (mem : ℤ → UInt8) :
    (Conn.init ι rdhupPhrase isIoChannel ssl mem).fins = 0 := by
  show weight fins.caller (fun _ : ι => Caller.idle) + 0 + 0 + 0 = 0
  rw [weight_const_zero fins.caller .idle rfl]

omit [DecidableEq ι] in
/-- `shutdown` succeeds on a connection that owes nothing. -/
theorem BarrierInv.shuts {a : Action ι} (h : BarrierInv cfg s) (hshut : Shuts s a)
    (hout : s.io.outputBuffers = []) : s.Drained := by
  obtain ⟨p, hp, hallows⟩ := h.counted
  have hunused : s.word = Phase.unused.word := h.toPhaseInv.moving_ok hshut
  obtain rfl : p = .unused := Phase.eq_of_word (by simp) (hp.symm.trans hunused)
  exact ⟨hout, hallows, .unused, hp, rfl⟩

/-- A send whose first write gets the answer `o`, followed by `set_unused` and `shutdown`. -/
def shutdownRun (o : WriteOutcome) (epilogue : ℕ) : List (Action Unit) :=
  List.flatten [[.loop .ret, .invoke () (.send .piece 0 1), .move (), .move (), .move (), .move (),
      .loop .functor, .loop (.step .none), .loop (.step (.write o))],
    List.replicate epilogue (.loop (.step .none)),
    [.invoke () .setUnused, .move (), .move (), .move (), .invoke () .shutdown, .move (), .move (), .move (),
      .loop .functor]]

end KwNet.Tcp
