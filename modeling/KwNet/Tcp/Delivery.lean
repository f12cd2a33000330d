import KwNet.Tcp.Barrier

/-!
# Every message is accounted for

A message enters the machine with its call of `send`.  From then on it is in exactly one place: in the
call, in the functor its admission leads to, on the loop's stack, or in the history as refused, dropped
or begun.  Moving it from place to place neither loses nor duplicates it.

What can go wrong is the end it meets.  `send` marks the connection `writing` and adds itself to the
sender field in two CASes; when another sender is admitted between them the second CAS fails, and the
code takes that for an "impossible state" and returns without its message.

* `message` — the measure that finds a message wherever it is;
* `MessageInv` — messages are conserved;
* **`send_runs_once`** — where neither this branch nor a full queue drops a message, every call that saw
  a live connection has exactly one `sendInLoop`.
-/

namespace KwNet.Tcp

open KwNet.Lib

variable {ι : Type} {cfg : Config} {io : Io} {p : Phase} {j : Job}

/-! ### Conservation -/

/-- One for the message `j` in its call, one while its `sendInLoop` waits, and one for each end of
these in the history. -/
def message (j : Job) : Measure where
  call job := if job = j then 1 else 0
  pending
    | .load, job => if job = j then 1 else 0
    | _, _ => 0
  fin := 0
  event
    | .refused job _ | .dropped job | .began job => if job = j then 1 else 0
    | _ => 0

/-- One for every `sendInLoop` of `j` that waits: in a thread about to queue it, in the queue, or on
the loop's stack before its first access. -/
def waiting (j : Job) : Measure := { message j with call := fun _ => 0, event := fun _ => 0 }

theorem CallMove.message {c : Call} {e : CallEffect} (h : CallMove p c e) :
    (message j).caller e.next.caller + (message j).events e.next.events = (message j).ofCall c := by
  cases h with
  | @quiet p c next wake hk =>
    cases next with
    | goto c' =>
      cases c' <;> cases c <;> first | rfl | cases hk.2
      rfl
    | refuse job why =>
      cases c with
      | send pc job' =>
        cases hk
        exact Nat.zero_add _
      | _ => cases hk
    | ret =>
      cases c with
      | send pc job => cases hk
      | _ => rfl
    | admits => cases hk
    | win => cases hk
  | _ => rfl

theorem SendMid.message {old : Word} {job : Job} {copy : Option (List UInt8)} {fs : List Frame}
    {evs : List Event} (h : SendMid old job copy fs evs) :
    (message j).frames fs + (message j).events evs = 0 := by
  cases h <;> rfl

theorem SendMove.message {w old : Word} {job : Job} {copy : Option (List UInt8)} {pre : List Event}
    {e : Effect} (h : SendMove w old io job copy pre e) :
    (message j).frames e.frames + (message j).events e.events = (message j).events pre := by
  obtain ⟨evs, hev, hmid⟩ := h.mid
  have hz := hmid.message (j := j)
  rw [hev, Measure.events_append]
  omega

theorem message_output {evs : List Event} (h : evs.all Event.isOutput = true) :
    (message j).events evs = 0 := by
  induction evs with
  | nil => rfl
  | cons ev evs ih =>
    rw [List.all_cons, Bool.and_eq_true] at h
    rw [Measure.events_cons, ih h.2]
    cases ev <;> first | rfl | cases h.1

/-- A step of a frame moves a message on and keeps the count. -/
theorem frameStep_message {f : Frame} {inp : Input} {e : Effect} (hf : f.Ok)
    (h : frameStep cfg p.word io f inp = some e) :
    (message j).frames e.frames + (message j).events e.events = (message j).frame f := by
  cases f with
  | user => cases h
  | call c k =>
    obtain ⟨ce, hce, rfl⟩ := Option.map_eq_some_iff.mp h
    have hm := (callStep_move hf.1 hce).message (j := j)
    rw [← Next.frames_measure _ _ k] at hm
    exact hm
  | sendInLoop pc job copy =>
    cases sendLoopStep_move h with
    | load hm => exact hm.message
    | write hm => exact hm.message
    | queue hm => exact hm.message
    | _ => rfl
  | shutdownInLoop =>
    cases h
    rfl
  | hup pc =>
    cases h
    cases pc <;> simp only [hupStep] <;> (repeat' split) <;> rfl
  | delay pc =>
    cases h
    cases pc <;> simp only [delayStep] <;> (repeat' split) <;> rfl
  | handler pc =>
    have hm := handlerStep_move h
    rw [Measure.frames_eq_zero _ hm.frames, message_output hm.events]
    rfl

/-- The events of the loop's own activations, calls on the state word apart. -/
def Event.isLoop : Event → Bool
  | .called _ | .admitted _ | .refused _ _ | .dropped _ => false
  | _ => true

/-- What a frame logs: the outcome of a call, or something of its own. -/
theorem frameStep_events {w : Word} {f : Frame} {inp : Input} {e : Effect}
    (h : frameStep cfg w io f inp = some e) :
    (∃ c k ce, f = .call c k ∧ callStep w c = some ce ∧ e.events = ce.next.events) ∨
      e.events.all Event.isLoop = true := by
  have hsend : ∀ {old : Word} {job : Job} {copy : Option (List UInt8)} {pre : List Event},
      pre.all Event.isLoop = true → SendMove w old io job copy pre e →
      e.events.all Event.isLoop = true := by
    intro old job copy pre hpre hm
    obtain ⟨evs, hev, hmid⟩ := hm.mid
    rw [hev, List.all_append, hpre]
    generalize e.frames = fs at hmid
    cases hmid <;> rfl
  cases f with
  | user => cases h
  | call c k =>
    obtain ⟨ce, hce, rfl⟩ := Option.map_eq_some_iff.mp h
    exact .inl ⟨c, k, ce, rfl, hce, rfl⟩
  | sendInLoop pc job copy =>
    right
    cases sendLoopStep_move h with
    | load hm => exact hsend rfl hm
    | write hm => exact hsend rfl hm
    | queue hm => exact hsend rfl hm
    | _ => rfl
  | shutdownInLoop =>
    cases h
    exact .inr rfl
  | hup pc =>
    cases h
    right
    cases pc <;> simp only [hupStep] <;> (repeat' split) <;> rfl
  | delay pc =>
    cases h
    right
    cases pc <;> simp only [delayStep] <;> (repeat' split) <;> rfl
  | handler pc =>
    refine .inr (List.all_eq_true.mpr fun ev hev => ?_)
    have hout := List.all_eq_true.mp (handlerStep_move h).events ev hev
    cases ev <;> first | rfl | cases hout

/-- The events that record the start of a call. -/
def Event.isCalled : Event → Bool
  | .called _ => true
  | _ => false

theorem Next.events_called (next : Next) : next.events.all (!·.isCalled) = true := by
  cases next <;> rfl

/-- Calls are recorded when they start, not later. -/
theorem frameStep_called {w : Word} {f : Frame} {inp : Input} {e : Effect}
    (h : frameStep cfg w io f inp = some e) : e.events.all (!·.isCalled) = true := by
  rcases frameStep_events h with ⟨c, k, ce, -, -, hev⟩ | hloop
  · rw [hev]
    exact ce.next.events_called
  · refine List.all_eq_true.mpr fun ev hev => ?_
    have hl := List.all_eq_true.mp hloop ev hev
    cases ev <;> first | rfl | cases hl

theorem count_called_append {evs evs' : List Event} (h : evs'.all (!·.isCalled) = true) (j : Job) :
    (evs ++ evs').count (.called j) = evs.count (.called j) := by
  have hzero : evs'.count (.called j) = 0 := by
    refine List.count_eq_zero_of_not_mem fun hmem => ?_
    cases List.all_eq_true.mp h _ hmem
  rw [List.count_append, hzero, Nat.add_zero]

variable [Fintype ι] {s s' : Conn ι}

/-- Messages are conserved, and each was called once. -/
structure MessageInv (s : Conn ι) : Prop where
  total : ∀ j, s.total (message j) = s.log.count (.called j)
  fresh : ∀ j, .called j ∈ s.log → j.id < s.nextId
  once : ∀ j, s.log.count (.called j) ≤ 1

/-- A step that logs no call and keeps the totals. -/
theorem MessageInv.congr (h : MessageInv s) {evs : List Event} (hlog : s'.log = s.log ++ evs)
    (hevs : evs.all (!·.isCalled) = true) (hid : s'.nextId = s.nextId)
    (htot : ∀ j, s'.total (message j) = s.total (message j)) : MessageInv s' := by
  have hcount : ∀ j, s'.log.count (.called j) = s.log.count (.called j) := by
    intro j
    rw [hlog, count_called_append hevs]
  refine ⟨fun j => ?_, fun j hj => ?_, fun j => ?_⟩
  · rw [htot, hcount]
    exact h.total j
  · rw [hid]
    refine h.fresh j (List.count_pos_iff.mp ?_)
    rw [← hcount]
    exact List.count_pos_iff.mpr hj
  · rw [hcount]
    exact h.once j

/-- A call of `send` brings in a message that was not there. -/
theorem MessageInv.called (h : MessageInv s) {job : Job} (hjob : job.id = s.nextId)
    (hlog : s'.log = s.log ++ [.called job]) (hid : s'.nextId = s.nextId + 1)
    (htot : ∀ j, s'.total (message j) = s.total (message j) + if job = j then 1 else 0) :
    MessageInv s' := by
  have hnew : s.log.count (.called job) = 0 := by
    refine List.count_eq_zero_of_not_mem fun hmem => ?_
    have hlt := h.fresh job hmem
    omega
  have hcount : ∀ j, s'.log.count (.called j)
      = s.log.count (.called j) + if job = j then 1 else 0 := by
    intro j
    rw [hlog, List.count_append, List.count_singleton]
    simp only [beq_iff_eq, Event.called.injEq]
  refine ⟨fun j => ?_, fun j hj => ?_, fun j => ?_⟩
  · rw [htot, hcount, h.total]
  · rw [hlog, List.mem_append, List.mem_singleton, Event.called.injEq] at hj
    rcases hj with hj | rfl
    · have hlt := h.fresh j hj
      omega
    · omega
  · rw [hcount]
    by_cases hj : job = j
    · rw [if_pos hj, ← hj, hnew]
    · rw [if_neg hj]
      exact h.once j

variable [DecidableEq ι]

omit [Fintype ι] in
theorem afterCall_nextId (t : ι) (e : CallEffect) : (s.afterCall t e).nextId = s.nextId := by
  unfold Conn.afterCall
  dsimp only
  split <;> rfl

/-- **Messages are conserved by every step.** -/
theorem MessageInv.step {a : Action ι} (h : MessageInv s) (hp : PhaseInv cfg s)
    (hs : Tcp.step cfg s a = some s') : MessageInv s' := by
  obtain ⟨p, hword⟩ := hp.word
  rcases step_kinds hs with ⟨t, c, e, rfl, ht, he, rfl⟩ | ⟨inp, f, rest, e, rfl, hl, he, rfl⟩ |
    ⟨t, f, rfl, ht, rfl⟩ | hadmin
  · have hc := hp.moving_ok (moving_caller ht)
    rw [hword] at he
    refine h.congr rfl e.next.events_called (afterCall_nextId t e) fun j => ?_
    have htot := total_afterCall (μ := message j) (e := e) ht
    have hm := (callStep_move hc he).message (j := j)
    omega
  · have hf := hp.loop f (by rw [hl]; exact List.mem_cons_self)
    refine h.congr rfl (frameStep_called he) rfl fun j => ?_
    have htot := total_apply (μ := message j) hl (frameStep_posted he)
    rw [hword] at he
    have hm := frameStep_message (j := j) hf he
    omega
  · refine h.congr rfl (by cases f <;> rfl) rfl fun j => ?_
    have htot := total_giveUp (μ := message j) ht
    have hdrop : (message j).events f.droppedEvents = (message j).functor f := by
      cases f <;> rfl
    omega
  · have hlog := hadmin.log
    have hid := hadmin.nextId
    have htot := fun j => hadmin.total (message j)
    cases hjob : a.job? s.nextId with
    | none =>
      rw [hjob] at hlog hid
      refine h.congr hlog rfl hid fun j => ?_
      rw [htot, hjob]
      rfl
    | some job =>
      rw [hjob] at hlog hid
      refine h.called (Action.job?_id hjob) hlog hid fun j => ?_
      rw [htot, hjob]
      rfl

omit [DecidableEq ι] in
theorem messageInv_init (rdhupPhrase isIoChannel ssl : Bool) (mem : ℤ → UInt8) :
    MessageInv (Conn.init ι rdhupPhrase isIoChannel ssl mem) := by
  refine ⟨fun j => ?_, fun j hj => absurd hj List.not_mem_nil, fun j => Nat.zero_le 1⟩
  show weight (message j).caller (fun _ : ι => Caller.idle) + 0 + 0 + 0 = 0
  rw [weight_const_zero (message j).caller .idle rfl]

/-! ### Ends the connection does not explain -/

/-- The call saw `Disconnected`, or a word without `used`. -/
def Refusal.observed : Refusal → Bool
  | .hup | .unused => true
  | .impossible found => has found .disconnected || !has found .used

/-- The second CAS of a first sender fails on a word that is still live. -/
def Call.loses (w : Word) : Call → Bool
  | .send (.casFirst old) _ => w != old && !has w .disconnected && has w .used
  | _ => false

/-- The step takes the "impossible state" branch of `send` on a live connection. -/
def Conn.losesFirst (s : Conn ι) (a : Action ι) : Bool := (s.moving a).any (Call.loses s.word)

/-- The step gives up pushing an admitted message. -/
def Conn.dropsSend (s : Conn ι) : Action ι → Bool
  | .giveUp t =>
    match s.callers t with
    | .queueing (.send _ _) => true
    | _ => false
  | _ => false

theorem sendHead_refuse {w : Word} {job job' : Job} {why : Refusal}
    (h : sendHead job w = .refuse job' why) : why = .unused := by
  unfold sendHead at h
  rw [unlikelyHas_disconnected, if_neg Bool.false_ne_true] at h
  split at h
  · cases h
    rfl
  · split at h <;> cases h

/-- Only the second CAS of a first sender refuses a message on a live word. -/
theorem callStep_refuse {c : Call} {e : CallEffect} {job : Job} {why : Refusal} (hc : c.Ok)
    (h : callStep p.word c = some e) (hn : e.next = .refuse job why) :
    why.observed = true ∨ c.loses p.word = true := by
  have hhead : ∀ job', sendHead job' p.word = .refuse job why → why.observed = true := by
    intro job' hh
    rw [sendHead_refuse hh]
    rfl
  have hjob : c.job? = some job := by
    have hm := callStep_move hc h
    cases hm with
    | quiet hk =>
      obtain rfl : _ = Next.refuse job why := hn
      exact hk
    | _ => cases hn
  cases c with
  | setUnused pc => cases hjob
  | shutdown pc => cases hjob
  | send pc job' =>
    cases pc with
    | load =>
      simp only [callStep, sendStep, phase_not_connecting, Bool.false_eq_true, if_false,
        Option.some.injEq] at h
      subst h
      exact .inl (hhead job' hn)
    | await =>
      cases h
      cases hn
    | blocked => cases h
    | reload =>
      cases h
      exact .inl (hhead job' hn)
    | casAdd old =>
      simp only [callStep, sendStep] at h
      split at h <;> cases h
      · cases hn
      · exact .inl (hhead job' hn)
    | casWriting old =>
      simp only [callStep, sendStep] at h
      split at h <;> cases h <;> cases hn
    | casFirst old =>
      simp only [callStep, sendStep] at h
      split at h
      · cases h
        cases hn
      · next hne =>
        split at h <;> cases h <;> cases hn
        · exact .inl rfl
        · next hd =>
          simp only [Refusal.observed, Call.loses]
          cases has p.word .used <;> simp [hd, hne]

/-- An end of a message that the state of the connection does not explain. -/
def Event.isLoss : Event → Bool
  | .refused _ why => !why.observed
  | .dropped _ => true
  | _ => false

theorem Next.events_loss {c : Call} {e : CallEffect} (hc : c.Ok) (h : callStep p.word c = some e)
    (hlose : c.loses p.word = false) : ∀ ev ∈ e.next.events, ev.isLoss = false := by
  intro ev hev
  cases hn : e.next with
  | refuse job why =>
    rw [hn] at hev
    obtain rfl := List.mem_singleton.mp hev
    rcases callStep_refuse hc h hn with hobs | hl
    · simp only [Event.isLoss, hobs, Bool.not_true]
    · rw [hlose] at hl
      cases hl
  | admits job =>
    rw [hn] at hev
    obtain rfl := List.mem_singleton.mp hev
    rfl
  | _ =>
    rw [hn] at hev
    cases hev

/-- Without the two branches that drop messages, none is lost. -/
theorem no_loss_step {a : Action ι} (h : ∀ ev ∈ s.log, ev.isLoss = false) (hp : PhaseInv cfg s)
    (hfirst : s.losesFirst a = false) (hdrop : s.dropsSend a = false)
    (hs : step cfg s a = some s') : ∀ ev ∈ s'.log, ev.isLoss = false := by
  have happend : ∀ evs : List Event, (∀ ev ∈ evs, ev.isLoss = false) →
      ∀ ev ∈ s.log ++ evs, ev.isLoss = false := by
    intro evs hevs ev hev
    exact (List.mem_append.mp hev).elim (h ev) (hevs ev)
  have hmoving : ∀ c, s.moving a = some c → c.loses s.word = false := by
    intro c hc
    rw [Conn.losesFirst, hc] at hfirst
    exact hfirst
  obtain ⟨p, hword⟩ := hp.word
  rw [hword] at hmoving
  rcases step_kinds hs with ⟨t, c, e, rfl, ht, he, rfl⟩ | ⟨inp, f, rest, e, rfl, hl, he, rfl⟩ |
    ⟨t, f, rfl, ht, rfl⟩ | hadmin
  · rw [hword] at he
    have hmove := moving_caller ht
    exact happend _ (Next.events_loss (hp.moving_ok hmove) he (hmoving c hmove))
  · rw [hword] at he
    rcases frameStep_events he with ⟨c, k, ce, rfl, hce, hev⟩ | hloop
    · have hmove : s.moving (.loop (.step inp)) = some c := moving_loop hl
      refine happend _ ?_
      rw [hev]
      exact Next.events_loss (hp.moving_ok hmove) hce (hmoving c hmove)
    · refine happend _ fun ev hev => ?_
      have hl := List.all_eq_true.mp hloop ev hev
      cases ev <;> first | rfl | cases hl
  · refine happend _ ?_
    rw [Conn.dropsSend, ht] at hdrop
    cases f with
    | send job copy => cases hdrop
    | _ => exact List.forall_mem_nil _
  · rw [hadmin.log]
    refine happend _ fun ev hev => ?_
    obtain ⟨job, -, rfl⟩ := List.mem_map.mp hev
    rfl

/-! ### One `sendInLoop` for every send -/

def Caller.inSend (job : Job) : Caller → Bool
  | .calling c => c.job? == some job
  | _ => false

def Frame.inSend (job : Job) : Frame → Bool
  | .call c _ => c.job? == some job
  | _ => false

/-- A call of `send` with this message has not passed its admission. -/
def Conn.InSend (s : Conn ι) (job : Job) : Prop :=
  (∃ t, (s.callers t).inSend job = true) ∨ s.loop.any (Frame.inSend job) = true

instance (s : Conn ι) (job : Job) : Decidable (s.InSend job) :=
  inferInstanceAs (Decidable (_ ∨ _))

def Event.sawDead (job : Job) : Event → Bool
  | .refused job' why => job' == job && why.observed
  | _ => false

/-- The call with this message observed `Disconnected` or a cleared `used`. -/
def Conn.sawDead (s : Conn ι) (job : Job) : Bool := s.log.any (Event.sawDead job)

/-- The `sendInLoop` activations of the message that are still to run. -/
def Conn.waiting (s : Conn ι) (job : Job) : ℕ := s.total (KwNet.Tcp.waiting job)

/-- The `sendInLoop` activations of the message that have run. -/
def Conn.began (s : Conn ι) (job : Job) : ℕ := s.log.count (.began job)

omit [DecidableEq ι] in
/-- Outside its call and its unexplained ends, a message waits or has begun. -/
theorem total_message (h : ¬ s.InSend j)
    (hlog : ∀ ev ∈ s.log, (∃ why, ev = .refused j why) ∨ ev = .dropped j → False) :
    s.total (message j) = s.waiting j + s.began j := by
  have hcall : ∀ c : Call, (c.job? == some j) ≠ true → (message j).ofCall c = (waiting j).ofCall c := by
    intro c hc
    cases c with
    | send pc job => exact if_neg fun heq : job = j => hc (by rw [heq]; exact beq_self_eq_true _)
    | _ => rfl
  have hcallers : weight (message j).caller s.callers = weight (waiting j).caller s.callers := by
    refine Finset.sum_congr rfl fun t _ => ?_
    cases ht : s.callers t with
    | idle => rfl
    | queueing f => rfl
    | calling c => exact hcall c fun hc => h (.inl ⟨t, by rw [ht]; exact hc⟩)
  have hframes : (message j).frames s.loop = (waiting j).frames s.loop := by
    refine congrArg List.sum (List.map_congr_left fun f hf => ?_)
    cases f with
    | call c k => exact hcall c fun hc => h (.inr (List.any_eq_true.mpr ⟨.call c k, hf, hc⟩))
    | _ => rfl
  have hwait : (waiting j).events s.log = 0 := by
    refine List.sum_eq_zero fun n hn => ?_
    obtain ⟨ev, -, rfl⟩ := List.mem_map.mp hn
    rfl
  have hevents : (message j).events s.log = s.began j := by
    unfold Conn.began
    generalize s.log = log at hlog
    induction log with
    | nil => rfl
    | cons ev log ih =>
      rw [Measure.events_cons, ih fun ev' hev' => hlog ev' (List.mem_cons_of_mem ev hev'),
        List.count_cons, Nat.add_comm]
      congr 1
      have hev := hlog ev List.mem_cons_self
      cases ev with
      | refused job why => exact if_neg fun heq => hev (.inl ⟨why, by rw [heq]⟩)
      | dropped job => exact if_neg fun heq => hev (.inr (by rw [heq]))
      | began job => simp [message]
      | _ => rfl
  unfold Conn.waiting Conn.total
  rw [hcallers, hframes, hevents, hwait]
  rfl

/-- **Every send that saw a live connection has exactly one `sendInLoop`**, in every run in which no
second CAS of a first sender fails on a live word and no push of a message gives up: once the call is
past its admission, its `sendInLoop` either waits or has run, and there is only one of it. -/
theorem send_runs_once (cfg : Config) (rdhupPhrase isIoChannel ssl : Bool) (mem : ℤ → UInt8)
    (as : List (Action ι)) (s : Conn ι)
    (hkeep : Along (step cfg) (fun t a => t.losesFirst a = false ∧ t.dropsSend a = false)
      (Conn.init ι rdhupPhrase isIoChannel ssl mem) as)
    (h : run (step cfg) (Conn.init ι rdhupPhrase isIoChannel ssl mem) as = some s)
    (job : Job) (hcalled : .called job ∈ s.log) (hdone : ¬ s.InSend job)
    (hlive : s.sawDead job = false) :
    s.waiting job + s.began job = 1 := by
  obtain ⟨-, hmsg, hloss⟩ := run_induction_along
    (fun t a => t.losesFirst a = false ∧ t.dropsSend a = false)
    (fun t => PhaseInv cfg t ∧ MessageInv t ∧ ∀ ev ∈ t.log, ev.isLoss = false)
    ⟨phaseInv_init cfg _ _ _ _, messageInv_init _ _ _ _, List.forall_mem_nil _⟩
    (fun _ _ _ hi hP hs => ⟨hi.1.step hs, hi.2.1.step hi.1 hs, no_loss_step hi.2.2 hi.1 hP.1 hP.2 hs⟩)
    hkeep h
  have hone : s.log.count (.called job) = 1 :=
    Nat.le_antisymm (hmsg.once job) (List.count_pos_iff.mpr hcalled)
  rw [← total_message hdone, hmsg.total, hone]
  rintro ev hev (⟨why, rfl⟩ | rfl)
  · have hobs : why.observed = true := by simpa [Event.isLoss] using hloss _ hev
    have hdead := List.any_eq_false.mp hlive _ hev
    simp [Event.sawDead, hobs] at hdead
  · cases hloss _ hev

/-- Two senders one after the other; the second finds the first one writing. -/
def twoSendsRun : List (Action Bool) :=
  [.loop .ret, .invoke false (.send .piece 0 1), .move false, .move false, .move false,
    .invoke true (.send .buffer 8 2), .move true, .move true, .move false, .move true, .loop .functor,
    .loop (.step .none)]

theorem send_runs_once_two_senders :
    ∃ s, run (step plainConfig) (Conn.init Bool false false false fun _ => 0) twoSendsRun
        = some s ∧
      s.waiting ⟨0, .piece, 0, 1⟩ + s.began ⟨0, .piece, 0, 1⟩ = 1 ∧
      s.waiting ⟨1, .buffer, 8, 2⟩ + s.began ⟨1, .buffer, 8, 2⟩ = 1 :=
  have hrun : run (step plainConfig) (Conn.init Bool false false false fun _ => 0) twoSendsRun
      = some _ := rfl
  have h := send_runs_once plainConfig false false false (fun _ => 0) twoSendsRun _ (by decide) hrun
  ⟨_, hrun, h _ (by decide) (by decide) (by decide), h _ (by decide) (by decide) (by decide)⟩

/-- The second CAS of thread 0 comes after thread 1 has been admitted. -/
def overtakenRun : List (Action Bool) :=
  [.loop .ret, .invoke false (.send .piece 0 1), .move false, .move false, .invoke true (.send .piece 8 1),
    .move true, .move true, .move false]

/-- The message of thread 0 is gone: its call has returned, refused on a connection that is connected,
used and writing, and nothing waits. -/
theorem send_lost_on_live_connection :
    ∃ s, run (step plainConfig) (Conn.init Bool false false false fun _ => 0) overtakenRun
        = some s ∧ .called ⟨0, .piece, 0, 1⟩ ∈ s.log ∧ s.callers false = .idle ∧
      .refused ⟨0, .piece, 0, 1⟩ (.impossible (Phase.busy 1).word) ∈ s.log ∧
      ¬ s.InSend ⟨0, .piece, 0, 1⟩ ∧ s.sawDead ⟨0, .piece, 0, 1⟩ = false ∧
      s.waiting ⟨0, .piece, 0, 1⟩ + s.began ⟨0, .piece, 0, 1⟩ = 0 :=
  ⟨_, rfl, by decide, rfl, by decide, by decide, by decide, by decide⟩

end KwNet.Tcp
