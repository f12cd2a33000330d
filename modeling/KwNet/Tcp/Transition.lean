import KwNet.Lib.Pool
import KwNet.Tcp.Moves

/-!
# The steps of the machine, and counting over it

* **`step_cases`** — `step` inverted once: `Transition` lists what an action can do to the machine;
* `Measure` — a way of counting messages wherever they are (in a call, in a thread about to queue, in
  `pendingFunctors`, on the loop's stack, in the history), and the total of a machine;
* **`total_apply`**, **`total_afterCall`**, … — how each transition moves a total: by what it takes out
  of one place and puts into another.
-/

namespace KwNet.Tcp

open KwNet.Lib

variable {ι : Type} {cfg : Config}

/-- What one step of the loop thread can do, a step of its top frame apart.  `entry` starts a frame on
top of the stack; `quiet` changes neither stack, functors, callers nor history. -/
inductive Transition [DecidableEq ι] (cfg : Config) (s : Conn ι) : Action ι → Conn ι → Prop
  | invoke {t : ι} {api : Api} (ht : s.callers t = .idle) :
      Transition cfg s (.invoke t api) (s.invoke t api)
  | call {t : ι} {c : Call} {e : CallEffect} (ht : s.callers t = .calling c)
      (he : callStep s.word c = some e) : Transition cfg s (.move t) (s.afterCall t e)
  | push {t : ι} {f : Functor} (ht : s.callers t = .queueing f)
      (hroom : s.functors.length < functorCap) :
      Transition cfg s (.move t)
        { s.setCaller t .idle with functors := s.functors ++ [f.capture s.io.mem] }
  | spurious {t : ι} {c c' : Call} (ht : s.callers t = .calling c) (hc : c.spurious = some c') :
      Transition cfg s (.spurious t) (s.setCaller t (.calling c'))
  | giveUp {t : ι} {f : Functor} (ht : s.callers t = .queueing f)
      (hfull : functorCap ≤ s.functors.length) :
      Transition cfg s (.giveUp t) { s.setCaller t .idle with log := s.log ++ f.droppedEvents }
  | frame {inp : Input} {f : Frame} {rest : List Frame} {e : Effect} (hl : s.loop = f :: rest)
      (he : frameStep cfg s.word s.io f inp = some e) :
      Transition cfg s (.loop (.step inp)) (s.apply rest e)
  | loopSpurious {f f' : Frame} {rest : List Frame} (hl : s.loop = f :: rest)
      (hf : f.spurious = some f') : Transition cfg s (.loop .spurious) { s with loop := f' :: rest }
  | userCall {api : Api} {rest : List Frame} (hl : s.loop = .user :: rest) :
      Transition cfg s (.loop (.user api)) (s.userCall api)
  | delay {rest : List Frame} (hl : s.loop = .user :: rest) :
      Transition cfg s (.loop .delay) (s.enter [.delay .isConnected])
  | ret {rest : List Frame} (hl : s.loop = .user :: rest) :
      Transition cfg s (.loop .ret) { s with loop := rest }
  | poll {m : Mask} (hl : s.loop = []) (hr : s.ready = none)
      (hi : s.io.kernel.interest.isSome = true) (hm : m.epout = true → s.io.kernel.edge = true) :
      Transition cfg s (.loop (.poll m))
        { s with
          ready := some m
          io := { s.io with kernel := { s.io.kernel with edge := s.io.kernel.edge && !m.epout } } }
  | dispatch {m : Mask} (hl : s.loop = []) (hr : s.ready = some m) :
      Transition cfg s (.loop .dispatch) { s.enter [.handler (.event m)] with ready := none }
  | functor {f : Functor} {fs : List Functor} (hl : s.loop = []) (hr : s.ready = none)
      (hq : s.functors = f :: fs) :
      Transition cfg s (.loop .functor) { s.enter [f.frame] with functors := fs }
  | timer {n : ℕ} (hl : s.loop = []) (ht : s.timers = n + 1) :
      Transition cfg s (.loop .timer) { s.enter [forceCloseInLoop] with timers := n }
  | foreign (hl : s.loop = []) : Transition cfg s (.loop .foreign) (s.enter [.user])
  | space :
      Transition cfg s .space { s with io := { s.io with kernel := s.io.kernel.space } }
  | overwrite {mem : ℤ → UInt8} :
      Transition cfg s (.overwrite mem) { s with io := { s.io with mem := mem } }

theorem loopStep_cases [DecidableEq ι] {s s' : Conn ι} {l : LoopAct}
    (h : loopStep cfg s l = some s') : Transition cfg s (.loop l) s' := by
  cases l with
  | step inp =>
    simp only [loopStep] at h
    split at h
    · cases h
    · next f rest hl =>
      obtain ⟨e, he, rfl⟩ := Option.map_eq_some_iff.mp h
      exact .frame hl he
  | spurious =>
    simp only [loopStep] at h
    split at h
    · cases h
    · next f rest hl =>
      obtain ⟨f', hf, rfl⟩ := Option.map_eq_some_iff.mp h
      exact .loopSpurious hl hf
  | user api =>
    simp only [loopStep] at h
    split at h <;> cases h
    next rest hl => exact .userCall hl
  | delay =>
    simp only [loopStep] at h
    split at h <;> cases h
    next rest hl => exact .delay hl
  | ret =>
    simp only [loopStep] at h
    split at h <;> cases h
    next rest hl => exact .ret hl
  | poll m =>
    simp only [loopStep] at h
    split at h
    · next hl hr hi =>
      split at h <;> cases h
      next hm =>
      refine .poll hl hr (by rw [hi]; rfl) fun hout => ?_
      simpa [hout] using hm
    · cases h
  | dispatch =>
    simp only [loopStep] at h
    split at h <;> cases h
    next m hl hr => exact .dispatch hl hr
  | functor =>
    simp only [loopStep] at h
    split at h <;> cases h
    next f fs hl hr hq => exact .functor hl hr hq
  | timer =>
    simp only [loopStep] at h
    split at h <;> cases h
    next n hl ht => exact .timer hl ht
  | foreign =>
    simp only [loopStep] at h
    split at h <;> cases h
    next hl => exact .foreign hl

/-- **What an action can do to the machine.** -/
theorem step_cases [DecidableEq ι] {s s' : Conn ι} {a : Action ι} (h : step cfg s a = some s') :
    Transition cfg s a s' := by
  unfold step at h
  split at h
  · cases h
  · cases a with
    | invoke t api =>
      dsimp only at h
      split at h <;> cases h
      next ht => exact .invoke ht
    | move t =>
      dsimp only at h
      split at h
      · cases h
      · next c ht =>
        obtain ⟨e, he, rfl⟩ := Option.map_eq_some_iff.mp h
        exact .call ht he
      · next f ht =>
        split at h <;> cases h
        next hroom => exact .push ht hroom
    | spurious t =>
      dsimp only at h
      split at h
      · next c ht =>
        obtain ⟨c', hc, rfl⟩ := Option.map_eq_some_iff.mp h
        exact .spurious ht hc
      · cases h
    | giveUp t =>
      dsimp only at h
      split at h
      · next f ht =>
        split at h <;> cases h
        next hfull => exact .giveUp ht hfull
      · cases h
    | loop l => exact loopStep_cases h
    | space => cases h; exact .space
    | overwrite mem => cases h; exact .overwrite

/-! ### Counting messages -/

/-- How much a message counts in each place it can be. -/
structure Measure where
  /-- Inside `send`, before its admission. -/
  call : Job → ℕ
  /-- From its admission on; `load` is also the functor that waits in the queue. -/
  pending : SendLoopPc → Job → ℕ
  /-- A `shutdownInLoop` that has not run. -/
  fin : ℕ
  event : Event → ℕ

namespace Measure

variable (μ : Measure)

def ofCall : Call → ℕ
  | .send _ job => μ.call job
  | _ => 0

def functor : Functor → ℕ
  | .send job _ => μ.pending .load job
  | .shutdownInLoop => μ.fin
  | _ => 0

def caller : Caller → ℕ
  | .idle => 0
  | .calling c => μ.ofCall c
  | .queueing f => μ.functor f

def frame : Frame → ℕ
  | .call c _ => μ.ofCall c
  | .sendInLoop pc job _ => μ.pending pc job
  | .shutdownInLoop => μ.fin
  | _ => 0

def frames (fs : List Frame) : ℕ := (fs.map μ.frame).sum

def functors (fs : List Functor) : ℕ := (fs.map μ.functor).sum

def events (evs : List Event) : ℕ := (evs.map μ.event).sum

@[simp] theorem frames_nil : μ.frames [] = 0 := rfl

@[simp] theorem frames_cons (f : Frame) (fs : List Frame) :
    μ.frames (f :: fs) = μ.frame f + μ.frames fs := by
  simp [frames]

@[simp] theorem frames_append (fs gs : List Frame) :
    μ.frames (fs ++ gs) = μ.frames fs + μ.frames gs := by
  simp [frames]

@[simp] theorem functors_cons (f : Functor) (fs : List Functor) :
    μ.functors (f :: fs) = μ.functor f + μ.functors fs := by
  simp [functors]

@[simp] theorem functors_append (fs gs : List Functor) :
    μ.functors (fs ++ gs) = μ.functors fs + μ.functors gs := by
  simp [functors]

@[simp] theorem functors_nil : μ.functors [] = 0 := rfl

@[simp] theorem events_nil : μ.events [] = 0 := rfl

@[simp] theorem events_cons (ev : Event) (evs : List Event) :
    μ.events (ev :: evs) = μ.event ev + μ.events evs := by
  simp [events]

@[simp] theorem events_append (evs evs' : List Event) :
    μ.events (evs ++ evs') = μ.events evs + μ.events evs' := by
  simp [events]

@[simp] theorem ofCall_wake (c : Call) : μ.ofCall c.wake = μ.ofCall c := by
  unfold Call.wake
  split <;> rfl

theorem ofCall_spurious {c c' : Call} (h : c.spurious = some c') : μ.ofCall c' = μ.ofCall c := by
  unfold Call.spurious at h
  split at h <;> cases h <;> rfl

theorem caller_wake (c : Caller) : μ.caller c.wake = μ.caller c := by
  cases c with
  | calling c => exact μ.ofCall_wake c
  | _ => rfl

@[simp] theorem frame_wake (f : Frame) : μ.frame f.wake = μ.frame f := by
  unfold Frame.wake
  split
  · exact μ.ofCall_wake _
  · rfl
  · rfl

theorem frame_spurious {f f' : Frame} (h : f.spurious = some f') : μ.frame f' = μ.frame f := by
  unfold Frame.spurious at h
  split at h
  · obtain ⟨c', hc, rfl⟩ := Option.map_eq_some_iff.mp h
    exact μ.ofCall_spurious hc
  · cases h; rfl
  · cases h

theorem frames_wake (fs : List Frame) : μ.frames (fs.map Frame.wake) = μ.frames fs := by
  induction fs with
  | nil => rfl
  | cons f fs ih => rw [List.map_cons, frames_cons, frames_cons, frame_wake, ih]

@[simp] theorem functor_capture (f : Functor) (mem : ℤ → UInt8) :
    μ.functor (f.capture mem) = μ.functor f := by
  unfold Functor.capture
  split
  · split <;> rfl
  · rfl

/-- A functor counts in the queue what its frame counts on the stack. -/
@[simp] theorem frame_functor (f : Functor) : μ.frame f.frame = μ.functor f := by
  cases f <;> rfl

theorem functor_eq_zero {f : Functor} (h : f.isNotice = true) : μ.functor f = 0 := by
  cases f <;> first | rfl | cases h

theorem functors_post (q : List Functor) (posted : Option Functor)
    (h : ∀ f, posted = some f → f.isNotice = true) : μ.functors (post q posted) = μ.functors q := by
  unfold post
  split
  · rfl
  · next f =>
    split
    · rw [functors_append, functors_cons, μ.functor_eq_zero (h f rfl)]
      rfl
    · rfl

theorem frame_eq_zero {f : Frame} (h : f.isHandler = true) : μ.frame f = 0 := by
  cases f <;> first | rfl | cases h

theorem frames_eq_zero {fs : List Frame} (h : fs.all Frame.isHandler = true) : μ.frames fs = 0 := by
  induction fs with
  | nil => rfl
  | cons f fs ih =>
    rw [List.all_cons, Bool.and_eq_true] at h
    rw [frames_cons, μ.frame_eq_zero h.1, ih h.2]

end Measure

/-! ### Totals -/

variable [Fintype ι] (μ : Measure) (s : Conn ι)

/-- The count over the whole machine. -/
def Conn.total : ℕ :=
  weight μ.caller s.callers + μ.frames s.loop + μ.functors s.functors + μ.events s.log

variable {μ s}

theorem total_apply {f : Frame} {rest : List Frame} {e : Effect} (hl : s.loop = f :: rest)
    (hp : ∀ g, e.posted = some g → g.isNotice = true) :
    (s.apply rest e).total μ + μ.frame f = s.total μ + μ.frames e.frames + μ.events e.events := by
  have hc : weight μ.caller (s.apply rest e).callers = weight μ.caller s.callers := by
    unfold Conn.apply
    dsimp only
    split
    · exact weight_map μ.caller s.callers Caller.wake μ.caller_wake
    · rfl
  have hf : μ.functors (s.apply rest e).functors = μ.functors s.functors :=
    μ.functors_post s.functors e.posted hp
  have hfr : μ.frames (s.apply rest e).loop = μ.frames e.frames + μ.frames rest :=
    μ.frames_append e.frames rest
  have hev : μ.events (s.apply rest e).log = μ.events s.log + μ.events e.events :=
    μ.events_append s.log e.events
  rw [Conn.total, Conn.total, hc, hf, hfr, hev, hl, Measure.frames_cons]
  omega

variable [DecidableEq ι]

theorem total_setCaller (t : ι) (c : Caller) :
    (s.setCaller t c).total μ + μ.caller (s.callers t) = s.total μ + μ.caller c := by
  have h := weight_update μ.caller s.callers t c
  unfold Conn.total Conn.setCaller
  dsimp only
  omega

theorem total_afterCall {t : ι} {c : Call} {e : CallEffect} (ht : s.callers t = .calling c) :
    (s.afterCall t e).total μ + μ.ofCall c
      = s.total μ + μ.caller e.next.caller + μ.events e.next.events := by
  have key : ∀ s' : Conn ι, μ.caller (s'.callers t) = μ.ofCall c → s'.total μ = s.total μ →
      s'.log = s.log →
      ({ s'.setCaller t e.next.caller with word := e.word, log := s.log ++ e.next.events } :
        Conn ι).total μ + μ.ofCall c
        = s.total μ + μ.caller e.next.caller + μ.events e.next.events := by
    intro s' hc htot hlog
    have h := total_setCaller (μ := μ) (s := s') t e.next.caller
    rw [hc, htot] at h
    unfold Conn.total Conn.setCaller at h ⊢
    dsimp only at h ⊢
    rw [hlog] at h
    rw [Measure.events_append]
    omega
  unfold Conn.afterCall
  dsimp only
  split
  · refine key _ ?_ ?_ rfl
    · dsimp only
      rw [μ.caller_wake, ht]
      rfl
    · unfold Conn.total
      dsimp only
      rw [weight_map μ.caller s.callers Caller.wake μ.caller_wake, μ.frames_wake]
  · exact key s (by rw [ht]; rfl) rfl rfl

theorem total_push {t : ι} {f : Functor} (ht : s.callers t = .queueing f) :
    ({ s.setCaller t .idle with functors := s.functors ++ [f.capture s.io.mem] } : Conn ι).total μ
      = s.total μ := by
  have h := total_setCaller (μ := μ) (s := s) t .idle
  rw [ht] at h
  unfold Conn.total Conn.setCaller at h ⊢
  dsimp only [Measure.caller] at h ⊢
  rw [Measure.functors_append, Measure.functors_cons, Measure.functor_capture, Measure.functors_nil]
  omega

theorem total_giveUp {t : ι} {f : Functor} (ht : s.callers t = .queueing f) :
    ({ s.setCaller t .idle with log := s.log ++ f.droppedEvents } : Conn ι).total μ + μ.functor f
      = s.total μ + μ.events f.droppedEvents := by
  have h := total_setCaller (μ := μ) (s := s) t .idle
  rw [ht] at h
  unfold Conn.total Conn.setCaller at h ⊢
  dsimp only [Measure.caller] at h ⊢
  rw [Measure.events_append]
  omega

/-- The message a call brings into the machine. -/
def Api.job? (id : ℕ) : Api → Option Job
  | .send kind data size => some ⟨id, kind, data, size⟩
  | _ => none

/-- What a new message adds to a total. -/
def Measure.opened (μ : Measure) : Option Job → ℕ
  | some job => μ.call job + μ.event (.called job)
  | none => 0

theorem total_invoke {t : ι} {api : Api} (ht : s.callers t = .idle) :
    (s.invoke t api).total μ = s.total μ + μ.opened (api.job? s.nextId) := by
  have h : ∀ c, (s.setCaller t c).total μ = s.total μ + μ.caller c := by
    intro c
    have h := total_setCaller (μ := μ) (s := s) t c
    rw [ht] at h
    exact h
  cases api with
  | send kind data size =>
    have h' := h (.calling (.send .load ⟨s.nextId, kind, data, size⟩))
    unfold Conn.invoke Conn.total Conn.setCaller at *
    dsimp only [Measure.opened, Api.job?, Measure.caller, Measure.ofCall] at *
    rw [Measure.events_append, Measure.events_cons, Measure.events_nil]
    omega
  | _ => exact h _

omit [DecidableEq ι] in
theorem total_userCall (api : Api) :
    (s.userCall api).total μ = s.total μ + μ.opened (api.job? s.nextId) := by
  cases api with
  | send kind data size =>
    simp only [Conn.userCall, Conn.enter, Conn.total, Measure.frames_append, Measure.frames_cons,
      Measure.frame, Measure.ofCall, Measure.frames_nil, Measure.events_append,
      Measure.events_cons, Measure.events_nil, Measure.opened, Api.job?]
    omega
  | task =>
    have h := μ.functors_post s.functors (some .task) (by rintro f ⟨⟩; rfl)
    simp only [Conn.userCall, Conn.total, Measure.opened, Api.job?, h, Nat.add_zero]
  | _ =>
    simp only [Conn.userCall, Conn.enter, Conn.total, Measure.frames_append, Measure.frames_cons,
      Measure.frame, Measure.ofCall, Measure.frames_nil, Measure.opened, Api.job?, Nat.add_zero,
      Nat.zero_add, forceCloseInLoop]

omit [Fintype ι] in
theorem afterCall_io (t : ι) (e : CallEffect) : (s.afterCall t e).io = s.io := by
  unfold Conn.afterCall
  dsimp only
  split <;> rfl

omit [Fintype ι] in
theorem afterCall_loop (t : ι) (e : CallEffect) :
    (s.afterCall t e).loop = s.loop ∨ (s.afterCall t e).loop = s.loop.map Frame.wake := by
  unfold Conn.afterCall
  dsimp only
  split
  · exact .inr rfl
  · exact .inl rfl

omit [Fintype ι] in
theorem afterCall_mem_loop {t : ι} {e : CallEffect} {f : Frame} (hf : f ∈ (s.afterCall t e).loop) :
    ∃ g ∈ s.loop, f = g ∨ f = g.wake := by
  rcases afterCall_loop t e with hl | hl
  · exact ⟨f, hl ▸ hf, .inl rfl⟩
  · rw [hl] at hf
    obtain ⟨g, hg, rfl⟩ := List.mem_map.mp hf
    exact ⟨g, hg, .inr rfl⟩

/-! ### Steps that only arrange work -/

/-- A frame that has not performed an access of the state word since it was entered or woken. -/
def Frame.isEntry : Frame → Bool
  | .user | .shutdownInLoop | .delay .isConnected | .sendInLoop .load _ _ => true
  | .handler (.event _) | .handler (.finishRead _) => true
  | .handler .startReadInLoop | .handler .stopReadInLoop => true
  | .call (.send .load _) _ | .call (.setUnused .load) _ | .call (.shutdown .load) _ => true
  | .call (.send .reload _) _ | .call (.setUnused .reload) _ | .call (.shutdown .reload) _ => true
  | _ => false

/-- The message an action brings into the machine. -/
def Action.job? (id : ℕ) : Action ι → Option Job
  | .invoke _ api | .loop (.user api) => api.job? id
  | _ => none

omit [Fintype ι] [DecidableEq ι] in
theorem Action.job?_id {id : ℕ} {a : Action ι} {job : Job} (h : a.job? id = some job) :
    job.id = id := by
  unfold Action.job? Api.job? at h
  split at h
  · split at h <;> cases h
    rfl
  · split at h <;> cases h
    rfl
  · cases h

/-- The handlers a step can start: the one of a reported event, those of `startRead` and `stopRead`,
and the rest of a `handle_ep_rdhup` that slept. -/
def Conn.Starts (s : Conn ι) (pc : HandlerPc) : Prop :=
  (∃ m, s.ready = some m ∧ pc = .event m) ∨ pc = .startReadInLoop ∨ pc = .stopReadInLoop ∨
    .handler .rdhupBlocked ∈ s.loop

/-- A step that neither performs an access of the state word nor moves a frame: calls start, functors
are queued and started, events are polled and dispatched, sleepers wake by themselves, user code
returns, the environment changes. -/
structure Admin (s : Conn ι) (a : Action ι) (s' : Conn ι) : Prop where
  word : s'.word = s.word
  out : s'.io.outputBuffers = s.io.outputBuffers
  channel : s'.io.channel = s.io.channel
  same : s.io.Same s'.io
  interest : s'.io.kernel.interest = s.io.kernel.interest
  ready : ∀ m, s'.ready = some m → s.ready = some m ∨ s.io.kernel.interest.isSome = true
  loop : ∀ f ∈ s'.loop, f ∈ s.loop ∨ f.isEntry = true ∧ ∀ pc, f = .handler pc → s.Starts pc
  /-- The top frame stays, unless it is user code or asleep. -/
  stay : ∀ f rest, s.loop = f :: rest → f ≠ .user → f.spurious = none → s'.loop = s.loop
  first : ∀ t old job, s.callers t = .calling (.send (.casFirst old) job) →
    s'.callers t = s.callers t
  log : s'.log = s.log ++ (a.job? s.nextId).toList.map .called
  nextId : s'.nextId = s.nextId + (a.job? s.nextId).toList.length
  total : ∀ μ : Measure, s'.total μ = s.total μ + μ.opened (a.job? s.nextId)

theorem Frame.spurious_isEntry {f f' : Frame} (h : f.spurious = some f') : f'.isEntry = true := by
  unfold Frame.spurious at h
  split at h
  · next c k =>
    obtain ⟨c', hc, rfl⟩ := Option.map_eq_some_iff.mp h
    unfold Call.spurious at hc
    split at hc <;> cases hc <;> rfl
  · cases h
    rfl
  · cases h

theorem Functor.frame_isEntry (f : Functor) : f.frame.isEntry = true := by
  cases f <;> rfl

omit [Fintype ι] in
theorem setCaller_first {t : ι} {c : Caller}
    (h : ∀ old job, s.callers t ≠ .calling (.send (.casFirst old) job)) :
    ∀ u old job, s.callers u = .calling (.send (.casFirst old) job) →
      (s.setCaller t c).callers u = s.callers u := by
  intro u old job hu
  refine Function.update_of_ne ?_ c s.callers
  rintro rfl
  exact h old job hu

omit [DecidableEq ι] in
/-- A step that leaves the stack and the loop's data alone. -/
theorem Admin.outside {s' : Conn ι} {a : Action ι} (hw : s'.word = s.word) (hio : s'.io = s.io)
    (hr : s'.ready = s.ready) (hl : s'.loop = s.loop)
    (hfirst : ∀ t old job, s.callers t = .calling (.send (.casFirst old) job) →
      s'.callers t = s.callers t)
    (hlog : s'.log = s.log ++ (a.job? s.nextId).toList.map .called)
    (hid : s'.nextId = s.nextId + (a.job? s.nextId).toList.length)
    (htot : ∀ μ : Measure, s'.total μ = s.total μ + μ.opened (a.job? s.nextId)) : Admin s a s' :=
  { word := hw
    out := by rw [hio]
    channel := by rw [hio]
    same := by rw [hio]; exact .refl s.io
    interest := by rw [hio]
    ready := fun m hm => .inl (hr ▸ hm)
    loop := fun f hf => .inl (hl ▸ hf)
    stay := fun _ _ _ _ _ => hl
    first := hfirst
    log := hlog
    nextId := hid
    total := htot }

omit [DecidableEq ι] in
/-- A step of the loop thread that starts the frame `g` on an empty stack or on top of user code. -/
theorem Admin.entered {s' : Conn ι} {a : Action ι} {g : Frame} (hio : s'.io = s.io)
    (hw : s'.word = s.word) (hc : s'.callers = s.callers) (hl : s'.loop = g :: s.loop)
    (hr : ∀ m, s'.ready = some m → s.ready = some m) (hg : g.isEntry = true)
    (hstart : ∀ pc, g = .handler pc → s.Starts pc)
    (hfree : ∀ f rest, s.loop = f :: rest → f = .user)
    (hlog : s'.log = s.log ++ (a.job? s.nextId).toList.map .called)
    (hid : s'.nextId = s.nextId + (a.job? s.nextId).toList.length)
    (htot : ∀ μ : Measure, s'.total μ = s.total μ + μ.opened (a.job? s.nextId)) : Admin s a s' where
  word := hw
  out := by rw [hio]
  channel := by rw [hio]
  same := by rw [hio]; exact .refl s.io
  interest := by rw [hio]
  ready := fun m hm => .inl (hr m hm)
  loop := by
    intro f hf
    rw [hl] at hf
    rcases List.mem_cons.mp hf with rfl | hf
    · exact .inr ⟨hg, hstart⟩
    · exact .inl hf
  stay := fun f rest hl' hf _ => absurd (hfree f rest hl') hf
  first := fun t _ _ _ => by rw [hc]
  log := hlog
  nextId := hid
  total := htot

/-- **The three kinds of accesses, and everything else.** -/
theorem step_kinds {s' : Conn ι} {a : Action ι} (hs : step cfg s a = some s') :
    (∃ t c e, a = .move t ∧ s.callers t = .calling c ∧ callStep s.word c = some e ∧
        s' = s.afterCall t e) ∨
      (∃ inp f rest e, a = .loop (.step inp) ∧ s.loop = f :: rest ∧
        frameStep cfg s.word s.io f inp = some e ∧ s' = s.apply rest e) ∨
      (∃ t f, a = .giveUp t ∧ s.callers t = .queueing f ∧
        s' = { s.setCaller t .idle with log := s.log ++ f.droppedEvents }) ∨
      Admin s a s' := by
  have hlog : s.log = s.log ++ [] := (List.append_nil _).symm
  have hkeep : ∀ t old job, s.callers t = .calling (.send (.casFirst old) job) →
      s.callers t = s.callers t := fun _ _ _ _ => rfl
  have huser : ∀ {rest : List Frame}, s.loop = .user :: rest →
      ∀ f rest, s.loop = f :: rest → f = .user := by
    intro rest hl f rest' hl'
    rw [hl, List.cons.injEq] at hl'
    exact hl'.1.symm
  have hempty : s.loop = [] → ∀ f rest, s.loop = f :: rest → f = .user := by
    intro hl f rest hl'
    rw [hl] at hl'
    cases hl'
  have henter : ∀ (f : Frame) (μ : Measure), μ.frame f = 0 → (s.enter [f]).total μ = s.total μ := by
    intro f μ hf
    simp only [Conn.enter, Conn.total, Measure.frames_append, Measure.frames_cons, hf,
      Measure.frames_nil, Nat.zero_add]
  cases step_cases hs with
  | @call t c e ht he => exact .inl ⟨t, c, e, rfl, ht, he, rfl⟩
  | @frame inp f rest e hl he => exact .inr (.inl ⟨inp, f, rest, e, rfl, hl, he, rfl⟩)
  | @giveUp t f ht => exact .inr (.inr (.inl ⟨t, f, rfl, ht, rfl⟩))
  | @invoke t api ht =>
    have hfirst : ∀ c, ∀ u old job, s.callers u = .calling (.send (.casFirst old) job) →
        (s.setCaller t c).callers u = s.callers u := fun c =>
      setCaller_first (by rw [ht]; rintro _ _ ⟨⟩)
    refine .inr (.inr (.inr (.outside ?_ ?_ ?_ ?_ ?_ ?_ ?_ fun μ => total_invoke ht))) <;> cases api
    all_goals first | rfl | exact hfirst _ | exact hlog
  | @push t f ht =>
    exact .inr (.inr (.inr (.outside rfl rfl rfl rfl (setCaller_first (by rw [ht]; rintro _ _ ⟨⟩)) hlog rfl
      fun μ => total_push ht)))
  | @spurious t c c' ht hc =>
    have hne : ∀ old job, s.callers t ≠ .calling (.send (.casFirst old) job) := by
      rintro old job hcall
      rw [ht] at hcall
      cases hcall
      cases hc
    refine .inr (.inr (.inr (.outside rfl rfl rfl rfl (setCaller_first hne) hlog rfl fun μ => ?_)))
    have htot := total_setCaller (μ := μ) (s := s) t (.calling c')
    rw [ht] at htot
    have hw : μ.ofCall c' = μ.ofCall c := μ.ofCall_spurious hc
    simp only [Measure.caller, hw] at htot
    exact Nat.add_right_cancel htot
  | @loopSpurious f f' rest hl hf =>
    refine .inr (.inr (.inr ⟨rfl, rfl, rfl, .refl s.io, rfl, fun m => .inl, ?_, ?_, hkeep, hlog, rfl,
      fun μ => ?_⟩))
    · intro g hg
      rcases List.mem_cons.mp hg with rfl | hg
      · refine .inr ⟨Frame.spurious_isEntry hf, ?_⟩
        rintro pc rfl
        unfold Frame.spurious at hf
        split at hf
        · obtain ⟨c', -, hc'⟩ := Option.map_eq_some_iff.mp hf
          cases hc'
        · exact .inr (.inr (.inr (by rw [hl]; exact List.mem_cons_self)))
        · cases hf
      · exact .inl (by rw [hl]; exact List.mem_cons_of_mem f hg)
    · intro g rest' hl' _ hg
      rw [hl, List.cons.injEq] at hl'
      rw [← hl'.1, hf] at hg
      cases hg
    · show weight μ.caller s.callers + μ.frames (f' :: rest) + _ + _ = _ + 0
      rw [Conn.total, hl, Measure.frames_cons, Measure.frames_cons, μ.frame_spurious hf]
      rfl
  | @userCall api rest hl =>
    refine .inr (.inr (.inr ?_))
    cases api with
    | task => exact .outside rfl rfl rfl rfl hkeep hlog rfl fun μ => total_userCall .task
    | startRead =>
      exact .entered rfl rfl rfl rfl (fun _ => id) rfl (by rintro pc ⟨⟩; exact .inr (.inl rfl))
        (huser hl) hlog rfl fun μ => total_userCall .startRead
    | stopRead =>
      exact .entered rfl rfl rfl rfl (fun _ => id) rfl
        (by rintro pc ⟨⟩; exact .inr (.inr (.inl rfl))) (huser hl) hlog rfl
        fun μ => total_userCall .stopRead
    | send kind data size =>
      exact .entered rfl rfl rfl rfl (fun _ => id) rfl (by rintro _ ⟨⟩) (huser hl) rfl rfl
        fun μ => total_userCall (.send kind data size)
    | setUnused =>
      exact .entered rfl rfl rfl rfl (fun _ => id) rfl (by rintro _ ⟨⟩) (huser hl) hlog rfl
        fun μ => total_userCall .setUnused
    | shutdown =>
      exact .entered rfl rfl rfl rfl (fun _ => id) rfl (by rintro _ ⟨⟩) (huser hl) hlog rfl
        fun μ => total_userCall .shutdown
    | forceClose =>
      exact .entered rfl rfl rfl rfl (fun _ => id) rfl (by rintro _ ⟨⟩) (huser hl) hlog rfl
        fun μ => total_userCall .forceClose
  | delay hl =>
    exact .inr (.inr (.inr (.entered rfl rfl rfl rfl (fun _ => id) rfl (by rintro _ ⟨⟩) (huser hl) hlog rfl
      fun μ => henter _ μ rfl)))
  | @ret rest hl =>
    refine .inr (.inr (.inr ⟨rfl, rfl, rfl, .refl s.io, rfl, fun m => .inl, ?_, ?_, hkeep, hlog, rfl,
      fun μ => ?_⟩))
    · intro g hg
      exact .inl (by rw [hl]; exact List.mem_cons_of_mem _ hg)
    · intro f rest' hl' hf
      exact absurd (huser hl f rest' hl') hf
    · rw [Conn.total, Conn.total, hl, Measure.frames_cons]
      show _ = _ + (0 + _) + _ + _ + 0
      rw [Nat.zero_add]
      rfl
  | poll hl hr hi =>
    refine .inr (.inr (.inr ⟨rfl, rfl, rfl, ⟨rfl, rfl, rfl, fun _ => rfl⟩, rfl, fun _ _ => .inr hi, fun f => .inl,
      fun _ _ _ _ _ => rfl, hkeep, hlog, rfl, fun μ => rfl⟩))
  | @dispatch m hl hr =>
    exact .inr (.inr (.inr (.entered (g := .handler (.event m)) rfl rfl rfl rfl forall_none rfl
      (by rintro pc ⟨⟩; exact .inl ⟨m, hr, rfl⟩) (hempty hl) hlog rfl fun μ => henter _ μ rfl)))
  | @functor f fs hl hr hq =>
    have hstart : ∀ pc, f.frame = .handler pc → s.Starts pc := by
      intro pc hpc
      cases f <;> cases hpc
      · exact .inr (.inl rfl)
      · exact .inr (.inr (.inl rfl))
    refine .inr (.inr (.inr (.entered (g := f.frame) rfl rfl rfl rfl (fun _ => id) f.frame_isEntry
      hstart (hempty hl) hlog rfl fun μ => ?_)))
    show weight μ.caller s.callers + μ.frames (f.frame :: s.loop) + μ.functors fs + μ.events s.log
      = _ + 0
    rw [Conn.total, hq, Measure.frames_cons, Measure.functors_cons, Measure.frame_functor]
    omega
  | timer hl =>
    exact .inr (.inr (.inr (.entered (g := forceCloseInLoop) rfl rfl rfl rfl (fun _ => id) rfl (by rintro _ ⟨⟩)
      (hempty hl) hlog rfl fun μ => henter _ μ rfl)))
  | foreign hl =>
    exact .inr (.inr (.inr (.entered (g := .user) rfl rfl rfl rfl (fun _ => id) rfl (by rintro _ ⟨⟩) (hempty hl)
      hlog rfl fun μ => henter _ μ rfl)))
  | space =>
    exact .inr (.inr (.inr ⟨rfl, rfl, rfl, ⟨rfl, rfl, rfl, fun _ => rfl⟩, rfl, fun m => .inl, fun f => .inl,
      fun _ _ _ _ _ => rfl, hkeep, hlog, rfl, fun μ => rfl⟩))
  | overwrite =>
    exact .inr (.inr (.inr ⟨rfl, rfl, rfl, ⟨rfl, rfl, rfl, fun _ => rfl⟩, rfl, fun m => .inl, fun f => .inl,
      fun _ _ _ _ _ => rfl, hkeep, hlog, rfl, fun μ => rfl⟩))

/-! ### Calls, wherever they are made -/

theorem Cont.frames_measure (μ : Measure) (k : Cont) : μ.frames k.frames = 0 := by
  cases k <;> rfl

/-- A call counts the same on the loop thread and outside it. -/
theorem Next.frames_measure (μ : Measure) (next : Next) (k : Cont) :
    μ.frames (next.frames k) = μ.caller next.caller := by
  cases next <;> simp [Next.frames, Next.caller, Cont.frames_measure, Measure.frame, Measure.caller,
    Measure.functor]

end KwNet.Tcp
