import KwNet.Lib.Run
import KwNet.Poll.Dispatch

/-!
# The TLS handshake of a client

`ssl_handshake_handler` sets its callbacks in the channel of the connector and calls `SSL_connect` for each
readable or writable event.  `TcpClient::newConnection` gives it the two callbacks: the one for success
makes an `ssl_TcpConnection` on the same channel, whose constructor sets callbacks of its own; the one for
failure leaves the channel alone.

* `OneOutcome` — one of the two callbacks is called, once, and `SSL_connect` is not called after it;
* **`handshake_settles_once`** — this holds throughout exactly the runs in which, after a failure, no event
  for which the handler has a callback is dispatched any more;
* **`failed_handshake_goes_on`** — one wake-up, readable and writable, whose first `SSL_connect` fails.

A wake-up is dispatched as `HandleEvent_tied` does it, one callback after another (`Poll.plan`); which
events come and what OpenSSL answers is chosen by the actions.
-/

namespace KwNet.Handshake

open KwNet.Lib
open KwNet.Poll (Mask Callback plan readEvent writeEvent)

/-- What `SSL_connect` and `SSL_get_error` answer. -/
inductive Answer where
  | connected
  | wantRead
  | wantWrite
  | failed
  deriving DecidableEq, Repr

/-- What the handler does. -/
inductive Event where
  /-- `SSL_connect(ssl_)`, with a live `SSL` or with the null pointer. -/
  | sslConnect (live : Bool)
  | successCb
  | errorCb
  deriving DecidableEq, Repr

def Event.isOutcome : Event → Bool
  | .sslConnect _ => false
  | _ => true

structure State where
  started : Bool
  /-- `ssl_` is not null. -/
  ssl : Bool
  /-- The callbacks of the channel are the handler's. -/
  installed : Bool
  /-- `listen_events` and `tied` of the channel. -/
  listen : Mask
  tied : Bool
  /-- The callbacks that are still to be tried for this wake-up. -/
  rest : List Callback
  /-- What the handler has done, oldest first (history). -/
  log : List Event
  deriving DecidableEq, Repr

/-- The handler is made: its constructor sets four callbacks. -/
def init : State where
  started := false
  ssl := true
  installed := true
  listen := 0
  tied := false
  rest := []
  log := []

def State.note (s : State) (ev : Event) : State := { s with log := s.log ++ [ev] }

/-- `Enable*` and `Disable*`: a channel that listens for nothing any more is untied. -/
def State.call (s : State) (f : Poll.Call) : State :=
  { s with listen := f.listen s.listen, tied := s.tied && decide (f.listen s.listen ≠ 0) }

/-- `onError`. -/
def State.onError (s : State) : State := { s with ssl := false }.note .errorCb

/-- `successCb_`: the constructor of the connection sets its callbacks. -/
def State.onSuccess (s : State) : State := { s.call .disableAll with installed := false }.note .successCb

/-- `doHandshake`. -/
def State.doHandshake (s : State) (answer : Answer) : State :=
  let s := s.note (.sslConnect s.ssl)
  match answer with
  | .connected => s.onSuccess
  | .wantRead => (s.call .enableRead).call .disableWrite
  | .wantWrite => (s.call .enableWrite).call .disableRead
  | .failed => s.onError

/-- `start`. -/
def State.start (s : State) (answer : Answer) : State :=
  let s := { s with started := true, tied := true }
  ((s.call .enableRead).call .enableWrite).doHandshake answer

/-- The handler's callback for a bit; it sets none for `EPOLLRDHUP`. -/
def State.handle (s : State) (cb : Callback) (answer : Answer) : State :=
  match cb with
  | .input => s.doHandshake answer
  | .output => s.doHandshake answer
  | .err => s.onError
  | .hup => s.onError
  | .rdhup => s

inductive Action where
  | start (answer : Answer)
  /-- The channel is reported with these events. -/
  | wake (mask : Mask) (isIoChannel : Bool)
  /-- The next callback; `answer` is OpenSSL's, if it calls `SSL_connect`. -/
  | callback (answer : Answer)
  deriving DecidableEq, Repr

def step (s : State) : Action → Option State
  | .start answer => if s.started then none else some (s.start answer)
  | .wake mask isIoChannel =>
    if s.started ∧ s.rest = [] then some { s with rest := (plan mask (isIoChannel && !s.tied)).1 }
    else none
  | .callback answer =>
    match s.rest with
    | cb :: rest =>
      let s := { s with rest := rest }
      some (if s.installed then s.handle cb answer else s)
    | [] => none

/-! ### the property -/

/-- Nothing follows an outcome, and `SSL_connect` is never called with the null pointer. -/
def OneOutcome (s : State) : Prop :=
  (∀ pre ev post, s.log = pre ++ ev :: post → ev.isOutcome = true → post = []) ∧
    ∀ ev ∈ s.log, ev ≠ .sslConnect false

/-- The step does not call a callback of the handler after a failure. -/
def NotAfterFailure (s : State) (a : Action) : Prop :=
  ∀ answer, a = .callback answer → s.ssl = false → ∀ cb, s.rest.head? = some cb → cb = .rdhup

instance (s : State) : (a : Action) → Decidable (NotAfterFailure s a)
  | .start _ => .isTrue fun _ h => by cases h
  | .wake _ _ => .isTrue fun _ h => by cases h
  | .callback _ =>
    decidable_of_iff (s.ssl = false → ∀ cb ∈ s.rest.head?, cb = .rdhup)
      ⟨fun h _ _ => h, fun h => h _ rfl⟩

variable {s s' : State}

/-- The outcome so far, as the fields tell it. -/
def State.outcome (s : State) : List Event :=
  if s.ssl then (if s.installed then [] else [.successCb]) else [.errorCb]

/-- The log is a number of calls of `SSL_connect` and then the outcome. -/
structure Inv (s : State) : Prop where
  log : ∃ pre, (∀ ev ∈ pre, ev = .sslConnect true) ∧ s.log = pre ++ s.outcome
  failed : s.ssl = false → s.installed = true
  fresh : s.started = false → s.ssl = true ∧ s.installed = true ∧ s.rest = []

theorem Inv.of_eq (h : Inv s) (hlog : s'.log = s.log) (hssl : s'.ssl = s.ssl)
    (hinst : s'.installed = s.installed) (hstarted : s'.started = true) : Inv s' := by
  refine ⟨?_, ?_, fun hs => ?_⟩
  · rw [State.outcome, hlog, hssl, hinst]
    exact h.log
  · rw [hssl, hinst]
    exact h.failed
  · rw [hstarted] at hs
    cases hs

/-- A list of calls followed by one outcome has nothing behind the outcome. -/
theorem Inv.oneOutcome (h : Inv s) : OneOutcome s := by
  obtain ⟨pre, hpre, hlog⟩ := h.log
  have hout : ∀ ev ∈ s.outcome, ev ≠ .sslConnect false := by
    unfold State.outcome
    cases s.ssl <;> cases s.installed <;> simp
  have hshort : s.outcome = [] ∨ ∃ ev, s.outcome = [ev] := by
    unfold State.outcome
    cases s.ssl <;> cases s.installed <;> simp
  constructor
  · intro p ev post heq hev
    rw [hlog] at heq
    -- the outcome is not among the calls, so it is the last entry
    obtain ⟨q, hq, hrest⟩ | ⟨q, hq, hrest⟩ := List.append_eq_append_iff.mp heq
    · obtain hnil | ⟨o, ho⟩ := hshort
      · rw [hnil] at hrest
        exact absurd hrest.symm (by simp)
      · rw [ho] at hrest
        cases q with
        | nil =>
          rw [List.nil_append, List.cons.injEq] at hrest
          exact hrest.2.symm
        | cons x q =>
          rw [List.cons_append, List.cons.injEq] at hrest
          exact absurd hrest.2.symm (by simp)
    · cases q with
      | nil =>
        rw [List.nil_append] at hrest
        obtain hnil | ⟨o, ho⟩ := hshort
        · rw [hnil] at hrest
          exact absurd hrest (by simp)
        · rw [ho, List.cons.injEq] at hrest
          exact hrest.2
      | cons x q =>
        rw [List.cons_append, List.cons.injEq] at hrest
        have hmem : ev ∈ pre := by
          rw [hq, hrest.1]
          simp
        rw [hpre ev hmem] at hev
        cases hev
  · intro ev hev
    rw [hlog] at hev
    obtain hmem | hmem := List.mem_append.mp hev
    · rw [hpre ev hmem]
      decide
    · exact hout ev hmem

/-! ### one callback -/

/-- Before any outcome `doHandshake` calls `SSL_connect` and possibly one callback. -/
theorem Inv.doHandshake (h : Inv s) (hssl : s.ssl = true) (hinst : s.installed = true)
    (hstarted : s.started = true) (answer : Answer) : Inv (s.doHandshake answer) := by
  obtain ⟨pre, hpre, hlog⟩ := h.log
  have hout : s.outcome = [] := by
    rw [State.outcome, if_pos hssl, if_pos hinst]
  have hpre' : ∀ ev ∈ pre ++ [Event.sslConnect true], ev = .sslConnect true := by
    intro ev hev
    obtain hmem | hmem := List.mem_append.mp hev
    · exact hpre ev hmem
    · exact List.mem_singleton.mp hmem
  have hnoted : s.log ++ [.sslConnect s.ssl] = pre ++ [.sslConnect true] := by
    rw [hlog, hout, hssl, List.append_nil]
  cases answer with
  | connected =>
    refine ⟨⟨_, hpre', ?_⟩, fun hs => ?_, fun hs => ?_⟩
    · show s.log ++ [.sslConnect s.ssl] ++ [.successCb] = _ ++ if s.ssl then _ else _
      rw [hnoted, if_pos hssl]
      rfl
    · rw [show (s.doHandshake .connected).ssl = s.ssl from rfl, hssl] at hs
      cases hs
    · rw [show (s.doHandshake .connected).started = s.started from rfl, hstarted] at hs
      cases hs
  | wantRead =>
    refine ⟨⟨_, hpre', ?_⟩, h.failed, fun hs => ?_⟩
    · show s.log ++ [.sslConnect s.ssl] = _ ++ s.outcome
      rw [hnoted, hout, List.append_nil]
    · rw [show (s.doHandshake .wantRead).started = s.started from rfl, hstarted] at hs
      cases hs
  | wantWrite =>
    refine ⟨⟨_, hpre', ?_⟩, h.failed, fun hs => ?_⟩
    · show s.log ++ [.sslConnect s.ssl] = _ ++ s.outcome
      rw [hnoted, hout, List.append_nil]
    · rw [show (s.doHandshake .wantWrite).started = s.started from rfl, hstarted] at hs
      cases hs
  | failed =>
    refine ⟨⟨_, hpre', ?_⟩, fun _ => hinst, fun hs => ?_⟩
    · show s.log ++ [.sslConnect s.ssl] ++ [.errorCb] = _ ++ [.errorCb]
      rw [hnoted]
    · rw [show (s.doHandshake .failed).started = s.started from rfl, hstarted] at hs
      cases hs

theorem Inv.onError (h : Inv s) (hssl : s.ssl = true) (hinst : s.installed = true)
    (hstarted : s.started = true) : Inv s.onError := by
  obtain ⟨pre, hpre, hlog⟩ := h.log
  refine ⟨⟨pre, hpre, ?_⟩, fun _ => hinst, fun hs => ?_⟩
  · show s.log ++ [.errorCb] = pre ++ [.errorCb]
    rw [hlog, State.outcome, if_pos hssl, if_pos hinst, List.append_nil]
  · rw [show s.onError.started = s.started from rfl, hstarted] at hs
    cases hs

theorem Inv.handle (h : Inv s) (hssl : s.ssl = true) (hinst : s.installed = true)
    (hstarted : s.started = true) (cb : Callback) (answer : Answer) : Inv (s.handle cb answer) := by
  cases cb with
  | input => exact h.doHandshake hssl hinst hstarted answer
  | output => exact h.doHandshake hssl hinst hstarted answer
  | err => exact h.onError hssl hinst hstarted
  | hup => exact h.onError hssl hinst hstarted
  | rdhup => exact h

/-- Whatever the handler's callback does, it starts with an entry of its own in the log. -/
theorem handle_log {cb : Callback} (hcb : cb ≠ .rdhup) (answer : Answer) :
    ∃ ev post, (s.handle cb answer).log = s.log ++ ev :: post := by
  have hshake : ∃ ev post, (s.doHandshake answer).log = s.log ++ ev :: post := by
    cases answer with
    | connected => exact ⟨_, [.successCb], List.append_assoc _ _ _⟩
    | wantRead => exact ⟨_, [], rfl⟩
    | wantWrite => exact ⟨_, [], rfl⟩
    | failed => exact ⟨_, [.errorCb], List.append_assoc _ _ _⟩
  cases cb with
  | input => exact hshake
  | output => exact hshake
  | err => exact ⟨_, [], rfl⟩
  | hup => exact ⟨_, [], rfl⟩
  | rdhup => exact absurd rfl hcb

/-! ### steps and runs -/

theorem step_inv {a : Action} (h : Inv s) (hP : NotAfterFailure s a) (hs : step s a = some s') :
    Inv s' := by
  cases a with
  | start answer =>
    rw [step, Option.ite_none_left_eq_some, Option.some.injEq] at hs
    obtain ⟨hnot, rfl⟩ := hs
    obtain ⟨hssl, hinst, -⟩ := h.fresh (Bool.eq_false_iff.mpr hnot)
    have hready : Inv (({ s with started := true, tied := true }.call .enableRead).call .enableWrite) :=
      h.of_eq rfl rfl rfl rfl
    exact hready.doHandshake hssl hinst rfl answer
  | wake mask isIoChannel =>
    rw [step, Option.ite_none_right_eq_some, Option.some.injEq] at hs
    rw [← hs.2]
    exact h.of_eq rfl rfl rfl hs.1.1
  | callback answer =>
    cases hrest : s.rest with
    | nil =>
      rw [step, hrest] at hs
      cases hs
    | cons cb rest =>
      rw [step, hrest] at hs
      rw [← Option.some.inj hs]
      have hstarted : s.started = true := by
        by_contra hnot
        have hnil := (h.fresh (Bool.eq_false_iff.mpr hnot)).2.2
        rw [hrest] at hnil
        cases hnil
      have htaken : Inv { s with rest := rest } := h.of_eq rfl rfl rfl hstarted
      by_cases hinst : s.installed = true
      · rw [if_pos hinst]
        by_cases hssl : s.ssl = true
        · exact htaken.handle hssl hinst hstarted cb answer
        · have hcb : cb = .rdhup := by
            refine hP answer rfl (Bool.eq_false_iff.mpr hssl) cb ?_
            rw [hrest]
            rfl
          rw [hcb]
          exact htaken
      · rw [if_neg hinst]
        exact htaken

/-- A step after which there was one outcome only met the condition. -/
theorem step_back {a : Action} (h : Inv s) (hs : step s a = some s') (hone : OneOutcome s') :
    NotAfterFailure s a := by
  rintro answer rfl hssl cb hcb
  by_contra hne
  cases hrest : s.rest with
  | nil =>
    rw [hrest] at hcb
    cases hcb
  | cons cb' rest =>
    rw [hrest, List.head?_cons, Option.some.injEq] at hcb
    subst hcb
    rw [step, hrest] at hs
    obtain ⟨pre, -, hlog⟩ := h.log
    have hinst := h.failed hssl
    rw [← Option.some.inj hs, if_pos hinst] at hone
    obtain ⟨ev, post, hnew⟩ := handle_log (s := { s with rest := rest }) hne answer
    have hsplit : (State.handle { s with rest := rest } cb' answer).log
        = pre ++ .errorCb :: (ev :: post) := by
      rw [hnew]
      show s.log ++ _ = _
      rw [hlog, State.outcome, if_neg (by rw [hssl]; exact Bool.false_ne_true), List.append_assoc]
      rfl
    have hnil := hone.1 pre .errorCb (ev :: post) hsplit rfl
    cases hnil

theorem init_inv : Inv init :=
  ⟨⟨[], List.forall_mem_nil _, rfl⟩, fun _ => rfl, fun _ => ⟨rfl, rfl, rfl⟩⟩

/-- **The handshake settles once.**  For every sequence of events on the channel and all answers of OpenSSL:
one of the two callbacks is called at most once and nothing follows it, in every state, exactly when after
a failure no event is dispatched for which the handler has a callback: not a bit that is left of the same
wake-up, and none of a later one. -/
theorem handshake_settles_once {as : List Action} (h : run step init as = some s) :
    Along step NotAfterFailure init as ↔ Throughout step OneOutcome init as := by
  have hkeep : ∀ t a t', Inv t → NotAfterFailure t a → step t a = some t' → Inv t' ∧ OneOutcome t' := by
    intro t a t' hI hP ht
    have hI' := step_inv hI hP ht
    exact ⟨hI', hI'.oneOutcome⟩
  have hback : ∀ t a t', Inv t → step t a = some t' → OneOutcome t' → NotAfterFailure t a := by
    intro t a t' hI ht hone
    exact step_back hI ht hone
  exact along_iff_throughout NotAfterFailure Inv OneOutcome hkeep hback init_inv init_inv.oneOutcome h

/-- `SSL_connect` has to wait in `start`; then the channel is readable and it is done. -/
def settledRun : List Action :=
  [.start .wantRead, .wake (Poll.epollIn ||| Poll.epollOut) false, .callback .connected,
    .callback .failed]

theorem handshake_settles_once_connected : Throughout step OneOutcome init settledRun := by
  have hrun : (run step init settledRun).isSome = true := by decide
  obtain ⟨s, hs⟩ := Option.isSome_iff_exists.mp hrun
  exact (handshake_settles_once hs).mp (by decide)

/-- The same wake-up, but the first `SSL_connect` fails: the writable bit calls it again, with the null
pointer, and `errorCb_` a second time. -/
theorem failed_handshake_goes_on :
    ∃ s, run step init [.start .wantRead, .wake (Poll.epollIn ||| Poll.epollOut) false,
        .callback .failed, .callback .failed] = some s ∧ ¬OneOutcome s := by
  have hrun : (run step init [.start .wantRead, .wake (Poll.epollIn ||| Poll.epollOut) false,
      .callback .failed, .callback .failed]).map State.log
        = some [.sslConnect true, .sslConnect true, .errorCb, .sslConnect false, .errorCb] := by
    decide
  obtain ⟨s, hs, hlog⟩ := Option.map_eq_some_iff.mp hrun
  refine ⟨s, hs, fun hone => ?_⟩
  have hnull := hone.2 (.sslConnect false) (by rw [hlog]; simp)
  exact hnull rfl

end KwNet.Handshake
