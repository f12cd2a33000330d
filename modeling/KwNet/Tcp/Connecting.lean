import KwNet.Lib.Run
import KwNet.Tcp.Call

/-!
# Calls while the connection is made

`connectEstablished` stores `Connected | used` on the loop thread; a `send`, `set_unused` or `shutdown` of
another thread that finds `Connecting` waits for that in a futex, once, and does not look at `Connecting`
again when the wait is over.

* `Opening` — the state word, the loop thread inside `connectEstablished`, any pool of callers;
* `WaitsAgain` — the step is not the access with which a call leaves its wait too early;
* **`calls_wait`** — until the store every call waits, and the word stays, exactly in the runs of such steps.
-/

namespace KwNet.Tcp

open KwNet.Lib

/-- `connectEstablished`, access by access. -/
inductive EstablishPc where
  | load
  /-- `tie_` and `EnableRead`. -/
  | tie
  /-- `_store_release(&state_, Connected | used)`. -/
  | store
  /-- `futex_wake(&state_)`. -/
  | wake
  | done
  deriving DecidableEq, Repr

/-- `Connected | used` has been stored. -/
def EstablishPc.stored : EstablishPc → Bool
  | .load | .tie | .store => false
  | .wake | .done => true

/-- A connection that is being established. -/
structure Opening (ι : Type) where
  word : Word
  loop : EstablishPc
  /-- The calls in progress. -/
  callers : ι → Option Call
  /-- How the calls that are over have ended. -/
  ended : List Next

/-- The calls of the other threads. -/
inductive EarlyCall where
  | send (job : Job)
  | setUnused
  | shutdown
  deriving DecidableEq, Repr

def EarlyCall.begin : EarlyCall → Call
  | .send job => .send .load job
  | .setUnused => .setUnused .load
  | .shutdown => .shutdown .load

inductive OpeningAct (ι : Type) where
  | invoke (t : ι) (c : EarlyCall)
  | move (t : ι)
  /-- A futex wait returns by itself. -/
  | spurious (t : ι)
  | establish
  deriving DecidableEq, Repr

variable {ι : Type} [DecidableEq ι]

/-- A call has performed one access. -/
def Opening.afterCall (s : Opening ι) (t : ι) (e : CallEffect) : Opening ι :=
  let woken := if e.wake then fun u => (s.callers u).map Call.wake else s.callers
  match e.next with
  | .goto c => { s with word := e.word, callers := Function.update woken t (some c) }
  | next => { s with word := e.word, callers := Function.update woken t none, ended := s.ended ++ [next] }

def Opening.step (s : Opening ι) : OpeningAct ι → Option (Opening ι)
  | .invoke t c =>
    match s.callers t with
    | none => some { s with callers := Function.update s.callers t (some c.begin) }
    | some _ => none
  | .move t => (s.callers t).bind fun c => (callStep s.word c).map (s.afterCall t)
  | .spurious t =>
    (s.callers t).bind fun c => c.spurious.map fun c' =>
      { s with callers := Function.update s.callers t (some c') }
  | .establish =>
    match s.loop with
    | .load => some { s with loop := .tie }
    | .tie => some { s with loop := .store }
    | .store => some { s with loop := .wake, word := established }
    | .wake => some { s with loop := .done, callers := fun u => (s.callers u).map Call.wake }
    | .done => none

/-- A connection whose constructor has run. -/
def Opening.init (ι : Type) : Opening ι :=
  { word := StateE.connecting.word, loop := .load, callers := fun _ => none, ended := [] }

/-- Before the store no call has dropped its message, returned or changed the word. -/
def Opening.Undisturbed (s : Opening ι) : Prop :=
  s.loop.stored = false → s.word = StateE.connecting.word ∧ s.ended = []

/-- The access at which a call does not wait any longer: the look at `state_` behind the wait, and in
`shutdown` the CAS after it. -/
def Call.leaves : Call → Bool
  | .send .reload _ | .setUnused .reload | .shutdown (.casDisconnecting _) => true
  | _ => false

/-- No call leaves its wait before the store. -/
def WaitsAgain (s : Opening ι) : OpeningAct ι → Prop
  | .move t => s.loop.stored = false → ∀ c ∈ s.callers t, c.leaves = false
  | _ => True

instance (s : Opening ι) (a : OpeningAct ι) : Decidable (WaitsAgain s a) := by
  cases a <;> unfold WaitsAgain <;> infer_instance

/-- Where a call stands that has found nothing but `Connecting`. -/
def Call.waits : Call → Bool
  | .send .load _ | .send .await _ | .send .blocked _ | .send .reload _ => true
  | .setUnused .load | .setUnused .blocked | .setUnused .reload => true
  | .setUnused (.await expected) => expected == StateE.connecting.word
  | .shutdown .load | .shutdown .await | .shutdown .blocked | .shutdown .reload => true
  | .shutdown (.casDisconnecting old) => old == StateE.connecting.word
  | _ => false

/-- What holds between the steps. -/
def Opening.Inv (s : Opening ι) : Prop :=
  s.loop.stored = false →
    s.word = StateE.connecting.word ∧ s.ended = [] ∧ ∀ t, ∀ c ∈ s.callers t, c.waits = true

variable {s s' : Opening ι}

/-- One access of a call that waits, on the word `Connecting`. -/
theorem waits_step {c : Call} {e : CallEffect} (hc : c.waits = true)
    (h : callStep StateE.connecting.word c = some e) :
    c.leaves = false ∧ e.word = StateE.connecting.word ∧ e.wake = false ∧
        (∃ c', e.next = .goto c' ∧ c'.waits = true) ∨
      c.leaves = true ∧ ∀ c', e.next ≠ .goto c' := by
  have hconn : has StateE.connecting.word .connecting = true := by decide
  have hblocks : futexBlocks StateE.connecting.word StateE.connecting.word = true := by decide
  have hused : has StateE.connecting.word .used = false := by decide
  cases c with
  | send pc job =>
    cases pc with
    | load =>
      rw [callStep, sendStep, if_pos hconn, Option.some.injEq] at h
      subst h
      exact .inl ⟨rfl, rfl, rfl, _, rfl, rfl⟩
    | await =>
      rw [callStep, sendStep, if_pos hblocks, Option.some.injEq] at h
      subst h
      exact .inl ⟨rfl, rfl, rfl, _, rfl, rfl⟩
    | reload =>
      rw [callStep, sendStep, sendHead, unlikelyHas_disconnected, if_neg Bool.false_ne_true, hused,
        if_pos (show (!false) = true from rfl), Option.some.injEq] at h
      subst h
      exact .inr ⟨rfl, fun c' heq => by cases heq⟩
    | _ => first | (cases hc; done) | cases h
  | setUnused pc =>
    cases pc with
    | load =>
      rw [callStep, unusedStep, if_pos hconn, Option.some.injEq] at h
      subst h
      exact .inl ⟨rfl, rfl, rfl, _, rfl, beq_self_eq_true _⟩
    | await expected =>
      obtain rfl : expected = StateE.connecting.word := eq_of_beq hc
      rw [callStep, unusedStep, if_pos hblocks, Option.some.injEq] at h
      subst h
      exact .inl ⟨rfl, rfl, rfl, _, rfl, rfl⟩
    | reload =>
      rw [callStep, unusedStep, unusedHead, unlikelyHas_disconnected, if_neg Bool.false_ne_true, hused,
        if_pos (show (!false) = true from rfl), Option.some.injEq] at h
      subst h
      exact .inr ⟨rfl, fun c' heq => by cases heq⟩
    | _ => first | (cases hc; done) | cases h
  | shutdown pc =>
    cases pc with
    | load =>
      rw [callStep, shutdownStep, if_pos hconn, Option.some.injEq] at h
      subst h
      exact .inl ⟨rfl, rfl, rfl, _, rfl, rfl⟩
    | await =>
      rw [callStep, shutdownStep, if_pos hblocks, Option.some.injEq] at h
      subst h
      exact .inl ⟨rfl, rfl, rfl, _, rfl, rfl⟩
    | reload =>
      rw [callStep, shutdownStep, shutdownHead, if_neg (by decide), if_neg (by decide), if_neg (by decide),
        Option.some.injEq] at h
      subst h
      exact .inl ⟨rfl, rfl, rfl, _, rfl, beq_self_eq_true _⟩
    | casDisconnecting old =>
      obtain rfl : old = StateE.connecting.word := eq_of_beq hc
      rw [callStep, shutdownStep, if_pos rfl, Option.some.injEq] at h
      subst h
      exact .inr ⟨rfl, fun c' heq => by cases heq⟩
    | _ => first | (cases hc; done) | cases h

/-- A wait that returns leads to the look at `state_` behind it. -/
theorem waits_spurious {c c' : Call} (hc : c.waits = true) (h : c.spurious = some c') : c'.waits = true := by
  cases c with
  | send pc job => cases pc <;> first | (cases h; done) | (cases h; rfl)
  | setUnused pc => cases pc <;> first | (cases h; done) | (cases h; rfl)
  | shutdown pc => cases pc <;> first | (cases h; done) | (cases h; rfl)

/-- One caller goes on, the others stay. -/
theorem waits_update {callers : ι → Option Call} (h : ∀ u, ∀ d ∈ callers u, d.waits = true) (t : ι) {c : Call}
    (hc : c.waits = true) : ∀ u, ∀ d ∈ Function.update callers t (some c) u, d.waits = true := by
  intro u d hd
  by_cases hu : u = t
  · rw [hu, Function.update_self] at hd
    rwa [← Option.some.inj hd]
  · rw [Function.update_of_ne hu] at hd
    exact h u d hd

/-- A step of a waiting caller. -/
theorem Opening.Inv.step_move (h : s.Inv) (hloop : s.loop.stored = false) {t : ι} {c : Call}
    (hc : s.callers t = some c) {e : CallEffect} (he : callStep s.word c = some e) :
    (c.leaves = false → (s.afterCall t e).Inv) ∧ ((s.afterCall t e).Undisturbed → c.leaves = false) := by
  obtain ⟨hword, hended, hwaits⟩ := h hloop
  rw [hword] at he
  obtain ⟨hleaves, heword, hwake, c', hgoto, hc'⟩ | ⟨hleaves, hover⟩ := waits_step (hwaits t c hc) he
  · refine ⟨fun _ _ => ?_, fun _ => hleaves⟩
    have hafter : s.afterCall t e
        = { s with word := e.word, callers := Function.update s.callers t (some c') } := by
      simp only [Opening.afterCall, hgoto, hwake, if_neg Bool.false_ne_true]
    rw [hafter]
    exact ⟨heword, hended, waits_update hwaits t hc'⟩
  · refine ⟨fun hno => ?_, fun hJ => ?_⟩
    · rw [hleaves] at hno
      cases hno
    · -- the call is over
      exfalso
      have hafter : (s.afterCall t e).ended = [e.next] ∧ (s.afterCall t e).loop = s.loop := by
        unfold Opening.afterCall
        cases hnext : e.next with
        | goto c' => exact absurd hnext (hover c')
        | _ =>
          dsimp only
          rw [hended]
          exact ⟨rfl, rfl⟩
      have hnone := (hJ (by rw [hafter.2]; exact hloop)).2
      rw [hafter.1] at hnone
      cases hnone

/-- A step keeps the callers waiting exactly if it is not the one with which a call leaves its wait. -/
theorem Opening.Inv.step (h : s.Inv) {a : OpeningAct ι} (hs : s.step a = some s') :
    (WaitsAgain s a → s'.Inv) ∧ (s'.Undisturbed → WaitsAgain s a) := by
  cases a with
  | invoke t c =>
    refine ⟨fun _ hloop => ?_, fun _ => trivial⟩
    rw [Opening.step] at hs
    cases hc : s.callers t with
    | some d =>
      rw [hc] at hs
      cases hs
    | none =>
      rw [hc] at hs
      obtain rfl := Option.some.inj hs
      obtain ⟨hword, hended, hwaits⟩ := h hloop
      refine ⟨hword, hended, waits_update hwaits t ?_⟩
      cases c <;> rfl
  | move t =>
    rw [Opening.step] at hs
    obtain ⟨c, hc, hs⟩ := Option.bind_eq_some_iff.mp hs
    obtain ⟨e, he, rfl⟩ := Option.map_eq_some_iff.mp hs
    have hcond : WaitsAgain s (.move t) ↔ (s.loop.stored = false → c.leaves = false) := by
      refine ⟨fun hw hloop => hw hloop c hc, fun hw hloop d hd => ?_⟩
      rw [show d = c from Option.some.inj (hd.symm.trans hc)]
      exact hw hloop
    have hsame : (s.afterCall t e).loop = s.loop := by
      unfold Opening.afterCall
      cases e.next <;> rfl
    rw [hcond]
    refine ⟨fun hw hloop => ?_, fun hJ hloop => (h.step_move hloop hc he).2 hJ⟩
    have hloop' := hsame ▸ hloop
    exact (h.step_move hloop' hc he).1 (hw hloop') hloop
  | spurious t =>
    refine ⟨fun _ hloop => ?_, fun _ => trivial⟩
    rw [Opening.step] at hs
    obtain ⟨c, hc, hs⟩ := Option.bind_eq_some_iff.mp hs
    obtain ⟨c', hc', rfl⟩ := Option.map_eq_some_iff.mp hs
    obtain ⟨hword, hended, hwaits⟩ := h hloop
    exact ⟨hword, hended, waits_update hwaits t (waits_spurious (hwaits t c hc) hc')⟩
  | establish =>
    refine ⟨fun _ hloop => ?_, fun _ => trivial⟩
    rw [Opening.step] at hs
    cases hpc : s.loop with
    | load =>
      rw [hpc] at hs
      obtain rfl := Option.some.inj hs
      exact h (by rw [hpc]; rfl)
    | tie =>
      rw [hpc] at hs
      obtain rfl := Option.some.inj hs
      exact h (by rw [hpc]; rfl)
    | store =>
      rw [hpc] at hs
      obtain rfl := Option.some.inj hs
      cases hloop
    | wake =>
      rw [hpc] at hs
      obtain rfl := Option.some.inj hs
      cases hloop
    | done =>
      rw [hpc] at hs
      cases hs

omit [DecidableEq ι] in
theorem Opening.Inv.undisturbed (h : s.Inv) : s.Undisturbed := fun hloop => ⟨(h hloop).1, (h hloop).2.1⟩

/-- **Calls while Connecting.**  In any interleaving of `send`, `set_unused` and `shutdown` calls of other
threads with `connectEstablished`, and with futex waits that return at any time: before `Connected | used`
is stored no call drops its message or returns, and the word stays, exactly as long as no call leaves its
wait before. -/
theorem calls_wait {as : List (OpeningAct ι)} (hrun : run Opening.step (Opening.init ι) as = some s) :
    Along Opening.step WaitsAgain (Opening.init ι) as ↔
      Throughout Opening.step Opening.Undisturbed (Opening.init ι) as := by
  have hinit : (Opening.init ι).Inv := fun _ => ⟨rfl, rfl, fun t c hc => by cases hc⟩
  refine along_iff_throughout WaitsAgain Opening.Inv Opening.Undisturbed ?_ ?_ hinit hinit.undisturbed hrun
  · intro s a s' h hP hs
    have hnext := (h.step hs).1 hP
    exact ⟨hnext, hnext.undisturbed⟩
  · intro s a s' h hs hJ
    exact (h.step hs).2 hJ

/-- A `send` sleeps until the store has been made, and is admitted. -/
theorem calls_wait_admitted :
    ∃ s : Opening Unit, run Opening.step (Opening.init Unit)
        [.invoke () (.send ⟨0, .piece, 0, 1⟩), .move (), .move (), .establish, .establish, .establish, .establish,
          .move (), .move (), .move ()] = some s ∧ s.ended = [.admits ⟨0, .piece, 0, 1⟩] ∧
      Throughout Opening.step Opening.Undisturbed (Opening.init Unit)
        [.invoke () (.send ⟨0, .piece, 0, 1⟩), .move (), .move (), .establish, .establish, .establish, .establish,
          .move (), .move (), .move ()] := by
  have hrun : (run Opening.step (Opening.init Unit)
      [.invoke () (.send ⟨0, .piece, 0, 1⟩), .move (), .move (), .establish, .establish, .establish, .establish,
        .move (), .move (), .move ()]).map Opening.ended = some [.admits ⟨0, .piece, 0, 1⟩] := by
    decide
  obtain ⟨s, hs, hended⟩ := Option.map_eq_some_iff.mp hrun
  exact ⟨s, hs, hended, (calls_wait hs).mp (by decide)⟩

/-- The wait of a `send` returns by itself: the message is dropped as one behind `set_unused`. -/
theorem spurious_return_drops :
    ∃ s : Opening Unit, run Opening.step (Opening.init Unit)
        [.invoke () (.send ⟨0, .piece, 0, 1⟩), .move (), .move (), .spurious (), .move ()] = some s ∧
      s.ended = [.refuse ⟨0, .piece, 0, 1⟩ .unused] ∧ ¬s.Undisturbed := by
  have hrun : (run Opening.step (Opening.init Unit)
      [.invoke () (.send ⟨0, .piece, 0, 1⟩), .move (), .move (), .spurious (), .move ()]).map
        (fun s => (s.ended, s.loop)) = some ([.refuse ⟨0, .piece, 0, 1⟩ .unused], .load) := by
    decide
  obtain ⟨s, hs, hend⟩ := Option.map_eq_some_iff.mp hrun
  obtain ⟨hended, hloop⟩ := Prod.mk.inj hend
  refine ⟨s, hs, hended, fun h => ?_⟩
  have hnone := (h (by rw [hloop]; rfl)).2
  rw [hended] at hnone
  cases hnone

end KwNet.Tcp
