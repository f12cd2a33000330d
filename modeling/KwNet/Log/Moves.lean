import KwNet.Log.Model

/-!
# The steps of `AsyncLogger`, inverted once

`Move` lists what an action can do, with the test that the code has passed; **`step_cases`** says that
this is all.
-/

namespace KwNet.AsyncLogger

variable {τ : Type} [DecidableEq τ]

/-- What an action can do. -/
inductive Move (s : State τ) : Action τ → State τ → Prop
  | start (hstart : s.start = .fresh) (hunborn : s.backend = .unborn) :
      Move s .start { s with running := true, backend := .entry, start := .waiting }
  | startReturn (hstart : s.start = .waiting) (hlatch : s.latch = 0) :
      Move s .startReturn { s with start := .returned }
  | append {t : τ} {logs : List UInt8} (hpc : s.thread t = .idle) :
      Move s (.append t logs) (s.goto t (.appendLoad logs))
  | stop {t : τ} (hpc : s.thread t = .idle) :
      Move s (.stop t) { s.goto t .stopLoad with running := false, stops := s.stops + 1 }
  /-- `append` returns because the logger is not available. -/
  | refuse {t : τ} {logs : List UInt8} (hpc : s.thread t = .appendLoad logs)
      (havail : has s.word available = false) :
      Move s (.step t) { s.goto t .idle with refused := s.refused ++ [logs] }
  | appendSleep {t : τ} {logs : List UInt8} (hpc : s.thread t = .appendLoad logs)
      (havail : has s.word available = true) :
      Move s (.step t) (s.goto t (.appendWait logs))
  | appendLook {t : τ} {logs : List UInt8} (hpc : s.thread t = .appendLoad logs)
      (havail : has s.word available = true) (hbusy : has s.word busy = false) :
      Move s (.step t) (s.goto t (.appendCas logs s.word))
  /-- `append` looks again, after `futex_wait` or a CAS that failed. -/
  | appendAgain {t : τ} {logs : List UInt8}
      (hpc : s.thread t = .appendWait logs ∨ ∃ old, s.thread t = .appendCas logs old ∧ s.word ≠ old) :
      Move s (.step t) (s.goto t (.appendLoad logs))
  | acquire {t : τ} {logs : List UInt8} (hpc : s.thread t = .appendCas logs s.word) :
      Move s (.step t) { s.goto t (.appendBody logs) with
        word := s.word ||| appending
        acquired := s.acquired ++ [logs] }
  | fill {t : τ} {logs : List UInt8} (hpc : s.thread t = .appendBody logs) :
      Move s (.step t) ((s.fill logs).1.goto t (.appendStore (s.fill logs).2))
  | release {t : τ} {v : Word} (hpc : s.thread t = .appendStore v) :
      Move s (.step t) { s.goto t .idle with word := v }
  /-- `stop` returns because the logger is not available. -/
  | stopEarly {t : τ} (hpc : s.thread t = .stopLoad) (havail : has s.word available = false) :
      Move s (.step t) { s.goto t .idle with stopped := s.stopped + 1 }
  | stopSleep {t : τ} (hpc : s.thread t = .stopLoad) (havail : has s.word available = true) :
      Move s (.step t) (s.goto t .stopWait)
  | stopLook {t : τ} (hpc : s.thread t = .stopLoad) (havail : has s.word available = true)
      (hbusy : has s.word busy = false) : Move s (.step t) (s.goto t (.stopCas s.word))
  | stopAgain {t : τ}
      (hpc : s.thread t = .stopWait ∨ ∃ old, s.thread t = .stopCas old ∧ s.word ≠ old) :
      Move s (.step t) (s.goto t .stopLoad)
  | stopSwap {t : τ} (hpc : s.thread t = .stopCas s.word) :
      Move s (.step t) { s.goto t .stopJoin with word := 0 }
  | stopJoin {t : τ} (hpc : s.thread t = .stopJoin) (hended : s.backend = .ended) :
      Move s (.step t) { s.goto t .idle with stopped := s.stopped + 1 }
  | entry {spurious : Bool} (hpc : s.backend = .entry) :
      Move s (.backend spurious) { s with
        latch := s.latch - 1
        newBuffer1 := some .empty
        newBuffer2 := some .empty
        buffersToWrite := []
        backend := .test }
  | enter {spurious : Bool} (hpc : s.backend = .test) (hasserts : s.asserts = true) :
      Move s (.backend spurious) { s with backend := .load }
  | leave {spurious : Bool} (hpc : s.backend = .test) (hrunning : s.running = false) :
      Move s (.backend spurious) { s with backend := .exit }
  /-- The backend returns because the logger is not available. -/
  | giveUp {spurious : Bool} (hpc : s.backend = .load) (havail : has s.word available = false) :
      Move s (.backend spurious) { s with backend := .ended }
  | lookFull {spurious : Bool} (hpc : s.backend = .load) (havail : has s.word available = true)
      (hfull : has s.word full = true) :
      Move s (.backend spurious) { s with backend := .casFull s.word }
  | sleep {spurious : Bool} (hpc : s.backend = .load) (havail : has s.word available = true) :
      Move s (.backend spurious) { s with backend := .wait }
  | look {spurious : Bool} (hpc : s.backend = .load) (havail : has s.word available = true)
      (hfull : has s.word full = false) (happending : has s.word appending = false) :
      Move s (.backend spurious) { s with backend := .cas s.word }
  | again {spurious : Bool} (hpc : s.backend = .wait ∨ ∃ old, s.backend = .cas old ∧ s.word ≠ old) :
      Move s (.backend spurious) { s with backend := .load }
  | lockFull {spurious : Bool} (hpc : s.backend = .casFull s.word) :
      Move s (.backend spurious)
        { s with word := (s.word ^^^ full) ||| swaping, backend := .swap }
  | againFull {spurious : Bool} {old : Word} (hpc : s.backend = .casFull old) :
      Move s (.backend spurious) { s with backend := .casFull s.word }
  | lock {spurious : Bool} (hpc : s.backend = .cas s.word) :
      Move s (.backend spurious) { s with word := s.word ||| swaping, backend := .swap }
  | swap {spurious : Bool} {b : LogBuffer} (hpc : s.backend = .swap) (hnew : s.newBuffer1 = some b) :
      Move s (.backend spurious) (s.swapBuffers b)
  | unlock {spurious : Bool} (hpc : s.backend = .unlock) :
      Move s (.backend spurious)
        { s with word := s.word - swaping, backend := .write s.buffersToWrite }
  | write {spurious : Bool} {b : LogBuffer} {todo : List LogBuffer}
      (hpc : s.backend = .write (b :: todo)) :
      Move s (.backend spurious) { s with file := s.file ++ b.data, backend := .write todo }
  | recycle {spurious : Bool} (hpc : s.backend = .write []) : Move s (.backend spurious) s.recycle
  | exit {spurious : Bool} (hpc : s.backend = .exit) :
      Move s (.backend spurious) { s with word := 0, backend := .ended }

variable {s s' : State τ}

theorem stepThread_cases {t : τ} (h : s.stepThread t = some s') : Move s (.step t) s' := by
  unfold State.stepThread at h
  split at h
  · cases h
  · next logs hpc =>
    split at h
    · next havail =>
      cases h
      exact .refuse hpc (by simpa using havail)
    · next havail =>
      split at h
      · cases h
        exact .appendSleep hpc (by simpa using havail)
      · next hbusy =>
        cases h
        exact .appendLook hpc (by simpa using havail) (Bool.eq_false_iff.mpr hbusy)
  · next logs hpc =>
    cases h
    exact .appendAgain (.inl hpc)
  · next logs old hpc =>
    split at h
    · next hword =>
      subst hword
      cases h
      exact .acquire hpc
    · next hword =>
      cases h
      exact .appendAgain (.inr ⟨old, hpc, hword⟩)
  · next logs hpc =>
    cases h
    exact .fill hpc
  · next v hpc =>
    cases h
    exact .release hpc
  · next hpc =>
    split at h
    · next havail =>
      cases h
      exact .stopEarly hpc (by simpa using havail)
    · next havail =>
      split at h
      · cases h
        exact .stopSleep hpc (by simpa using havail)
      · next hbusy =>
        cases h
        exact .stopLook hpc (by simpa using havail) (Bool.eq_false_iff.mpr hbusy)
  · next hpc =>
    cases h
    exact .stopAgain (.inl hpc)
  · next old hpc =>
    split at h
    · next hword =>
      subst hword
      cases h
      exact .stopSwap hpc
    · next hword =>
      cases h
      exact .stopAgain (.inr ⟨old, hpc, hword⟩)
  · next hpc =>
    split at h <;> cases h
    next hended => exact .stopJoin hpc hended

theorem stepBackend_cases {spurious : Bool} (h : s.stepBackend spurious = some s') :
    Move s (.backend spurious) s' := by
  unfold State.stepBackend at h
  split at h
  · cases h
  · next hpc =>
    split at h <;> cases h
    exact .entry hpc
  · next hpc =>
    split at h
    · split at h <;> cases h
      next hasserts => exact .enter hpc hasserts
    · next hrunning =>
      cases h
      exact .leave hpc (Bool.eq_false_iff.mpr hrunning)
  · next hpc =>
    split at h
    · next havail =>
      cases h
      exact .giveUp hpc (by simpa using havail)
    · next havail =>
      have havail' : has s.word available = true := by simpa using havail
      split at h
      · next hfull =>
        cases h
        exact .lookFull hpc havail' hfull
      · next hfull =>
        split at h
        · cases h
          exact .sleep hpc havail'
        · next happending =>
          cases h
          exact .look hpc havail' (Bool.eq_false_iff.mpr hfull) (Bool.eq_false_iff.mpr happending)
  · next hpc =>
    cases h
    exact .again (.inl hpc)
  · next old hpc =>
    split at h
    · next hword =>
      obtain ⟨rfl, -⟩ := hword
      cases h
      exact .lockFull hpc
    · cases h
      exact .againFull hpc
  · next old hpc =>
    split at h
    · next hword =>
      subst hword
      cases h
      exact .lock hpc
    · next hword =>
      cases h
      exact .again (.inr ⟨old, hpc, hword⟩)
  · next hpc =>
    obtain ⟨b, hnew, rfl⟩ := Option.map_eq_some_iff.mp h
    exact .swap hpc hnew
  · next hpc =>
    cases h
    exact .unlock hpc
  · next b todo hpc =>
    cases h
    exact .write hpc
  · next hpc =>
    split at h <;> cases h
    exact .recycle hpc
  · next hpc =>
    cases h
    exact .exit hpc
  · cases h

/-- **What an action can do.** -/
theorem step_cases {a : Action τ} (h : step s a = some s') : Move s a s' := by
  cases a with
  | start =>
    simp only [step] at h
    split at h <;> cases h
    next hstart hunborn => exact .start hstart hunborn
  | startReturn =>
    simp only [step] at h
    split at h
    · next hstart =>
      split at h <;> cases h
      next hlatch => exact .startReturn hstart hlatch
    · cases h
  | append t logs =>
    simp only [step] at h
    split at h <;> cases h
    next hpc => exact .append hpc
  | stop t =>
    simp only [step] at h
    split at h <;> cases h
    next hpc => exact .stop hpc
  | step t => exact stepThread_cases h
  | backend spurious => exact stepBackend_cases h

end KwNet.AsyncLogger
