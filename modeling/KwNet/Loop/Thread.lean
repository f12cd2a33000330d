import KwNet.Threads.Latch

/-!
# `EventloopThread`: a loop on a thread of its own

`EventloopThread.cpp` over `Thread::start` and `Thread::join`.  The user's thread calls `startLoop` and destroys the
object; the thread it starts has the `EventLoop` on its stack.  `latch` of the `Thread` and `mutex` of the
`EventloopThread` are machines of `KwNet.Threads.Mutex`, so every access to what they protect is one step.

* `State.step` — both threads, with the accesses to `pid`, `loop` and the loop's `quit` outside the critical sections;
* `State.UserOk`, `State.OwnOk` — where the two threads stand, place by place;
* **`inv_of_run`** — they stand so in every run in which nobody but the destructor calls `quit_`.

`pthread_create` succeeds, and `cb` returns.
-/

namespace KwNet.EventloopThread

open KwNet.Lib KwNet.Lib.Monitor KwNet.Mutex

/-- The thread that uses the object, and the object's own. -/
inductive Who where
  | user
  | own
  deriving DecidableEq

instance : Fintype Who := ⟨{.user, .own}, fun t => by cases t <;> decide⟩

/-- An `EventLoop*`. -/
inductive Ptr where
  | null
  | loop
  deriving DecidableEq

/-- What `mutex` protects, and the local variable of `startLoop`. -/
structure Cell where
  loop : Ptr
  loop_ : Ptr
  deriving DecidableEq

/-- The critical sections of `mutex`. -/
inductive Section where
  | startLoop
  /-- `loop = &loop_` and `notifyAll()` of `threadFunc`. -/
  | publish
  /-- `loop = nullptr` of `threadFunc`. -/
  | finish
  deriving DecidableEq

def code : Section → Procedure Cell
  | .startLoop =>
    { guard := fun c => c.loop != .null, body := fun c => { c with loop_ := c.loop }, wakes := fun _ => false }
  | .publish => { guard := fun _ => true, body := fun c => { c with loop := .loop }, wakes := fun _ => true }
  | .finish => { guard := fun _ => true, body := fun c => { c with loop := .null }, wakes := fun _ => false }

inductive UserPc where
  | fresh
  /-- In `thread.start()`, in `latch.wait()`. -/
  | latchWait
  /-- `assert(pid > 0)`. -/
  | pidCheck
  /-- In the critical section of `startLoop`. -/
  | cellWait
  /-- `startLoop` has returned. -/
  | running
  /-- In `~EventloopThread`, at `quit = true` of `loop->quit_()`. -/
  | dtorQuit
  /-- At `wakeup()` of `quit_`. -/
  | dtorWake
  /-- In `thread.join()`. -/
  | dtorJoin
  | destroyed
  deriving DecidableEq

inductive OwnPc where
  | unborn
  /-- `*pid_ = CurrentThread::tid()`. -/
  | pidStore
  /-- In `latch_->countDown()`. -/
  | latchDown
  /-- `EventLoop loop_`. -/
  | construct
  /-- In `cb(&loop_)`. -/
  | callback
  | publish
  /-- In `loop_.Loop()`. -/
  | loop
  | finish
  /-- The end of `threadFunc`, where `loop_` is destroyed. -/
  | destruct
  | ended
  deriving DecidableEq

structure State where
  latch : Mutex.State Who CountDownLatch.Member ℤ
  cell : Mutex.State Who Section Cell
  user : UserPc
  own : OwnPc
  pid : ℕ
  /-- `quit` of the loop. -/
  quit : Bool
  /-- The loop exists. -/
  alive : Bool
  /-- An assertion has failed, or `quit` of a loop that does not exist was written. -/
  fault : Bool
  /-- `wakeup()` was called on a loop that does not exist. -/
  late : Bool

/-- The next access of a thread. -/
inductive Move where
  /-- Outside the critical sections. -/
  | user
  | own
  /-- In a member of the latch. -/
  | latch (t : Who)
  /-- In a critical section of `mutex`. -/
  | cell (t : Who)
  deriving DecidableEq

inductive Action where
  | startLoop
  /-- `~EventloopThread` is called. -/
  | destroy
  | move (m : Move)
  /-- The thread wakes for no reason. -/
  | latchRouse (t : Who)
  | cellRouse (t : Who)
  /-- `quit = true` of a `quit_` called by the user. -/
  | quitByUser
  /-- The same, called by `cb` or in `Loop()`. -/
  | quitByLoop
  deriving DecidableEq

/-- `threadFunc` stores nothing before it is started; `latch(1)`, `loop(nullptr)`. -/
def State.init : State where
  latch := .init Who CountDownLatch.Member 1
  cell := .init Who Section ⟨.null, .null⟩
  user := .fresh
  own := .unborn
  pid := 0
  quit := false
  alive := false
  fault := false
  late := false

/-- `quit = true` of `quit_()`. -/
def State.quitLoop (s : State) : State := if s.alive then { s with quit := true } else { s with fault := true }

def State.userStep (s : State) : Option State :=
  match s.user with
  | .latchWait => if s.latch.pc .user = .outside then some { s with user := .pidCheck } else none
  | .pidCheck =>
    if s.pid > 0 then
      (Mutex.step code s.cell (.call .user .startLoop)).map fun cell => { s with cell := cell, user := .cellWait }
    else some { s with fault := true }
  | .cellWait => if s.cell.pc .user = .outside then some { s with user := .running } else none
  | .dtorQuit => some { s.quitLoop with user := .dtorWake }
  -- the caller is not in the thread of the loop
  | .dtorWake => some { s with user := .dtorJoin, late := s.late || !s.alive }
  | .dtorJoin => if s.own = .ended then some { s with user := .destroyed } else none
  | _ => none

def State.ownStep (tid : ℕ) (s : State) : Option State :=
  match s.own with
  | .pidStore =>
    (Mutex.step CountDownLatch.code s.latch (.call .own .countDown)).map fun latch =>
      { s with latch := latch, own := .latchDown, pid := tid }
  | .latchDown => if s.latch.pc .own = .outside then some { s with own := .construct } else none
  | .construct => some { s with own := .callback, alive := true }
  | .callback =>
    (Mutex.step code s.cell (.call .own .publish)).map fun cell => { s with cell := cell, own := .publish }
  | .publish => if s.cell.pc .own = .outside then some { s with own := .loop } else none
  | .loop =>
    if s.quit then
      (Mutex.step code s.cell (.call .own .finish)).map fun cell => { s with cell := cell, own := .finish }
    else none
  | .finish => if s.cell.pc .own = .outside then some { s with own := .destruct } else none
  | .destruct => some { s with own := .ended, alive := false }
  | _ => none

/-- `tid` is what `CurrentThread::tid()` returns on the object's own thread. -/
def State.move (tid : ℕ) (s : State) : Move → Option State
  | .user => s.userStep
  | .own => s.ownStep tid
  | .latch t => (s.latch.access CountDownLatch.code t).map fun latch => { s with latch := latch }
  | .cell t => (s.cell.access code t).map fun cell => { s with cell := cell }

def State.step (tid : ℕ) (s : State) : Action → Option State
  | .startLoop =>
    match s.user with
    | .fresh =>
      (Mutex.step CountDownLatch.code s.latch (.call .user .wait)).map fun latch =>
        { s with latch := latch, user := .latchWait, own := .pidStore }
    | _ => none
  | .destroy =>
    -- `loop` is read without the mutex
    if s.user = .fresh ∨ s.user = .running then
      some { s with user := if s.cell.datum.loop = .null then .destroyed else .dtorQuit }
    else none
  | .move m => s.move tid m
  | .latchRouse t => (Mutex.step CountDownLatch.code s.latch (.rouse t)).map fun latch => { s with latch := latch }
  | .cellRouse t => (Mutex.step code s.cell (.rouse t)).map fun cell => { s with cell := cell }
  | .quitByUser => if s.user = .running then some s.quitLoop else none
  | .quitByLoop => if s.own = .callback ∨ s.own = .loop then some s.quitLoop else none

/-- `quit_` is called by the destructor only. -/
def OnlyDestructorQuits (as : List Action) : Prop := .quitByUser ∉ as ∧ .quitByLoop ∉ as

instance (as : List Action) : Decidable (OnlyDestructorQuits as) := inferInstanceAs (Decidable (_ ∧ _))

/-! ### The invariant -/

/-- From the critical section on in which the loop is handed over. -/
def OwnPc.published : OwnPc → Bool
  | .publish => true
  | .loop => true
  | .finish => true
  | .destruct => true
  | .ended => true
  | _ => false

/-- Where the user's thread stands, and what it relies on there. -/
def State.UserOk (s : State) : Prop :=
  match s.user with
  | .fresh => s.latch.stage .user = .out ∧ s.cell.stage .user = .out ∧ s.own = .unborn
  | .latchWait =>
    (s.latch.stage .user = .pending .wait ∨
      (s.latch.stage .user = .done .wait ∨ s.latch.stage .user = .out) ∧ s.latch.datum ≤ 0) ∧
      s.cell.stage .user = .out ∧ s.own ≠ .unborn
  | .pidCheck => s.latch.stage .user = .out ∧ s.latch.datum ≤ 0 ∧ s.cell.stage .user = .out ∧ s.own ≠ .unborn
  | .cellWait =>
    s.latch.stage .user = .out ∧ s.own ≠ .unborn ∧
      (s.cell.stage .user = .pending .startLoop ∨
        (s.cell.stage .user = .done .startLoop ∨ s.cell.stage .user = .out) ∧ s.cell.datum = ⟨.loop, .loop⟩)
  | .running => s.latch.stage .user = .out ∧ s.cell.stage .user = .out ∧ s.own ≠ .unborn ∧ s.cell.datum = ⟨.loop, .loop⟩
  | .dtorQuit => s.latch.stage .user = .out ∧ s.cell.stage .user = .out ∧ s.own ≠ .unborn ∧ s.cell.datum = ⟨.loop, .loop⟩
  | .dtorWake => s.latch.stage .user = .out ∧ s.cell.stage .user = .out ∧ s.own.published = true ∧ s.quit = true
  | .dtorJoin => s.latch.stage .user = .out ∧ s.cell.stage .user = .out ∧ s.own.published = true ∧ s.quit = true
  | .destroyed => s.latch.stage .user = .out ∧ s.cell.stage .user = .out ∧ (s.own = .unborn ∨ s.own = .ended)

/-- Where the object's own thread stands. -/
def State.OwnOk (tid : ℕ) (s : State) : Prop :=
  match s.own with
  | .unborn =>
    s.latch.stage .own = .out ∧ s.latch.datum = 1 ∧ s.cell.stage .own = .out ∧ s.cell.datum.loop = .null ∧ s.alive = false
  | .pidStore =>
    s.latch.stage .own = .out ∧ s.latch.datum = 1 ∧ s.cell.stage .own = .out ∧ s.cell.datum.loop = .null ∧ s.alive = false
  | .latchDown =>
    (s.latch.stage .own = .pending .countDown ∧ s.latch.datum = 1 ∨
      (s.latch.stage .own = .done .countDown ∨ s.latch.stage .own = .out) ∧ s.latch.datum = 0) ∧
      s.cell.stage .own = .out ∧ s.cell.datum.loop = .null ∧ s.alive = false ∧ s.pid = tid
  | .construct =>
    s.latch.stage .own = .out ∧ s.latch.datum = 0 ∧ s.cell.stage .own = .out ∧ s.cell.datum.loop = .null ∧
      s.alive = false ∧ s.pid = tid
  | .callback =>
    s.latch.stage .own = .out ∧ s.latch.datum = 0 ∧ s.cell.stage .own = .out ∧ s.cell.datum.loop = .null ∧
      s.alive = true ∧ s.pid = tid
  | .publish =>
    s.latch.stage .own = .out ∧ s.latch.datum = 0 ∧
      (s.cell.stage .own = .pending .publish ∧ s.cell.datum.loop = .null ∨
        (s.cell.stage .own = .done .publish ∨ s.cell.stage .own = .out) ∧ s.cell.datum.loop = .loop) ∧
      s.alive = true ∧ s.pid = tid
  | .loop =>
    s.latch.stage .own = .out ∧ s.latch.datum = 0 ∧ s.cell.stage .own = .out ∧ s.cell.datum.loop = .loop ∧
      s.alive = true ∧ s.pid = tid
  | .finish =>
    s.latch.stage .own = .out ∧ s.latch.datum = 0 ∧
      (s.cell.stage .own = .pending .finish ∧ s.cell.datum.loop = .loop ∨
        (s.cell.stage .own = .done .finish ∨ s.cell.stage .own = .out) ∧ s.cell.datum.loop = .null) ∧
      s.alive = true ∧ s.pid = tid ∧ s.quit = true
  | .destruct =>
    s.latch.stage .own = .out ∧ s.latch.datum = 0 ∧ s.cell.stage .own = .out ∧ s.cell.datum.loop = .null ∧
      s.alive = true ∧ s.pid = tid ∧ s.quit = true
  | .ended =>
    s.latch.stage .own = .out ∧ s.latch.datum = 0 ∧ s.cell.stage .own = .out ∧ s.cell.datum.loop = .null ∧
      s.alive = false ∧ s.pid = tid ∧ s.quit = true

/-- Behind `quit = true` of the destructor. -/
def UserPc.quits : UserPc → Bool
  | .dtorWake => true
  | .dtorJoin => true
  | .destroyed => true
  | _ => false

structure Inv (tid : ℕ) (s : State) : Prop where
  latch : Reachable (Mutex.step CountDownLatch.code) (.init Who CountDownLatch.Member 1) s.latch
  cell : Reachable (Mutex.step code) (.init Who Section ⟨.null, .null⟩) s.cell
  user : s.UserOk
  own : s.OwnOk tid
  /-- The loop is told to quit by the destructor. -/
  quit : s.quit = true → s.user.quits = true
  fault : s.fault = false
  late : s.late = true → s.own = .ended

variable {tid : ℕ} {s s' : State}

theorem signals : Signals code := by
  intro p q c _ hbefore hafter
  cases p with
  | publish => rfl
  | startLoop =>
    cases q with
    | startLoop => exact absurd hafter (by rw [show (code .startLoop).guard ((code .startLoop).body c) = (code .startLoop).guard c from rfl, hbefore]; decide)
    | publish => cases hbefore
    | finish => cases hbefore
  | finish =>
    cases q with
    | startLoop => cases hafter
    | publish => cases hbefore
    | finish => cases hbefore

/-! ### What the moves leave alone -/

/-- The user's thread stands still. -/
theorem State.UserOk.frame (h : s.UserOk) (huser : s'.user = s.user) (hlatch : s'.latch.stage .user = s.latch.stage .user)
    (hcell : s'.cell.stage .user = s.cell.stage .user) (hcount : s.latch.datum ≤ 0 → s'.latch.datum ≤ 0)
    (hdatum : s.quit = false → s.cell.datum = ⟨.loop, .loop⟩ → s'.cell.datum = ⟨.loop, .loop⟩)
    (hown : s.own ≠ .unborn → s'.own ≠ .unborn) (hpublished : s.own.published = true → s'.own.published = true)
    (hsame : s.user = .fresh ∨ s.user = .destroyed → s'.own = s.own)
    (hquit : s'.quit = s.quit) (hends : s.quit = true → s.user.quits = true) : s'.UserOk := by
  have hrunning : s.user.quits = false → s.quit = false := by
    intro hno
    rw [← Bool.not_eq_true]
    intro hq
    rw [hends hq] at hno
    cases hno
  unfold State.UserOk at h ⊢
  rw [huser, hlatch, hcell, hquit]
  cases hpc : s.user with
  | fresh =>
    rw [hpc] at h
    exact ⟨h.1, h.2.1, (hsame (.inl hpc)).trans h.2.2⟩
  | latchWait =>
    rw [hpc] at h
    refine ⟨h.1.imp_right fun h' => ⟨h'.1, hcount h'.2⟩, h.2.1, hown h.2.2⟩
  | pidCheck =>
    rw [hpc] at h
    exact ⟨h.1, hcount h.2.1, h.2.2.1, hown h.2.2.2⟩
  | cellWait =>
    rw [hpc] at h
    have hq := hrunning (by rw [hpc]; rfl)
    exact ⟨h.1, hown h.2.1, h.2.2.imp_right fun h' => ⟨h'.1, hdatum hq h'.2⟩⟩
  | running =>
    rw [hpc] at h
    have hq := hrunning (by rw [hpc]; rfl)
    exact ⟨h.1, h.2.1, hown h.2.2.1, hdatum hq h.2.2.2⟩
  | dtorQuit =>
    rw [hpc] at h
    have hq := hrunning (by rw [hpc]; rfl)
    exact ⟨h.1, h.2.1, hown h.2.2.1, hdatum hq h.2.2.2⟩
  | dtorWake =>
    rw [hpc] at h
    exact ⟨h.1, h.2.1, hpublished h.2.2.1, h.2.2.2⟩
  | dtorJoin =>
    rw [hpc] at h
    exact ⟨h.1, h.2.1, hpublished h.2.2.1, h.2.2.2⟩
  | destroyed =>
    rw [hpc] at h
    rw [hsame (.inr hpc)]
    exact h

/-- The object's own thread stands still. -/
theorem State.OwnOk.frame (h : s.OwnOk tid) (hown : s'.own = s.own) (hlatch : s'.latch.stage .own = s.latch.stage .own)
    (hcount : s'.latch.datum = s.latch.datum) (hcell : s'.cell.stage .own = s.cell.stage .own)
    (hloop : s'.cell.datum.loop = s.cell.datum.loop) (hpid : s'.pid = s.pid) (halive : s'.alive = s.alive)
    (hquit : s.quit = true → s'.quit = true) : s'.OwnOk tid := by
  unfold State.OwnOk at h ⊢
  rw [hown, hlatch, hcount, hcell, hloop, hpid, halive]
  cases hpc : s.own <;> rw [hpc] at h
  case finish => exact ⟨h.1, h.2.1, h.2.2.1, h.2.2.2.1, h.2.2.2.2.1, hquit h.2.2.2.2.2⟩
  case destruct => exact ⟨h.1, h.2.1, h.2.2.1, h.2.2.2.1, h.2.2.2.2.1, h.2.2.2.2.2.1, hquit h.2.2.2.2.2.2⟩
  case ended => exact ⟨h.1, h.2.1, h.2.2.1, h.2.2.2.1, h.2.2.2.2.1, h.2.2.2.2.2.1, hquit h.2.2.2.2.2.2⟩
  all_goals exact h

/-- A call of a member. -/
theorem call_stage {π σ : Type} {code : π → Procedure σ} {m m' : Mutex.State Who π σ} {t : Who} {p : π}
    (h : Mutex.step code m (.call t p) = some m') :
    m'.stage = Function.update m.stage t (.pending p) ∧ m'.datum = m.datum := by
  simp only [Mutex.step] at h
  split at h <;> cases h
  exact ⟨stage_move (.lock p) rfl, rfl⟩

theorem rouse_stage {π σ : Type} {code : π → Procedure σ} {m m' : Mutex.State Who π σ} {t : Who}
    (h : Mutex.step code m (.rouse t) = some m') : m'.stage = m.stage ∧ m'.datum = m.datum := by
  simp only [Mutex.step] at h
  split at h <;> cases h
  next p hpc => exact ⟨stage_same (t := t) (.relock p) rfl (by rw [hpc]; rfl), rfl⟩

/-! ### Where a thread in a critical section is -/

theorem State.UserOk.inLatch (h : s.UserOk) (hin : s.latch.stage .user ≠ .out) :
    s.user = .latchWait ∧ s.cell.stage .user = .out ∧ s.own ≠ .unborn ∧
      (s.latch.stage .user = .pending .wait ∨ s.latch.stage .user = .done .wait ∧ s.latch.datum ≤ 0) := by
  unfold State.UserOk at h
  cases hpc : s.user <;> rw [hpc] at h
  case latchWait =>
    obtain ⟨hwait, hcell, hown⟩ := h
    refine ⟨rfl, hcell, hown, ?_⟩
    rcases hwait with hp | ⟨hd | ho, hle⟩
    · exact .inl hp
    · exact .inr ⟨hd, hle⟩
    · exact absurd ho hin
  all_goals exact absurd h.1 hin

theorem State.UserOk.inCell (h : s.UserOk) (hin : s.cell.stage .user ≠ .out) :
    s.user = .cellWait ∧ s.latch.stage .user = .out ∧ s.own ≠ .unborn ∧
      (s.cell.stage .user = .pending .startLoop ∨
        s.cell.stage .user = .done .startLoop ∧ s.cell.datum = ⟨.loop, .loop⟩) := by
  unfold State.UserOk at h
  cases hpc : s.user <;> rw [hpc] at h
  case cellWait =>
    obtain ⟨hlatch, hown, hcell⟩ := h
    refine ⟨rfl, hlatch, hown, ?_⟩
    rcases hcell with hp | ⟨hd | ho, hdatum⟩
    · exact .inl hp
    · exact .inr ⟨hd, hdatum⟩
    · exact absurd ho hin
  case latchWait => exact absurd h.2.1 hin
  case pidCheck => exact absurd h.2.2.1 hin
  all_goals exact absurd h.2.1 hin

theorem State.OwnOk.inLatch (h : s.OwnOk tid) (hin : s.latch.stage .own ≠ .out) :
    s.own = .latchDown ∧ s.cell.stage .own = .out ∧ s.cell.datum.loop = .null ∧ s.alive = false ∧ s.pid = tid ∧
      (s.latch.stage .own = .pending .countDown ∧ s.latch.datum = 1 ∨
        s.latch.stage .own = .done .countDown ∧ s.latch.datum = 0) := by
  unfold State.OwnOk at h
  cases hpc : s.own <;> rw [hpc] at h
  case latchDown =>
    obtain ⟨hlatch, hcell, hloop, halive, hpid⟩ := h
    refine ⟨rfl, hcell, hloop, halive, hpid, ?_⟩
    rcases hlatch with hp | ⟨hd | ho, hcount⟩
    · exact .inl hp
    · exact .inr ⟨hd, hcount⟩
    · exact absurd ho hin
  all_goals exact absurd h.1 hin

theorem State.OwnOk.inCell (h : s.OwnOk tid) (hin : s.cell.stage .own ≠ .out) :
    s.latch.stage .own = .out ∧ s.latch.datum = 0 ∧ s.alive = true ∧ s.pid = tid ∧
      (s.own = .publish ∧ (s.cell.stage .own = .pending .publish ∧ s.cell.datum.loop = .null ∨
          s.cell.stage .own = .done .publish ∧ s.cell.datum.loop = .loop) ∨
        s.own = .finish ∧ s.quit = true ∧ (s.cell.stage .own = .pending .finish ∧ s.cell.datum.loop = .loop ∨
          s.cell.stage .own = .done .finish ∧ s.cell.datum.loop = .null)) := by
  unfold State.OwnOk at h
  cases hpc : s.own <;> rw [hpc] at h
  case publish =>
    obtain ⟨hlatch, hcount, hcell, halive, hpid⟩ := h
    refine ⟨hlatch, hcount, halive, hpid, .inl ⟨rfl, ?_⟩⟩
    rcases hcell with hp | ⟨hd | ho, hloop⟩
    · exact .inl hp
    · exact .inr ⟨hd, hloop⟩
    · exact absurd ho hin
  case finish =>
    obtain ⟨hlatch, hcount, hcell, halive, hpid, hquit⟩ := h
    refine ⟨hlatch, hcount, halive, hpid, .inr ⟨rfl, hquit, ?_⟩⟩
    rcases hcell with hp | ⟨hd | ho, hloop⟩
    · exact .inl hp
    · exact .inr ⟨hd, hloop⟩
    · exact absurd ho hin
  case latchDown => exact absurd h.2.1 hin
  all_goals exact absurd h.2.2.1 hin

/-! ### The moves -/

theorem Inv.latchMove (hI : Inv tid s) {latch : Mutex.State Who CountDownLatch.Member ℤ}
    (hreach : Reachable (Mutex.step CountDownLatch.code) s.latch latch)
    (huser : State.UserOk { s with latch := latch }) (hown : State.OwnOk tid { s with latch := latch }) :
    Inv tid { s with latch := latch } :=
  ⟨hI.latch.trans hreach, hI.cell, huser, hown, hI.quit, hI.fault, hI.late⟩

theorem Inv.cellMove (hI : Inv tid s) {cell : Mutex.State Who Section Cell}
    (hreach : Reachable (Mutex.step code) s.cell cell)
    (huser : State.UserOk { s with cell := cell }) (hown : State.OwnOk tid { s with cell := cell }) :
    Inv tid { s with cell := cell } :=
  ⟨hI.latch, hI.cell.trans hreach, huser, hown, hI.quit, hI.fault, hI.late⟩

/-- A move inside the latch. -/
theorem Inv.latchAccess (hI : Inv tid s) {t : Who} {latch : Mutex.State Who CountDownLatch.Member ℤ}
    (h : s.latch.access CountDownLatch.code t = some latch) : Inv tid { s with latch := latch } := by
  refine hI.latchMove (.single (a := .step t) h) ?_ ?_
  · rcases access_advance h with ⟨hstage, hdatum⟩ | ⟨m, ht, hguard, hstage, hdatum⟩ | ⟨m, ht, hstage, hdatum⟩
    · exact hI.user.frame rfl (congrFun hstage _) rfl (fun hle => hdatum ▸ hle) (fun _ h => h) id id (fun _ => rfl)
        rfl hI.quit
    · cases t with
      | user =>
        obtain ⟨hpc, hcell, hown, hwait⟩ := hI.user.inLatch (by simp [ht])
        obtain rfl : m = .wait := by
          rcases hwait with h' | ⟨h', -⟩ <;> rw [ht] at h' <;> cases h'
          rfl
        have hle : s.latch.datum ≤ 0 := by
          simpa only [CountDownLatch.code, Bool.not_eq_true', decide_eq_false_iff_not, not_lt, gt_iff_lt] using hguard
        simp only [State.UserOk, hpc]
        exact ⟨.inr ⟨.inl (by rw [hstage, Function.update_self]), hdatum ▸ hle⟩, hcell, hown⟩
      | own =>
        obtain ⟨-, -, -, -, -, hdown⟩ := hI.own.inLatch (by simp [ht])
        obtain rfl : m = .countDown := by
          rcases hdown with ⟨h', -⟩ | ⟨h', -⟩ <;> rw [ht] at h' <;> cases h'
          rfl
        refine hI.user.frame rfl (by rw [hstage, Function.update_of_ne (by decide)]) rfl (fun hle => ?_)
          (fun _ h => h) id id (fun _ => rfl) rfl hI.quit
        rw [hdatum]
        show s.latch.datum - 1 ≤ 0
        omega
    · cases t with
      | user =>
        obtain ⟨hpc, hcell, hown, hwait⟩ := hI.user.inLatch (by simp [ht])
        have hle : s.latch.datum ≤ 0 := by
          rcases hwait with h' | ⟨-, hle⟩
          · rw [ht] at h'
            cases h'
          · exact hle
        simp only [State.UserOk, hpc]
        exact ⟨.inr ⟨.inr (by rw [hstage, Function.update_self]), hdatum ▸ hle⟩, hcell, hown⟩
      | own =>
        exact hI.user.frame rfl (by rw [hstage, Function.update_of_ne (by decide)]) rfl (fun hle => hdatum ▸ hle)
          (fun _ h => h) id id (fun _ => rfl) rfl hI.quit
  · rcases access_advance h with ⟨hstage, hdatum⟩ | ⟨m, ht, hguard, hstage, hdatum⟩ | ⟨m, ht, hstage, hdatum⟩
    · exact hI.own.frame rfl (congrFun hstage _) hdatum rfl rfl rfl rfl id
    · cases t with
      | user =>
        obtain ⟨-, -, -, hwait⟩ := hI.user.inLatch (by simp [ht])
        obtain rfl : m = .wait := by
          rcases hwait with h' | ⟨h', -⟩ <;> rw [ht] at h' <;> cases h'
          rfl
        exact hI.own.frame rfl (by rw [hstage, Function.update_of_ne (by decide)]) hdatum rfl rfl rfl rfl id
      | own =>
        obtain ⟨hpc, hcell, hloop, halive, hpid, hdown⟩ := hI.own.inLatch (by simp [ht])
        obtain ⟨rfl, hcount⟩ : m = .countDown ∧ s.latch.datum = 1 := by
          rcases hdown with ⟨h', hcount⟩ | ⟨h', -⟩ <;> rw [ht] at h' <;> cases h'
          exact ⟨rfl, hcount⟩
        simp only [State.OwnOk, hpc]
        refine ⟨.inr ⟨.inl (by rw [hstage, Function.update_self]), ?_⟩, hcell, hloop, halive, hpid⟩
        rw [hdatum, hcount]
        rfl
    · cases t with
      | user => exact hI.own.frame rfl (by rw [hstage, Function.update_of_ne (by decide)]) hdatum rfl rfl rfl rfl id
      | own =>
        obtain ⟨hpc, hcell, hloop, halive, hpid, hdown⟩ := hI.own.inLatch (by simp [ht])
        have hcount : s.latch.datum = 0 := by
          rcases hdown with ⟨h', -⟩ | ⟨-, hcount⟩
          · rw [ht] at h'
            cases h'
          · exact hcount
        simp only [State.OwnOk, hpc]
        exact ⟨.inr ⟨.inr (by rw [hstage, Function.update_self]), hdatum.trans hcount⟩, hcell, hloop, halive, hpid⟩

/-- A move inside `mutex`. -/
theorem Inv.cellAccess (hI : Inv tid s) {t : Who} {cell : Mutex.State Who Section Cell}
    (h : s.cell.access code t = some cell) : Inv tid { s with cell := cell } := by
  refine hI.cellMove (.single (a := .step t) h) ?_ ?_
  · rcases access_advance h with ⟨hstage, hdatum⟩ | ⟨p, ht, hguard, hstage, hdatum⟩ | ⟨p, ht, hstage, hdatum⟩
    · exact hI.user.frame rfl rfl (congrFun hstage _) id (fun _ h => hdatum.trans h) id id (fun _ => rfl) rfl hI.quit
    · cases t with
      | user =>
        obtain ⟨hpc, hlatch, hown, hsec⟩ := hI.user.inCell (by simp [ht])
        obtain rfl : p = .startLoop := by
          rcases hsec with h' | ⟨h', -⟩ <;> rw [ht] at h' <;> cases h'
          rfl
        have hloop : s.cell.datum.loop = .loop := by
          cases hptr : s.cell.datum.loop with
          | loop => rfl
          | null => simp only [code, hptr, bne_self_eq_false, Bool.false_eq_true] at hguard
        simp only [State.UserOk, hpc]
        refine ⟨hlatch, hown, .inr ⟨.inl (by rw [hstage, Function.update_self]), ?_⟩⟩
        rw [hdatum]
        show Cell.mk s.cell.datum.loop s.cell.datum.loop = _
        rw [hloop]
      | own =>
        obtain ⟨-, -, -, -, hsec⟩ := hI.own.inCell (by simp [ht])
        refine hI.user.frame rfl rfl (by rw [hstage, Function.update_of_ne (by decide)]) id (fun hq hloop => ?_) id id
          (fun _ => rfl) rfl hI.quit
        rcases hsec with ⟨-, hsec⟩ | ⟨-, hquit, -⟩
        · obtain ⟨rfl, hnull⟩ : p = .publish ∧ s.cell.datum.loop = .null := by
            rcases hsec with ⟨h', hnull⟩ | ⟨h', -⟩ <;> rw [ht] at h' <;> cases h'
            exact ⟨rfl, hnull⟩
          rw [hloop] at hnull
          cases hnull
        · rw [hq] at hquit
          cases hquit
    · cases t with
      | user =>
        obtain ⟨hpc, hlatch, hown, hsec⟩ := hI.user.inCell (by simp [ht])
        have hloop : s.cell.datum = ⟨.loop, .loop⟩ := by
          rcases hsec with h' | ⟨-, hloop⟩
          · rw [ht] at h'
            cases h'
          · exact hloop
        simp only [State.UserOk, hpc]
        exact ⟨hlatch, hown, .inr ⟨.inr (by rw [hstage, Function.update_self]), hdatum.trans hloop⟩⟩
      | own =>
        exact hI.user.frame rfl rfl (by rw [hstage, Function.update_of_ne (by decide)]) id
          (fun _ h => hdatum.trans h) id id (fun _ => rfl) rfl hI.quit
  · rcases access_advance h with ⟨hstage, hdatum⟩ | ⟨p, ht, hguard, hstage, hdatum⟩ | ⟨p, ht, hstage, hdatum⟩
    · exact hI.own.frame rfl rfl rfl (congrFun hstage _) (congrArg Cell.loop hdatum) rfl rfl id
    · cases t with
      | user =>
        obtain ⟨-, -, -, hsec⟩ := hI.user.inCell (by simp [ht])
        obtain rfl : p = .startLoop := by
          rcases hsec with h' | ⟨h', -⟩ <;> rw [ht] at h' <;> cases h'
          rfl
        exact hI.own.frame rfl rfl rfl (by rw [hstage, Function.update_of_ne (by decide)])
          (show cell.datum.loop = s.cell.datum.loop by rw [hdatum]; rfl) rfl rfl id
      | own =>
        obtain ⟨hlatch, hcount, halive, hpid, hsec⟩ := hI.own.inCell (by simp [ht])
        have hself : cell.stage .own = .done p := by rw [hstage, Function.update_self]
        rcases hsec with ⟨hpc, hsec⟩ | ⟨hpc, hquit, hsec⟩
        · obtain rfl : p = .publish := by
            rcases hsec with ⟨h', -⟩ | ⟨h', -⟩ <;> rw [ht] at h' <;> cases h'
            rfl
          simp only [State.OwnOk, hpc]
          exact ⟨hlatch, hcount, .inr ⟨.inl hself, congrArg Cell.loop hdatum⟩, halive, hpid⟩
        · obtain rfl : p = .finish := by
            rcases hsec with ⟨h', -⟩ | ⟨h', -⟩ <;> rw [ht] at h' <;> cases h'
            rfl
          simp only [State.OwnOk, hpc]
          exact ⟨hlatch, hcount, .inr ⟨.inl hself, congrArg Cell.loop hdatum⟩, halive, hpid, hquit⟩
    · cases t with
      | user =>
        exact hI.own.frame rfl rfl rfl (by rw [hstage, Function.update_of_ne (by decide)])
          (congrArg Cell.loop hdatum) rfl rfl id
      | own =>
        obtain ⟨hlatch, hcount, halive, hpid, hsec⟩ := hI.own.inCell (by simp [ht])
        have hself : cell.stage .own = .out := by rw [hstage, Function.update_self]
        rcases hsec with ⟨hpc, hsec⟩ | ⟨hpc, hquit, hsec⟩
        · have hloop : s.cell.datum.loop = .loop := by
            rcases hsec with ⟨h', -⟩ | ⟨-, hloop⟩
            · rw [ht] at h'
              cases h'
            · exact hloop
          simp only [State.OwnOk, hpc]
          exact ⟨hlatch, hcount, .inr ⟨.inr hself, (congrArg Cell.loop hdatum).trans hloop⟩, halive, hpid⟩
        · have hloop : s.cell.datum.loop = .null := by
            rcases hsec with ⟨h', -⟩ | ⟨-, hloop⟩
            · rw [ht] at h'
              cases h'
            · exact hloop
          simp only [State.OwnOk, hpc]
          exact ⟨hlatch, hcount, .inr ⟨.inr hself, (congrArg Cell.loop hdatum).trans hloop⟩, halive, hpid, hquit⟩

/-- A thread that wakes for no reason. -/
theorem Inv.latchRouse (hI : Inv tid s) {t : Who} {latch : Mutex.State Who CountDownLatch.Member ℤ}
    (h : Mutex.step CountDownLatch.code s.latch (.rouse t) = some latch) : Inv tid { s with latch := latch } := by
  obtain ⟨hstage, hdatum⟩ := rouse_stage h
  refine hI.latchMove (.single h) ?_ ?_
  · exact hI.user.frame rfl (congrFun hstage _) rfl (fun hle => hdatum ▸ hle) (fun _ h => h) id id (fun _ => rfl) rfl hI.quit
  · exact hI.own.frame rfl (congrFun hstage _) hdatum rfl rfl rfl rfl id

theorem Inv.cellRouse (hI : Inv tid s) {t : Who} {cell : Mutex.State Who Section Cell}
    (h : Mutex.step code s.cell (.rouse t) = some cell) : Inv tid { s with cell := cell } := by
  obtain ⟨hstage, hdatum⟩ := rouse_stage h
  refine hI.cellMove (.single h) ?_ ?_
  · exact hI.user.frame rfl rfl (congrFun hstage _) id (fun _ h => hdatum.trans h) id id (fun _ => rfl) rfl hI.quit
  · exact hI.own.frame rfl rfl rfl (congrFun hstage _) (congrArg Cell.loop hdatum) rfl rfl id

theorem stage_of_outside {π σ : Type} {m : Mutex.State Who π σ} {t : Who} (h : m.pc t = .outside) : m.stage t = .out :=
  congrArg Pc.stage h

/-- What `loop` points to exists. -/
theorem State.OwnOk.alive_of_loop (h : s.OwnOk tid) (hloop : s.cell.datum.loop = .loop) : s.alive = true := by
  unfold State.OwnOk at h
  cases hpc : s.own <;> rw [hpc] at h
  case publish => exact h.2.2.2.1
  case loop => exact h.2.2.2.2.1
  case finish => exact h.2.2.2.1
  case destruct => exact h.2.2.2.2.1
  case latchDown => exact absurd (hloop.symm.trans h.2.2.1) (by decide)
  all_goals exact absurd (hloop.symm.trans h.2.2.2.1) (by decide)

theorem State.OwnOk.published_of_loop (h : s.OwnOk tid) (hloop : s.cell.datum.loop = .loop) : s.own.published = true := by
  unfold State.OwnOk at h
  cases hpc : s.own <;> rw [hpc] at h
  case latchDown => exact absurd (hloop.symm.trans h.2.2.1) (by decide)
  case publish => rfl
  case loop => rfl
  case finish => rfl
  case destruct => rfl
  case ended => rfl
  all_goals exact absurd (hloop.symm.trans h.2.2.2.1) (by decide)

/-- Once handed over, the loop exists until the end of the thread. -/
theorem State.OwnOk.ended_of_dead (h : s.OwnOk tid) (hpub : s.own.published = true) (hdead : s.alive = false) :
    s.own = .ended := by
  have hstill : s.own ≠ .ended → s.alive = true := by
    intro hne
    unfold State.OwnOk at h
    cases hpc : s.own <;> rw [hpc] at h hpub hne
    case publish => exact h.2.2.2.1
    case loop => exact h.2.2.2.2.1
    case finish => exact h.2.2.2.1
    case destruct => exact h.2.2.2.2.1
    case ended => exact absurd rfl hne
    all_goals cases hpub
  by_contra hne
  rw [hstill hne] at hdead
  cases hdead

/-- `pid` is stored before the latch is counted down. -/
theorem State.OwnOk.pid_of_count (h : s.OwnOk tid) (hcount : s.latch.datum ≤ 0) : s.pid = tid := by
  unfold State.OwnOk at h
  cases hpc : s.own <;> rw [hpc] at h
  case unborn => exact absurd hcount (by rw [h.2.1]; decide)
  case pidStore => exact absurd hcount (by rw [h.2.1]; decide)
  case latchDown => exact h.2.2.2.2
  case construct => exact h.2.2.2.2.2
  case callback => exact h.2.2.2.2.2
  case publish => exact h.2.2.2.2
  case loop => exact h.2.2.2.2.2
  case finish => exact h.2.2.2.2.1
  case destruct => exact h.2.2.2.2.2.1
  case ended => exact h.2.2.2.2.2.1

/-- The user's thread goes on. -/
theorem Inv.userMove (hI : Inv tid s) {user : UserPc} (huser : State.UserOk { s with user := user })
    (hquits : s.user.quits = true → user.quits = true) : Inv tid { s with user := user } :=
  ⟨hI.latch, hI.cell, huser, hI.own, fun hquit => hquits (hI.quit hquit), hI.fault, hI.late⟩

theorem Inv.startLoop (hI : Inv tid s) (hfresh : s.user = .fresh) {latch : Mutex.State Who CountDownLatch.Member ℤ}
    (h : Mutex.step CountDownLatch.code s.latch (.call .user .wait) = some latch) :
    Inv tid { s with latch := latch, user := .latchWait, own := .pidStore } := by
  obtain ⟨hstage, hdatum⟩ := call_stage h
  have huser := hI.user
  have hown := hI.own
  simp only [State.UserOk, hfresh] at huser
  obtain ⟨-, hcell, hunborn⟩ := huser
  simp only [State.OwnOk, hunborn] at hown
  have hlate : s.late = false := by
    rw [← Bool.not_eq_true]
    intro hlate
    cases hunborn.symm.trans (hI.late hlate)
  refine ⟨hI.latch.trans (.single h), hI.cell, ?_, ?_, fun hquit => ?_, hI.fault, fun h' => ?_⟩
  · exact ⟨.inl (by rw [hstage, Function.update_self]), hcell, by simp⟩
  · exact ⟨by rw [hstage, Function.update_of_ne (by decide)]; exact hown.1, hdatum.trans hown.2.1, hown.2.2⟩
  · exact absurd (hI.quit hquit) (by rw [hfresh]; decide)
  · cases hlate.symm.trans h'

theorem Inv.userStep (htid : 0 < tid) (hI : Inv tid s) (h : s.userStep = some s') : Inv tid s' := by
  have huser := hI.user
  unfold State.userStep at h
  unfold State.UserOk at huser
  cases hpc : s.user <;> rw [hpc] at h huser
  case latchWait =>
    simp only at h
    split at h <;> cases h
    next hout =>
      obtain ⟨hlatch, hcell, hborn⟩ := huser
      refine hI.userMove ⟨stage_of_outside hout, ?_, hcell, hborn⟩ (by rw [hpc]; decide)
      rcases hlatch with hp | ⟨-, hle⟩
      · rw [stage_of_outside hout] at hp
        cases hp
      · exact hle
  case pidCheck =>
    obtain ⟨hlatch, hle, hcell, hborn⟩ := huser
    have hpid : s.pid > 0 := by
      rw [hI.own.pid_of_count hle]
      exact htid
    simp only [if_pos hpid, Option.map_eq_some_iff] at h
    obtain ⟨cell, hcall, rfl⟩ := h
    obtain ⟨hstage, hdatum⟩ := call_stage hcall
    refine ⟨hI.latch, hI.cell.trans (.single hcall), ?_, ?_, fun hquit => ?_, hI.fault, hI.late⟩
    · exact ⟨hlatch, hborn, .inl (by rw [hstage, Function.update_self])⟩
    · exact hI.own.frame rfl rfl rfl (by rw [hstage, Function.update_of_ne (by decide)]) (congrArg Cell.loop hdatum)
        rfl rfl id
    · exact absurd (hI.quit hquit) (by rw [hpc]; decide)
  case cellWait =>
    simp only at h
    split at h <;> cases h
    next hout =>
      obtain ⟨hlatch, hborn, hcell⟩ := huser
      refine hI.userMove ⟨hlatch, stage_of_outside hout, hborn, ?_⟩ (by rw [hpc]; decide)
      rcases hcell with hp | ⟨-, hdatum⟩
      · rw [stage_of_outside hout] at hp
        cases hp
      · exact hdatum
  case dtorQuit =>
    obtain ⟨hlatch, hcell, hborn, hdatum⟩ := huser
    have halive := hI.own.alive_of_loop (congrArg Cell.loop hdatum)
    simp only [State.quitLoop, halive, if_true, Option.some.injEq] at h
    subst h
    exact ⟨hI.latch, hI.cell, ⟨hlatch, hcell, hI.own.published_of_loop (congrArg Cell.loop hdatum), rfl⟩,
      hI.own.frame rfl rfl rfl rfl rfl rfl halive.symm fun _ => rfl, fun _ => rfl, hI.fault, hI.late⟩
  case dtorWake =>
    cases h
    refine ⟨hI.latch, hI.cell, huser, hI.own.frame rfl rfl rfl rfl rfl rfl rfl id, fun _ => rfl, hI.fault, fun h' => ?_⟩
    rcases Bool.or_eq_true _ _ ▸ h' with hlate | hdead
    · exact hI.late hlate
    · exact hI.own.ended_of_dead huser.2.2.1 (by simpa only [Bool.not_eq_true'] using hdead)
  case dtorJoin =>
    simp only at h
    split at h <;> cases h
    next hended => exact hI.userMove ⟨huser.1, huser.2.1, .inr hended⟩ fun _ => rfl
  all_goals cases h

/-- The user is neither before the start of the thread nor behind its end. -/
theorem State.UserOk.away (h : s.UserOk) (hborn : s.own ≠ .unborn) (hended : s.own ≠ .ended) :
    ¬(s.user = .fresh ∨ s.user = .destroyed) := by
  rintro (hpc | hpc)
  · simp only [State.UserOk, hpc] at h
    exact hborn h.2.2
  · simp only [State.UserOk, hpc] at h
    exact h.2.2.elim hborn hended

/-- The object's own thread goes on. -/
theorem Inv.ownMove (hI : Inv tid s) (hborn : s.own ≠ .unborn) (hended : s.own ≠ .ended)
    (hlatch : Reachable (Mutex.step CountDownLatch.code) s.latch s'.latch) (hcell : Reachable (Mutex.step code) s.cell s'.cell)
    (hlatchStage : s'.latch.stage .user = s.latch.stage .user) (hlatchDatum : s'.latch.datum = s.latch.datum)
    (hcellStage : s'.cell.stage .user = s.cell.stage .user) (hcellDatum : s'.cell.datum = s.cell.datum)
    (huser : s'.user = s.user) (hquit : s'.quit = s.quit) (hfault : s'.fault = s.fault) (hlate : s'.late = s.late)
    (hborn' : s'.own ≠ .unborn) (hpublished : s.own.published = true → s'.own.published = true) (hown : s'.OwnOk tid) :
    Inv tid s' := by
  refine ⟨hI.latch.trans hlatch, hI.cell.trans hcell, ?_, hown, ?_, hfault.trans hI.fault, fun h => ?_⟩
  · exact hI.user.frame huser hlatchStage hcellStage (fun hle => hlatchDatum ▸ hle) (fun _ h => hcellDatum.trans h)
      (fun _ => hborn') hpublished (fun h => absurd h (hI.user.away hborn hended)) hquit hI.quit
  · rw [hquit, huser]
    exact hI.quit
  · exact absurd (hI.late (hlate ▸ h)) hended

theorem Inv.ownStep (hI : Inv tid s) (h : s.ownStep tid = some s') : Inv tid s' := by
  have hown := hI.own
  unfold State.ownStep at h
  unfold State.OwnOk at hown
  cases hpc : s.own <;> rw [hpc] at h hown
  case pidStore =>
    obtain ⟨latch, hcall, rfl⟩ := Option.map_eq_some_iff.mp h
    obtain ⟨hstage, hdatum⟩ := call_stage hcall
    refine hI.ownMove (by simp [hpc]) (by simp [hpc]) (.single hcall) (.refl _)
      (by rw [hstage, Function.update_of_ne (by decide)]) hdatum rfl rfl rfl rfl rfl rfl (by simp) (by simp [hpc, OwnPc.published]) ?_
    exact ⟨.inl ⟨by rw [hstage, Function.update_self], hdatum.trans hown.2.1⟩, hown.2.2.1, hown.2.2.2.1, hown.2.2.2.2, rfl⟩
  case latchDown =>
    simp only at h
    split at h <;> cases h
    next hout =>
      obtain ⟨hlatch, hrest⟩ := hown
      refine hI.ownMove (by simp [hpc]) (by simp [hpc]) (.refl _) (.refl _) rfl rfl rfl rfl rfl rfl rfl rfl (by simp)
        (by simp [hpc, OwnPc.published]) ⟨stage_of_outside hout, ?_, hrest⟩
      rcases hlatch with ⟨hp, -⟩ | ⟨-, hcount⟩
      · rw [stage_of_outside hout] at hp
        cases hp
      · exact hcount
  case construct =>
    cases h
    exact hI.ownMove (by simp [hpc]) (by simp [hpc]) (.refl _) (.refl _) rfl rfl rfl rfl rfl rfl rfl rfl (by simp)
      (by simp [hpc, OwnPc.published]) ⟨hown.1, hown.2.1, hown.2.2.1, hown.2.2.2.1, rfl, hown.2.2.2.2.2⟩
  case callback =>
    obtain ⟨cell, hcall, rfl⟩ := Option.map_eq_some_iff.mp h
    obtain ⟨hstage, hdatum⟩ := call_stage hcall
    refine hI.ownMove (by simp [hpc]) (by simp [hpc]) (.refl _) (.single hcall) rfl rfl
      (by rw [hstage, Function.update_of_ne (by decide)]) hdatum rfl rfl rfl rfl (by simp) (fun _ => rfl) ?_
    exact ⟨hown.1, hown.2.1, .inl ⟨by rw [hstage, Function.update_self], (congrArg Cell.loop hdatum).trans hown.2.2.2.1⟩,
      hown.2.2.2.2⟩
  case publish =>
    simp only at h
    split at h <;> cases h
    next hout =>
      obtain ⟨hlatch, hcount, hcell, hrest⟩ := hown
      refine hI.ownMove (by simp [hpc]) (by simp [hpc]) (.refl _) (.refl _) rfl rfl rfl rfl rfl rfl rfl rfl (by simp)
        (fun _ => rfl) ⟨hlatch, hcount, stage_of_outside hout, ?_, hrest⟩
      rcases hcell with ⟨hp, -⟩ | ⟨-, hloop⟩
      · rw [stage_of_outside hout] at hp
        cases hp
      · exact hloop
  case loop =>
    simp only at h
    split at h
    · next hquit =>
      obtain ⟨cell, hcall, rfl⟩ := Option.map_eq_some_iff.mp h
      obtain ⟨hstage, hdatum⟩ := call_stage hcall
      refine hI.ownMove (by simp [hpc]) (by simp [hpc]) (.refl _) (.single hcall) rfl rfl
        (by rw [hstage, Function.update_of_ne (by decide)]) hdatum rfl rfl rfl rfl (by simp) (fun _ => rfl) ?_
      exact ⟨hown.1, hown.2.1, .inl ⟨by rw [hstage, Function.update_self], (congrArg Cell.loop hdatum).trans hown.2.2.2.1⟩,
        hown.2.2.2.2.1, hown.2.2.2.2.2, hquit⟩
    · cases h
  case finish =>
    simp only at h
    split at h <;> cases h
    next hout =>
      obtain ⟨hlatch, hcount, hcell, hrest⟩ := hown
      refine hI.ownMove (by simp [hpc]) (by simp [hpc]) (.refl _) (.refl _) rfl rfl rfl rfl rfl rfl rfl rfl (by simp)
        (fun _ => rfl) ⟨hlatch, hcount, stage_of_outside hout, ?_, hrest⟩
      rcases hcell with ⟨hp, -⟩ | ⟨-, hloop⟩
      · rw [stage_of_outside hout] at hp
        cases hp
      · exact hloop
  case destruct =>
    cases h
    exact hI.ownMove (by simp [hpc]) (by simp [hpc]) (.refl _) (.refl _) rfl rfl rfl rfl rfl rfl rfl rfl (by simp)
      (fun _ => rfl) ⟨hown.1, hown.2.1, hown.2.2.1, hown.2.2.2.1, rfl, hown.2.2.2.2.2⟩
  all_goals cases h

/-- **Every move** of the two threads keeps the invariant. -/
theorem Inv.move (htid : 0 < tid) (hI : Inv tid s) {m : Move} (h : s.move tid m = some s') : Inv tid s' := by
  cases m with
  | user => exact hI.userStep htid h
  | own => exact hI.ownStep h
  | latch t =>
    obtain ⟨latch, haccess, rfl⟩ := Option.map_eq_some_iff.mp h
    exact hI.latchAccess haccess
  | cell t =>
    obtain ⟨cell, haccess, rfl⟩ := Option.map_eq_some_iff.mp h
    exact hI.cellAccess haccess

theorem Inv.destroy (hI : Inv tid s) (h : s.user = .fresh ∨ s.user = .running) :
    Inv tid { s with user := if s.cell.datum.loop = .null then .destroyed else .dtorQuit } := by
  have huser := hI.user
  have hown := hI.own
  rcases h with hpc | hpc
  · simp only [State.UserOk, hpc] at huser
    obtain ⟨hlatch, hcell, hunborn⟩ := huser
    simp only [State.OwnOk, hunborn] at hown
    rw [if_pos hown.2.2.2.1]
    exact hI.userMove ⟨hlatch, hcell, .inl hunborn⟩ fun _ => rfl
  · simp only [State.UserOk, hpc] at huser
    rw [if_neg (by rw [huser.2.2.2]; decide)]
    exact hI.userMove huser (by rw [hpc]; decide)

/-- **Every step** but a `quit_` from elsewhere keeps it. -/
theorem Inv.step (htid : 0 < tid) (hI : Inv tid s) {a : Action} (ha : a ≠ .quitByUser ∧ a ≠ .quitByLoop)
    (h : s.step tid a = some s') : Inv tid s' := by
  cases a with
  | startLoop =>
    simp only [State.step] at h
    split at h
    · next hpc =>
      obtain ⟨latch, hcall, rfl⟩ := Option.map_eq_some_iff.mp h
      exact hI.startLoop hpc hcall
    · cases h
  | destroy =>
    simp only [State.step] at h
    split at h <;> cases h
    next hpc => exact hI.destroy hpc
  | move m => exact hI.move htid h
  | latchRouse t =>
    obtain ⟨latch, hrouse, rfl⟩ := Option.map_eq_some_iff.mp h
    exact hI.latchRouse hrouse
  | cellRouse t =>
    obtain ⟨cell, hrouse, rfl⟩ := Option.map_eq_some_iff.mp h
    exact hI.cellRouse hrouse
  | quitByUser => exact absurd rfl ha.1
  | quitByLoop => exact absurd rfl ha.2

theorem inv_init (tid : ℕ) : Inv tid State.init :=
  ⟨.refl _, .refl _, ⟨rfl, rfl, rfl⟩, ⟨rfl, rfl, rfl, rfl, rfl⟩, fun h => (by cases h), rfl, fun h => (by cases h)⟩

/-- **Every state of a run.** -/
theorem inv_of_run (htid : 0 < tid) {as : List Action} (hP : OnlyDestructorQuits as)
    (hrun : run (State.step tid) State.init as = some s) : Inv tid s :=
  run_induction_along (fun _ a => a ≠ .quitByUser ∧ a ≠ .quitByLoop) (Inv tid) (inv_init tid)
    (fun _ _ _ hI ha hs => hI.step htid ha hs)
    (along_of_mem fun _ ha => ⟨fun h => hP.1 (h ▸ ha), fun h => hP.2 (h ▸ ha)⟩) hrun

end KwNet.EventloopThread
