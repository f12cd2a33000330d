import KwNet.Log.Word

/-!
# What reaches the log file

A record goes into `cur_buffer`, from there through `buffers` and `buffersToWrite` into the file.  The
backend leaves what it finds unwritten when it ends, and `append` leaves a word without `available`
behind when a buffer is full.

* `Drained` — no `append` finds its buffer full; `stop()` stores `0` only when the buffers are empty; and
  the backend ends with empty buffers and with no `append` inside;
* **`log_conserved`** — then the file has, when `stop()` has returned, exactly the records whose `append`
  set `appending`, in that order;
* **`last_record_lost`** — a record that was appended right before `stop()`.
-/

namespace KwNet.AsyncLogger

open KwNet.Lib

variable {τ : Type}

/-- The bytes of some buffers. -/
def bytes (bs : List LogBuffer) : List UInt8 := bs.flatMap LogBuffer.data

/-- What the backend has not taken yet. -/
def State.unwritten (s : State τ) : List UInt8 := bytes s.buffers ++ s.curBuffer.data

/-- What the backend has taken and not written. -/
def State.taken (s : State τ) : List UInt8 :=
  match s.backend with
  | .unlock => bytes s.buffersToWrite
  | .write todo => bytes todo
  | _ => []

/-- All that was put into a buffer, in order. -/
def State.content (s : State τ) : List UInt8 := s.file ++ (s.taken ++ s.unwritten)

/-- The steps that leave no byte behind. -/
def Drained (s : State τ) : Action τ → Prop
  | .step t =>
    match s.thread t with
    | .appendBody logs => logs.length ≤ s.curBuffer.avail
    | .stopCas old => s.word = old → s.unwritten = []
    | _ => True
  | .backend _ =>
    match s.backend with
    | .exit => s.unwritten = [] ∧ ∀ t, (s.thread t).inside = false
    | _ => True
  | _ => True

/-- `stop()` is called once. -/
def OneStop (s : State τ) : Action τ → Prop
  | .stop _ => s.stops = 0
  | _ => True

/-- A thread holds the buffers and has not put its record into them. -/
def Body (s : State τ) (logs : List UInt8) : Prop := ∃ t, s.thread t = .appendBody logs

/-- Every record whose `append` has set `appending` is in the file or in a buffer, or on its way there. -/
structure Stored (s : State τ) : Prop where
  body : ∀ logs, Body s logs → s.acquired.flatten = s.content ++ logs
  rest : (∀ logs, ¬ Body s logs) → s.acquired.flatten = s.content

/-- In the round of `threadFunc`, before the buffers are swapped. -/
def BackendPc.armed : BackendPc → Bool
  | .load => true
  | .wait => true
  | .casFull _ => true
  | .cas _ => true
  | .swap => true
  | _ => false

/-- What the backend has for the next round. -/
def Ready (s : State τ) : Prop :=
  s.backend.armed = true → (∀ b ∈ s.newBuffer1, b.data = []) ∧ s.buffersToWrite = []

/-- In `stop`. -/
def Pc.stopping : Pc → Bool
  | .stopLoad => true
  | .stopWait => true
  | .stopCas _ => true
  | .stopJoin => true
  | _ => false

/-- How the logger comes to its end. -/
structure Ending (s : State τ) : Prop where
  store : ∀ t v, s.thread t = .appendStore v → v = available
  word : s.word ≠ full
  before : s.stops = 0 → (∀ t, (s.thread t).stopping = false) ∧ s.stopped = 0
  one : ∀ t u, (s.thread t).stopping = true → (s.thread u).stopping = true → t = u
  zero : s.word = 0 → (∀ p, ¬ Inside s p) ∧ s.unwritten = [] ∧
    (s.backend = .ended ∨ ∃ t, s.thread t = .stopJoin)
  join : ∀ t, s.thread t = .stopJoin → s.word = 0
  after : 0 < s.stopped → s.word = 0 ∧ s.backend = .ended

variable {s s' : State τ} {t : τ}

theorem bytes_append (bs cs : List LogBuffer) : bytes (bs ++ cs) = bytes bs ++ bytes cs :=
  List.flatMap_append

theorem bytes_singleton (b : LogBuffer) : bytes [b] = b.data := by
  rw [bytes, List.flatMap_cons, List.flatMap_nil, List.append_nil]

/-! ### The content of the buffers -/

theorem content_fill {logs : List UInt8} (hroom : logs.length ≤ s.curBuffer.avail) :
    (s.fill logs).1.content = s.content ++ logs ∧ (s.fill logs).2 = available := by
  rw [State.fill, if_pos hroom]
  refine ⟨?_, rfl⟩
  simp only [State.content, State.taken, State.unwritten, LogBuffer.append_data hroom,
    List.append_assoc]

theorem content_swap {b : LogBuffer} (hR : Ready s) (hpc : s.backend = .swap)
    (hnew : s.newBuffer1 = some b) : (s.swapBuffers b).content = s.content := by
  obtain ⟨hempty, hnone⟩ := hR (by rw [hpc]; rfl)
  have hb : b.data = [] := hempty b hnew
  simp only [State.content, State.taken, State.unwritten, State.swapBuffers, hpc, hnone, hb,
    bytes_append, bytes_singleton]
  simp [bytes]

theorem Stored.quiet (hS : Stored s) (hcontent : s'.content = s.content)
    (hacquired : s'.acquired = s.acquired) (hbody : ∀ logs, Body s' logs ↔ Body s logs) : Stored s' where
  body := by
    intro logs hl
    rw [hacquired, hcontent]
    exact hS.body logs ((hbody logs).mp hl)
  rest := by
    intro hno
    rw [hacquired, hcontent]
    exact hS.rest fun logs hl => hno logs ((hbody logs).mpr hl)

/-- The backend moves on, with nothing taken. -/
theorem Stored.atBackend (hS : Stored s) (pc : BackendPc) (hold : s.taken = [])
    (hnew : State.taken { s with backend := pc } = []) : Stored { s with backend := pc } := by
  refine hS.quiet ?_ rfl fun _ => Iff.rfl
  show s.file ++ (State.taken { s with backend := pc } ++ s.unwritten) = s.content
  rw [State.content, hold, hnew]

variable [DecidableEq τ]

theorem body_goto {pc : Pc} {logs : List UInt8} (hold : ∀ l, s.thread t ≠ .appendBody l)
    (hnew : ∀ l, pc ≠ .appendBody l) : Body (s.goto t pc) logs ↔ Body s logs := by
  constructor
  · rintro ⟨u, hu⟩
    by_cases hut : u = t
    · subst hut
      rw [State.goto_self] at hu
      exact absurd hu (hnew logs)
    · rw [State.goto_of_ne s pc hut] at hu
      exact ⟨u, hu⟩
  · rintro ⟨u, hu⟩
    refine ⟨u, ?_⟩
    have hut : u ≠ t := by
      rintro rfl
      exact hold logs hu
    rw [State.goto_of_ne s pc hut]
    exact hu

theorem Stored.goto (hS : Stored s) {pc : Pc} (hold : ∀ l, s.thread t ≠ .appendBody l)
    (hnew : ∀ l, pc ≠ .appendBody l) : Stored (s.goto t pc) :=
  hS.quiet rfl rfl fun _ => body_goto hold hnew

omit [DecidableEq τ] in
theorem Body.inside {logs : List UInt8} (h : Body s logs) : ∃ p, Inside s p := by
  obtain ⟨t, ht⟩ := h
  exact ⟨some t, by rw [Inside, ht]; rfl⟩

theorem Stored.acquire {logs : List UInt8} (hG : Guarded s) (hS : Stored s)
    (hpc : s.thread t = .appendCas logs s.word) :
    Stored { s.goto t (.appendBody logs) with
      word := s.word ||| appending, acquired := s.acquired ++ [logs] } := by
  have hsane := hG.sane t
  rw [hpc] at hsane
  obtain ⟨-, hnobody⟩ := hG.nobody hsane.1 hsane.2
  have hrest : s.acquired.flatten = s.content := by
    refine hS.rest fun l hl => ?_
    obtain ⟨p, hp⟩ := hl.inside
    exact hnobody p hp
  have hnew : ∀ l, Body (s.goto t (.appendBody logs)) l ↔ l = logs := by
    intro l
    constructor
    · rintro ⟨u, hu⟩
      by_cases hut : u = t
      · subst hut
        rw [State.goto_self, Pc.appendBody.injEq] at hu
        exact hu.symm
      · rw [State.goto_of_ne s _ hut] at hu
        obtain ⟨p, hp⟩ := Body.inside ⟨u, hu⟩
        exact absurd hp (hnobody p)
    · rintro rfl
      exact ⟨t, by rw [State.goto_self]⟩
  refine ⟨fun l hl => ?_, fun hno => absurd ((hnew logs).mpr rfl) (hno logs)⟩
  rw [(hnew l).mp hl, List.flatten_append, hrest]
  show s.content ++ [logs].flatten = s.content ++ logs
  rw [List.flatten_singleton]

theorem Stored.fill {logs : List UInt8} (hG : Guarded s) (hS : Stored s)
    (hpc : s.thread t = .appendBody logs) (hroom : logs.length ≤ s.curBuffer.avail) :
    Stored ((s.fill logs).1.goto t (.appendStore (s.fill logs).2)) := by
  obtain ⟨hcontent, -⟩ := content_fill hroom
  obtain ⟨-, hthread, -, -⟩ := fill_frame s logs
  have hacquired : (s.fill logs).1.acquired = s.acquired := by
    unfold State.fill
    split <;> rfl
  obtain ⟨h, hinside, -⟩ := hG.holder
  -- no other thread is inside
  have hno : ∀ l, ¬ Body ((s.fill logs).1.goto t (.appendStore (s.fill logs).2)) l := by
    rintro l ⟨u, hu⟩
    by_cases hut : u = t
    · subst hut
      rw [State.goto_self] at hu
      cases hu
    · rw [State.goto_of_ne _ _ hut, hthread] at hu
      have hin : Inside s (some u) := by rw [Inside, hu]; rfl
      have hin' : Inside s (some t) := by rw [Inside, hpc]; rfl
      have heq := ((hinside _).mp hin).symm.trans ((hinside _).mp hin')
      rw [Option.some.injEq, Option.some.injEq] at heq
      exact hut heq
  refine ⟨fun l hl => absurd hl (hno l), fun _ => ?_⟩
  show (s.fill logs).1.acquired.flatten = (s.fill logs).1.content
  rw [hacquired, hcontent]
  exact hS.body logs ⟨t, hpc⟩

theorem Stored.move {a : Action τ} (hG : Guarded s) (hR : Ready s) (hS : Stored s) (hP : Drained s a)
    (h : Move s a s') : Stored s' := by
  have taken_nil : ∀ {pc : BackendPc}, s.backend = pc → State.taken { s with backend := pc } = [] →
      s.taken = [] := by
    intro pc hpc hnil
    rw [← hpc] at hnil
    exact hnil
  cases h with
  | start hstart hunborn =>
    exact (hS.atBackend .entry (taken_nil hunborn rfl) rfl).quiet rfl rfl fun _ => Iff.rfl
  | startReturn hstart hlatch => exact hS.quiet rfl rfl fun _ => Iff.rfl
  | append hpc => exact hS.goto (by rw [hpc]; simp) (by simp)
  | @stop t hpc =>
    have hgoto : Stored (s.goto t .stopLoad) := hS.goto (by rw [hpc]; simp) (by simp)
    exact hgoto.quiet rfl rfl fun _ => Iff.rfl
  | @refuse t logs hpc havail =>
    exact hS.quiet rfl rfl fun _ => body_goto (by rw [hpc]; simp) (by simp)
  | appendSleep hpc havail => exact hS.goto (by rw [hpc]; simp) (by simp)
  | appendLook hpc havail hbusy => exact hS.goto (by rw [hpc]; simp) (by simp)
  | appendAgain hpc =>
    refine hS.goto ?_ (by simp)
    rcases hpc with hpc | ⟨old, hpc, -⟩ <;> rw [hpc] <;> simp
  | acquire hpc => exact hS.acquire hG hpc
  | fill hpc =>
    simp only [Drained, hpc] at hP
    exact hS.fill hG hpc hP
  | release hpc => exact hS.quiet rfl rfl fun _ => body_goto (by rw [hpc]; simp) (by simp)
  | stopEarly hpc havail => exact hS.quiet rfl rfl fun _ => body_goto (by rw [hpc]; simp) (by simp)
  | stopSleep hpc havail => exact hS.goto (by rw [hpc]; simp) (by simp)
  | stopLook hpc havail hbusy => exact hS.goto (by rw [hpc]; simp) (by simp)
  | stopAgain hpc =>
    refine hS.goto ?_ (by simp)
    rcases hpc with hpc | ⟨old, hpc, -⟩ <;> rw [hpc] <;> simp
  | stopSwap hpc => exact hS.quiet rfl rfl fun _ => body_goto (by rw [hpc]; simp) (by simp)
  | stopJoin hpc hended => exact hS.quiet rfl rfl fun _ => body_goto (by rw [hpc]; simp) (by simp)
  | entry hpc =>
    exact (hS.atBackend .test (taken_nil hpc rfl) rfl).quiet rfl rfl fun _ => Iff.rfl
  | enter hpc hasserts => exact hS.atBackend .load (taken_nil hpc rfl) rfl
  | leave hpc hrunning => exact hS.atBackend .exit (taken_nil hpc rfl) rfl
  | giveUp hpc havail => exact hS.atBackend .ended (taken_nil hpc rfl) rfl
  | lookFull hpc havail hfull => exact hS.atBackend (.casFull s.word) (taken_nil hpc rfl) rfl
  | sleep hpc havail => exact hS.atBackend .wait (taken_nil hpc rfl) rfl
  | look hpc havail hfull happending => exact hS.atBackend (.cas s.word) (taken_nil hpc rfl) rfl
  | again hpc =>
    refine hS.atBackend .load ?_ rfl
    rcases hpc with hpc | ⟨old, hpc, -⟩
    · exact taken_nil hpc rfl
    · exact taken_nil hpc rfl
  | lockFull hpc =>
    exact (hS.atBackend .swap (taken_nil hpc rfl) rfl).quiet rfl rfl fun _ => Iff.rfl
  | againFull hpc => exact hS.atBackend (.casFull s.word) (taken_nil hpc rfl) rfl
  | lock hpc => exact (hS.atBackend .swap (taken_nil hpc rfl) rfl).quiet rfl rfl fun _ => Iff.rfl
  | swap hpc hnew => exact hS.quiet (content_swap hR hpc hnew) rfl fun _ => Iff.rfl
  | unlock hpc =>
    refine hS.quiet ?_ rfl fun _ => Iff.rfl
    simp [State.content, State.taken, State.unwritten, hpc]
  | write hpc =>
    refine hS.quiet ?_ rfl fun _ => Iff.rfl
    simp [State.content, State.taken, State.unwritten, hpc, bytes]
  | recycle hpc =>
    exact (hS.atBackend .test (taken_nil hpc rfl) rfl).quiet rfl rfl fun _ => Iff.rfl
  | exit hpc =>
    exact (hS.atBackend .ended (taken_nil hpc rfl) rfl).quiet rfl rfl fun _ => Iff.rfl

/-! ### What the backend has for the next round -/

omit [DecidableEq τ] in
theorem Ready.of_not_armed (h : s.backend.armed = false) : Ready s := by
  intro harmed
  rw [h] at harmed
  cases harmed

theorem Ready.move {a : Action τ} (hR : Ready s) (h : Move s a s') : Ready s' := by
  cases h with
  | start hstart hunborn => exact .of_not_armed rfl
  | @fill t logs hpc =>
    have hframe : Ready (s.fill logs).1 := by
      unfold State.fill
      split <;> exact hR
    exact hframe
  | entry hpc => exact .of_not_armed rfl
  | enter hpc hasserts =>
    simp only [State.asserts, Bool.and_eq_true, List.isEmpty_iff] at hasserts
    refine fun _ => ⟨fun b hb => ?_, hasserts.2⟩
    have hany := hasserts.1.1
    rw [Option.mem_def.mp hb, Option.any_some] at hany
    exact List.isEmpty_iff.mp hany
  | leave hpc hrunning => exact .of_not_armed rfl
  | giveUp hpc havail => exact .of_not_armed rfl
  | lookFull hpc havail hfull => exact fun _ => hR (by rw [hpc]; rfl)
  | sleep hpc havail => exact fun _ => hR (by rw [hpc]; rfl)
  | look hpc havail hfull happending => exact fun _ => hR (by rw [hpc]; rfl)
  | again hpc =>
    refine fun _ => hR ?_
    rcases hpc with hpc | ⟨old, hpc, -⟩ <;> rw [hpc] <;> rfl
  | lockFull hpc => exact fun _ => hR (by rw [hpc]; rfl)
  | againFull hpc => exact fun _ => hR (by rw [hpc]; rfl)
  | lock hpc => exact fun _ => hR (by rw [hpc]; rfl)
  | swap hpc hnew => exact .of_not_armed rfl
  | unlock hpc => exact .of_not_armed rfl
  | write hpc => exact .of_not_armed rfl
  | recycle hpc => exact .of_not_armed rfl
  | exit hpc => exact .of_not_armed rfl
  | _ => exact hR

/-! ### How the logger comes to its end -/

omit [DecidableEq τ] in
/-- What the invariant reads. -/
theorem Ending.congr (hE : Ending s) (hthread : s'.thread = s.thread) (hword : s'.word = s.word)
    (hstops : s'.stops = s.stops) (hstopped : s'.stopped = s.stopped)
    (hbackend : s'.backend = s.backend) (hunwritten : s'.unwritten = s.unwritten) : Ending s' := by
  have hinside : ∀ p, Inside s' p ↔ Inside s p := by
    intro p
    cases p with
    | none => rw [Inside, Inside, hbackend]
    | some t => rw [Inside, Inside, hthread]
  refine ⟨?_, ?_, ?_, ?_, ?_, ?_, ?_⟩
  · rw [hthread]
    exact hE.store
  · rw [hword]
    exact hE.word
  · rw [hstops, hthread, hstopped]
    exact hE.before
  · rw [hthread]
    exact hE.one
  · rw [hword, hunwritten, hbackend, hthread]
    intro hzero
    obtain ⟨hnobody, hrest⟩ := hE.zero hzero
    exact ⟨fun p hp => hnobody p ((hinside p).mp hp), hrest⟩
  · rw [hthread, hword]
    exact hE.join
  · rw [hstopped, hword, hbackend]
    exact hE.after

theorem Ending.store_goto (hE : Ending s) {pc : Pc} (hpc : ∀ v, pc = .appendStore v → v = available)
    (u : τ) (v : Word) (hu : (s.goto t pc).thread u = .appendStore v) : v = available := by
  by_cases hut : u = t
  · subst hut
    rw [State.goto_self] at hu
    exact hpc v hu
  · rw [State.goto_of_ne s pc hut] at hu
    exact hE.store u v hu

theorem nobody_goto {pc : Pc} (hnobody : ∀ p, ¬ Inside s p) (hpc : pc.inside = false) (p : Option τ) :
    ¬ Inside (s.goto t pc) p := by
  rw [inside_goto]
  split
  · rw [hpc]
    exact Bool.false_ne_true
  · exact hnobody p

/-- A thread takes a step that neither enters nor leaves `stop` or the buffers. -/
theorem Ending.goto (hE : Ending s) (pc : Pc) (hstore : ∀ v, pc = .appendStore v → v = available)
    (hstop : pc.stopping = (s.thread t).stopping) (hin : pc.inside = (s.thread t).inside)
    (hjoin : s.thread t ≠ .stopJoin) (hjoin' : pc ≠ .stopJoin) : Ending (s.goto t pc) := by
  have hstopping : ∀ u, ((s.goto t pc).thread u).stopping = (s.thread u).stopping := by
    intro u
    by_cases hut : u = t
    · subst hut
      rw [State.goto_self, hstop]
    · rw [State.goto_of_ne s pc hut]
  refine ⟨hE.store_goto hstore, hE.word, fun hstops => ?_, fun u v hu hv => ?_, fun hzero => ?_,
    fun u hu => ?_, hE.after⟩
  · obtain ⟨hnone, hstopped⟩ := hE.before hstops
    exact ⟨fun u => (hstopping u).trans (hnone u), hstopped⟩
  · rw [hstopping] at hu hv
    exact hE.one u v hu hv
  · obtain ⟨hnobody, hempty, hend⟩ := hE.zero hzero
    have hout : pc.inside = false := by
      rw [hin, Bool.eq_false_iff]
      exact hnobody (some t)
    refine ⟨nobody_goto hnobody hout, hempty, hend.imp_right ?_⟩
    rintro ⟨u, hu⟩
    have hut : u ≠ t := by
      rintro rfl
      exact hjoin hu
    exact ⟨u, by rw [State.goto_of_ne s pc hut]; exact hu⟩
  · by_cases hut : u = t
    · subst hut
      rw [State.goto_self] at hu
      exact absurd hu hjoin'
    · rw [State.goto_of_ne s pc hut] at hu
      exact hE.join u hu

omit [DecidableEq τ] in
/-- A thread that is inside: the word is not zero. -/
theorem Ending.word_ne_zero {p : Option τ} (hE : Ending s) (hp : Inside s p) : s.word ≠ 0 :=
  fun hzero => (hE.zero hzero).1 p hp

omit [DecidableEq τ] in
/-- While the word is not zero, `stop()` has neither returned nor stored `0`. -/
theorem Ending.open (hE : Ending s) (hword : s.word ≠ 0) :
    s.stopped = 0 ∧ ∀ t, s.thread t ≠ .stopJoin := by
  refine ⟨?_, fun t ht => hword (hE.join t ht)⟩
  by_contra hne
  exact hword (hE.after (Nat.pos_of_ne_zero hne)).1

omit [DecidableEq τ] in
/-- The word changes while it is not zero, and does not become zero. -/
theorem Ending.setWord (hE : Ending s) (hword : s.word ≠ 0) (w : Word) (hfull : w ≠ full)
    (hzero : w ≠ 0) : Ending { s with word := w } := by
  obtain ⟨hstopped, hnojoin⟩ := hE.open hword
  refine ⟨hE.store, hfull, hE.before, hE.one, fun h => absurd h hzero,
    fun t ht => absurd ht (hnojoin t), fun h => ?_⟩
  rw [hstopped] at h
  cases h

omit [DecidableEq τ] in
/-- The backend moves on, and has not ended before. -/
theorem Ending.atBackend (hE : Ending s) (pc : BackendPc) (hold : s.backend ≠ .ended)
    (hin : pc.inside = true → s.word ≠ 0) : Ending { s with backend := pc } := by
  refine ⟨hE.store, hE.word, hE.before, hE.one, fun hzero => ?_, hE.join, fun h => ?_⟩
  · obtain ⟨hnobody, hempty, hend⟩ := hE.zero hzero
    refine ⟨fun p hp => ?_, hempty, .inr (hend.resolve_left hold)⟩
    cases p with
    | none => exact hin hp hzero
    | some t => exact hnobody (some t) hp
  · exact absurd (hE.after h).2 hold

theorem Ending.stop (hE : Ending s) (hpc : s.thread t = .idle) (hone : s.stops = 0) :
    Ending { s.goto t .stopLoad with running := false, stops := s.stops + 1 } := by
  obtain ⟨hnone, hstopped⟩ := hE.before hone
  have hother : ∀ u, ((s.goto t .stopLoad).thread u).stopping = true → u = t := by
    intro u hu
    by_contra hut
    rw [State.goto_of_ne s _ hut, hnone u] at hu
    cases hu
  refine ⟨hE.store_goto (by simp), hE.word, fun h => absurd h (Nat.succ_ne_zero _),
    fun u v hu hv => ?_, fun hzero => ?_, fun u hu => ?_, hE.after⟩
  · exact (hother u hu).trans (hother v hv).symm
  · obtain ⟨hnobody, hempty, hend⟩ := hE.zero hzero
    refine ⟨nobody_goto hnobody rfl, hempty, .inl (hend.resolve_right ?_)⟩
    rintro ⟨u, hu⟩
    have hnot := hnone u
    rw [hu] at hnot
    cases hnot
  · have heq := hother u (by rw [hu]; rfl)
    subst heq
    have hu' : (s.goto u .stopLoad).thread u = .stopJoin := hu
    rw [State.goto_self] at hu'
    cases hu'

/-- `stop()` returns: the word is zero and the backend has ended. -/
theorem Ending.stopReturn (hE : Ending s) (hstop : (s.thread t).stopping = true) (hword : s.word = 0) (hended : s.backend = .ended) :
    Ending { s.goto t .idle with stopped := s.stopped + 1 } := by
  have hother : ∀ u, ((s.goto t .idle).thread u).stopping = false := by
    intro u
    by_cases hut : u = t
    · subst hut
      rw [State.goto_self]
      rfl
    · rw [State.goto_of_ne s _ hut, Bool.eq_false_iff]
      exact fun hu => hut (hE.one u t hu hstop)
  refine ⟨hE.store_goto (by simp), hE.word, fun h => ?_, fun u v hu => ?_, fun hzero => ?_,
    fun u _ => hword, fun _ => ⟨hword, hended⟩⟩
  · have hnot := (hE.before h).1 t
    rw [hstop] at hnot
    cases hnot
  · have hnot : ((s.goto t .idle).thread u).stopping = true := hu
    rw [hother u] at hnot
    cases hnot
  · obtain ⟨hnobody, hempty, -⟩ := hE.zero hzero
    exact ⟨nobody_goto hnobody rfl, hempty, .inl hended⟩

/-- `stop()` stores `0` while nobody is inside and the buffers are empty. -/
theorem Ending.stopSwap (hE : Ending s) (hstop : (s.thread t).stopping = true)
    (hword : s.word ≠ 0) (hnobody : ∀ p, ¬ Inside s p) (hempty : s.unwritten = []) :
    Ending { s.goto t .stopJoin with word := 0 } := by
  obtain ⟨hstopped, -⟩ := hE.open hword
  have hstopping : ∀ u, ((s.goto t .stopJoin).thread u).stopping = (s.thread u).stopping := by
    intro u
    by_cases hut : u = t
    · subst hut
      rw [State.goto_self, hstop]
      rfl
    · rw [State.goto_of_ne s _ hut]
  have hfull : (0 : Word) ≠ full := by decide
  refine ⟨hE.store_goto (by simp), hfull, fun h => ?_, fun u v hu hv => ?_, fun _ => ?_,
    fun _ _ => rfl, fun h => ?_⟩
  · have hnot := (hE.before h).1 t
    rw [hstop] at hnot
    cases hnot
  · have hu' : ((s.goto t .stopJoin).thread u).stopping = true := hu
    have hv' : ((s.goto t .stopJoin).thread v).stopping = true := hv
    rw [hstopping] at hu' hv'
    exact hE.one u v hu' hv'
  · exact ⟨nobody_goto hnobody rfl, hempty, .inr ⟨t, s.goto_self t .stopJoin⟩⟩
  · have hpos : 0 < s.stopped := h
    rw [hstopped] at hpos
    cases hpos

/-- A thread enters or leaves while the word is not zero, and the word does not become zero. -/
theorem Ending.pass (hE : Ending s) (pc : Pc) (hword : s.word ≠ 0)
    (hstore : ∀ v, pc = .appendStore v → v = available) (hstop : pc.stopping = (s.thread t).stopping)
    (hpc : pc ≠ .stopJoin) (w : Word) (hfull : w ≠ full) (hzero : w ≠ 0)
    (hthread : s'.thread = (s.goto t pc).thread) (hw : s'.word = w) (hstops : s'.stops = s.stops)
    (hstopped : s'.stopped = s.stopped) : Ending s' := by
  obtain ⟨hnotyet, hnojoin⟩ := hE.open hword
  have hstopping : ∀ u, (s'.thread u).stopping = (s.thread u).stopping := by
    intro u
    rw [hthread]
    by_cases hut : u = t
    · subst hut
      rw [State.goto_self, hstop]
    · rw [State.goto_of_ne s _ hut]
  refine ⟨?_, by rw [hw]; exact hfull, fun h => ?_, fun u v hu hv => ?_, fun h => ?_, fun u hu => ?_,
    fun h => ?_⟩
  · rw [hthread]
    exact hE.store_goto hstore
  · rw [hstops] at h
    obtain ⟨hnone, hnot⟩ := hE.before h
    exact ⟨fun u => (hstopping u).trans (hnone u), hstopped.trans hnot⟩
  · rw [hstopping] at hu hv
    exact hE.one u v hu hv
  · rw [hw] at h
    exact absurd h hzero
  · rw [hthread] at hu
    by_cases hut : u = t
    · subst hut
      rw [State.goto_self] at hu
      exact absurd hu hpc
    · rw [State.goto_of_ne s _ hut] at hu
      exact absurd hu (hnojoin u)
  · rw [hstopped, hnotyet] at h
    cases h

omit [DecidableEq τ] in
/-- Not available means zero: the word is never `full`. -/
theorem Ending.word_eq_zero (hE : Ending s) (hG : Guarded s) (havail : has s.word available = false) :
    s.word = 0 := by
  obtain ⟨h, -, hfits⟩ := hG.holder
  rcases hfits.cases with hw | hw | hw | hw | hw
  · rw [hw] at havail
    exact absurd havail (by decide)
  · exact hw
  · exact absurd hw hE.word
  · rw [hw] at havail
    exact absurd havail (by decide)
  · rw [hw] at havail
    exact absurd havail (by decide)

theorem Ending.move {a : Action τ} (hG : Guarded s) (hE : Ending s) (hP : Drained s a)
    (hone : OneStop s a) (h : Move s a s') : Ending s' := by
  have ne_ended : ∀ {pc : BackendPc}, s.backend = pc → pc ≠ .ended → s.backend ≠ .ended := by
    intro pc hpc hne
    rw [hpc]
    exact hne
  cases h with
  | start hstart hunborn =>
    exact (hE.atBackend .entry (ne_ended hunborn (by simp)) (by simp [BackendPc.inside])).congr
      rfl rfl rfl rfl rfl rfl
  | startReturn hstart hlatch => exact hE.congr rfl rfl rfl rfl rfl rfl
  | append hpc =>
    exact hE.goto _ (by simp) (by rw [hpc]; rfl) (by rw [hpc]; rfl) (by rw [hpc]; simp) (by simp)
  | stop hpc => exact hE.stop hpc hone
  | @refuse t logs hpc havail =>
    have hgoto : Ending (s.goto t .idle) :=
      hE.goto _ (by simp) (by rw [hpc]; rfl) (by rw [hpc]; rfl) (by rw [hpc]; simp) (by simp)
    exact hgoto.congr rfl rfl rfl rfl rfl rfl
  | appendSleep hpc havail =>
    exact hE.goto _ (by simp) (by rw [hpc]; rfl) (by rw [hpc]; rfl) (by rw [hpc]; simp) (by simp)
  | appendLook hpc havail hbusy =>
    exact hE.goto _ (by simp) (by rw [hpc]; rfl) (by rw [hpc]; rfl) (by rw [hpc]; simp) (by simp)
  | appendAgain hpc =>
    rcases hpc with hpc | ⟨old, hpc, -⟩
    · exact hE.goto _ (by simp) (by rw [hpc]; rfl) (by rw [hpc]; rfl) (by rw [hpc]; simp) (by simp)
    · exact hE.goto _ (by simp) (by rw [hpc]; rfl) (by rw [hpc]; rfl) (by rw [hpc]; simp) (by simp)
  | @acquire t logs hpc =>
    have hsane := hG.sane t
    rw [hpc] at hsane
    obtain ⟨hword, -⟩ := hG.nobody hsane.1 hsane.2
    refine hE.pass (.appendBody logs) ?_ (by simp) (by rw [hpc]; rfl) (by simp) (s.word ||| appending)
      ?_ ?_ rfl rfl rfl rfl
    · rw [hword]
      decide
    · rw [hword]
      decide
    · rw [hword]
      decide
  | @fill t logs hpc =>
    simp only [Drained, hpc] at hP
    have hin : Inside s (some t) := by
      rw [Inside, hpc]
      rfl
    obtain ⟨-, hv⟩ := content_fill hP
    obtain ⟨hword, hthread, -, -⟩ := fill_frame s logs
    obtain ⟨hstops, hstopped⟩ : (s.fill logs).1.stops = s.stops ∧
        (s.fill logs).1.stopped = s.stopped := by
      unfold State.fill
      split
      · exact ⟨rfl, rfl⟩
      · exact ⟨rfl, rfl⟩
    refine hE.pass (.appendStore (s.fill logs).2) (hE.word_ne_zero hin) ?_ (by rw [hpc]; rfl) (by simp)
      s.word hE.word (hE.word_ne_zero hin) ?_ hword hstops hstopped
    · intro v heq
      rw [← Pc.appendStore.inj heq]
      exact hv
    · simp only [State.goto, hthread]
  | @release t v hpc =>
    have hin : Inside s (some t) := by
      rw [Inside, hpc]
      rfl
    rw [hE.store t v hpc]
    exact hE.pass .idle (hE.word_ne_zero hin) (by simp) (by rw [hpc]; rfl) (by simp) available
      (by decide) (by decide) rfl rfl rfl rfl
  | @stopEarly t hpc havail =>
    have hword := hE.word_eq_zero hG havail
    obtain ⟨-, -, hend⟩ := hE.zero hword
    have hstop : (s.thread t).stopping = true := by
      rw [hpc]
      rfl
    refine hE.stopReturn hstop hword (hend.resolve_right ?_)
    -- this is the only thread in `stop()`
    rintro ⟨u, hu⟩
    have hut := hE.one u t (by rw [hu]; rfl) hstop
    rw [hut, hpc] at hu
    cases hu
  | stopSleep hpc havail =>
    exact hE.goto _ (by simp) (by rw [hpc]; rfl) (by rw [hpc]; rfl) (by rw [hpc]; simp) (by simp)
  | stopLook hpc havail hbusy =>
    exact hE.goto _ (by simp) (by rw [hpc]; rfl) (by rw [hpc]; rfl) (by rw [hpc]; simp) (by simp)
  | stopAgain hpc =>
    rcases hpc with hpc | ⟨old, hpc, -⟩
    · exact hE.goto _ (by simp) (by rw [hpc]; rfl) (by rw [hpc]; rfl) (by rw [hpc]; simp) (by simp)
    · exact hE.goto _ (by simp) (by rw [hpc]; rfl) (by rw [hpc]; rfl) (by rw [hpc]; simp) (by simp)
  | @stopSwap t hpc =>
    simp only [Drained, hpc] at hP
    have hsane := hG.sane t
    rw [hpc] at hsane
    obtain ⟨hword, hnobody⟩ := hG.nobody hsane.1 hsane.2
    refine hE.stopSwap (by rw [hpc]; rfl) ?_ hnobody (hP trivial)
    rw [hword]
    decide
  | @stopJoin t hpc hended => exact hE.stopReturn (by rw [hpc]; rfl) (hE.join t hpc) hended
  | entry hpc =>
    exact (hE.atBackend .test (ne_ended hpc (by simp)) (by simp [BackendPc.inside])).congr
      rfl rfl rfl rfl rfl rfl
  | enter hpc hasserts =>
    exact hE.atBackend .load (ne_ended hpc (by simp)) (by simp [BackendPc.inside])
  | leave hpc hrunning =>
    exact hE.atBackend .exit (ne_ended hpc (by simp)) (by simp [BackendPc.inside])
  | giveUp hpc havail => exact hE.atBackend .ended (ne_ended hpc (by simp)) (by simp [BackendPc.inside])
  | lookFull hpc havail hfull =>
    exact hE.atBackend (.casFull s.word) (ne_ended hpc (by simp)) (by simp [BackendPc.inside])
  | sleep hpc havail => exact hE.atBackend .wait (ne_ended hpc (by simp)) (by simp [BackendPc.inside])
  | look hpc havail hfull happending =>
    exact hE.atBackend (.cas s.word) (ne_ended hpc (by simp)) (by simp [BackendPc.inside])
  | again hpc =>
    rcases hpc with hpc | ⟨old, hpc, -⟩
    · exact hE.atBackend .load (ne_ended hpc (by simp)) (by simp [BackendPc.inside])
    · exact hE.atBackend .load (ne_ended hpc (by simp)) (by simp [BackendPc.inside])
  | lockFull hpc =>
    have hsane := hG.backend
    rw [hpc] at hsane
    exact hsane.elim
  | againFull hpc =>
    exact hE.atBackend (.casFull s.word) (ne_ended hpc (by simp)) (by simp [BackendPc.inside])
  | lock hpc =>
    obtain ⟨hword, -⟩ := hG.backend_nobody hpc
    have hset := hE.setWord (by rw [hword]; decide) (s.word ||| swaping) (by rw [hword]; decide)
      (by rw [hword]; decide)
    refine (hset.atBackend .swap (ne_ended hpc (by simp)) fun _ => ?_).congr rfl rfl rfl rfl rfl rfl
    show s.word ||| swaping ≠ 0
    rw [hword]
    decide
  | swap hpc hnew =>
    have hin : Inside s none := by
      rw [Inside, hpc]
      rfl
    have hne : s.word ≠ 0 := hE.word_ne_zero hin
    exact ⟨hE.store, hE.word, hE.before, hE.one, fun hzero => absurd hzero hne, hE.join,
      fun h => absurd (hE.after h).1 hne⟩
  | unlock hpc =>
    have hin : Inside s none := by
      rw [Inside, hpc]
      rfl
    obtain ⟨hword, -⟩ := hG.backend_word hin
    have hback : s.word - swaping = available := by
      rw [hword]
      decide
    have hset := hE.setWord (hE.word_ne_zero hin) (s.word - swaping) (by rw [hback]; decide)
      (by rw [hback]; decide)
    exact (hset.atBackend (.write s.buffersToWrite) (ne_ended hpc (by simp))
      (by simp [BackendPc.inside])).congr rfl rfl rfl rfl rfl rfl
  | write hpc =>
    exact (hE.atBackend (.write _) (ne_ended hpc (by simp)) (by simp [BackendPc.inside])).congr
      rfl rfl rfl rfl rfl rfl
  | recycle hpc =>
    exact (hE.atBackend .test (ne_ended hpc (by simp)) (by simp [BackendPc.inside])).congr
      rfl rfl rfl rfl rfl rfl
  | exit hpc =>
    simp only [Drained, hpc] at hP
    refine ⟨hE.store, by show (0 : Word) ≠ full; decide, hE.before, hE.one, fun _ => ?_, fun _ _ => rfl,
      fun _ => ⟨rfl, rfl⟩⟩
    refine ⟨fun p hp => ?_, hP.1, .inl rfl⟩
    cases p with
    | none => cases hp
    | some t =>
      have hin : (s.thread t).inside = true := hp
      rw [hP.2 t] at hin
      cases hin

/-! ### Whole runs -/

omit [DecidableEq τ] in
theorem stored_init : Stored (State.init available : State τ) where
  body := by
    rintro logs ⟨t, ht⟩
    cases ht
  rest := fun _ => rfl

omit [DecidableEq τ] in
theorem ending_init : Ending (State.init available : State τ) where
  store := by
    intro t v h
    cases h
  word := by
    show available ≠ full
    decide
  before := fun _ => ⟨fun _ => rfl, rfl⟩
  one := by
    intro t u h
    cases h
  zero := by
    intro h
    have hword : available = 0 := h
    exact absurd hword (by decide)
  join := by
    intro t h
    cases h
  after := by
    intro h
    cases h

/-- **The log is conserved.**  From a word that is `available`, for any number of threads that append, the
backend and one `stop()`, in any interleaving in which no buffer becomes full and neither `stop()` nor
the backend ends with bytes in the buffers: when `stop()` has returned, the bytes passed to
`log_file.append` are the records whose `append` set `appending`, each once, in the order in which
they did. -/
theorem log_conserved (as : List (Action τ)) (s : State τ)
    (hone : Along step OneStop (State.init available) as)
    (hdrained : Along step Drained (State.init available) as)
    (hrun : run step (State.init available) as = some s) (hstopped : 0 < s.stopped) :
    s.file = s.acquired.flatten := by
  have hinv : (Guarded s ∧ Ready s) ∧ Stored s ∧ Ending s :=
    run_induction_along (fun s a => OneStop s a ∧ Drained s a)
      (fun s => (Guarded s ∧ Ready s) ∧ Stored s ∧ Ending s)
      ⟨⟨guarded_init, .of_not_armed rfl⟩, stored_init, ending_init⟩
      (fun _ _ _ hI hP h =>
        ⟨⟨hI.1.1.move (step_cases h), hI.1.2.move (step_cases h)⟩,
          hI.2.1.move hI.1.1 hI.1.2 hP.2 (step_cases h), hI.2.2.move hI.1.1 hP.2 hP.1 (step_cases h)⟩)
      (hone.and hdrained) hrun
  obtain ⟨-, hS, hE⟩ := hinv
  obtain ⟨hword, hended⟩ := hE.after hstopped
  obtain ⟨hnobody, hempty, -⟩ := hE.zero hword
  have hrest : s.acquired.flatten = s.content := by
    refine hS.rest fun logs hl => ?_
    obtain ⟨p, hp⟩ := hl.inside
    exact hnobody p hp
  rw [hrest, State.content, State.taken, hended, hempty, List.append_nil, List.append_nil]

instance (s : State τ) : (a : Action τ) → Decidable (OneStop s a)
  | .stop _ => inferInstanceAs (Decidable (s.stops = 0))
  | .start => .isTrue trivial
  | .startReturn => .isTrue trivial
  | .append _ _ => .isTrue trivial
  | .step _ => .isTrue trivial
  | .backend _ => .isTrue trivial

instance [Fintype τ] (s : State τ) : (a : Action τ) → Decidable (Drained s a)
  | .step t =>
    match h : s.thread t with
    | .appendBody logs =>
      decidable_of_iff (logs.length ≤ s.curBuffer.avail) (by simp only [Drained, h])
    | .stopCas old => decidable_of_iff (s.word = old → s.unwritten = []) (by simp only [Drained, h])
    | .idle => .isTrue (by simp only [Drained, h])
    | .appendLoad _ => .isTrue (by simp only [Drained, h])
    | .appendWait _ => .isTrue (by simp only [Drained, h])
    | .appendCas _ _ => .isTrue (by simp only [Drained, h])
    | .appendStore _ => .isTrue (by simp only [Drained, h])
    | .stopLoad => .isTrue (by simp only [Drained, h])
    | .stopWait => .isTrue (by simp only [Drained, h])
    | .stopJoin => .isTrue (by simp only [Drained, h])
  | .backend _ =>
    match h : s.backend with
    | .exit =>
      decidable_of_iff (s.unwritten = [] ∧ ∀ t, (s.thread t).inside = false) (by simp only [Drained, h])
    | .unborn => .isTrue (by simp only [Drained, h])
    | .entry => .isTrue (by simp only [Drained, h])
    | .test => .isTrue (by simp only [Drained, h])
    | .load => .isTrue (by simp only [Drained, h])
    | .wait => .isTrue (by simp only [Drained, h])
    | .casFull _ => .isTrue (by simp only [Drained, h])
    | .cas _ => .isTrue (by simp only [Drained, h])
    | .swap => .isTrue (by simp only [Drained, h])
    | .unlock => .isTrue (by simp only [Drained, h])
    | .write _ => .isTrue (by simp only [Drained, h])
    | .ended => .isTrue (by simp only [Drained, h])
  | .start => .isTrue trivial
  | .startReturn => .isTrue trivial
  | .append _ _ => .isTrue trivial
  | .stop _ => .isTrue trivial

/-- Two threads append, the backend takes both records, and one of them stops the logger while the
backend writes. -/
def appendsAndStop : List (Action Bool) :=
  [.start, .backend false, .startReturn, .append false [97], .append true [98, 99], .step true,
    .step true, .step false, .step true, .step true, .step false, .step false, .step false,
    .step false, .step false, .backend false, .backend false, .backend false, .backend false,
    .backend false, .stop false, .step false, .step false, .backend false, .backend false,
    .backend false, .backend false, .step false]

theorem log_conserved_two_records :
    ∃ s, Along step OneStop (State.init available) appendsAndStop ∧
      Along step Drained (State.init available) appendsAndStop ∧
      run step (State.init available) appendsAndStop = some s ∧ 0 < s.stopped ∧
      s.acquired = [[98, 99], [97]] ∧ s.file = s.acquired.flatten := by
  have hone : Along step OneStop (State.init available) appendsAndStop := by decide
  have hdrained : Along step Drained (State.init available) appendsAndStop := by decide
  have hrun : run step (State.init available) appendsAndStop = some _ := rfl
  exact ⟨_, hone, hdrained, hrun, by decide, rfl,
    log_conserved appendsAndStop _ hone hdrained hrun (by decide)⟩

/-- A byte is appended and the logger is stopped. -/
def appendThenStop : List (Action Unit) :=
  [.start, .backend false, .startReturn, .append () [97], .step (), .step (), .step (), .step (),
    .stop (), .step (), .step (), .backend false, .backend false, .step ()]

/-- **What is in the current buffer is lost** when the logger is stopped. -/
theorem last_record_lost :
    ¬ ∀ (as : List (Action Unit)) (s : State Unit), Along step OneStop (State.init available) as →
      (∀ t logs, .append t logs ∈ as → logs.length ≤ logBufferSize) →
        run step (State.init available) as = some s → 0 < s.stopped →
          s.file = s.acquired.flatten := by
  intro hall
  have hrun : run step (State.init available) appendThenStop = some _ := rfl
  have hsmall : ∀ t logs, .append t logs ∈ appendThenStop → logs.length ≤ logBufferSize := by
    intro t logs hin
    simp only [appendThenStop, List.mem_cons, reduceCtorEq, Action.append.injEq, false_or, or_false,
      List.not_mem_nil] at hin
    rw [hin.2]
    decide
  have hfile := hall appendThenStop _ (by decide) hsmall hrun (by decide)
  exact absurd hfile (by decide)

end KwNet.AsyncLogger
