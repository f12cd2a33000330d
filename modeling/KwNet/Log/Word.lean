import KwNet.Log.Moves

/-!
# The state word of `AsyncLogger`

The word takes five values: `available`, `available | appending`, `available | swaping`, `full` and `0`.

* `Guarded` — who is between his CAS and his release, and what the word is then; the snapshots that the
  threads carry into a CAS had the word free;
* **`buffers_exclusive`** — from `available` on, no two threads are there at once, and nobody else touches
  the buffers;
* **`never_available`** — from `0` on, the word that a constructed logger has, it stays `0`: no step of the
  class sets `available`, every `append` is refused and the backend gives up.
-/

namespace KwNet.AsyncLogger

open KwNet.Lib

variable {τ : Type}

/-- Thread `p` is between his CAS and his release; `none` is the backend. -/
def Inside (s : State τ) : Option τ → Prop
  | none => s.backend.inside = true
  | some t => (s.thread t).inside = true

/-- The word, given who is inside. -/
def Fits : Option (Option τ) → Word → Prop
  | none, w => w = available ∨ w = 0 ∨ w = full
  | some none, w => w = available ||| swaping
  | some (some _), w => w = available ||| appending ∨ w = 0

/-- What a thread carries: a snapshot that was free, and a word that may be stored. -/
def Pc.Sane : Pc → Prop
  | .appendCas _ old => has old available = true ∧ has old busy = false
  | .stopCas old => has old available = true ∧ has old busy = false
  | .appendStore v => v = available ∨ v = full
  | _ => True

/-- What the backend carries.  It never comes to the CAS for `full`. -/
def BackendPc.Sane : BackendPc → Prop
  | .cas old => has old available = true ∧ has old full = false ∧ has old appending = false
  | .casFull _ => False
  | _ => True

/-- What holds from `available` on. -/
structure Guarded (s : State τ) : Prop where
  holder : ∃ h : Option (Option τ), (∀ p, Inside s p ↔ h = some p) ∧ Fits h s.word
  sane : ∀ t, (s.thread t).Sane
  backend : s.backend.Sane

variable {s s' : State τ} {t : τ}

/-! ### Words -/

theorem Fits.cases {h : Option (Option τ)} {w : Word} (hfits : Fits h w) :
    w = available ∨ w = 0 ∨ w = full ∨ w = available ||| swaping ∨ w = available ||| appending := by
  rcases h with - | (- | t)
  · rcases hfits with h | h | h
    · exact .inl h
    · exact .inr (.inl h)
    · exact .inr (.inr (.inl h))
  · exact .inr (.inr (.inr (.inl hfits)))
  · rcases hfits with h | h
    · exact .inr (.inr (.inr (.inr h)))
    · exact .inr (.inl h)

/-- A word that is free is exactly `available`. -/
theorem Fits.free {h : Option (Option τ)} {w : Word} (hfits : Fits h w)
    (havail : has w available = true) (hbusy : has w busy = false) : w = available := by
  rcases hfits.cases with rfl | rfl | rfl | rfl | rfl
  · rfl
  · exact absurd havail (by decide)
  · exact absurd havail (by decide)
  · exact absurd hbusy (by decide)
  · exact absurd hbusy (by decide)

/-- Nobody is inside when the word is `available`. -/
theorem Fits.nobody {h : Option (Option τ)} (hfits : Fits h available) : h = none := by
  rcases h with - | (- | t)
  · rfl
  · have hword : available = available ||| swaping := hfits
    exact absurd hword (by decide)
  · rcases hfits with h | h
    · exact absurd h (by decide)
    · exact absurd h (by decide)

/-- The backend finds no one inside when it may lock. -/
theorem Fits.backendFree {h : Option (Option τ)} {w : Word} (hfits : Fits h w) (hnot : h ≠ some none)
    (havail : has w available = true) (happending : has w appending = false) : w = available := by
  rcases h with - | (- | t)
  · rcases hfits with rfl | rfl | rfl
    · rfl
    · exact absurd havail (by decide)
    · exact absurd havail (by decide)
  · exact absurd rfl hnot
  · rcases hfits with rfl | rfl
    · exact absurd happending (by decide)
    · exact absurd havail (by decide)

theorem Fits.not_full {h : Option (Option τ)} {w : Word} (hfits : Fits h w)
    (havail : has w available = true) : has w full = false := by
  rcases hfits.cases with rfl | rfl | rfl | rfl | rfl
  · decide
  · exact absurd havail (by decide)
  · exact absurd havail (by decide)
  · decide
  · decide

/-! ### Who is inside -/

/-- The backend neither enters nor leaves. -/
theorem Guarded.atBackend (hG : Guarded s) (pc : BackendPc) (hbefore : s.backend.inside = pc.inside)
    (hpc : pc.Sane) : Guarded { s with backend := pc } := by
  obtain ⟨h, hinside, hfits⟩ := hG.holder
  refine ⟨⟨h, fun p => ?_, hfits⟩, hG.sane, hpc⟩
  rw [← hinside p]
  cases p with
  | none => rw [Inside, Inside, hbefore]
  | some t => rfl

/-- What the invariant reads. -/
theorem Guarded.congr (hG : Guarded s) (hword : s'.word = s.word) (hthread : s'.thread = s.thread)
    (hbackend : s'.backend = s.backend) : Guarded s' := by
  obtain ⟨h, hinside, hfits⟩ := hG.holder
  refine ⟨⟨h, fun p => ?_, by rw [hword]; exact hfits⟩, by rw [hthread]; exact hG.sane,
    by rw [hbackend]; exact hG.backend⟩
  rw [← hinside p]
  cases p with
  | none => rw [Inside, Inside, hbackend]
  | some t => rw [Inside, Inside, hthread]

/-- Nobody is inside when a thread finds its free snapshot in the word. -/
theorem Guarded.nobody (hG : Guarded s) (havail : has s.word available = true)
    (hbusy : has s.word busy = false) : s.word = available ∧ ∀ p, ¬ Inside s p := by
  obtain ⟨h, hinside, hfits⟩ := hG.holder
  have hword := hfits.free havail hbusy
  rw [hword] at hfits
  have hnone := hfits.nobody
  refine ⟨hword, fun p hp => ?_⟩
  have heq := (hinside p).mp hp
  rw [hnone] at heq
  cases heq

/-- Nobody is inside when the backend finds its snapshot in the word. -/
theorem Guarded.backend_nobody (hG : Guarded s) (hpc : s.backend = .cas s.word) :
    s.word = available ∧ ∀ p, ¬ Inside s p := by
  have hsane := hG.backend
  rw [hpc] at hsane
  obtain ⟨h, hinside, hfits⟩ := hG.holder
  have hnot : h ≠ some none := by
    intro hh
    have hin : Inside s none := (hinside none).mpr hh
    rw [Inside, hpc] at hin
    cases hin
  have hword := hfits.backendFree hnot hsane.1 hsane.2.2
  rw [hword] at hfits
  have hnone := hfits.nobody
  refine ⟨hword, fun p hp => ?_⟩
  have heq := (hinside p).mp hp
  rw [hnone] at heq
  cases heq

theorem Guarded.lock (hG : Guarded s) (hpc : s.backend = .cas s.word) :
    Guarded { s with word := s.word ||| swaping, backend := .swap } := by
  obtain ⟨hword, hnobody⟩ := hG.backend_nobody hpc
  refine ⟨⟨some none, fun p => ?_, by rw [Fits, hword]⟩, hG.sane, trivial⟩
  cases p with
  | none => exact ⟨fun _ => rfl, fun _ => rfl⟩
  | some t => exact ⟨fun h => absurd h (hnobody (some t)), fun h => by cases h⟩

/-- The word while the backend is inside. -/
theorem Guarded.backend_word (hG : Guarded s) (hin : Inside s none) :
    s.word = available ||| swaping ∧ ∀ t, ¬ Inside s (some t) := by
  obtain ⟨h, hinside, hfits⟩ := hG.holder
  have hh : h = some none := (hinside none).mp hin
  subst hh
  refine ⟨hfits, fun t ht => ?_⟩
  have heq := (hinside (some t)).mp ht
  cases heq

theorem Guarded.unlock (hG : Guarded s) (hpc : s.backend = .unlock) :
    Guarded { s with word := s.word - swaping, backend := .write s.buffersToWrite } := by
  have hin : Inside s none := by
    rw [Inside, hpc]
    rfl
  obtain ⟨hword, hother⟩ := hG.backend_word hin
  have hback : s.word - swaping = available := by
    rw [hword]
    decide
  refine ⟨⟨none, fun p => ?_, .inl hback⟩, hG.sane, trivial⟩
  cases p with
  | none => simp [Inside, BackendPc.inside]
  | some t => exact ⟨fun h => absurd h (hother t), fun h => by cases h⟩

/-- The store of `0` that ends the backend.  An `append` that is inside stays the only one. -/
theorem Guarded.exit (hG : Guarded s) (hpc : s.backend = .exit) :
    Guarded { s with word := 0, backend := .ended } := by
  obtain ⟨h, hinside, hfits⟩ := hG.holder
  refine ⟨⟨h, fun p => ?_, ?_⟩, hG.sane, trivial⟩
  · rw [← hinside p]
    cases p with
    | none => simp [Inside, hpc, BackendPc.inside]
    | some t => rfl
  · rcases h with - | (- | t)
    · exact .inr (.inl rfl)
    · have hin : Inside s none := (hinside none).mpr rfl
      rw [Inside, hpc] at hin
      cases hin
    · exact .inr rfl

theorem fill_frame (s : State τ) (logs : List UInt8) :
    (s.fill logs).1.word = s.word ∧ (s.fill logs).1.thread = s.thread ∧
      (s.fill logs).1.backend = s.backend ∧ ((s.fill logs).2 = available ∨ (s.fill logs).2 = full) := by
  unfold State.fill
  split
  · exact ⟨rfl, rfl, rfl, .inl rfl⟩
  · exact ⟨rfl, rfl, rfl, .inr rfl⟩

variable [DecidableEq τ]

theorem inside_goto {pc : Pc} {p : Option τ} :
    Inside (s.goto t pc) p ↔ if p = some t then pc.inside = true else Inside s p := by
  rcases p with - | u
  · simp [Inside, State.goto]
  · by_cases hu : u = t
    · subst hu
      simp [Inside, State.goto]
    · simp [Inside, State.goto, hu]

theorem Guarded.sane_goto (hG : Guarded s) {pc : Pc} (hpc : pc.Sane) (u : τ) :
    ((s.goto t pc).thread u).Sane := by
  by_cases hu : u = t
  · subst hu
    rw [State.goto_self]
    exact hpc
  · rw [State.goto_of_ne s pc hu]
    exact hG.sane u

/-- A thread that neither enters nor leaves. -/
theorem Guarded.goto (hG : Guarded s) (pc : Pc) (hbefore : (s.thread t).inside = pc.inside)
    (hpc : pc.Sane) : Guarded (s.goto t pc) := by
  obtain ⟨h, hinside, hfits⟩ := hG.holder
  refine ⟨⟨h, fun p => ?_, hfits⟩, fun u => hG.sane_goto hpc u, hG.backend⟩
  rw [inside_goto, ← hinside p]
  split
  · next hp =>
    rw [hp, ← hbefore]
    rfl
  · rfl

theorem Guarded.acquire (hG : Guarded s) {logs : List UInt8}
    (hpc : s.thread t = .appendCas logs s.word) :
    Guarded { s.goto t (.appendBody logs) with
      word := s.word ||| appending, acquired := s.acquired ++ [logs] } := by
  have hsane := hG.sane t
  rw [hpc] at hsane
  obtain ⟨hword, hnobody⟩ := hG.nobody hsane.1 hsane.2
  refine ⟨⟨some (some t), fun p => ?_, .inl (by rw [hword])⟩, hG.sane_goto trivial, hG.backend⟩
  show Inside (s.goto t (.appendBody logs)) p ↔ _
  rw [inside_goto, Option.some.injEq]
  split
  · next hp => simp [hp, Pc.inside]
  · next hp => exact ⟨fun hin => absurd hin (hnobody p), fun heq => absurd heq.symm hp⟩

theorem Guarded.release (hG : Guarded s) {v : Word} (hpc : s.thread t = .appendStore v) :
    Guarded { s.goto t .idle with word := v } := by
  have hsane := hG.sane t
  rw [hpc] at hsane
  obtain ⟨h, hinside, -⟩ := hG.holder
  have hin : Inside s (some t) := by
    rw [Inside, hpc]
    rfl
  have hh : h = some (some t) := (hinside _).mp hin
  refine ⟨⟨none, fun p => ?_, hsane.imp_right .inr⟩, hG.sane_goto trivial, hG.backend⟩
  show Inside (s.goto t .idle) p ↔ _
  rw [inside_goto]
  split
  · simp [Pc.inside]
  · next hp =>
    rw [hinside p, hh, Option.some.injEq]
    exact ⟨fun heq => absurd heq.symm hp, fun heq => by cases heq⟩

theorem Guarded.stopSwap (hG : Guarded s) (hpc : s.thread t = .stopCas s.word) :
    Guarded { s.goto t .stopJoin with word := 0 } := by
  have hsane := hG.sane t
  rw [hpc] at hsane
  obtain ⟨-, hnobody⟩ := hG.nobody hsane.1 hsane.2
  refine ⟨⟨none, fun p => ?_, .inr (.inl rfl)⟩, hG.sane_goto trivial, hG.backend⟩
  show Inside (s.goto t .stopJoin) p ↔ _
  rw [inside_goto]
  split
  · simp [Pc.inside]
  · exact ⟨fun hin => absurd hin (hnobody p), fun heq => by cases heq⟩

theorem Guarded.move {a : Action τ} (hG : Guarded s) (h : Move s a s') : Guarded s' := by
  cases h with
  | start hstart hunborn =>
    exact (hG.atBackend .entry (by rw [hunborn]; rfl) trivial).congr rfl rfl rfl
  | startReturn hstart hlatch => exact hG.congr rfl rfl rfl
  | append hpc => exact hG.goto (.appendLoad _) (by rw [hpc]; rfl) trivial
  | stop hpc => exact (hG.goto .stopLoad (by rw [hpc]; rfl) trivial).congr rfl rfl rfl
  | refuse hpc havail => exact (hG.goto .idle (by rw [hpc]; rfl) trivial).congr rfl rfl rfl
  | appendSleep hpc havail => exact hG.goto (.appendWait _) (by rw [hpc]; rfl) trivial
  | appendLook hpc havail hbusy => exact hG.goto (.appendCas _ s.word) (by rw [hpc]; rfl) ⟨havail, hbusy⟩
  | appendAgain hpc =>
    refine hG.goto (.appendLoad _) ?_ trivial
    rcases hpc with hpc | ⟨old, hpc, -⟩ <;> rw [hpc] <;> rfl
  | acquire hpc => exact hG.acquire hpc
  | @fill t logs hpc =>
    obtain ⟨hword, hthread, hbackend, hv⟩ := fill_frame s logs
    exact (hG.congr hword hthread hbackend).goto (.appendStore _) (by rw [hthread, hpc]; rfl) hv
  | release hpc => exact hG.release hpc
  | stopEarly hpc havail => exact (hG.goto .idle (by rw [hpc]; rfl) trivial).congr rfl rfl rfl
  | stopSleep hpc havail => exact hG.goto .stopWait (by rw [hpc]; rfl) trivial
  | stopLook hpc havail hbusy => exact hG.goto (.stopCas s.word) (by rw [hpc]; rfl) ⟨havail, hbusy⟩
  | stopAgain hpc =>
    refine hG.goto .stopLoad ?_ trivial
    rcases hpc with hpc | ⟨old, hpc, -⟩ <;> rw [hpc] <;> rfl
  | stopSwap hpc => exact hG.stopSwap hpc
  | stopJoin hpc hended => exact (hG.goto .idle (by rw [hpc]; rfl) trivial).congr rfl rfl rfl
  | entry hpc => exact (hG.atBackend .test (by rw [hpc]; rfl) trivial).congr rfl rfl rfl
  | enter hpc hasserts => exact hG.atBackend .load (by rw [hpc]; rfl) trivial
  | leave hpc hrunning => exact hG.atBackend .exit (by rw [hpc]; rfl) trivial
  | giveUp hpc havail => exact hG.atBackend .ended (by rw [hpc]; rfl) trivial
  | lookFull hpc havail hfull =>
    obtain ⟨h, -, hfits⟩ := hG.holder
    rw [hfits.not_full havail] at hfull
    cases hfull
  | sleep hpc havail => exact hG.atBackend .wait (by rw [hpc]; rfl) trivial
  | look hpc havail hfull happending =>
    exact hG.atBackend (.cas s.word) (by rw [hpc]; rfl) ⟨havail, hfull, happending⟩
  | again hpc =>
    refine hG.atBackend .load ?_ trivial
    rcases hpc with hpc | ⟨old, hpc, -⟩ <;> rw [hpc] <;> rfl
  | lockFull hpc =>
    have hsane := hG.backend
    rw [hpc] at hsane
    exact hsane.elim
  | againFull hpc =>
    have hsane := hG.backend
    rw [hpc] at hsane
    exact hsane.elim
  | lock hpc => exact hG.lock hpc
  | swap hpc hnew => exact (hG.atBackend .unlock (by rw [hpc]; rfl) trivial).congr rfl rfl rfl
  | unlock hpc => exact hG.unlock hpc
  | write hpc => exact (hG.atBackend (.write _) (by rw [hpc]; rfl) trivial).congr rfl rfl rfl
  | recycle hpc => exact (hG.atBackend .test (by rw [hpc]; rfl) trivial).congr rfl rfl rfl
  | exit hpc => exact hG.exit hpc

omit [DecidableEq τ] in
theorem guarded_init : Guarded (State.init available : State τ) where
  holder := by
    refine ⟨none, fun p => ?_, .inl rfl⟩
    cases p with
    | none => simp [Inside, State.init, BackendPc.inside]
    | some t => simp [Inside, State.init, Pc.inside]
  sane := fun _ => trivial
  backend := trivial

theorem Guarded.run {as : List (Action τ)}
    (hrun : Lib.run step (State.init available) as = some s) : Guarded s :=
  run_induction Guarded guarded_init (fun _ _ _ hG h => hG.move (step_cases h)) hrun

/-- The thread that acts; `none` is the backend.  `start()` has no such thread. -/
def Action.actor : Action τ → Option (Option τ)
  | .start => none
  | .startReturn => none
  | .append t _ => some (some t)
  | .stop t => some (some t)
  | .step t => some (some t)
  | .backend _ => some none

/-- `cur_buffer`, `next_buffer` and `buffers`. -/
def State.shared (s : State τ) : LogBuffer × Option LogBuffer × List LogBuffer :=
  (s.curBuffer, s.nextBuffer, s.buffers)

/-- The buffers are touched between the CAS and the release only. -/
theorem Move.shared {a : Action τ} (h : Move s a s') (hne : s'.shared ≠ s.shared) :
    ∃ p, a.actor = some p ∧ Inside s p := by
  cases h with
  | @fill t logs hpc => exact ⟨some t, rfl, by rw [Inside, hpc]; rfl⟩
  | swap hpc hnew => exact ⟨none, rfl, by rw [Inside, hpc]; rfl⟩
  | _ => exact absurd rfl hne

/-- **The buffers are accessed exclusively.**  From a word that is `available`, for any number of threads
that append and stop and the backend, in every reachable state: no two threads are between their CAS
and their release, and a step that changes `cur_buffer`, `next_buffer` or `buffers` is made by a
thread that is there. -/
theorem buffers_exclusive (as : List (Action τ)) (s : State τ)
    (hrun : run step (State.init available) as = some s) :
    (∀ p q, Inside s p → Inside s q → p = q) ∧
      ∀ a s', step s a = some s' → s'.shared ≠ s.shared → ∃ p, a.actor = some p ∧ Inside s p := by
  have hG : Guarded s := .run hrun
  refine ⟨fun p q hp hq => ?_, fun a s' h hne => (step_cases h).shared hne⟩
  obtain ⟨h, hinside, -⟩ := hG.holder
  have hp' := (hinside p).mp hp
  have hq' := (hinside q).mp hq
  rw [hp', Option.some.injEq] at hq'
  exact hq'

/-- One thread appends a byte while the backend stops and stores `0`. -/
def blindStore : List (Action Bool) :=
  [.start, .backend false, .startReturn, .append false [97], .step false, .step false, .stop true,
    .backend false, .backend false]

theorem buffers_exclusive_blind_store :
    ∃ s, run step (State.init available) blindStore = some s ∧ s.word = 0 ∧ Inside s (some false) ∧
      ∀ p q, Inside s p → Inside s q → p = q :=
  have hrun : run step (State.init available) blindStore = some _ := rfl
  ⟨_, hrun, rfl, rfl, (buffers_exclusive blindStore _ hrun).1⟩

/-! ### A logger as it is constructed -/

/-- Where a thread can be while the word is `0`. -/
def Pc.early : Pc → Bool
  | .idle => true
  | .appendLoad _ => true
  | .stopLoad => true
  | _ => false

/-- Where the backend can be while the word is `0`. -/
def BackendPc.early : BackendPc → Bool
  | .unborn => true
  | .entry => true
  | .test => true
  | .load => true
  | .exit => true
  | .ended => true
  | _ => false

/-- What holds from `0` on. -/
structure Dead (s : State τ) : Prop where
  word : s.word = 0
  thread : ∀ t, (s.thread t).early = true
  backend : s.backend.early = true
  acquired : s.acquired = []
  file : s.file = []

theorem Dead.goto (hD : Dead s) (pc : Pc) (hpc : pc.early = true) : Dead (s.goto t pc) := by
  refine ⟨hD.word, fun u => ?_, hD.backend, hD.acquired, hD.file⟩
  by_cases hu : u = t
  · subst hu
    rw [State.goto_self]
    exact hpc
  · rw [State.goto_of_ne s pc hu]
    exact hD.thread u

omit [DecidableEq τ] in
theorem Dead.not_available (hD : Dead s) : has s.word available = false := by
  rw [hD.word]
  decide

omit [DecidableEq τ] in
theorem Dead.not_at (hD : Dead s) {pc : Pc} (hpc : s.thread t = pc) (hlate : pc.early = false) :
    False := by
  have hearly := hD.thread t
  rw [hpc, hlate] at hearly
  cases hearly

omit [DecidableEq τ] in
theorem Dead.backend_not_at (hD : Dead s) {pc : BackendPc} (hpc : s.backend = pc)
    (hlate : pc.early = false) : False := by
  have hearly := hD.backend
  rw [hpc, hlate] at hearly
  cases hearly

theorem Dead.move {a : Action τ} (hD : Dead s) (h : Move s a s') : Dead s' := by
  have hnot : ¬ has s.word available = true := by
    rw [hD.not_available]
    exact Bool.false_ne_true
  cases h with
  | start hstart hunborn => exact ⟨hD.word, hD.thread, rfl, hD.acquired, hD.file⟩
  | startReturn hstart hlatch => exact ⟨hD.word, hD.thread, hD.backend, hD.acquired, hD.file⟩
  | append hpc => exact hD.goto (.appendLoad _) rfl
  | @stop t hpc =>
    have hgoto := hD.goto (t := t) .stopLoad rfl
    exact ⟨hgoto.word, hgoto.thread, hgoto.backend, hgoto.acquired, hgoto.file⟩
  | @refuse t logs hpc havail =>
    have hgoto := hD.goto (t := t) .idle rfl
    exact ⟨hgoto.word, hgoto.thread, hgoto.backend, hgoto.acquired, hgoto.file⟩
  | appendSleep hpc havail => exact absurd havail hnot
  | appendLook hpc havail hbusy => exact absurd havail hnot
  | appendAgain hpc =>
    rcases hpc with hpc | ⟨old, hpc, -⟩
    · exact (hD.not_at hpc rfl).elim
    · exact (hD.not_at hpc rfl).elim
  | acquire hpc => exact (hD.not_at hpc rfl).elim
  | fill hpc => exact (hD.not_at hpc rfl).elim
  | release hpc => exact (hD.not_at hpc rfl).elim
  | @stopEarly t hpc havail =>
    have hgoto := hD.goto (t := t) .idle rfl
    exact ⟨hgoto.word, hgoto.thread, hgoto.backend, hgoto.acquired, hgoto.file⟩
  | stopSleep hpc havail => exact absurd havail hnot
  | stopLook hpc havail hbusy => exact absurd havail hnot
  | stopAgain hpc =>
    rcases hpc with hpc | ⟨old, hpc, -⟩
    · exact (hD.not_at hpc rfl).elim
    · exact (hD.not_at hpc rfl).elim
  | stopSwap hpc => exact (hD.not_at hpc rfl).elim
  | stopJoin hpc hended => exact (hD.not_at hpc rfl).elim
  | entry hpc => exact ⟨hD.word, hD.thread, rfl, hD.acquired, hD.file⟩
  | enter hpc hasserts => exact ⟨hD.word, hD.thread, rfl, hD.acquired, hD.file⟩
  | leave hpc hrunning => exact ⟨hD.word, hD.thread, rfl, hD.acquired, hD.file⟩
  | giveUp hpc havail => exact ⟨hD.word, hD.thread, rfl, hD.acquired, hD.file⟩
  | lookFull hpc havail hfull => exact absurd havail hnot
  | sleep hpc havail => exact absurd havail hnot
  | look hpc havail hfull happending => exact absurd havail hnot
  | again hpc =>
    rcases hpc with hpc | ⟨old, hpc, -⟩
    · exact (hD.backend_not_at hpc rfl).elim
    · exact (hD.backend_not_at hpc rfl).elim
  | lockFull hpc => exact (hD.backend_not_at hpc rfl).elim
  | againFull hpc => exact (hD.backend_not_at hpc rfl).elim
  | lock hpc => exact (hD.backend_not_at hpc rfl).elim
  | swap hpc hnew => exact (hD.backend_not_at hpc rfl).elim
  | unlock hpc => exact (hD.backend_not_at hpc rfl).elim
  | write hpc => exact (hD.backend_not_at hpc rfl).elim
  | recycle hpc => exact (hD.backend_not_at hpc rfl).elim
  | exit hpc => exact ⟨rfl, hD.thread, rfl, hD.acquired, hD.file⟩

omit [DecidableEq τ] in
theorem dead_init : Dead (State.init 0 : State τ) :=
  ⟨rfl, fun _ => rfl, rfl, rfl, rfl⟩

/-- **The logger never becomes available.**  Whatever the threads do with a logger whose word is zero when
it is constructed, in every reachable state, with `start()` returned or not: `available` is not set,
no `append` has acquired the buffers and nothing was written. -/
theorem never_available (as : List (Action τ)) (s : State τ)
    (hrun : run step (State.init 0) as = some s) :
    has s.word available = false ∧ s.acquired = [] ∧ s.file = [] := by
  have hD : Dead s := run_induction Dead dead_init (fun _ _ _ hD h => hD.move (step_cases h)) hrun
  exact ⟨hD.not_available, hD.acquired, hD.file⟩

/-- The logger is started, a byte is appended and the backend looks at the word. -/
def startAndAppend : List (Action Unit) :=
  [.start, .backend false, .startReturn, .append () [97], .step (), .backend false, .backend false]

theorem never_available_append :
    ∃ s, run step (State.init 0) startAndAppend = some s ∧ s.start = .returned ∧ s.stops = 0 ∧
      s.refused = [[97]] ∧ s.backend = .ended ∧ has s.word available = false :=
  have hrun : run step (State.init 0) startAndAppend = some _ := rfl
  ⟨_, hrun, rfl, rfl, rfl, rfl, (never_available startAndAppend _ hrun).1⟩

/-- **A started logger is not available.** -/
theorem started_not_available :
    ¬ ∀ (as : List (Action Unit)) (s : State Unit), run step (State.init 0) as = some s →
      s.start = .returned → s.stops = 0 →
        has s.word available = true ∧ s.refused = [] ∧ s.backend ≠ .ended := by
  intro hall
  have hrun : run step (State.init 0) startAndAppend = some _ := rfl
  have havail := (hall startAndAppend _ hrun rfl rfl).1
  exact absurd havail (by decide)

end KwNet.AsyncLogger
