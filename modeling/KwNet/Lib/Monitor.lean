import KwNet.Lib.Run

/-!
# Monitors

A monitor keeps a datum behind one mutex and one condition variable.  A procedure takes the mutex, waits as
long as its guard is false, replaces the datum, may wake everybody who waits, and gives the mutex back.  Who is
woken competes for the mutex and looks at the guard again; anybody may wake for no reason.

* `Serves` — procedures that are served one after another, each with its guard true on what the one before left;
* `Signals` — a procedure wakes whenever it makes a guard true;
* **`Ok.step`** — the mutex excludes, and the procedures are served so;
* **`awake_step`** — under `Signals` nobody sleeps whose guard is true.
-/

namespace KwNet.Lib.Monitor

/-- `while (!guard) wait(); body;`, and `notifyAll()` if `wakes` holds of the datum before. -/
structure Procedure (σ : Type*) where
  guard : σ → Bool
  body : σ → σ
  wakes : σ → Bool

/-- Where a thread stands. -/
inductive Place (π : Type*) where
  | outside
  /-- It wants the mutex for the first time. -/
  | entering (p : π)
  /-- It holds the mutex and has not found its guard true. -/
  | testing (p : π)
  | waiting (p : π)
  /-- It is awake again and wants the mutex. -/
  | woken (p : π)
  /-- It holds the mutex and is done with the datum. -/
  | leaving (p : π)
  deriving DecidableEq

/-- The threads that hold the mutex. -/
def Place.inside {π : Type*} : Place π → Bool
  | .testing _ => true
  | .leaving _ => true
  | _ => false

def Place.roused {π : Type*} : Place π → Place π
  | .waiting p => .woken p
  | x => x

structure State (ι π σ : Type*) where
  datum : σ
  owner : Option ι
  place : ι → Place π
  /-- The procedures served, by whom and on which datum. -/
  served : List (ι × π × σ)

inductive Action (ι π : Type*) where
  | call (t : ι) (p : π)
  | acquire (t : ι)
  | test (t : ι)
  | leave (t : ι)
  | rouse (t : ι)

variable {ι π σ : Type*}

def State.init (ι π : Type*) {σ : Type*} (d₀ : σ) : State ι π σ := ⟨d₀, none, fun _ => .outside, []⟩

/-- Everybody who waits is woken. -/
def State.broadcast (s : State ι π σ) : State ι π σ := { s with place := fun t => (s.place t).roused }

variable [DecidableEq ι]

def State.goto (s : State ι π σ) (t : ι) (x : Place π) : State ι π σ :=
  { s with place := Function.update s.place t x }

/-- `t` executes the body of `p` and `notifyAll()`. -/
def State.serve (code : π → Procedure σ) (s : State ι π σ) (t : ι) (p : π) : State ι π σ :=
  { (if (code p).wakes s.datum then s.broadcast else s).goto t (.leaving p) with
    datum := (code p).body s.datum
    served := s.served ++ [(t, p, s.datum)] }

def step (code : π → Procedure σ) (s : State ι π σ) : Action ι π → Option (State ι π σ)
  | .call t p =>
    match s.place t with
    | .outside => some (s.goto t (.entering p))
    | _ => none
  | .acquire t =>
    match s.owner, s.place t with
    | none, .entering p => some { s.goto t (.testing p) with owner := some t }
    | none, .woken p => some { s.goto t (.testing p) with owner := some t }
    | _, _ => none
  | .test t =>
    match s.place t with
    | .testing p =>
      some (if (code p).guard s.datum then s.serve code t p else { s.goto t (.waiting p) with owner := none })
    | _ => none
  | .leave t =>
    match s.place t with
    | .leaving _ => some { s.goto t .outside with owner := none }
    | _ => none
  | .rouse t =>
    match s.place t with
    | .waiting p => some (s.goto t (.woken p))
    | _ => none

/-! ### The properties -/

/-- A log of procedures served from the datum `d₀` on, and the datum they leave. -/
inductive Serves (code : π → Procedure σ) (d₀ : σ) : List (ι × π × σ) → σ → Prop
  | nil : Serves code d₀ [] d₀
  | serve {log : List (ι × π × σ)} {d : σ} {t : ι} {p : π} (h : Serves code d₀ log d)
      (hguard : (code p).guard d = true) : Serves code d₀ (log ++ [(t, p, d)]) ((code p).body d)

/-- A procedure that makes a guard true wakes. -/
def Signals (code : π → Procedure σ) : Prop :=
  ∀ p q d, (code p).guard d = true → (code q).guard d = false → (code q).guard ((code p).body d) = true →
    (code p).wakes d = true

/-- What holds of a monitor at any time. -/
structure Ok (code : π → Procedure σ) (d₀ : σ) (s : State ι π σ) : Prop where
  held : ∀ t, s.owner = some t ↔ (s.place t).inside = true
  serves : Serves code d₀ s.served s.datum

/-- No wake-up is lost. -/
def Awake (code : π → Procedure σ) (s : State ι π σ) : Prop :=
  ∀ t p, s.place t = .waiting p → (code p).guard s.datum = false

variable {code : π → Procedure σ} {d₀ : σ} {s s' : State ι π σ}

omit [DecidableEq ι] in
/-- **Exclusion.** -/
theorem Ok.exclusive (h : Ok code d₀ s) {t u : ι} (ht : (s.place t).inside = true)
    (hu : (s.place u).inside = true) : t = u := by
  have hto := (h.held t).mpr ht
  rw [(h.held u).mpr hu] at hto
  exact (Option.some.inj hto).symm

omit [DecidableEq ι] in
theorem ok_init (code : π → Procedure σ) (d₀ : σ) : Ok code d₀ (State.init ι π d₀) where
  held := by
    intro t
    constructor
    · rintro ⟨⟩
    · rintro ⟨⟩
  serves := .nil

omit [DecidableEq ι] in
/-- What was served before a procedure, and that its guard was true. -/
theorem Serves.split {log : List (ι × π × σ)} {d : σ} (h : Serves code d₀ log d) {pre post : List (ι × π × σ)}
    {t : ι} {p : π} {e : σ} (heq : log = pre ++ (t, p, e) :: post) :
    Serves code d₀ pre e ∧ (code p).guard e = true := by
  induction h generalizing post with
  | nil => exact absurd heq.symm (List.append_ne_nil_of_right_ne_nil pre (List.cons_ne_nil _ _))
  | @serve log d u q h hguard ih =>
    rcases List.eq_nil_or_concat post with rfl | ⟨post', last, rfl⟩
    · obtain ⟨rfl, hlast⟩ := List.append_inj' heq rfl
      obtain ⟨rfl, rfl, rfl⟩ : u = t ∧ q = p ∧ d = e := by simpa using hlast
      exact ⟨h, hguard⟩
    · rw [List.concat_eq_append, ← List.cons_append, ← List.append_assoc] at heq
      exact ih (List.append_inj' heq rfl).1

/-! ### The steps -/

theorem place_goto (s : State ι π σ) (t u : ι) (x : Place π) :
    (s.goto t x).place u = if u = t then x else s.place u := Function.update_apply s.place t x u

omit [DecidableEq ι] in
@[simp] theorem Place.inside_roused (x : Place π) : x.roused.inside = x.inside := by cases x <;> rfl

/-- A move of one thread that changes neither the datum nor who is inside. -/
theorem Ok.goto (h : Ok code d₀ s) {t : ι} {x : Place π} (hinside : x.inside = (s.place t).inside) :
    Ok code d₀ (s.goto t x) where
  held := by
    intro u
    rw [place_goto]
    by_cases hu : u = t
    · rw [if_pos hu, hinside, hu]
      exact h.held t
    · rw [if_neg hu]
      exact h.held u
  serves := h.serves

/-- Taking the mutex. -/
theorem Ok.enter (h : Ok code d₀ s) (hfree : s.owner = none) {t : ι} {p : π} :
    Ok code d₀ { s.goto t (.testing p) with owner := some t } where
  held := by
    intro u
    show some t = some u ↔ ((s.goto t (.testing p)).place u).inside = true
    rw [place_goto]
    by_cases hu : u = t
    · rw [if_pos hu, hu]
      exact ⟨fun _ => rfl, fun _ => rfl⟩
    · have hout : (s.place u).inside ≠ true := by
        intro hin
        rw [(h.held u).mpr hin] at hfree
        cases hfree
      rw [if_neg hu]
      exact ⟨fun heq => absurd (Option.some.inj heq).symm hu, fun hin => absurd hin hout⟩
  serves := h.serves

/-- Giving the mutex back, to go or to wait. -/
theorem Ok.release (h : Ok code d₀ s) {t : ι} (hin : (s.place t).inside = true) {x : Place π}
    (hout : x.inside = false) : Ok code d₀ { s.goto t x with owner := none } where
  held := by
    intro u
    show none = some u ↔ ((s.goto t x).place u).inside = true
    rw [place_goto]
    by_cases hu : u = t
    · rw [if_pos hu, hout]
      exact ⟨fun heq => (Option.some_ne_none u heq.symm).elim, fun heq => (Bool.false_ne_true heq).elim⟩
    · rw [if_neg hu]
      exact ⟨fun heq => (Option.some_ne_none u heq.symm).elim, fun hin' => absurd (h.exclusive hin' hin) hu⟩
  serves := h.serves

theorem place_serve (s : State ι π σ) (t u : ι) (p : π) : (s.serve code t p).place u =
    if u = t then .leaving p else if (code p).wakes s.datum then (s.place u).roused else s.place u := by
  show ((if (code p).wakes s.datum then s.broadcast else s).goto t (.leaving p)).place u = _
  rw [place_goto]
  split
  · rfl
  · split <;> rfl

theorem owner_serve (s : State ι π σ) (t : ι) (p : π) : (s.serve code t p).owner = s.owner := by
  show (if (code p).wakes s.datum then s.broadcast else s).owner = s.owner
  split <;> rfl

/-- A procedure is served. -/
theorem Ok.serve (h : Ok code d₀ s) {t : ι} {p : π} (ht : s.place t = .testing p)
    (hguard : (code p).guard s.datum = true) : Ok code d₀ (s.serve code t p) where
  held := by
    intro u
    have hplace : ((s.serve code t p).place u).inside = (s.place u).inside := by
      rw [place_serve]
      split
      · next hu =>
        rw [hu, ht]
        rfl
      · split
        · exact Place.inside_roused (s.place u)
        · rfl
    rw [hplace, owner_serve]
    exact h.held u
  serves := h.serves.serve hguard

/-- **One step** keeps the mutex and the log right. -/
theorem Ok.step (h : Ok code d₀ s) {a : Action ι π} (hs : Monitor.step code s a = some s') : Ok code d₀ s' := by
  cases a with
  | call t p =>
    simp only [Monitor.step] at hs
    split at hs
    · next ht =>
      cases hs
      exact h.goto (by rw [ht]; rfl)
    · cases hs
  | acquire t =>
    simp only [Monitor.step] at hs
    split at hs
    · next hfree ht =>
      cases hs
      exact h.enter hfree
    · next hfree ht =>
      cases hs
      exact h.enter hfree
    · cases hs
  | test t =>
    simp only [Monitor.step] at hs
    split at hs
    · next p ht =>
      cases hs
      split
      · next hguard => exact h.serve ht hguard
      · exact h.release (by rw [ht]; rfl) rfl
    · cases hs
  | leave t =>
    simp only [Monitor.step] at hs
    split at hs
    · next p ht =>
      cases hs
      exact h.release (by rw [ht]; rfl) rfl
    · cases hs
  | rouse t =>
    simp only [Monitor.step] at hs
    split at hs
    · next p ht =>
      cases hs
      exact h.goto (by rw [ht]; rfl)
    · cases hs

/-- One thread moves, and sleeps afterwards only with a false guard. -/
theorem Awake.goto (h : Awake code s) {t : ι} {x : Place π}
    (hwait : ∀ p, x = .waiting p → (code p).guard s.datum = false) : Awake code (s.goto t x) := by
  intro u p hu
  rw [place_goto] at hu
  split at hu
  · exact hwait p hu
  · exact h u p hu

/-- A procedure is served: who sleeps on is somebody whose guard is still false. -/
theorem Awake.serve (h : Awake code s) (hsignals : Signals code) {t : ι} {p : π}
    (hguard : (code p).guard s.datum = true) : Awake code (s.serve code t p) := by
  intro u q hu
  rw [place_serve] at hu
  split at hu
  · cases hu
  · by_cases hwakes : (code p).wakes s.datum = true
    · -- a broadcast leaves nobody asleep
      rw [if_pos hwakes] at hu
      cases hplace : s.place u <;> rw [hplace] at hu <;> cases hu
    · rw [if_neg hwakes] at hu
      show (code q).guard ((code p).body s.datum) = false
      rw [← Bool.not_eq_true]
      exact fun htrue => hwakes (hsignals p q s.datum hguard (h u q hu) htrue)

/-- **One step** loses no wake-up. -/
theorem awake_step (hsignals : Signals code) (h : Awake code s) {a : Action ι π}
    (hs : Monitor.step code s a = some s') : Awake code s' := by
  cases a with
  | call t p =>
    simp only [Monitor.step] at hs
    split at hs <;> cases hs
    exact h.goto fun q hq => by cases hq
  | acquire t =>
    simp only [Monitor.step] at hs
    split at hs <;> cases hs
    · exact h.goto (t := t) fun q hq => by cases hq
    · exact h.goto (t := t) fun q hq => by cases hq
  | test t =>
    simp only [Monitor.step] at hs
    split at hs <;> cases hs
    split
    · next hguard => exact h.serve hsignals hguard
    · next hguard =>
      refine h.goto (t := t) fun q hq => ?_
      cases hq
      exact Bool.eq_false_iff.mpr hguard
  | leave t =>
    simp only [Monitor.step] at hs
    split at hs <;> cases hs
    exact h.goto (t := t) fun q hq => by cases hq
  | rouse t =>
    simp only [Monitor.step] at hs
    split at hs <;> cases hs
    exact h.goto fun q hq => by cases hq

/-- **Every state a monitor can reach.** -/
theorem ok_of_reachable (h : Reachable (Monitor.step code) (State.init ι π d₀) s) : Ok code d₀ s := by
  obtain ⟨as, hrun⟩ := h
  exact run_induction (Ok code d₀) (ok_init code d₀) (fun _ _ _ hok hs => hok.step hs) hrun

theorem awake_of_reachable (hsignals : Signals code) (h : Reachable (Monitor.step code) (State.init ι π d₀) s) :
    Awake code s := by
  obtain ⟨as, hrun⟩ := h
  refine run_induction (Awake code) ?_ (fun _ _ _ hawake hs => awake_step hsignals hawake hs) hrun
  rintro t p ⟨⟩

end KwNet.Lib.Monitor
