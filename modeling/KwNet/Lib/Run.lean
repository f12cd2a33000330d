import Mathlib

/-!
# Runs of a partial step function

A system is a partial function `step : σ → α → Option σ`: in state `s` the action `a` is either not
enabled (`none`) or leads to one state.  Nondeterminism (which thread moves, what the environment
answers) lives in the choice of the action, so a run is a list of actions and an interleaving is one
such list.

* **`Reachable.unique`** — a system with a single action comes to rest in one state only;
* **`run_induction`** — a predicate that holds initially and is kept by every step holds after every
  run;
* **`run_induction_along`** — the same, when every step of the run also meets a side condition
  (`Along`) on the state it is taken in and the action taken;
* **`run_refines`** — a relation to an abstract system that every step allowed there re-establishes
  makes every allowed run go through, and follows it;
* **`run_simulates`** — the same for an abstract system that is itself partial: what it can do, the
  concrete one can follow;
* **`run_abstracts`** — what every step re-establishes against a total abstract system holds after every
  run that goes through;
* **`along_congr_of`**, **`along_congr`** — side conditions may be exchanged under an invariant;
* **`along_iff_throughout`**, **`along_iff_throughout_of`** — a side condition that decides, step by step,
  whether a property holds next is met by a run exactly when the property holds in every state the run
  passes through.
-/

namespace KwNet.Lib

variable {σ α : Type*}

/-- Execute a list of actions; `none` as soon as one of them is not enabled. -/
def run (step : σ → α → Option σ) : σ → List α → Option σ
  | s, [] => some s
  | s, a :: as => (step s a).bind fun s' => run step s' as

/-- Every step of the run from `s` along `as` meets `P` in the state it is taken in. -/
def Along (step : σ → α → Option σ) (P : σ → α → Prop) : σ → List α → Prop
  | _, [] => True
  | s, a :: as => P s a ∧ ∀ s', step s a = some s' → Along step P s' as

/-- The states a run from `s₀` can end in. -/
def Reachable (step : σ → α → Option σ) (s₀ s : σ) : Prop :=
  ∃ as, run step s₀ as = some s

variable {step : σ → α → Option σ} {s₀ s s' : σ}

@[simp] theorem run_nil : run step s [] = some s := rfl

theorem run_cons_eq_some {a : α} {as : List α} :
    run step s (a :: as) = some s' ↔ ∃ t, step s a = some t ∧ run step t as = some s' := by
  simp only [run, Option.bind_eq_some_iff]

theorem run_append {as bs : List α} :
    run step s (as ++ bs) = (run step s as).bind fun t => run step t bs := by
  induction as generalizing s with
  | nil => rfl
  | cons a as ih =>
    simp only [List.cons_append, run]
    cases step s a with
    | none => rfl
    | some t => exact ih

theorem run_concat {a : α} {as : List α} {t : σ} (h : run step s as = some t)
    (ha : step t a = some s') : run step s (as ++ [a]) = some s' := by
  rw [run_append, h]
  simp only [Option.bind_some, run, ha]

theorem Reachable.refl (s : σ) : Reachable step s s := ⟨[], rfl⟩

theorem Reachable.single {a : α} (h : step s a = some s') : Reachable step s s' :=
  ⟨[a], run_cons_eq_some.mpr ⟨s', h, rfl⟩⟩

theorem Reachable.trans {t : σ} (h : Reachable step s₀ s) (h' : Reachable step s t) : Reachable step s₀ t := by
  obtain ⟨as, has⟩ := h
  obtain ⟨bs, hbs⟩ := h'
  exact ⟨as ++ bs, by rw [run_append, has]; exact hbs⟩

/-- A system with a single action comes to rest in one state only. -/
theorem Reachable.unique {step : σ → Unit → Option σ} {t u : σ} (h : Reachable step s t)
    (h' : Reachable step s u) (ht : step t () = none) (hu : step u () = none) : t = u := by
  obtain ⟨as, has⟩ := h
  obtain ⟨bs, hbs⟩ := h'
  induction as generalizing s bs with
  | nil =>
    cases has
    cases bs with
    | nil =>
      cases hbs
      rfl
    | cons b bs =>
      obtain ⟨s', hs', -⟩ := run_cons_eq_some.mp hbs
      rw [ht] at hs'
      cases hs'
  | cons a as ih =>
    obtain ⟨s', hs', hrest⟩ := run_cons_eq_some.mp has
    cases bs with
    | nil =>
      cases hbs
      rw [hu] at hs'
      cases hs'
    | cons b bs =>
      obtain ⟨s'', hs'', hrest'⟩ := run_cons_eq_some.mp hbs
      rw [hs', Option.some.injEq] at hs''
      exact ih hrest bs (hs'' ▸ hrest')

/-- **Run induction.**  What holds in the first state and is kept by every step holds after every
run. -/
theorem run_induction (I : σ → Prop) (h₀ : I s₀)
    (hstep : ∀ s a s', I s → step s a = some s' → I s') {as : List α}
    (h : run step s₀ as = some s) : I s := by
  induction as generalizing s₀ with
  | nil =>
    rw [run_nil, Option.some.injEq] at h
    exact h ▸ h₀
  | cons a as ih =>
    obtain ⟨t, ht, hr⟩ := run_cons_eq_some.mp h
    exact ih (hstep s₀ a t h₀ ht) hr

/-- **Run induction under a side condition** on the steps taken. -/
theorem run_induction_along (P : σ → α → Prop) (I : σ → Prop) (h₀ : I s₀)
    (hstep : ∀ s a s', I s → P s a → step s a = some s' → I s') {as : List α}
    (hP : Along step P s₀ as) (h : run step s₀ as = some s) : I s := by
  induction as generalizing s₀ with
  | nil =>
    rw [run_nil, Option.some.injEq] at h
    exact h ▸ h₀
  | cons a as ih =>
    obtain ⟨t, ht, hr⟩ := run_cons_eq_some.mp h
    exact ih (hstep s₀ a t h₀ hP.1 ht) (hP.2 t ht) hr

/-- **Forward simulation.**  `spec` is the abstract system, a total function.  If from related states
every action that meets its precondition is enabled and leads to related states, then a run that meets
the preconditions goes through, and ends related to the abstract run. -/
theorem run_refines {τ : Type*} (spec : τ → α → τ) (R : σ → τ → Prop) (P : σ → α → Prop)
    (hstep : ∀ s t a, R s t → P s a → ∃ s', step s a = some s' ∧ R s' (spec t a)) {t₀ : τ}
    (h₀ : R s₀ t₀) {as : List α} (hP : Along step P s₀ as) :
    ∃ s, run step s₀ as = some s ∧ R s (as.foldl spec t₀) := by
  induction as generalizing s₀ t₀ with
  | nil => exact ⟨s₀, rfl, h₀⟩
  | cons a as ih =>
    obtain ⟨s₁, hs₁, hR⟩ := hstep s₀ t₀ a h₀ hP.1
    obtain ⟨s, hs, hRs⟩ := ih hR (hP.2 s₁ hs₁)
    exact ⟨s, run_cons_eq_some.mpr ⟨s₁, hs₁, hs⟩, hRs⟩

/-- **Forward simulation of a partial system.** -/
theorem run_simulates {τ : Type*} (spec : τ → α → Option τ) (R : σ → τ → Prop)
    (hstep : ∀ s t a t', R s t → spec t a = some t' → ∃ s', step s a = some s' ∧ R s' t')
    {t₀ t : τ} (h₀ : R s₀ t₀) {as : List α} (h : run spec t₀ as = some t) :
    ∃ s, run step s₀ as = some s ∧ R s t := by
  induction as generalizing s₀ t₀ with
  | nil =>
    rw [run_nil, Option.some.injEq] at h
    exact ⟨s₀, rfl, h ▸ h₀⟩
  | cons a as ih =>
    obtain ⟨t₁, ht₁, hrest⟩ := run_cons_eq_some.mp h
    obtain ⟨s₁, hs₁, hR⟩ := hstep s₀ t₀ a t₁ h₀ ht₁
    obtain ⟨s, hs, hRs⟩ := ih hR hrest
    exact ⟨s, run_cons_eq_some.mpr ⟨s₁, hs₁, hs⟩, hRs⟩

/-- **Abstraction.**  Every run that goes through ends related to the abstract run. -/
theorem run_abstracts {τ : Type*} (spec : τ → α → τ) (R : σ → τ → Prop)
    (hstep : ∀ s t a s', R s t → step s a = some s' → R s' (spec t a)) {t₀ : τ} (h₀ : R s₀ t₀)
    {as : List α} (h : run step s₀ as = some s) : R s (as.foldl spec t₀) := by
  induction as generalizing s₀ t₀ with
  | nil =>
    rw [run_nil, Option.some.injEq] at h
    exact h ▸ h₀
  | cons a as ih =>
    obtain ⟨s₁, hs₁, hrest⟩ := run_cons_eq_some.mp h
    exact ih (hstep s₀ t₀ a s₁ h₀ hs₁) hrest

/-- A side condition that can be evaluated can be evaluated along a run. -/
instance Along.decidable {P : σ → α → Prop} [∀ s a, Decidable (P s a)] :
    (s : σ) → (as : List α) → Decidable (Along step P s as)
  | _, [] => .isTrue trivial
  | s, a :: as =>
    match h : step s a with
    | none =>
      decidable_of_iff (P s a) ⟨fun hP => ⟨hP, fun t ht => by rw [h] at ht; cases ht⟩, fun hP => hP.1⟩
    | some t =>
      have : Decidable (Along step P t as) := Along.decidable t as
      decidable_of_iff (P s a ∧ Along step P t as)
        ⟨fun hP => ⟨hP.1, fun u hu => by rw [h] at hu; cases hu; exact hP.2⟩,
          fun hP => ⟨hP.1, hP.2 t h⟩⟩

theorem Along.and {P Q : σ → α → Prop} {as : List α} (hP : Along step P s as)
    (hQ : Along step Q s as) : Along step (fun t a => P t a ∧ Q t a) s as := by
  induction as generalizing s with
  | nil => trivial
  | cons a as ih => exact ⟨⟨hP.1, hQ.1⟩, fun t ht => ih (hP.2 t ht) (hQ.2 t ht)⟩

theorem along_true (as : List α) : Along step (fun _ _ => True) s as := by
  induction as generalizing s with
  | nil => trivial
  | cons a as ih => exact ⟨trivial, fun t _ => ih⟩

theorem along_of_mem {Q : α → Prop} {as : List α} (h : ∀ a ∈ as, Q a) : Along step (fun _ a => Q a) s as := by
  induction as generalizing s with
  | nil => trivial
  | cons a as ih => exact ⟨h a List.mem_cons_self, fun t _ => ih fun b hb => h b (List.mem_cons_of_mem a hb)⟩

theorem Along.imp {P Q : σ → α → Prop} {as : List α} (h : Along step P s as) (himp : ∀ s a, P s a → Q s a) :
    Along step Q s as := by
  induction as generalizing s with
  | nil => trivial
  | cons a as ih => exact ⟨himp s a h.1, fun t ht => ih (h.2 t ht)⟩

/-- Two side conditions that agree wherever an invariant holds, which the steps keep if the environment does as it
should (`Q`). -/
theorem along_congr_of {P R : σ → α → Prop} (Q : σ → α → Prop) (I : σ → Prop) (h₀ : I s)
    (hstep : ∀ s a s', I s → Q s a → step s a = some s' → I s') (hiff : ∀ s a, I s → Q s a → (P s a ↔ R s a))
    {as : List α} (hQ : Along step Q s as) : Along step P s as ↔ Along step R s as := by
  induction as generalizing s with
  | nil => exact Iff.rfl
  | cons a as ih =>
    have hrest : ∀ t, step s a = some t → (Along step P t as ↔ Along step R t as) :=
      fun t ht => ih (hstep s a t h₀ hQ.1 ht) (hQ.2 t ht)
    have hone := hiff s a h₀ hQ.1
    exact ⟨fun h => ⟨hone.mp h.1, fun t ht => (hrest t ht).mp (h.2 t ht)⟩,
      fun h => ⟨hone.mpr h.1, fun t ht => (hrest t ht).mpr (h.2 t ht)⟩⟩

/-- The same without a condition on the environment. -/
theorem along_congr {P Q : σ → α → Prop} (I : σ → Prop) (h₀ : I s)
    (hstep : ∀ s a s', I s → step s a = some s' → I s') (hiff : ∀ s a, I s → (P s a ↔ Q s a)) (as : List α) :
    Along step P s as ↔ Along step Q s as :=
  along_congr_of (fun _ _ => True) I h₀ (fun s a s' hs _ => hstep s a s' hs) (fun s a hs _ => hiff s a hs)
    (along_true as)

theorem Along.append {P : σ → α → Prop} {as bs : List α} (has : Along step P s₀ as)
    (hrun : run step s₀ as = some s) (hbs : Along step P s bs) : Along step P s₀ (as ++ bs) := by
  induction as generalizing s₀ with
  | nil =>
    rw [run_nil, Option.some.injEq] at hrun
    exact hrun ▸ hbs
  | cons a as ih =>
    obtain ⟨t, ht, hrest⟩ := run_cons_eq_some.mp hrun
    refine ⟨has.1, fun u hu => ?_⟩
    rw [ht, Option.some.injEq] at hu
    exact hu ▸ ih (has.2 t ht) hrest

theorem Along.append_left {P : σ → α → Prop} {as bs : List α}
    (h : Along step P s (as ++ bs)) : Along step P s as := by
  induction as generalizing s with
  | nil => trivial
  | cons a as ih => exact ⟨h.1, fun t ht => ih (h.2 t ht)⟩

theorem Along.append_right {P : σ → α → Prop} {as bs : List α} {t : σ}
    (h : Along step P s (as ++ bs)) (hr : run step s as = some t) : Along step P t bs := by
  induction as generalizing s with
  | nil =>
    rw [run_nil, Option.some.injEq] at hr
    exact hr ▸ h
  | cons a as ih =>
    obtain ⟨u, hu, hr'⟩ := run_cons_eq_some.mp hr
    exact ih (h.2 u hu) hr'

/-- Every state the run from `s` along `as` passes through, its last one included, meets `J`. -/
def Throughout (step : σ → α → Option σ) (J : σ → Prop) (s : σ) (as : List α) : Prop :=
  ∀ bs cs t, as = bs ++ cs → run step s bs = some t → J t

theorem throughout_nil {J : σ → Prop} : Throughout step J s [] ↔ J s := by
  constructor
  · intro h
    exact h [] [] s rfl run_nil
  · intro h bs cs t hb ht
    obtain ⟨rfl, -⟩ := List.append_eq_nil_iff.mp hb.symm
    rw [run_nil, Option.some.injEq] at ht
    exact ht ▸ h

theorem throughout_cons {J : σ → Prop} {a : α} {as : List α} :
    Throughout step J s (a :: as) ↔
      J s ∧ ∀ s', step s a = some s' → Throughout step J s' as := by
  constructor
  · intro h
    refine ⟨h [] (a :: as) s rfl run_nil, fun s' hs' bs cs t hb ht => ?_⟩
    refine h (a :: bs) cs t ?_ (run_cons_eq_some.mpr ⟨s', hs', ht⟩)
    rw [hb, List.cons_append]
  · rintro ⟨hJ, h⟩ bs cs t hb ht
    cases bs with
    | nil =>
      rw [run_nil, Option.some.injEq] at ht
      exact ht ▸ hJ
    | cons b bs =>
      rw [List.cons_append, List.cons.injEq] at hb
      obtain ⟨rfl, hb⟩ := hb
      obtain ⟨s', hs', hr⟩ := run_cons_eq_some.mp ht
      exact h s' hs' bs cs t hb hr

/-- Where, given the invariant `I` and what the environment does (`Q`), a step meets `P` exactly when it
leads to a state that meets `J`, a run meets `P` all along exactly when `J` holds throughout. -/
theorem along_iff_throughout_of (P Q : σ → α → Prop) (I J : σ → Prop)
    (hkeep : ∀ s a s', I s → Q s a → P s a → step s a = some s' → I s' ∧ J s')
    (hback : ∀ s a s', I s → Q s a → step s a = some s' → J s' → P s a) {as : List α}
    (hI : I s₀) (hJ : J s₀) (hQ : Along step Q s₀ as) (h : run step s₀ as = some s) :
    Along step P s₀ as ↔ Throughout step J s₀ as := by
  induction as generalizing s₀ with
  | nil =>
    rw [throughout_nil]
    exact ⟨fun _ => hJ, fun _ => trivial⟩
  | cons a as ih =>
    obtain ⟨t, ht, hr⟩ := run_cons_eq_some.mp h
    have hone : ∀ s', step s₀ a = some s' → s' = t := fun s' hs' => Option.some.inj (hs'.symm.trans ht)
    rw [throughout_cons]
    constructor
    · rintro ⟨hP, hrest⟩
      obtain ⟨hI', hJ'⟩ := hkeep s₀ a t hI hQ.1 hP ht
      refine ⟨hJ, fun s' hs' => ?_⟩
      rw [hone s' hs']
      exact (ih hI' hJ' (hQ.2 t ht) hr).mp (hrest t ht)
    · rintro ⟨-, hrest⟩
      have hT := hrest t ht
      have hJ' : J t := hT [] as t rfl run_nil
      have hP := hback s₀ a t hI hQ.1 ht hJ'
      refine ⟨hP, fun s' hs' => ?_⟩
      rw [hone s' hs']
      exact (ih (hkeep s₀ a t hI hQ.1 hP ht).1 hJ' (hQ.2 t ht) hr).mpr hT

/-- The same without a condition on the environment. -/
theorem along_iff_throughout (P : σ → α → Prop) (I J : σ → Prop)
    (hkeep : ∀ s a s', I s → P s a → step s a = some s' → I s' ∧ J s')
    (hback : ∀ s a s', I s → step s a = some s' → J s' → P s a) {as : List α}
    (hI : I s₀) (hJ : J s₀) (h : run step s₀ as = some s) :
    Along step P s₀ as ↔ Throughout step J s₀ as :=
  along_iff_throughout_of P (fun _ _ => True) I J (fun s a s' hs _ => hkeep s a s' hs)
    (fun s a s' hs _ => hback s a s' hs) hI hJ (along_true as) h

end KwNet.Lib
