import KwNet.Queue.Steps
import KwNet.Queue.Ticket

/-!
# `push` and `pop`: trying again until it works

`push` and `pop` of `helpers/queue.h` over the accesses of `try_push` and `try_pop`.  The loop of either
variable runs `i` up to 65, and at 64 puts it back to `1 << r` with a growing `r`: from `r = 6` on that is no
way back, and the loop ends after the 322nd attempt, whether or not it has worked.

* `Blocking` is the queue with the call of `push` or `pop` each thread is in; other threads may use `try_push`
  and `try_pop` by themselves (`Act.attempt`);
* `Attempt.left` counts what the loop has left;
* `Completes` says of a step that the calls it ends have transferred their element;
* `run_base` — the accesses of a run of calls are a run of the queue, so that what is known of those holds here:
  `published_payload`;
* **`completes_iff_served`** — every call of a run transfers its element exactly when none is refused for the
  322nd time;
* **`refused_push`** — a `push` into a queue that stays full returns all the same.
-/

namespace KwNet.Mpmc

open KwNet.Lib

/-! ### The loop variables -/

/-- The values the loop variables take. -/
structure Attempt.Ok (a : Attempt) : Prop where
  i_le : a.i ≤ 64
  r_le : a.r ≤ 5

/-- The attempts that are left after the one at `a`. -/
def Attempt.left (a : Attempt) : ℕ := (64 - a.i) + ((List.range 6).filter fun k => a.r < k).foldr (fun k n => 64 - 2 ^ k + n) 0

theorem and_64 : ∀ i < 65, (i &&& 64 ≠ 0 ↔ i = 64) := by decide

theorem Attempt.first_ok : Attempt.first.Ok ∧ Attempt.first.left = 321 := by
  refine ⟨⟨?_, ?_⟩, ?_⟩ <;> decide

/-- **One round of the loop** uses up one attempt, and the loop ends where none is left. -/
theorem Attempt.Ok.next {a : Attempt} (h : a.Ok) :
    (a.next = none ∧ a.left = 0) ∨ ∃ b, a.next = some b ∧ b.Ok ∧ b.left + 1 = a.left := by
  obtain ⟨i, r⟩ := a
  obtain ⟨hi, hr⟩ := h
  change i ≤ 64 at hi
  change r ≤ 5 at hr
  have hand := and_64 i (Nat.lt_succ_of_le hi)
  by_cases hlast : i = 64
  · subst hlast
    interval_cases r
    · exact .inr ⟨⟨3, 1⟩, rfl, ⟨by decide, by decide⟩, by decide⟩
    · exact .inr ⟨⟨5, 2⟩, rfl, ⟨by decide, by decide⟩, by decide⟩
    · exact .inr ⟨⟨9, 3⟩, rfl, ⟨by decide, by decide⟩, by decide⟩
    · exact .inr ⟨⟨17, 4⟩, rfl, ⟨by decide, by decide⟩, by decide⟩
    · exact .inr ⟨⟨33, 5⟩, rfl, ⟨by decide, by decide⟩, by decide⟩
    · exact .inl ⟨rfl, by decide⟩
  · have hstay : (⟨i, r⟩ : Attempt).next = some ⟨i + 1, r⟩ := by
      unfold Attempt.next
      rw [if_neg fun h => hlast (hand.mp h)]
      have hgo : i + 1 < 65 := by omega
      exact if_pos hgo
    refine .inr ⟨⟨i + 1, r⟩, hstay, ⟨?_, hr⟩, ?_⟩
    · show i + 1 ≤ 64
      omega
    · simp only [Attempt.left]
      omega

/-! ### The calls -/

/-- The blocking calls. -/
inductive Call (T : Type) where
  | push (v : T)
  | pop

def Call.op {T : Type} : Call T → Op T
  | .push v => .tryPush v
  | .pop => .tryPop

/-- A call under way: its loop variables, and how often it has been refused. -/
structure Waiter (T : Type) where
  call : Call T
  attempt : Attempt
  refusals : ℕ

/-- The queue and the calls of `push` and `pop` under way. -/
structure Blocking (ι T : Type) where
  base : State ι T
  waiter : ι → Option (Waiter T)

/-- One step. -/
inductive Act (ι T : Type) where
  /-- A thread calls `push` or `pop`. -/
  | call (t : ι) (c : Call T)
  /-- A thread calls `try_push` or `try_pop`. -/
  | attempt (t : ι) (op : Op T)
  /-- The next access of a thread. -/
  | step (t : ι) (spurious : Bool)

/-- Outside `try_push` and `try_pop`. -/
def Pc.outside {T : Type} : Pc T → Bool
  | .idle => true
  | _ => false

/-- At the store after which `try_push` or `try_pop` returns `true`. -/
def Pc.stores {T : Type} : Pc T → Bool
  | .pushPublish _ _ => true
  | .popPublish _ _ => true
  | _ => false

variable {ι T : Type} [DecidableEq ι]

/-- `try_push` or `try_pop` is called. -/
def State.enter (s : State ι T) (t : ι) (op : Op T) : State ι T := { s.goto t op.enter with calls := s.calls + 1 }

/-- An access of thread `t` has led to `s`.  Where it was the last one of `try_push` or `try_pop`, the call around
it returns, tries again, or has come to the end of its loop. -/
def Blocking.after (w : Blocking ι T) (t : ι) (s : State ι T) : Blocking ι T :=
  if (s.pc t).outside = true then
    match w.waiter t with
    | none => { w with base := s }
    | some u =>
      if (w.base.pc t).stores = true then { base := s, waiter := Function.update w.waiter t none }
      else
        match u.attempt.next with
        | some a =>
          { base := s.enter t u.call.op
            waiter := Function.update w.waiter t (some ⟨u.call, a, u.refusals + 1⟩) }
        | none => { base := s, waiter := Function.update w.waiter t none }
  else { w with base := s }

/-- The transition function. -/
def Blocking.step (w : Blocking ι T) : Act ι T → Option (Blocking ι T)
  | .call t c =>
    match w.waiter t, w.base.pc t with
    | none, .idle =>
      some
        { base := w.base.enter t c.op
          waiter := Function.update w.waiter t (some ⟨c, .first, 0⟩) }
    | _, _ => none
  | .attempt t op =>
    match w.waiter t, w.base.pc t with
    | none, .idle => some { w with base := w.base.enter t op }
    | _, _ => none
  | .step t spurious => (access w.base t spurious).map (w.after t)

omit [DecidableEq ι] in
/-- A queue in any state, with no thread in it. -/
def Blocking.init (ι : Type) {T : Type} (q : Queue T) : Blocking ι T :=
  { base := State.init ι q, waiter := fun _ => none }

/-! ### What is claimed -/

/-- The access that thread `t` performs from `s` to `s'` is the one that transfers the element of its call: for
`push(v)`, `v` stands at a claimed position, and the store makes the position readable; for `pop`, an element is
returned from a claimed position. -/
def Transferred (s s' : State ι T) (t : ι) : Call T → Prop
  | .push v => ∃ pos, s.pc t = .pushPublish v pos ∧ (pos.toNat, v) ∈ s'.pushed ∧ s'.queue.seqAt pos = pos + 1
  | .pop => ∃ pos v, s.pc t = .popPublish pos v ∧ s'.popped = (pos.toNat, v) :: s.popped

/-- The calls that return with this step have transferred their element. -/
def Completes (w : Blocking ι T) (a : Act ι T) : Prop :=
  ∀ w' t u, w.step a = some w' → w.waiter t = some u → w'.waiter t = none → Transferred w.base w'.base t u.call

/-- The next access of thread `t` finds the queue full, or empty, and `try_push` or `try_pop` returns `false`. -/
def Refuses (s : State ι T) (t : ι) : Prop :=
  match s.pc t with
  | .pushSeq _ pos => dif (s.queue.seqAt pos) pos < 0
  | .popSeq pos => dif (s.queue.seqAt pos) (pos + 1) < 0
  | _ => False

/-- The step does not refuse a call that has been refused 321 times before. -/
def Served (w : Blocking ι T) : Act ι T → Prop
  | .step t _ => ∀ u, w.waiter t = some u → u.refusals = 321 → ¬Refuses w.base t
  | _ => True

/-! ### One access -/

/-- The place of a thread that serves a call of `push` or `pop`. -/
def Pc.Serves {T : Type} (c : Call T) : Pc T → Prop
  | .idle => False
  | .pushLoad v => c = .push v
  | .pushSeq v _ => c = .push v
  | .pushCas v _ => c = .push v
  | .pushWrite v _ => c = .push v
  | .pushPublish v _ => c = .push v
  | .popLoad => c = .pop
  | .popSeq _ => c = .pop
  | .popCas _ => c = .pop
  | .popRead _ => c = .pop
  | .popPublish _ _ => c = .pop

/-- The position and the element a pusher has claimed it for. -/
def Pc.claim {T : Type} : Pc T → Option (U64 × T)
  | .pushWrite v pos => some (pos, v)
  | .pushPublish v pos => some (pos, v)
  | _ => none

variable {s s' : State ι T} {t : ι} {spurious : Bool}

/-- What an access of thread `t` leaves alone, and where it takes the thread. -/
structure Moved (s s' : State ι T) (t : ι) : Prop where
  others : ∀ j, j ≠ t → s'.pc j = s.pc j
  pushed : s.pushed <+: s'.pushed
  serves : ∀ c, (s.pc t).Serves c → (s'.pc t).Serves c ∨ (s'.pc t).outside = true
  claimed : ∀ pos v, (s'.pc t).claim = some (pos, v) → (s.pc t).claim = some (pos, v) ∨ (pos.toNat, v) ∈ s'.pushed
  /-- Where `try_push` or `try_pop` ends. -/
  ends : (s'.pc t).outside = true ↔ (s.pc t).stores = true ∨ Refuses s t

omit [DecidableEq ι] in
theorem pushBranch_outside (v : T) (pos seq : U64) : (pushBranch v pos seq).outside = true ↔ dif seq pos < 0 := by
  unfold pushBranch
  split
  · next h => simp [Pc.outside, h]
  · split
    · next h => simp [Pc.outside, h]
    · next h => simp [Pc.outside, h]

omit [DecidableEq ι] in
theorem popBranch_outside (pos seq : U64) : (popBranch (T := T) pos seq).outside = true ↔ dif seq (pos + 1) < 0 := by
  unfold popBranch
  generalize dif seq (pos + 1) = d
  split
  · next h => simp [Pc.outside, h]
  · split
    · next h => simp [Pc.outside, h]
    · next h => simp [Pc.outside, h]

/-- A step that only takes the thread to `pc`. -/
theorem Moved.goto {pc : Pc T} (hs' : s'.pc = Function.update s.pc t pc) (hpushed : s.pushed <+: s'.pushed)
    (hserves : ∀ c, (s.pc t).Serves c → pc.Serves c ∨ pc.outside = true)
    (hclaim : ∀ pos v, pc.claim = some (pos, v) → (s.pc t).claim = some (pos, v) ∨ (pos.toNat, v) ∈ s'.pushed)
    (hends : pc.outside = true ↔ (s.pc t).stores = true ∨ Refuses s t) : Moved s s' t := by
  have hself : s'.pc t = pc := by rw [hs', Function.update_self]
  refine ⟨fun j hj => by rw [hs', Function.update_of_ne hj], hpushed, ?_, ?_, ?_⟩
  · rw [hself]
    exact hserves
  · rw [hself]
    exact hclaim
  · rw [hself]
    exact hends

/-- **One access.** -/
theorem access_moved (h : access s t spurious = some s') : Moved s s' t := by
  unfold access at h
  cases hpc : s.pc t with
  | idle =>
    rw [hpc] at h
    cases h
  | pushLoad v =>
    simp only [hpc, Option.some.injEq] at h
    subst h
    refine .goto rfl (List.prefix_refl _) (fun c hc => .inl ?_) (fun pos v hclaim => ?_) ?_
    · rw [hpc] at hc
      exact hc
    · cases hclaim
    · simp [Pc.outside, Pc.stores, Refuses, hpc]
  | pushSeq v pos =>
    simp only [hpc, Option.some.injEq] at h
    subst h
    refine .goto rfl (List.prefix_refl _) (fun c hc => ?_) (fun p w hclaim => ?_) ?_
    · rw [hpc] at hc
      rcases pushBranch_eq v pos (s.queue.seqAt pos) with ⟨-, heq⟩ | heq | heq <;> rw [heq]
      · exact .inl hc
      · exact .inr rfl
      · exact .inl hc
    · rcases pushBranch_eq v pos (s.queue.seqAt pos) with ⟨-, heq⟩ | heq | heq <;> rw [heq] at hclaim <;> cases hclaim
    · rw [pushBranch_outside]
      simp [Pc.stores, Refuses, hpc]
  | pushCas v pos =>
    simp only [hpc] at h
    split at h
    · cases h
      refine .goto rfl (List.prefix_append _ _) (fun c hc => .inl ?_) (fun p w hclaim => .inr ?_) ?_
      · rw [hpc] at hc
        exact hc
      · obtain ⟨rfl, rfl⟩ := Prod.mk.inj (Option.some.inj hclaim)
        exact List.mem_append_right _ (List.mem_singleton.mpr rfl)
      · simp [Pc.outside, Pc.stores, Refuses, hpc]
    · cases h
      refine .goto rfl (List.prefix_refl _) (fun c hc => .inl ?_) (fun p w hclaim => ?_) ?_
      · rw [hpc] at hc
        exact hc
      · cases hclaim
      · simp [Pc.outside, Pc.stores, Refuses, hpc]
  | pushWrite v pos =>
    simp only [hpc, Option.some.injEq] at h
    subst h
    refine .goto rfl (List.prefix_refl _) (fun c hc => .inl ?_) (fun p w hclaim => .inl ?_) ?_
    · rw [hpc] at hc
      exact hc
    · rw [hpc]
      exact hclaim
    · simp [Pc.outside, Pc.stores, Refuses, hpc]
  | pushPublish v pos =>
    simp only [hpc, Option.some.injEq] at h
    subst h
    refine .goto rfl (List.prefix_refl _) (fun c _ => .inr rfl) (fun p w hclaim => ?_) ?_
    · cases hclaim
    · simp [Pc.outside, Pc.stores, hpc]
  | popLoad =>
    simp only [hpc, Option.some.injEq] at h
    subst h
    refine .goto rfl (List.prefix_refl _) (fun c hc => .inl ?_) (fun pos v hclaim => ?_) ?_
    · rw [hpc] at hc
      exact hc
    · cases hclaim
    · simp [Pc.outside, Pc.stores, Refuses, hpc]
  | popSeq pos =>
    simp only [hpc, Option.some.injEq] at h
    subst h
    refine .goto rfl (List.prefix_refl _) (fun c hc => ?_) (fun p w hclaim => ?_) ?_
    · rw [hpc] at hc
      rcases popBranch_eq (T := T) pos (s.queue.seqAt pos) with ⟨-, heq⟩ | heq | heq <;> rw [heq]
      · exact .inl hc
      · exact .inr rfl
      · exact .inl hc
    · rcases popBranch_eq (T := T) pos (s.queue.seqAt pos) with ⟨-, heq⟩ | heq | heq <;> rw [heq] at hclaim <;> cases hclaim
    · rw [popBranch_outside]
      simp [Pc.stores, Refuses, hpc]
  | popCas pos =>
    simp only [hpc] at h
    split at h
    · cases h
      refine .goto rfl (List.prefix_refl _) (fun c hc => .inl ?_) (fun p w hclaim => ?_) ?_
      · rw [hpc] at hc
        exact hc
      · cases hclaim
      · simp [Pc.outside, Pc.stores, Refuses, hpc]
    · cases h
      refine .goto rfl (List.prefix_refl _) (fun c hc => .inl ?_) (fun p w hclaim => ?_) ?_
      · rw [hpc] at hc
        exact hc
      · cases hclaim
      · simp [Pc.outside, Pc.stores, Refuses, hpc]
  | popRead pos =>
    simp only [hpc, Option.some.injEq] at h
    subst h
    refine .goto rfl (List.prefix_refl _) (fun c hc => .inl ?_) (fun p w hclaim => ?_) ?_
    · rw [hpc] at hc
      exact hc
    · cases hclaim
    · simp [Pc.outside, Pc.stores, Refuses, hpc]
  | popPublish pos v =>
    simp only [hpc, Option.some.injEq] at h
    subst h
    refine .goto rfl (List.prefix_refl _) (fun c _ => .inr rfl) (fun p w hclaim => ?_) ?_
    · cases hclaim
    · simp [Pc.outside, Pc.stores, hpc]

/-- **The last store** of `try_push` or `try_pop` transfers the element. -/
theorem access_transferred {c : Call T} (h : access s t spurious = some s') (hserves : (s.pc t).Serves c)
    (hclaimed : ∀ pos v, (s.pc t).claim = some (pos, v) → (pos.toNat, v) ∈ s.pushed) :
    (s.pc t).stores = true ↔ Transferred s s' t c := by
  unfold access at h
  cases hpc : s.pc t with
  | pushPublish v pos =>
    rw [hpc] at hserves
    simp only [hpc, Option.some.injEq] at h
    subst h
    have hc : c = .push v := hserves
    subst hc
    refine ⟨fun _ => ⟨pos, hpc, hclaimed pos v (by rw [hpc]; rfl), ?_⟩, fun _ => rfl⟩
    simp [Queue.seqAt, Queue.setSeq, Queue.slot]
  | popPublish pos v =>
    rw [hpc] at hserves
    simp only [hpc, Option.some.injEq] at h
    subst h
    have hc : c = .pop := hserves
    subst hc
    exact ⟨fun _ => ⟨pos, v, hpc, rfl⟩, fun _ => rfl⟩
  | _ => cases c <;> simp [Pc.stores, Transferred, hpc]

/-! ### The calls under way -/

/-- A call under way stands in its own attempt, and has been refused as often as its loop variables say. -/
structure Blocking.Ok (w : Blocking ι T) : Prop where
  serves : ∀ t u, w.waiter t = some u → (w.base.pc t).Serves u.call
  counted : ∀ t u, w.waiter t = some u → u.attempt.Ok ∧ u.refusals + u.attempt.left = 321
  claimed : ∀ t pos v, (w.base.pc t).claim = some (pos, v) → (pos.toNat, v) ∈ w.base.pushed

omit [DecidableEq ι] in
theorem blocking_init_ok (q : Queue T) : (Blocking.init ι q).Ok where
  serves := by
    intro t u hu
    cases hu
  counted := by
    intro t u hu
    cases hu
  claimed := by
    intro t pos v hclaim
    cases hclaim

omit [DecidableEq ι] in
theorem enter_serves (c : Call T) : c.op.enter.Serves c := by
  cases c <;> rfl

omit [DecidableEq ι] in
theorem enter_claim (op : Op T) : op.enter.claim = none := by
  cases op <;> rfl

variable {w w' : Blocking ι T}

/-- Thread `t` starts an attempt, with `u` for its call. -/
theorem Blocking.Ok.enter (hO : w.Ok) (op : Op T) (f : ι → Option (Waiter T))
    (hother : ∀ j, j ≠ t → f j = w.waiter j) (hself : ∀ u, f t = some u → op.enter.Serves u.call ∧
      u.attempt.Ok ∧ u.refusals + u.attempt.left = 321) : Blocking.Ok ⟨w.base.enter t op, f⟩ where
  serves := by
    intro j u hu
    by_cases hj : j = t
    · subst hj
      show (Function.update w.base.pc j op.enter j).Serves u.call
      rw [Function.update_self]
      exact (hself u hu).1
    · show (Function.update w.base.pc t op.enter j).Serves u.call
      rw [Function.update_of_ne hj]
      exact hO.serves j u ((hother j hj).symm.trans hu)
  counted := by
    intro j u hu
    by_cases hj : j = t
    · subst hj
      exact (hself u hu).2
    · exact hO.counted j u ((hother j hj).symm.trans hu)
  claimed := by
    intro j pos v hclaim
    have hclaim' : (Function.update w.base.pc t op.enter j).claim = some (pos, v) := hclaim
    by_cases hj : j = t
    · subst hj
      rw [Function.update_self, enter_claim] at hclaim'
      cases hclaim'
    · rw [Function.update_of_ne hj] at hclaim'
      exact hO.claimed j pos v hclaim'

/-- An access, before the loop around it is looked at. -/
theorem Blocking.Ok.access_claimed (hO : w.Ok) (h : access w.base t spurious = some s') :
    ∀ j pos v, (s'.pc j).claim = some (pos, v) → (pos.toNat, v) ∈ s'.pushed := by
  intro j pos v hclaim
  have hM := access_moved h
  by_cases hj : j = t
  · subst hj
    rcases hM.claimed pos v hclaim with hold | hnew
    · exact hM.pushed.subset (hO.claimed j pos v hold)
    · exact hnew
  · rw [hM.others j hj] at hclaim
    exact hM.pushed.subset (hO.claimed j pos v hclaim)

/-- The call of thread `t` is over, or goes on in the same attempt. -/
theorem Blocking.Ok.moved (hO : w.Ok) (h : access w.base t spurious = some s') (f : ι → Option (Waiter T))
    (hother : ∀ j, j ≠ t → f j = w.waiter j)
    (hself : f t = none ∨ (f t = w.waiter t ∧ (s'.pc t).outside = false)) : Blocking.Ok ⟨s', f⟩ where
  serves := by
    intro j u hu
    have hM := access_moved h
    by_cases hj : j = t
    · subst hj
      rcases hself with hnone | ⟨heq, hin⟩
      · rw [show f j = some u from hu] at hnone
        cases hnone
      · rcases hM.serves u.call (hO.serves j u (heq.symm.trans hu)) with hserves | hout
        · exact hserves
        · rw [hin] at hout
          cases hout
    · show (s'.pc j).Serves u.call
      rw [hM.others j hj]
      exact hO.serves j u ((hother j hj).symm.trans hu)
  counted := by
    intro j u hu
    by_cases hj : j = t
    · subst hj
      rcases hself with hnone | ⟨heq, -⟩
      · rw [show f j = some u from hu] at hnone
        cases hnone
      · exact hO.counted j u (heq.symm.trans hu)
    · exact hO.counted j u ((hother j hj).symm.trans hu)
  claimed := hO.access_claimed h

/-- What comes of an access: the thread is in the same attempt, was in no call, or its call has transferred its
element, tries again, or gives up. -/
theorem after_cases (w : Blocking ι T) (t : ι) (s' : State ι T) :
    ((s'.pc t).outside = false ∧ w.after t s' = { w with base := s' }) ∨
      (w.waiter t = none ∧ w.after t s' = { w with base := s' }) ∨
      ((s'.pc t).outside = true ∧ ∃ u, w.waiter t = some u ∧
        (((w.base.pc t).stores = true ∧ w.after t s' = ⟨s', Function.update w.waiter t none⟩) ∨
          ((w.base.pc t).stores = false ∧ ∃ a, u.attempt.next = some a ∧
            w.after t s' = ⟨s'.enter t u.call.op, Function.update w.waiter t (some ⟨u.call, a, u.refusals + 1⟩)⟩) ∨
          ((w.base.pc t).stores = false ∧ u.attempt.next = none ∧
            w.after t s' = ⟨s', Function.update w.waiter t none⟩))) := by
  unfold Blocking.after
  cases hout : (s'.pc t).outside with
  | false => exact .inl ⟨rfl, rfl⟩
  | true =>
    cases hu : w.waiter t with
    | none => exact .inr (.inl ⟨rfl, rfl⟩)
    | some u =>
      refine .inr (.inr ⟨rfl, u, rfl, ?_⟩)
      cases hstores : (w.base.pc t).stores with
      | true => exact .inl ⟨rfl, rfl⟩
      | false =>
        cases hnext : u.attempt.next with
        | some a => exact .inr (.inl ⟨rfl, a, rfl, by simp [hnext]⟩)
        | none => exact .inr (.inr ⟨rfl, rfl, by simp [hnext]⟩)

theorem Blocking.Ok.after (hO : w.Ok) (h : access w.base t spurious = some s') : (w.after t s').Ok := by
  have hother : ∀ (x : Option (Waiter T)) j, j ≠ t → Function.update w.waiter t x j = w.waiter j :=
    fun x j hj => Function.update_of_ne hj _ _
  rcases after_cases w t s' with ⟨hin, heq⟩ | ⟨hnone, heq⟩ | ⟨-, u, hu, hcases⟩
  · rw [heq]
    exact hO.moved h w.waiter (fun _ _ => rfl) (.inr ⟨rfl, hin⟩)
  · rw [heq]
    exact hO.moved h w.waiter (fun _ _ => rfl) (.inl hnone)
  · rcases hcases with ⟨-, heq⟩ | ⟨-, a, hnext, heq⟩ | ⟨-, -, heq⟩
    · rw [heq]
      exact hO.moved h _ (hother none) (.inl (Function.update_self _ _ _))
    · rw [heq]
      have hO' : Blocking.Ok ⟨s', Function.update w.waiter t none⟩ :=
        hO.moved h _ (hother none) (.inl (Function.update_self _ _ _))
      refine hO'.enter u.call.op _ (fun j hj => ?_) fun u' hu' => ?_
      · rw [hother _ j hj]
        exact (hother none j hj).symm
      · rw [Function.update_self, Option.some.injEq] at hu'
        subst hu'
        obtain ⟨hok, hcount⟩ := hO.counted t u hu
        rcases hok.next with ⟨hnone, -⟩ | ⟨b, hb, hbok, hleft⟩
        · rw [hnext] at hnone
          cases hnone
        · rw [hnext, Option.some.injEq] at hb
          subst hb
          refine ⟨enter_serves u.call, hbok, ?_⟩
          show u.refusals + 1 + a.left = 321
          omega
    · rw [heq]
      exact hO.moved h _ (hother none) (.inl (Function.update_self _ _ _))

/-- A thread outside the queue enters it. -/
theorem call_cases {c : Call T} (h : w.step (.call t c) = some w') :
    w.waiter t = none ∧ w' = ⟨w.base.enter t c.op, Function.update w.waiter t (some ⟨c, .first, 0⟩)⟩ := by
  simp only [Blocking.step] at h
  split at h
  · next hnone _ =>
    rw [Option.some.injEq] at h
    exact ⟨hnone, h.symm⟩
  · cases h

theorem attempt_cases {op : Op T} (h : w.step (.attempt t op) = some w') :
    w.waiter t = none ∧ w' = ⟨w.base.enter t op, w.waiter⟩ := by
  simp only [Blocking.step] at h
  split at h
  · next hnone _ =>
    rw [Option.some.injEq] at h
    exact ⟨hnone, h.symm⟩
  · cases h

/-- **One step** keeps the counts. -/
theorem Blocking.Ok.step (hO : w.Ok) {a : Act ι T} (h : w.step a = some w') : w'.Ok := by
  cases a with
  | call t c =>
    obtain ⟨-, rfl⟩ := call_cases h
    refine hO.enter c.op _ (fun j hj => Function.update_of_ne hj _ _) fun u hu => ?_
    rw [Function.update_self, Option.some.injEq] at hu
    subst hu
    obtain ⟨hok, hleft⟩ := Attempt.first_ok
    exact ⟨enter_serves c, hok, (Nat.zero_add _).trans hleft⟩
  | attempt t op =>
    obtain ⟨hnone, rfl⟩ := attempt_cases h
    refine hO.enter op _ (fun _ _ => rfl) fun u hu => ?_
    rw [hnone] at hu
    cases hu
  | step t spurious =>
    obtain ⟨s', hs', rfl⟩ := Option.map_eq_some_iff.mp h
    exact hO.after hs'

/-! ### When the element is transferred -/

/-- A refusal is a step that ends the attempt, and stores nothing. -/
theorem Refuses.access (h : Refuses s t) (spurious : Bool) :
    ∃ s', access s t spurious = some s' ∧ (s'.pc t).outside = true ∧ (s.pc t).stores = false := by
  have hsome : (Mpmc.access s t spurious).isSome = true ∧ (s.pc t).stores = false := by
    unfold Refuses at h
    unfold Mpmc.access
    split at h
    · next hpc => simp [hpc, Pc.stores]
    · next hpc => simp [hpc, Pc.stores]
    · exact h.elim
  obtain ⟨s', hs'⟩ := Option.isSome_iff_exists.mp hsome.1
  exact ⟨s', hs', (access_moved hs').ends.mpr (.inr h), hsome.2⟩

/-- **One step** transfers what it should exactly when it does not refuse a call for the last time. -/
theorem Blocking.Ok.completes_iff (hO : w.Ok) (a : Act ι T) : Completes w a ↔ Served w a := by
  cases a with
  | call t c =>
    refine ⟨fun _ => trivial, fun _ w' j u h hu hnone => ?_⟩
    obtain ⟨hfree, rfl⟩ := call_cases h
    by_cases hj : j = t
    · subst hj
      rw [hfree] at hu
      cases hu
    · have hnone' : Function.update w.waiter t (some ⟨c, .first, 0⟩) j = none := hnone
      rw [Function.update_of_ne hj, hu] at hnone'
      cases hnone'
  | attempt t op =>
    refine ⟨fun _ => trivial, fun _ w' j u h hu hnone => ?_⟩
    obtain ⟨-, rfl⟩ := attempt_cases h
    rw [show w.waiter j = none from hnone] at hu
    cases hu
  | step t spurious =>
    constructor
    · intro htransfers u hu hlast hrefuses
      obtain ⟨s', hs', hout, hstores⟩ := hrefuses.access spurious
      obtain ⟨hok, hcount⟩ := hO.counted t u hu
      -- the loop has no attempt left
      have hnext : u.attempt.next = none := by
        rcases hok.next with ⟨hnone, -⟩ | ⟨b, -, -, hleft⟩
        · exact hnone
        · omega
      have hstep : w.step (.step t spurious) = some (w.after t s') := by
        rw [Blocking.step, hs']
        rfl
      have hgone : (w.after t s').waiter t = none ∧ (w.after t s').base = s' := by
        simp [Blocking.after, hout, hu, hstores, hnext]
      have htransferred := htransfers _ t u hstep hu hgone.1
      rw [hgone.2] at htransferred
      have hyes := (access_transferred hs' (hO.serves t u hu) (hO.claimed t)).mpr htransferred
      rw [hstores] at hyes
      cases hyes
    · intro hserved w' j u h hu hnone
      obtain ⟨s', hs', rfl⟩ := Option.map_eq_some_iff.mp h
      have hsame : ∀ f, w.after t s' = ⟨s', f⟩ → (f = w.waiter → False) := by
        rintro f heq rfl
        rw [heq] at hnone
        rw [show w.waiter j = none from hnone] at hu
        cases hu
      rcases after_cases w t s' with ⟨-, heq⟩ | ⟨-, heq⟩ | ⟨hout, u', hu', hcases⟩
      · exact (hsame _ heq rfl).elim
      · exact (hsame _ heq rfl).elim
      · -- only the thread that moves can end its call
        have hjt : j = t := by
          by_contra hj
          have hkeep : (w.after t s').waiter j = w.waiter j := by
            rcases hcases with ⟨-, heq⟩ | ⟨-, a, -, heq⟩ | ⟨-, -, heq⟩ <;> rw [heq] <;>
              exact Function.update_of_ne hj _ _
          rw [hkeep, hu] at hnone
          cases hnone
        subst hjt
        rw [hu, Option.some.injEq] at hu'
        subst hu'
        have hserves := hO.serves j u hu
        rcases hcases with ⟨hstores, heq⟩ | ⟨-, a, -, heq⟩ | ⟨hstores, hnext, heq⟩
        · rw [heq]
          exact (access_transferred hs' hserves (hO.claimed j)).mp hstores
        · rw [heq] at hnone
          have hnone' : Function.update w.waiter j (some ⟨u.call, a, u.refusals + 1⟩) j = none := hnone
          rw [Function.update_self] at hnone'
          cases hnone'
        · obtain ⟨hok, hcount⟩ := hO.counted j u hu
          have hlast : u.refusals = 321 := by
            rcases hok.next with ⟨-, hleft⟩ | ⟨b, hb, -, -⟩
            · omega
            · rw [hnext] at hb
              cases hb
          rcases (access_moved hs').ends.mp hout with hyes | hrefuses
          · rw [hstores] at hyes
            cases hyes
          · exact absurd hrefuses (hserved u hu hlast)

/-- **The calls of a run** transfer their elements exactly when none of them is refused for the 322nd time. -/
theorem completes_iff_served (q : Queue T) (as : List (Act ι T)) :
    Along Blocking.step Completes (Blocking.init ι q) as ↔ Along Blocking.step Served (Blocking.init ι q) as :=
  along_congr Blocking.Ok (blocking_init_ok q) (fun _ _ _ hO h => hO.step h) (fun _ a hO => hO.completes_iff a) as

/-! ### The accesses of a run -/

omit [DecidableEq ι] in
theorem Pc.eq_idle {pc : Pc T} (h : pc.outside = true) : pc = .idle := by
  cases pc with
  | idle => rfl
  | _ => cases h

theorem step_enter {op : Op T} (h : s.pc t = .idle) : Mpmc.step s (.call t op) = some (s.enter t op) := by
  simp only [Mpmc.step, h]
  rfl

/-- A step is one access or call of `try_push` and `try_pop`, or two of them. -/
theorem step_base {a : Act ι T} (h : w.step a = some w') : ∃ bs, run Mpmc.step w.base bs = some w'.base := by
  cases a with
  | call t c =>
    simp only [Blocking.step] at h
    split at h
    · next _ hidle =>
      cases h
      exact ⟨[.call t c.op], run_cons_eq_some.mpr ⟨_, step_enter hidle, rfl⟩⟩
    · cases h
  | attempt t op =>
    simp only [Blocking.step] at h
    split at h
    · next _ hidle =>
      cases h
      exact ⟨[.call t op], run_cons_eq_some.mpr ⟨_, step_enter hidle, rfl⟩⟩
    · cases h
  | step t spurious =>
    obtain ⟨s', hs', rfl⟩ := Option.map_eq_some_iff.mp h
    have hone : run Mpmc.step w.base [.step t spurious] = some s' := run_cons_eq_some.mpr ⟨s', hs', rfl⟩
    rcases after_cases w t s' with ⟨-, heq⟩ | ⟨-, heq⟩ | ⟨hout, u, hu, hcases⟩
    · exact ⟨_, by rw [heq]; exact hone⟩
    · exact ⟨_, by rw [heq]; exact hone⟩
    · rcases hcases with ⟨-, heq⟩ | ⟨-, a, -, heq⟩ | ⟨-, -, heq⟩
      · exact ⟨_, by rw [heq]; exact hone⟩
      · exact ⟨_, by rw [heq]; exact run_concat hone (step_enter (Pc.eq_idle hout))⟩
      · exact ⟨_, by rw [heq]; exact hone⟩

/-- **The calls add no behaviour**: a run of them is a run of `try_push` and `try_pop`. -/
theorem run_base {as : List (Act ι T)} (h : run Blocking.step w as = some w') :
    ∃ bs, run Mpmc.step w.base bs = some w'.base := by
  refine run_induction (fun v => ∃ bs, run Mpmc.step w.base bs = some v.base) ⟨[], rfl⟩ ?_ h
  rintro v a v' ⟨bs, hbs⟩ hstep
  obtain ⟨cs, hcs⟩ := step_base hstep
  exact ⟨bs ++ cs, by rw [run_append, hbs, Option.bind_some, hcs]⟩

/-- What a `push` publishes is its argument: the payload is in the cell, and stays there up to the store that makes
it readable. -/
theorem published_payload [Fintype ι] {m : ℕ} {junk : T} {size : U64} {q : Queue T}
    (hctor : Queue.ctor junk size = some q) (hsize : size.toNat = 2 ^ m) (hm : 1 ≤ m) (hm' : m ≤ 62)
    {as : List (Act ι T)} (hrun : run Blocking.step (Blocking.init ι q) as = some w) (hcalls : w.base.calls < 2 ^ 63)
    {v : T} {pos : U64} (hpc : w.base.pc t = .pushPublish v pos) : w.base.queue.dataAt pos = v := by
  obtain ⟨bs, hbs⟩ := run_base hrun
  have hI : Inv m w.base := inv_of_run hctor hsize hm hm' hbs hcalls
  have hok := hI.threads t
  rw [hpc] at hok
  rw [hI.dataAt_eq]
  exact hok.2.2.2.2

/-! ### A queue that stays full -/

/-- One attempt of a `push` on a full queue: two loads, and nothing changes. -/
theorem refused_attempt {v : T} (hpc : w.base.pc t = .pushLoad v)
    (hfull : dif (w.base.queue.seqAt w.base.queue.tailPos) w.base.queue.tailPos < 0) :
    ∃ w₁ s₂, w.step (.step t false) = some w₁ ∧ w₁.waiter = w.waiter ∧ (w₁.base.pc t).stores = false ∧
      access w₁.base t false = some s₂ ∧ (s₂.pc t).outside = true ∧ s₂.queue = w.base.queue := by
  have hload : access w.base t false = some (w.base.goto t (.pushSeq v w.base.queue.tailPos)) := by
    rw [access, hpc]
  have hself : (w.base.goto t (.pushSeq v w.base.queue.tailPos)).pc t = .pushSeq v w.base.queue.tailPos :=
    Function.update_self _ _ _
  have hafter : w.after t (w.base.goto t (.pushSeq v w.base.queue.tailPos))
      = { w with base := w.base.goto t (.pushSeq v w.base.queue.tailPos) } := by
    rw [Blocking.after, hself]
    rfl
  have hstep : w.step (.step t false) = some { w with base := w.base.goto t (.pushSeq v w.base.queue.tailPos) } := by
    rw [Blocking.step, hload, Option.map_some, hafter]
  have hseq : access (w.base.goto t (.pushSeq v w.base.queue.tailPos)) t false
      = some ((w.base.goto t (.pushSeq v w.base.queue.tailPos)).goto t
          (pushBranch v w.base.queue.tailPos (w.base.queue.seqAt w.base.queue.tailPos))) := by
    rw [access, hself]
    rfl
  refine ⟨_, _, hstep, rfl, by rw [hself]; rfl, hseq, ?_, rfl⟩
  have hpc₂ : ((w.base.goto t (.pushSeq v w.base.queue.tailPos)).goto t
      (pushBranch v w.base.queue.tailPos (w.base.queue.seqAt w.base.queue.tailPos))).pc t
        = pushBranch v w.base.queue.tailPos (w.base.queue.seqAt w.base.queue.tailPos) :=
    Function.update_self _ _ _
  rw [hpc₂]
  exact (pushBranch_outside _ _ _).mpr hfull

/-- **A `push` that finds the queue full each time**, with nobody else moving, returns without having stored its
element. -/
theorem refused_push {v : T} {a : Attempt} {n : ℕ} (hok : a.Ok) (hpc : w.base.pc t = .pushLoad v)
    (hu : w.waiter t = some ⟨.push v, a, n⟩)
    (hfull : dif (w.base.queue.seqAt w.base.queue.tailPos) w.base.queue.tailPos < 0) :
    ¬Along Blocking.step Completes w (List.replicate (2 * (a.left + 1)) (.step t false)) := by
  induction hleft : a.left generalizing w a n with
  | zero =>
    rintro ⟨-, hrest⟩
    obtain ⟨w₁, s₂, hstep, hkeep, hstores, hs₂, hout, -⟩ := refused_attempt hpc hfull
    have hnext : a.next = none := by
      rcases hok.next with ⟨hnone, -⟩ | ⟨b, -, -, hb⟩
      · exact hnone
      · omega
    have hu₁ : w₁.waiter t = some ⟨.push v, a, n⟩ := by rw [hkeep, hu]
    have hgone : (w₁.after t s₂).waiter t = none := by
      simp [Blocking.after, hout, hu₁, hstores, hnext]
    have hstep₂ : w₁.step (.step t false) = some (w₁.after t s₂) := by
      rw [Blocking.step, hs₂]
      rfl
    obtain ⟨pos, hpublish, -, -⟩ := (hrest w₁ hstep).1 _ t _ hstep₂ hu₁ hgone
    rw [hpublish] at hstores
    cases hstores
  | succ k ih =>
    rintro ⟨-, hrest⟩
    obtain ⟨w₁, s₂, hstep, hkeep, hstores, hs₂, hout, hqueue⟩ := refused_attempt hpc hfull
    rcases hok.next with ⟨-, hnone⟩ | ⟨b, hnext, hbok, hb⟩
    · omega
    have hu₁ : w₁.waiter t = some ⟨.push v, a, n⟩ := by rw [hkeep, hu]
    have hagain : w₁.after t s₂
        = ⟨s₂.enter t (.tryPush v), Function.update w₁.waiter t (some ⟨.push v, b, n + 1⟩)⟩ := by
      simp [Blocking.after, hout, hu₁, hstores, hnext, Call.op]
    have hstep₂ : w₁.step (.step t false) = some (w₁.after t s₂) := by
      rw [Blocking.step, hs₂]
      rfl
    have htail := (hrest w₁ hstep).2 _ hstep₂
    rw [hagain] at htail
    have hu₂ : Function.update w₁.waiter t (some ⟨.push v, b, n + 1⟩) t = some ⟨.push v, b, n + 1⟩ :=
      Function.update_self _ _ _
    have hpc₂ : (s₂.enter t (.tryPush v)).pc t = .pushLoad v := Function.update_self _ _ _
    have hfull₂ : dif (s₂.queue.seqAt s₂.queue.tailPos) s₂.queue.tailPos < 0 := by
      rw [hqueue]
      exact hfull
    have hleft₂ : b.left = k := by omega
    exact ih (w := ⟨s₂.enter t (.tryPush v), Function.update w₁.waiter t (some ⟨.push v, b, n + 1⟩)⟩)
      hbok hpc₂ hu₂ hfull₂ hleft₂ htail

/-- What the constructor makes of two cells. -/
def twoCells : Queue ℕ := ⟨fun i => ⟨BitVec.ofNat 64 i, 0⟩, 1, 0, 0⟩

example : Queue.ctor 0 2#64 = some twoCells := rfl

/-- Two elements are pushed into it, and a third `push` is called. -/
def thirdPush : List (Act Unit ℕ) :=
  [.call () (.push 1), .step () false, .step () false, .step () false, .step () false, .step () false,
    .call () (.push 2), .step () false, .step () false, .step () false, .step () false, .step () false,
    .call () (.push 3)]

/-- **The third `push` returns, and its element is nowhere.** -/
theorem third_push_drops :
    ¬ ∀ (q : Queue ℕ) (as : List (Act Unit ℕ)), Along Blocking.step Completes (Blocking.init Unit q) as := by
  intro hall
  have hrun : run Blocking.step (Blocking.init Unit twoCells) thirdPush = some _ := rfl
  have halong := hall twoCells (thirdPush ++ List.replicate (2 * (Attempt.first.left + 1)) (.step () false))
  exact refused_push Attempt.first_ok.1 rfl rfl (by decide) (halong.append_right hrun)

end KwNet.Mpmc
