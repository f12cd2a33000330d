import KwNet.Queue.Steps

/-!
# `empty()` and `size()` among other calls

Both load `head_pos` first and `tail_pos` then, and the queue may change in between.  `size()` returns a `bool`.

* `emptyReturns`, `sizeReturns` — what they return, by the two states in which they load;
* **`empty_linearizable`** — the answer was right at some moment between the two loads, for `true` at the second one.
-/

namespace KwNet.Mpmc

open KwNet.Lib

variable {ι T : Type}

/-- `empty()`, which loads `head_pos` in `s` and `tail_pos` in `s'`. -/
def emptyReturns (s s' : State ι T) : Bool := s.queue.headPos == s'.queue.tailPos

/-- `size()`: `t - h` becomes a `bool`. -/
def sizeReturns (s s' : State ι T) : Bool := s'.queue.tailPos - s.queue.headPos != 0

variable [DecidableEq ι] {s s' : State ι T}

/-- A step moves one of the two counters at most, and claims positions for good. -/
theorem step_counters {a : Action ι T} (h : step s a = some s') :
    (s'.queue.headPos = s.queue.headPos ∨ s'.queue.tailPos = s.queue.tailPos) ∧ s.taken.length ≤ s'.taken.length := by
  cases a with
  | call t op =>
    simp only [step] at h
    split at h <;> cases h
    exact ⟨.inl rfl, Nat.le_refl _⟩
  | step t spurious =>
    simp only [step, access] at h
    split at h
    case h_1 => cases h
    case h_4 =>
      split at h <;> cases h
      · exact ⟨.inl rfl, Nat.le_refl _⟩
      · exact ⟨.inl rfl, Nat.le_refl _⟩
    case h_9 =>
      split at h <;> cases h
      · exact ⟨.inr rfl, by rw [List.length_append]; exact Nat.le_add_right _ _⟩
      · exact ⟨.inl rfl, Nat.le_refl _⟩
    all_goals
      cases h
      exact ⟨.inl rfl, Nat.le_refl _⟩

/-- As long as the queue is empty, nothing moves. -/
theorem moved_or_nonempty {as : List (Action ι T)} (hrun : run step s as = some s') :
    (∃ bs cs u, as = bs ++ cs ∧ run step s bs = some u ∧ u.queue.empty = false) ∨
      s'.queue.tailPos = s.queue.headPos := by
  induction as generalizing s with
  | nil =>
    rw [run_nil, Option.some.injEq] at hrun
    cases hempty : s.queue.empty with
    | false => exact .inl ⟨[], [], s, rfl, rfl, hempty⟩
    | true =>
      rw [← hrun]
      exact .inr (beq_iff_eq.mp hempty).symm
  | cons a as ih =>
    obtain ⟨v, hv, hrest⟩ := run_cons_eq_some.mp hrun
    cases hempty : s.queue.empty with
    | false => exact .inl ⟨[], a :: as, s, rfl, rfl, hempty⟩
    | true =>
      rcases ih hrest with ⟨bs, cs, u, heq, hu, hne⟩ | htail
      · exact .inl ⟨a :: bs, cs, u, by rw [heq, List.cons_append], run_cons_eq_some.mpr ⟨v, hv, hu⟩, hne⟩
      · cases hempty' : v.queue.empty with
        | false => exact .inl ⟨[a], as, v, rfl, run_cons_eq_some.mpr ⟨v, hv, rfl⟩, hempty'⟩
        | true =>
          have hsame : s.queue.headPos = s.queue.tailPos := beq_iff_eq.mp hempty
          have hsame' : v.queue.headPos = v.queue.tailPos := beq_iff_eq.mp hempty'
          refine .inr (htail.trans ?_)
          rcases (step_counters hv).1 with hhead | htail'
          · exact hhead
          · exact hsame'.trans (htail'.trans hsame.symm)

/-- **`empty()` is linearizable.**  For any capacity the constructor accepts up to `2 ^ 62`, any threads and any
interleaving, with fewer than `2 ^ 63` calls: where it returns `true`, the queue is empty when it loads `tail_pos`;
where it returns `false`, the queue was not empty at some moment since it loaded `head_pos`.  `size()` only says
whether `empty()` is false. -/
theorem empty_linearizable [Fintype ι] {junk : T} {size : U64} {q : Queue T} (hctor : Queue.ctor junk size = some q)
    (hsize : size.toNat ≤ 2 ^ 62) {as bs : List (Action ι T)} (hrun : run step (State.init ι q) as = some s)
    (hbetween : run step s bs = some s') (hcalls : s'.calls < 2 ^ 63) :
    (emptyReturns s s' = true → s'.queue.empty = true) ∧
    (emptyReturns s s' = false → ∃ bs₁ bs₂ u, bs = bs₁ ++ bs₂ ∧ run step s bs₁ = some u ∧ u.queue.empty = false) ∧
    sizeReturns s s' = !emptyReturns s s' := by
  obtain ⟨m, hm, hpow⟩ := ctor_size hctor
  have hm' : m ≤ 62 := by
    by_contra h
    have : (2 : ℕ) ^ 63 ≤ 2 ^ m := Nat.pow_le_pow_right (by omega) (by omega)
    omega
  have hcalls_le : s.calls ≤ s'.calls :=
    run_induction (fun u => s.calls ≤ u.calls) (Nat.le_refl _) (fun _ _ _ hle hs => hle.trans (calls_mono hs)) hbetween
  have hI := inv_of_run hctor hpow hm hm' hrun (Nat.lt_of_le_of_lt hcalls_le hcalls)
  have hwhole : run step (State.init ι q) (as ++ bs) = some s' := by
    rw [run_append, hrun]
    exact hbetween
  have hI' := inv_of_run hctor hpow hm hm' hwhole hcalls
  refine ⟨fun htrue => ?_, fun hfalse => ?_, ?_⟩
  · have htaken : s.taken.length ≤ s'.taken.length :=
      run_induction (fun u => s.taken.length ≤ u.taken.length) (Nat.le_refl _)
        (fun _ _ _ hle hs => hle.trans (step_counters hs).2) hbetween
    rw [hI.taken, hI'.taken, List.length_range, List.length_range] at htaken
    have heq : s.h = s'.t := congrArg BitVec.toNat (beq_iff_eq.mp htrue)
    -- the head cannot have passed the tail
    have hle := hI'.head_le
    exact beq_iff_eq.mpr (BitVec.eq_of_toNat_eq (show s'.h = s'.t by omega))
  · rcases moved_or_nonempty hbetween with hnonempty | htail
    · exact hnonempty
    · rw [emptyReturns, htail, beq_self_eq_true] at hfalse
      cases hfalse
  · show (s'.queue.tailPos - s.queue.headPos != 0) = !(s.queue.headPos == s'.queue.tailPos)
    rw [Bool.eq_iff_iff, bne_iff_ne, Bool.not_eq_true', beq_eq_false_iff_ne, not_iff_not]
    constructor
    · intro hzero
      exact (sub_eq_zero.mp hzero).symm
    · intro heq
      rw [heq]
      exact BitVec.sub_self _

/-- A value passes through between the two loads. -/
def passingRun : List (Action Bool ℕ) :=
  .call false (.tryPush 7) :: List.replicate 5 (.step false false) ++ .call true .tryPop :: List.replicate 5 (.step true false)

theorem empty_linearizable_passing :
    ∃ q s, Queue.ctor 0 2#64 = some q ∧ run step (State.init Bool q) passingRun = some s ∧
      q.empty = true ∧ s.queue.empty = true ∧ emptyReturns (State.init Bool q) s = false ∧
      ∃ bs₁ bs₂ u, passingRun = bs₁ ++ bs₂ ∧ run step (State.init Bool q) bs₁ = some u ∧ u.queue.empty = false :=
  ⟨_, _, rfl, rfl, rfl, rfl, rfl,
    (empty_linearizable (show Queue.ctor 0 2#64 = some _ from rfl) (by decide)
      (show run step (State.init Bool _) [] = some _ from rfl) (show run step _ passingRun = some _ from rfl)
      (by decide)).2.1 rfl⟩

end KwNet.Mpmc
