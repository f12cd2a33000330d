import KwNet.Lib.Credit
import KwNet.Queue.Fifo

/-!
# `try_push` and `try_pop` are lock-free

A `try_push` goes round its loop again only when `tail_pos` is no longer what it has read, or when its weak
CAS fails for no reason; a `try_pop` likewise with `head_pos`.  So each CAS that goes through costs every other
thread one more round at most.

* `Pc.rest` — the accesses a thread still makes, if no other thread claims anything meanwhile;
* **`Inv.access_paid`** — an access uses one of them up, unless it is a CAS that goes through or fails for no
  reason;
* **`accesses_bounded`** — so the accesses of a run are bounded by the calls that have returned.
-/

namespace KwNet.Mpmc

open KwNet.Lib

variable {ι T : Type}

/-- `pos` is still the counter's value: the rest of this round; otherwise one more round. -/
def roundOr (counter pos : U64) (n : ℕ) : ℕ := if counter = pos then n else n + 2

/-- The accesses left inside the call, when nobody else claims a position. -/
def Pc.rest (q : Queue T) : Pc T → ℕ
  | .idle => 0
  | .pushLoad _ => 5
  | .pushSeq _ pos => roundOr q.tailPos pos 4
  | .pushCas _ pos => roundOr q.tailPos pos 3
  | .pushWrite _ _ => 2
  | .pushPublish _ _ => 1
  | .popLoad => 5
  | .popSeq pos => roundOr q.headPos pos 4
  | .popCas pos => roundOr q.headPos pos 3
  | .popRead _ => 2
  | .popPublish _ _ => 1

theorem roundOr_self (pos : U64) (n : ℕ) : roundOr pos pos n = n := if_pos rfl

theorem roundOr_bounds (counter pos : U64) (n : ℕ) : n ≤ roundOr counter pos n ∧ roundOr counter pos n ≤ n + 2 := by
  unfold roundOr
  split <;> omega

/-- A CAS that fails: the counter has moved, or there is no reason. -/
theorem roundOr_fail {counter pos : U64} {spurious : Bool} (hfail : ¬(counter = pos ∧ spurious = false)) :
    1 + roundOr counter counter 4 ≤ roundOr counter pos 3 + (if spurious then 2 else 0) := by
  rw [roundOr_self]
  by_cases hsame : counter = pos
  · cases spurious with
    | false => exact absurd ⟨hsame, rfl⟩ hfail
    | true =>
      rw [roundOr, if_pos hsame]
      exact Nat.le_refl 5
  · rw [roundOr, if_neg hsame]
    omega

/-- A claim costs each other thread two accesses at most: it reads the cell once more, and the counter. -/
theorem Pc.rest_surge (q q' : Queue T) (pc : Pc T) : pc.rest q' ≤ pc.rest q + 2 := by
  have hround : ∀ c c' pos n, roundOr c' pos n ≤ roundOr c pos n + 2 := by
    intro c c' pos n
    have h := (roundOr_bounds c pos n).1
    have h' := (roundOr_bounds c' pos n).2
    omega
  cases pc with
  | pushSeq v pos => exact hround q.tailPos q'.tailPos pos 4
  | pushCas v pos => exact hround q.tailPos q'.tailPos pos 3
  | popSeq pos => exact hround q.headPos q'.headPos pos 4
  | popCas pos => exact hround q.headPos q'.headPos pos 3
  | _ => exact Nat.le_add_right _ 2

/-! ### The branches on `dif` -/

/-- A sequence number that is not ahead of a position, and not a whole ring behind it. -/
theorem dif_nonpos (seq pos : U64) (hle : seq.toNat ≤ pos.toNat) (hnear : pos.toNat < seq.toNat + 2 ^ 63) :
    dif seq pos ≤ 0 := by
  unfold dif
  rw [BitVec.toInt_eq_toNat_cond, BitVec.toNat_sub]
  have hs := seq.isLt
  have hp := pos.isLt
  split <;> omega

section Steps

variable [Fintype ι] {m : ℕ} {s : State ι T} {i : ι}

/-- The cell of the tail is never ahead of it, so a `try_push` that reads the counter again has lost it. -/
theorem Inv.push_retry (hI : Inv m s) (hm' : m ≤ 62) {v : T} {pos : U64}
    (hretry : pushBranch v pos (s.queue.seqAt pos) = .pushLoad v) : s.queue.tailPos ≠ pos := by
  rintro rfl
  have hN : (2 : ℕ) ^ m ≤ 2 ^ 62 := Nat.pow_le_pow_right (by omega) hm'
  have hseqAt : (s.queue.seqAt s.queue.tailPos).toNat = s.seq (2 ^ m) s.t := hI.seqAt_eq s.queue.tailPos
  have hle := hI.head_le
  have hle' := hI.tail_le
  have hseq : s.seq (2 ^ m) s.t ≤ s.t ∧ s.t ≤ s.seq (2 ^ m) s.t + 2 ^ m := by
    by_cases hfull : s.t < s.h + 2 ^ m
    · rcases hI.free s.t (le_refl _) hfull with h0 | h0 <;> omega
    · -- a full ring: the cell of the tail is the cell of the head
      have htN : s.t = s.h + 2 ^ m := by omega
      have hcell : s.seq (2 ^ m) s.t = s.seq (2 ^ m) s.h := by
        rw [htN, State.seq, State.seq, Nat.add_mod_right]
      have hpos := Nat.two_pow_pos m
      rcases hI.filled s.h (le_refl _) (by omega) with h0 | ⟨h0, -⟩ <;> omega
  have htail : s.queue.tailPos.toNat = s.t := rfl
  have hdif := dif_nonpos (s.queue.seqAt s.queue.tailPos) s.queue.tailPos (by omega) (by omega)
  unfold pushBranch at hretry
  split at hretry
  · cases hretry
  · rw [if_pos (by omega)] at hretry
    cases hretry

theorem Inv.pop_retry (hI : Inv m s) (hm' : m ≤ 62) (hc : s.calls < 2 ^ 63) {pos : U64}
    (hretry : popBranch (T := T) pos (s.queue.seqAt pos) = .popLoad) : s.queue.headPos ≠ pos := by
  rintro rfl
  have hN : (2 : ℕ) ^ m ≤ 2 ^ 62 := Nat.pow_le_pow_right (by omega) hm'
  have hpos := Nat.two_pow_pos m
  have hlt := hI.tail_lt hc
  have hle := hI.head_le
  have hseqAt : (s.queue.seqAt s.queue.headPos).toNat = s.seq (2 ^ m) s.h := hI.seqAt_eq s.queue.headPos
  have hseq : s.seq (2 ^ m) s.h ≤ s.h + 1 ∧ s.h < s.seq (2 ^ m) s.h + 2 ^ m + 1 := by
    by_cases hempty : s.h < s.t
    · rcases hI.filled s.h (le_refl _) hempty with h0 | ⟨h0, -⟩ <;> omega
    · rcases hI.free s.h (by omega) (by omega) with h0 | h0 <;> omega
  have hhead : s.queue.headPos.toNat = s.h := rfl
  have hnext : (s.queue.headPos + 1).toNat = s.h + 1 := toNat_succ (by omega)
  have hdif := dif_nonpos (s.queue.seqAt s.queue.headPos) (s.queue.headPos + 1) (by omega) (by omega)
  unfold popBranch at hretry
  split at hretry
  · cases hretry
  · rw [if_pos (by omega)] at hretry
    cases hretry

/-! ### One access -/

/-- What the threads inside a call still have to do. -/
def State.debt (s : State ι T) : ℕ := weight (fun pc => pc.rest s.queue) s.pc

/-- What the CASes that went through have cost the others. -/
def State.claimed (s : State ι T) : ℕ := s.h + s.t

variable [DecidableEq ι]

/-- A move that leaves both counters alone. -/
theorem debt_goto {pc : Pc T} (s' : State ι T) (htail : s'.queue.tailPos = s.queue.tailPos)
    (hhead : s'.queue.headPos = s.queue.headPos) (hpc : s'.pc = Function.update s.pc i pc) :
    s'.debt + (s.pc i).rest s.queue = s.debt + pc.rest s.queue ∧ s'.claimed = s.claimed := by
  have hrest : (fun pc : Pc T => pc.rest s'.queue) = fun pc => pc.rest s.queue := by
    funext pc
    cases pc <;> simp only [Pc.rest, htail, hhead]
  constructor
  · rw [State.debt, State.debt, hrest, hpc]
    exact weight_update _ s.pc i pc
  · simp only [State.claimed, State.h, State.t, htail, hhead]

/-- A claim: the thread goes on, the others may have to start over. -/
theorem debt_claim {pc : Pc T} (s' : State ι T) (hpc : s'.pc = Function.update s.pc i pc) :
    s'.debt + (s.pc i).rest s.queue ≤ s.debt + pc.rest s'.queue + 2 * (Fintype.card ι - 1) := by
  rw [State.debt, State.debt, hpc]
  exact weight_surge (Pc.rest_surge s.queue s'.queue) s.pc i pc

/-- **One access** is paid for by what it leaves less to do, by the claim it makes, or by the failure of its CAS
for no reason. -/
theorem Inv.access_paid (hI : Inv m s) (hm' : m ≤ 62) (hc : s.calls < 2 ^ 63) {spurious : Bool} {s' : State ι T}
    (h : Mpmc.access s i spurious = some s') :
    1 + s'.debt + 2 * (Fintype.card ι - 1) * s.claimed
        ≤ s.debt + 2 * (Fintype.card ι - 1) * s'.claimed + (if spurious then 2 else 0) ∧ s'.calls = s.calls := by
  have hlt := hI.tail_lt hc
  have hle := hI.head_le
  -- what a move leaves to do is less than before
  have hmove : ∀ {pc : Pc T} {c : ℕ} (s' : State ι T), s'.queue.tailPos = s.queue.tailPos →
      s'.queue.headPos = s.queue.headPos → s'.pc = Function.update s.pc i pc → s'.calls = s.calls →
      1 + pc.rest s.queue ≤ (s.pc i).rest s.queue + c →
      1 + s'.debt + 2 * (Fintype.card ι - 1) * s.claimed
        ≤ s.debt + 2 * (Fintype.card ι - 1) * s'.claimed + c ∧ s'.calls = s.calls := by
    intro pc c s' htail hhead hpc hcalls hless
    obtain ⟨hdebt, hclaimed⟩ := debt_goto s' htail hhead hpc
    rw [hclaimed]
    exact ⟨by omega, hcalls⟩
  -- a claim has one thread go on by one access
  have hclaim : ∀ {pc : Pc T} (s' : State ι T), s'.pc = Function.update s.pc i pc → s'.calls = s.calls →
      s'.claimed = s.claimed + 1 → 1 + pc.rest s'.queue ≤ (s.pc i).rest s.queue →
      1 + s'.debt + 2 * (Fintype.card ι - 1) * s.claimed
        ≤ s.debt + 2 * (Fintype.card ι - 1) * s'.claimed + (if spurious then 2 else 0) ∧ s'.calls = s.calls := by
    intro pc s' hpc hcalls hone hless
    have hdebt := debt_claim s' hpc
    rw [hone, Nat.mul_succ]
    exact ⟨by omega, hcalls⟩
  unfold Mpmc.access at h
  split at h
  · cases h
  · next v hpc =>
    cases h
    refine hmove _ rfl rfl rfl rfl ?_
    rw [hpc]
    simp only [Pc.rest, roundOr_self]
    omega
  · next v pos hpc =>
    cases h
    refine hmove _ rfl rfl rfl rfl ?_
    rw [hpc]
    rcases pushBranch_eq v pos (s.queue.seqAt pos) with ⟨-, heq⟩ | heq | heq
    · rw [heq]
      simp only [Pc.rest, roundOr]
      split <;> omega
    · have hround := (roundOr_bounds s.queue.tailPos pos 4).1
      rw [heq]
      simp only [Pc.rest]
      omega
    · rw [heq]
      simp only [Pc.rest, roundOr, if_neg (hI.push_retry hm' heq)]
      omega
  · next v pos hpc =>
    split at h
    · next htail =>
      cases h
      have hnext : (pos + 1).toNat = pos.toNat + 1 := by
        rw [← htail.1]
        refine toNat_succ ?_
        show s.t + 1 < 2 ^ 64
        omega
      refine hclaim _ rfl rfl ?_ ?_
      · show s.h + (pos + 1).toNat = s.h + s.queue.tailPos.toNat + 1
        rw [hnext, htail.1]
        omega
      · rw [hpc]
        simp only [Pc.rest, roundOr, if_pos htail.1]
        omega
    · next htail =>
      cases h
      refine hmove _ rfl rfl rfl rfl ?_
      rw [hpc]
      exact roundOr_fail htail
  · next v pos hpc =>
    cases h
    refine hmove _ rfl rfl rfl rfl ?_
    rw [hpc]
    simp only [Pc.rest]
    omega
  · next v pos hpc =>
    cases h
    refine hmove _ rfl rfl rfl rfl ?_
    rw [hpc]
    simp only [Pc.rest]
    omega
  · next hpc =>
    cases h
    refine hmove _ rfl rfl rfl rfl ?_
    rw [hpc]
    simp only [Pc.rest, roundOr_self]
    omega
  · next pos hpc =>
    cases h
    refine hmove _ rfl rfl rfl rfl ?_
    rw [hpc]
    rcases popBranch_eq (T := T) pos (s.queue.seqAt pos) with ⟨-, heq⟩ | heq | heq
    · rw [heq]
      simp only [Pc.rest, roundOr]
      split <;> omega
    · have hround := (roundOr_bounds s.queue.headPos pos 4).1
      rw [heq]
      simp only [Pc.rest]
      omega
    · rw [heq]
      simp only [Pc.rest, roundOr, if_neg (hI.pop_retry hm' hc heq)]
      omega
  · next pos hpc =>
    split at h
    · next hhead =>
      cases h
      have hnext : (pos + 1).toNat = pos.toNat + 1 := by
        rw [← hhead.1]
        refine toNat_succ ?_
        show s.h + 1 < 2 ^ 64
        omega
      refine hclaim _ rfl rfl ?_ ?_
      · show (pos + 1).toNat + s.t = s.queue.headPos.toNat + s.t + 1
        rw [hnext, hhead.1]
        omega
      · rw [hpc]
        simp only [Pc.rest, roundOr, if_pos hhead.1]
        omega
    · next hhead =>
      cases h
      refine hmove _ rfl rfl rfl rfl ?_
      rw [hpc]
      exact roundOr_fail hhead
  · next pos hpc =>
    cases h
    refine hmove _ rfl rfl rfl rfl ?_
    rw [hpc]
    simp only [Pc.rest]
    omega
  · next pos v hpc =>
    cases h
    refine hmove _ rfl rfl rfl rfl ?_
    rw [hpc]
    simp only [Pc.rest]
    omega

end Steps

/-! ### Whole runs -/

/-- `1` for an access. -/
def Action.access : Action ι T → ℕ
  | .call _ _ => 0
  | .step _ _ => 1

/-- `1` for an access whose CAS, if it is one, fails for no reason. -/
def Action.miss : Action ι T → ℕ
  | .step _ true => 1
  | _ => 0

/-- `1` for a thread inside a call. -/
def Pc.busy : Pc T → ℕ
  | .idle => 0
  | _ => 1

/-- The calls that have returned. -/
def State.returned [Fintype ι] (s : State ι T) : ℕ := s.calls - weight Pc.busy s.pc

theorem calls_le_returned [Fintype ι] (s : State ι T) : s.calls ≤ s.returned + Fintype.card ι := by
  have hbusy : weight Pc.busy s.pc ≤ Fintype.card ι := by
    calc ∑ i, (s.pc i).busy
        ≤ ∑ _ : ι, 1 := Finset.sum_le_sum fun i _ => by cases s.pc i <;> simp [Pc.busy]
      _ = Fintype.card ι := by rw [Finset.sum_const, Finset.card_univ, smul_eq_mul, Nat.mul_one]
  unfold State.returned
  omega

/-- **Lock-freedom.**  The accesses of a run are bounded by the calls that have returned: for each call, and for
each thread that may still be in one, five accesses and two more for every other thread, whatever the
interleaving, and two for each CAS that fails for no reason. -/
theorem accesses_bounded [Fintype ι] [DecidableEq ι] {junk : T} {size : U64} {q : Queue T}
    (hctor : Queue.ctor junk size = some q) (hsize : size.toNat ≤ 2 ^ 62) {as : List (Action ι T)}
    {s : State ι T} (hrun : run step (State.init ι q) as = some s) (hcalls : s.calls < 2 ^ 63) :
    (as.map Action.access).sum ≤ (5 + 2 * (Fintype.card ι - 1)) * (s.returned + Fintype.card ι)
      + 2 * (as.map Action.miss).sum := by
  obtain ⟨m, hm, hpow⟩ := ctor_size hctor
  have hm' : m ≤ 62 := by
    by_contra h
    have : (2 : ℕ) ^ 63 ≤ 2 ^ m := Nat.pow_le_pow_right (by omega) (by omega)
    omega
  have hpaid := run_cost_le (Inv m) (fun s => s.calls < 2 ^ 63) State.debt
    (fun s => 5 * s.calls + 2 * (Fintype.card ι - 1) * s.claimed) Action.access (fun a => 2 * a.miss)
    (fun s a s' hs hc => Nat.lt_of_le_of_lt (calls_mono hs) hc) ?_ (inv_init hctor hpow hm') hrun hcalls
  · have hclaimed : s.claimed ≤ s.calls := by
      have := (inv_of_run hctor hpow hm hm' hrun hcalls).calls
      rw [State.claimed]
      omega
    have hdebt₀ : (State.init ι q).debt = 0 := weight_const_zero _ Pc.idle rfl
    have hreturned := calls_le_returned s
    have hall : 5 * s.calls + 2 * (Fintype.card ι - 1) * s.claimed
        ≤ (5 + 2 * (Fintype.card ι - 1)) * (s.returned + Fintype.card ι) := by
      calc 5 * s.calls + 2 * (Fintype.card ι - 1) * s.claimed
          ≤ 5 * s.calls + 2 * (Fintype.card ι - 1) * s.calls :=
            Nat.add_le_add_left (Nat.mul_le_mul_left _ hclaimed) _
        _ = (5 + 2 * (Fintype.card ι - 1)) * s.calls := by rw [Nat.add_mul]
        _ ≤ (5 + 2 * (Fintype.card ι - 1)) * (s.returned + Fintype.card ι) := Nat.mul_le_mul_left _ hreturned
    rw [hdebt₀, List.sum_map_mul_left] at hpaid
    omega
  · intro s a s' hI hc hs
    refine ⟨hI.step hm hm' hc hs, ?_⟩
    cases a with
    | call t op =>
      simp only [step] at hs
      split at hs
      · next hidle =>
        cases hs
        obtain ⟨hdebt, hclaimed⟩ := debt_goto (s := s) { s.goto t op.enter with calls := s.calls + 1 } rfl rfl rfl
        have henter : op.enter.rest s.queue = 5 := by cases op <;> rfl
        rw [hidle, henter] at hdebt
        simp only [Action.access, Action.miss, hclaimed, Pc.rest] at hdebt ⊢
        omega
      · cases hs
    | step t spurious =>
      obtain ⟨hle, heq⟩ := hI.access_paid hm' hc hs
      cases spurious <;> simp only [Action.access, Action.miss, heq, if_true, Bool.false_eq_true, if_false] at hle ⊢ <;>
        omega

/-- Of the two threads of that run one has lost a CAS for no reason. -/
theorem accesses_bounded_two_cells :
    ∃ q s, Queue.ctor 0 2#64 = some q ∧ run step (State.init (Fin 2) q) twoCellRun = some s ∧
      (twoCellRun.map Action.access).sum = 15 ∧
      (twoCellRun.map Action.access).sum ≤ (5 + 2 * (Fintype.card (Fin 2) - 1)) * (s.returned + Fintype.card (Fin 2))
        + 2 * (twoCellRun.map Action.miss).sum :=
  ⟨_, _, rfl, rfl, rfl,
    accesses_bounded (show Queue.ctor 0 2#64 = some _ from rfl) (by decide)
      (show run step _ twoCellRun = some _ from rfl) (by decide)⟩

end KwNet.Mpmc
