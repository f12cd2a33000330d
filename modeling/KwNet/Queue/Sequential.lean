import KwNet.Queue.Invariant

/-!
# Calls that do not overlap: a bounded FIFO, through every wrap-around

With one call at a time the ring is between calls in a simple shape (`Holds`): the cells of the
positions from `head_pos` on carry the stored values and `position + 1`, the other cells of the
revolution carry the position they wait for.  Nothing is said about the counters themselves.  All
arithmetic is on 64-bit words, so slot indices, sequences and counters may wrap at any moment; the tests
of the code only look at differences, and within one revolution of at most `2 ^ 62` cells a difference
is never mistaken for one of the other sign.

* **`Holds.push`**, **`Holds.pop`** — a call that goes through keeps the shape;
* **`pushing_returns`**, **`popping_returns`** — what a call leaves behind when it returns, however often
  its weak CAS fails spuriously;
* **`sequential_bounded_fifo`** — over every sequence of calls.
-/

namespace KwNet.Mpmc

open KwNet.Lib

variable {ι T : Type} {m : ℕ} {q : Queue T} {xs : List T}

/-- The queue between calls, with `xs` stored. -/
structure Holds (m : ℕ) (q : Queue T) (xs : List T) : Prop where
  mask : q.bufferMask.toNat + 1 = 2 ^ m
  fits : xs.length ≤ 2 ^ m
  tail : q.tailPos = q.headPos + BitVec.ofNat 64 xs.length
  stored : ∀ i x, xs[i]? = some x →
    q.seqAt (q.headPos + BitVec.ofNat 64 i) = q.headPos + BitVec.ofNat 64 i + 1 ∧
      q.dataAt (q.headPos + BitVec.ofNat 64 i) = x
  free : ∀ i, xs.length ≤ i → i < 2 ^ m →
    q.seqAt (q.headPos + BitVec.ofNat 64 i) = q.headPos + BitVec.ofNat 64 i

/-! ### Cells -/

/-- The cell of the position `i` after `pos`: the wrap of the counter does not show. -/
theorem Queue.slot_add (hmask : q.bufferMask.toNat + 1 = 2 ^ m) (hm : m ≤ 64) (pos : U64) (i : ℕ) :
    q.slot (pos + BitVec.ofNat 64 i) = (pos.toNat + i) % 2 ^ m := by
  have hdvd : 2 ^ m ∣ 2 ^ 64 := Nat.pow_dvd_pow 2 hm
  rw [Queue.slot, toNat_and_mask hmask, BitVec.toNat_add, BitVec.toNat_ofNat,
    Nat.mod_mod_of_dvd _ hdvd, Nat.add_mod, Nat.mod_mod_of_dvd _ hdvd, ← Nat.add_mod]

theorem Queue.slot_ne (hmask : q.bufferMask.toNat + 1 = 2 ^ m) (hm : m ≤ 64) (pos : U64) {i j : ℕ}
    (hij : i < j) (hj : j < i + 2 ^ m) :
    q.slot (pos + BitVec.ofNat 64 i) ≠ q.slot (pos + BitVec.ofNat 64 j) := by
  rw [Queue.slot_add hmask hm, Queue.slot_add hmask hm]
  exact ne_mod_of_lt (by omega) (by omega)

/-- A revolution later the same cell is used again. -/
theorem Queue.slot_revolution (hmask : q.bufferMask.toNat + 1 = 2 ^ m) (hm : m ≤ 64) (pos : U64) :
    q.slot (pos + BitVec.ofNat 64 (2 ^ m)) = q.slot pos := by
  have h := Queue.slot_add hmask hm pos 0
  rw [BitVec.add_zero, Nat.add_zero] at h
  rw [Queue.slot_add hmask hm, Nat.add_mod_right, h]

theorem Queue.seqAt_setSeq (pos pos' seq : U64) :
    (q.setSeq pos seq).seqAt pos' = if q.slot pos' = q.slot pos then seq else q.seqAt pos' := by
  show (Function.update q.buffer (q.slot pos) _ (q.slot pos')).sequence = _
  by_cases h : q.slot pos' = q.slot pos
  · rw [h, Function.update_self, if_pos rfl]
  · rw [Function.update_of_ne h, if_neg h]
    rfl

theorem Queue.dataAt_setSeq (pos pos' seq : U64) :
    (q.setSeq pos seq).dataAt pos' = q.dataAt pos' := by
  show (Function.update q.buffer (q.slot pos) _ (q.slot pos')).data = _
  by_cases h : q.slot pos' = q.slot pos
  · rw [h, Function.update_self]
    exact congrArg (fun i => (q.buffer i).data) h.symm
  · rw [Function.update_of_ne h]
    rfl

theorem Queue.seqAt_setData (pos pos' : U64) (v : T) :
    (q.setData pos v).seqAt pos' = q.seqAt pos' := by
  show (Function.update q.buffer (q.slot pos) _ (q.slot pos')).sequence = _
  by_cases h : q.slot pos' = q.slot pos
  · rw [h, Function.update_self]
    exact congrArg (fun i => (q.buffer i).sequence) h.symm
  · rw [Function.update_of_ne h]
    rfl

theorem Queue.dataAt_setData (pos pos' : U64) (v : T) :
    (q.setData pos v).dataAt pos' = if q.slot pos' = q.slot pos then v else q.dataAt pos' := by
  show (Function.update q.buffer (q.slot pos) _ (q.slot pos')).data = _
  by_cases h : q.slot pos' = q.slot pos
  · rw [h, Function.update_self, if_pos rfl]
  · rw [Function.update_of_ne h, if_neg h]
    rfl

/-! ### A call that goes through -/

/-- What a successful `try_push` leaves behind. -/
def Queue.afterPush (q : Queue T) (v : T) : Queue T :=
  ({ q with tailPos := q.tailPos + 1 }.setData q.tailPos v).setSeq q.tailPos (q.tailPos + 1)

/-- What a successful `try_pop` leaves behind. -/
def Queue.afterPop (q : Queue T) : Queue T :=
  { q with headPos := q.headPos + 1 }.setSeq q.headPos (q.headPos + q.bufferMask + 1)

theorem Queue.seqAt_afterPush (v : T) (pos : U64) :
    (q.afterPush v).seqAt pos
      = if q.slot pos = q.slot q.tailPos then q.tailPos + 1 else q.seqAt pos := by
  rw [Queue.afterPush, Queue.seqAt_setSeq, Queue.seqAt_setData]
  rfl

theorem Queue.dataAt_afterPush (v : T) (pos : U64) :
    (q.afterPush v).dataAt pos = if q.slot pos = q.slot q.tailPos then v else q.dataAt pos := by
  rw [Queue.afterPush, Queue.dataAt_setSeq, Queue.dataAt_setData]
  rfl

theorem Queue.seqAt_afterPop (pos : U64) :
    q.afterPop.seqAt pos
      = if q.slot pos = q.slot q.headPos then q.headPos + q.bufferMask + 1 else q.seqAt pos := by
  rw [Queue.afterPop, Queue.seqAt_setSeq]
  rfl

theorem Queue.dataAt_afterPop (pos : U64) : q.afterPop.dataAt pos = q.dataAt pos := by
  rw [Queue.afterPop, Queue.dataAt_setSeq]
  rfl

theorem ofNat_succ (i : ℕ) : BitVec.ofNat 64 (i + 1) = BitVec.ofNat 64 i + 1 :=
  BitVec.ofNat_add i 1

theorem Holds.push (h : Holds m q xs) (hm : m ≤ 64) (hroom : xs.length < 2 ^ m) (v : T) :
    Holds m (q.afterPush v) (xs ++ [v]) := by
  have hne : ∀ i, i < 2 ^ m → i ≠ xs.length →
      q.slot (q.headPos + BitVec.ofNat 64 i) ≠ q.slot q.tailPos := by
    intro i hi hneq
    rw [h.tail]
    rcases Nat.lt_or_gt_of_ne hneq with hlt | hgt
    · exact Queue.slot_ne h.mask hm q.headPos hlt (by omega)
    · exact (Queue.slot_ne h.mask hm q.headPos hgt (by omega)).symm
  constructor
  · exact h.mask
  · rw [List.length_append, List.length_singleton]
    omega
  · show q.tailPos + 1 = q.headPos + _
    rw [h.tail, List.length_append, List.length_singleton, ofNat_succ, BitVec.add_assoc]
  · intro i x hx
    show (q.afterPush v).seqAt (q.headPos + BitVec.ofNat 64 i) = q.headPos + BitVec.ofNat 64 i + 1 ∧
      (q.afterPush v).dataAt (q.headPos + BitVec.ofNat 64 i) = x
    have hi : i < (xs ++ [v]).length := (List.getElem?_eq_some_iff.mp hx).1
    rw [List.length_append, List.length_singleton] at hi
    rw [Queue.seqAt_afterPush, Queue.dataAt_afterPush]
    by_cases hlast : i = xs.length
    · subst hlast
      rw [List.getElem?_concat_length, Option.some.injEq] at hx
      rw [← h.tail, if_pos rfl, if_pos rfl]
      exact ⟨rfl, hx⟩
    · rw [if_neg (hne i (by omega) hlast), if_neg (hne i (by omega) hlast)]
      rw [List.getElem?_append_left (by omega)] at hx
      exact h.stored i x hx
  · intro i hlow hi
    rw [List.length_append, List.length_singleton] at hlow
    show (q.afterPush v).seqAt (q.headPos + BitVec.ofNat 64 i) = _
    rw [Queue.seqAt_afterPush, if_neg (hne i hi (by omega))]
    exact h.free i (by omega) hi

theorem Holds.pop {x : T} (h : Holds m q (x :: xs)) (hm : m ≤ 64) : Holds m q.afterPop xs := by
  have hshift : ∀ i, q.headPos + 1 + BitVec.ofNat 64 i = q.headPos + BitVec.ofNat 64 (i + 1) := by
    intro i
    rw [ofNat_succ, BitVec.add_assoc, BitVec.add_comm 1]
  have hne : ∀ i, i + 1 < 2 ^ m →
      q.slot (q.headPos + BitVec.ofNat 64 (i + 1)) ≠ q.slot q.headPos := by
    intro i hi
    have hslot := Queue.slot_ne h.mask hm q.headPos (Nat.succ_pos i) (by omega)
    rw [BitVec.add_zero] at hslot
    exact hslot.symm
  have hfits := h.fits
  rw [List.length_cons] at hfits
  constructor
  · exact h.mask
  · omega
  · show q.tailPos = q.headPos + 1 + _
    rw [h.tail, hshift, List.length_cons]
  · intro i y hy
    have hi : i < xs.length := (List.getElem?_eq_some_iff.mp hy).1
    show q.afterPop.seqAt (q.headPos + 1 + _) = q.headPos + 1 + _ + 1 ∧ _
    have hold := h.stored (i + 1) y (by rw [List.getElem?_cons_succ]; exact hy)
    refine ⟨?_, ?_⟩
    · rw [hshift, Queue.seqAt_afterPop, if_neg (hne i (by omega))]
      exact hold.1
    · show q.afterPop.dataAt (q.headPos + 1 + _) = y
      rw [hshift, Queue.dataAt_afterPop]
      exact hold.2
  · intro i hlow hi
    show q.afterPop.seqAt (q.headPos + 1 + _) = q.headPos + 1 + _
    rw [hshift, Queue.seqAt_afterPop]
    by_cases hlast : i + 1 = 2 ^ m
    · -- the cell just emptied waits for the position one revolution later
      have hmask : BitVec.ofNat 64 (2 ^ m) = q.bufferMask + 1 := by
        rw [← h.mask, ofNat_succ, BitVec.ofNat_toNat, BitVec.setWidth_eq]
      rw [hlast, if_pos (Queue.slot_revolution h.mask hm q.headPos), hmask, BitVec.add_assoc]
    · rw [if_neg (hne i (by omega))]
      exact h.free (i + 1) (by rw [List.length_cons]; omega) (by omega)

/-! ### The tests of the code -/

/-- The signed difference to a position ahead is negative, wherever the counter wraps. -/
theorem dif_behind (pos : U64) {n : ℕ} (hlow : 2 ≤ n) (hhigh : n ≤ 2 ^ 62) :
    dif (pos + 1) (pos + BitVec.ofNat 64 n) < 0 := by
  have hcancel : pos + 1 - (pos + BitVec.ofNat 64 n) = 1 - BitVec.ofNat 64 n := by bv_omega
  have hn : (BitVec.ofNat 64 n).toNat = n := by
    rw [BitVec.toNat_ofNat]
    exact Nat.mod_eq_of_lt (by omega)
  have hnat : (1 - BitVec.ofNat 64 n).toNat = 2 ^ 64 - n + 1 := by
    rw [BitVec.toNat_sub, hn]
    show (2 ^ 64 - n + 1) % 2 ^ 64 = _
    exact Nat.mod_eq_of_lt (by omega)
  rw [dif, hcancel, BitVec.toInt_neg_iff, hnat]
  omega

/-- On a full queue the tail's cell still holds the value of a revolution ago. -/
theorem Holds.dif_full (h : Holds m q xs) (hm : 1 ≤ m) (hm' : m ≤ 62) (hfull : xs.length = 2 ^ m) :
    dif (q.seqAt q.tailPos) q.tailPos < 0 := by
  obtain ⟨x, hx⟩ : ∃ x, xs[0]? = some x := by
    have hpos : 0 < xs.length := by rw [hfull]; exact Nat.two_pow_pos m
    exact ⟨xs[0], List.getElem?_eq_getElem hpos⟩
  have hseq : q.seqAt q.tailPos = q.headPos + 1 := by
    have hslot := Queue.slot_revolution h.mask (by omega) q.headPos
    rw [← hfull, ← h.tail] at hslot
    have h0 := (h.stored 0 x hx).1
    rw [BitVec.add_zero] at h0
    rw [Queue.seqAt, hslot]
    exact h0
  have hlow : 2 ^ 1 ≤ 2 ^ m := Nat.pow_le_pow_right (by decide) hm
  have hhigh : 2 ^ m ≤ 2 ^ 62 := Nat.pow_le_pow_right (by decide) hm'
  rw [hseq, h.tail, hfull]
  exact dif_behind q.headPos (by omega) (by omega)

/-- On an empty queue the head's cell waits for its value. -/
theorem Holds.dif_empty (h : Holds m q []) :
    dif (q.seqAt q.headPos) (q.headPos + 1) < 0 := by
  have hseq := h.free 0 (Nat.le_refl 0) (Nat.two_pow_pos m)
  rw [BitVec.add_zero] at hseq
  have hminus : q.headPos - (q.headPos + 1) = -1 := by bv_omega
  rw [dif, hseq, hminus]
  decide

/-! ### One call, from its start to its return -/

variable [DecidableEq ι] {b s s' : State ι T} {t : ι}

theorem State.goto_goto (s : State ι T) (t : ι) (pc pc' : Pc T) :
    (s.goto t pc).goto t pc' = s.goto t pc' := by
  simp only [State.goto, Function.update_idem]

theorem State.goto_pc (s : State ι T) (t : ι) (pc : Pc T) : (s.goto t pc).pc t = pc := by
  simp only [State.goto, Function.update_self]

/-- The accesses a call still makes when nothing makes it go back. -/
def Pc.rank : Pc T → ℕ
  | .idle => 0
  | .pushPublish _ _ | .popPublish _ _ => 1
  | .pushWrite _ _ | .popRead _ => 2
  | .pushCas _ _ | .popCas _ => 3
  | .pushSeq _ _ | .popSeq _ => 4
  | .pushLoad _ | .popLoad => 5

/-- Where a `try_push` of thread `t` can stand when it started on `b` and nobody else moves. -/
inductive Pushing (b : State ι T) (t : ι) (v : T) : State ι T → Prop
  | load : Pushing b t v (b.goto t (.pushLoad v))
  | seq : Pushing b t v (b.goto t (.pushSeq v b.queue.tailPos))
  | cas (h : b.queue.seqAt b.queue.tailPos = b.queue.tailPos) :
      Pushing b t v (b.goto t (.pushCas v b.queue.tailPos))
  | write (h : b.queue.seqAt b.queue.tailPos = b.queue.tailPos) :
      Pushing b t v { b.goto t (.pushWrite v b.queue.tailPos) with
        queue := { b.queue with tailPos := b.queue.tailPos + 1 }
        pushed := b.pushed ++ [(b.queue.tailPos.toNat, v)] }
  | publish (h : b.queue.seqAt b.queue.tailPos = b.queue.tailPos) :
      Pushing b t v { b.goto t (.pushPublish v b.queue.tailPos) with
        queue := { b.queue with tailPos := b.queue.tailPos + 1 }.setData b.queue.tailPos v
        pushed := b.pushed ++ [(b.queue.tailPos.toNat, v)] }
  | done (h : b.queue.seqAt b.queue.tailPos = b.queue.tailPos) :
      Pushing b t v { b.goto t .idle with
        queue := b.queue.afterPush v
        pushed := b.pushed ++ [(b.queue.tailPos.toNat, v)] }
  | full (h : dif (b.queue.seqAt b.queue.tailPos) b.queue.tailPos < 0) :
      Pushing b t v (b.goto t .idle)

/-- The two cases of a quiescent queue: the tail's cell is free, or it is a revolution behind. -/
theorem Pushing.step {v : T} (h : Pushing b t v s)
    (hquiet : b.queue.seqAt b.queue.tailPos = b.queue.tailPos ∨
      dif (b.queue.seqAt b.queue.tailPos) b.queue.tailPos < 0) {spurious : Bool}
    (hs : access s t spurious = some s') :
    Pushing b t v s' ∧ (spurious = false → (s'.pc t).rank < (s.pc t).rank) := by
  cases h with
  | load =>
    simp only [access, State.goto_pc, State.goto_goto, Option.some.injEq] at hs
    subst hs
    exact ⟨.seq, fun _ => by simp only [State.goto_pc, Pc.rank]; decide⟩
  | seq =>
    simp only [access, State.goto_pc, State.goto_goto, Option.some.injEq] at hs
    have hs' : b.goto t (pushBranch v b.queue.tailPos (b.queue.seqAt b.queue.tailPos)) = s' := hs
    rcases hquiet with heq | hneg
    · have hbranch : pushBranch v b.queue.tailPos (b.queue.seqAt b.queue.tailPos)
          = .pushCas v b.queue.tailPos := if_pos (dif_eq_zero.mpr heq)
      rw [hbranch] at hs'
      subst hs'
      exact ⟨.cas heq, fun _ => by simp only [State.goto_pc, Pc.rank]; decide⟩
    · have hbranch : pushBranch v b.queue.tailPos (b.queue.seqAt b.queue.tailPos) = .idle := by
        rw [pushBranch, if_neg hneg.ne, if_pos hneg]
      rw [hbranch] at hs'
      subst hs'
      exact ⟨.full hneg, fun _ => by simp only [State.goto_pc, Pc.rank]; decide⟩
  | cas heq =>
    simp only [access, State.goto_pc, State.goto_goto] at hs
    split at hs <;> cases hs
    · exact ⟨.write heq, fun _ => by simp only [State.goto, Function.update_self, Pc.rank]; decide⟩
    · next hfail =>
      refine ⟨.seq, fun hf => absurd ⟨rfl, hf⟩ hfail⟩
  | write heq =>
    simp only [access, State.goto, Function.update_self, Function.update_idem,
      Option.some.injEq] at hs
    subst hs
    exact ⟨.publish heq, fun _ => by simp only [State.goto, Function.update_self, Pc.rank]; decide⟩
  | publish heq =>
    simp only [access, State.goto, Function.update_self, Function.update_idem,
      Option.some.injEq] at hs
    subst hs
    exact ⟨.done heq, fun _ => by simp only [State.goto, Function.update_self, Pc.rank]; decide⟩
  | done heq =>
    simp only [access, State.goto, Function.update_self, reduceCtorEq] at hs
  | full hneg => simp only [access, State.goto_pc, reduceCtorEq] at hs

/-- The same for `try_pop`. -/
inductive Popping (b : State ι T) (t : ι) : State ι T → Prop
  | load : Popping b t (b.goto t .popLoad)
  | seq : Popping b t (b.goto t (.popSeq b.queue.headPos))
  | cas (h : b.queue.seqAt b.queue.headPos = b.queue.headPos + 1) :
      Popping b t (b.goto t (.popCas b.queue.headPos))
  | read (h : b.queue.seqAt b.queue.headPos = b.queue.headPos + 1) :
      Popping b t { b.goto t (.popRead b.queue.headPos) with
        queue := { b.queue with headPos := b.queue.headPos + 1 }
        taken := b.taken ++ [b.queue.headPos.toNat] }
  | publish (h : b.queue.seqAt b.queue.headPos = b.queue.headPos + 1) :
      Popping b t { b.goto t (.popPublish b.queue.headPos (b.queue.dataAt b.queue.headPos)) with
        queue := { b.queue with headPos := b.queue.headPos + 1 }
        taken := b.taken ++ [b.queue.headPos.toNat] }
  | done (h : b.queue.seqAt b.queue.headPos = b.queue.headPos + 1) :
      Popping b t { b.goto t .idle with
        queue := b.queue.afterPop
        taken := b.taken ++ [b.queue.headPos.toNat]
        popped := (b.queue.headPos.toNat, b.queue.dataAt b.queue.headPos) :: b.popped }
  | empty (h : dif (b.queue.seqAt b.queue.headPos) (b.queue.headPos + 1) < 0) :
      Popping b t (b.goto t .idle)

theorem Popping.step (h : Popping b t s)
    (hquiet : b.queue.seqAt b.queue.headPos = b.queue.headPos + 1 ∨
      dif (b.queue.seqAt b.queue.headPos) (b.queue.headPos + 1) < 0) {spurious : Bool}
    (hs : access s t spurious = some s') :
    Popping b t s' ∧ (spurious = false → (s'.pc t).rank < (s.pc t).rank) := by
  cases h with
  | load =>
    simp only [access, State.goto_pc, State.goto_goto, Option.some.injEq] at hs
    subst hs
    exact ⟨.seq, fun _ => by simp only [State.goto_pc, Pc.rank]; decide⟩
  | seq =>
    simp only [access, State.goto_pc, State.goto_goto, Option.some.injEq] at hs
    have hs' : b.goto t (popBranch b.queue.headPos (b.queue.seqAt b.queue.headPos)) = s' := hs
    rcases hquiet with heq | hneg
    · have hbranch : popBranch (T := T) b.queue.headPos (b.queue.seqAt b.queue.headPos)
          = .popCas b.queue.headPos := if_pos (dif_eq_zero.mpr heq)
      rw [hbranch] at hs'
      subst hs'
      exact ⟨.cas heq, fun _ => by simp only [State.goto_pc, Pc.rank]; decide⟩
    · have hbranch : popBranch (T := T) b.queue.headPos (b.queue.seqAt b.queue.headPos) = .idle := by
        rw [popBranch, if_neg hneg.ne, if_pos hneg]
      rw [hbranch] at hs'
      subst hs'
      exact ⟨.empty hneg, fun _ => by simp only [State.goto_pc, Pc.rank]; decide⟩
  | cas heq =>
    simp only [access, State.goto_pc, State.goto_goto] at hs
    split at hs <;> cases hs
    · exact ⟨.read heq, fun _ => by simp only [State.goto, Function.update_self, Pc.rank]; decide⟩
    · next hfail =>
      refine ⟨.seq, fun hf => absurd ⟨rfl, hf⟩ hfail⟩
  | read heq =>
    simp only [access, State.goto, Function.update_self, Function.update_idem,
      Option.some.injEq] at hs
    subst hs
    exact ⟨.publish heq, fun _ => by simp only [State.goto, Function.update_self, Pc.rank]; decide⟩
  | publish heq =>
    simp only [access, State.goto, Function.update_self, Function.update_idem,
      Option.some.injEq] at hs
    subst hs
    exact ⟨.done heq, fun _ => by simp only [State.goto, Function.update_self, Pc.rank]; decide⟩
  | done heq =>
    simp only [access, State.goto, Function.update_self, reduceCtorEq] at hs
  | empty hneg => simp only [access, State.goto_pc, reduceCtorEq] at hs

/-! ### Sequences of calls -/

def Pc.isIdle : Pc T → Bool
  | .idle => true
  | _ => false

/-- One call by one thread.  `spurious` says which of its weak CASes fail although they need not; it has
one entry for each access the call makes. -/
structure SeqCall (ι T : Type) where
  thread : ι
  op : Op T
  spurious : List Bool

/-- The call runs alone until it returns. -/
def State.serve (s : State ι T) (c : SeqCall ι T) : Option (State ι T) :=
  (run step s (.call c.thread c.op :: c.spurious.map (.step c.thread))).filter fun s' =>
    (s'.pc c.thread).isIdle

/-- What a call returns, with the value a `try_pop` hands out. -/
inductive Result (T : Type) where
  | pushed (ok : Bool)
  | popped (value : Option T)
  deriving DecidableEq, Repr

/-- What the call that led from `s` to `s'` returned. -/
def State.result (s s' : State ι T) : Op T → Result T
  | .tryPush _ => .pushed (decide (s.pushed.length < s'.pushed.length))
  | .tryPop =>
    .popped (if s.popped.length < s'.popped.length then s'.popped.head?.map Prod.snd else none)

/-- The system with what its calls have returned so far. -/
structure Trial (ι T : Type) where
  state : State ι T
  results : List (Result T)

def Trial.exec (r : Trial ι T) (c : SeqCall ι T) : Option (Trial ι T) :=
  (r.state.serve c).map fun s' => ⟨s', r.results ++ [r.state.result s' c.op]⟩

/-- A queue of at most `N` values, with what its calls have returned so far. -/
structure Bounded (T : Type) where
  items : List T
  results : List (Result T)

def Bounded.exec (N : ℕ) (q : Bounded T) : Op T → Bounded T
  | .tryPush v =>
    if q.items.length = N then { q with results := q.results ++ [.pushed false] }
    else { items := q.items ++ [v], results := q.results ++ [.pushed true] }
  | .tryPop =>
    match q.items with
    | [] => { q with results := q.results ++ [.popped none] }
    | x :: xs => { items := xs, results := q.results ++ [.popped (some x)] }

/-- Nobody is inside a call. -/
structure Quiescent (m : ℕ) (s : State ι T) (xs : List T) : Prop where
  holds : Holds m s.queue xs
  idle : ∀ t, s.pc t = .idle

/-- What every access of thread `t` keeps is kept while only `t` moves. -/
theorem run_alone (P : State ι T → Prop) (hstep : ∀ s s' f, P s → access s t f = some s' → P s')
    {fs : List Bool} (h₀ : P s) (h : run step s (fs.map (.step t)) = some s') : P s' := by
  induction fs generalizing s with
  | nil =>
    rw [List.map_nil, run_nil, Option.some.injEq] at h
    exact h ▸ h₀
  | cons f fs ih =>
    obtain ⟨s₁, hs₁, hrest⟩ := run_cons_eq_some.mp h
    exact ih (hstep s s₁ f h₀ hs₁) hrest

theorem access_isSome {f : Bool} (h : s.pc t ≠ .idle) : ∃ s', access s t f = some s' := by
  unfold access
  split
  · next hpc => exact absurd hpc h
  all_goals first | exact ⟨_, rfl⟩ | (split <;> exact ⟨_, rfl⟩)

/-- A call whose accesses lower its rank returns when no CAS fails spuriously. -/
theorem returns_alone (P : State ι T → Prop)
    (hstep : ∀ s s' f, P s → access s t f = some s' →
      P s' ∧ (f = false → (s'.pc t).rank < (s.pc t).rank)) (h₀ : P s) :
    ∃ (fs : List Bool) (s' : State ι T),
      run step s (fs.map (.step t)) = some s' ∧ s'.pc t = .idle := by
  induction hn : (s.pc t).rank using Nat.strong_induction_on generalizing s with
  | _ n ih =>
    by_cases hidle : s.pc t = .idle
    · exact ⟨[], s, rfl, hidle⟩
    · obtain ⟨s₁, hs₁⟩ := access_isSome (f := false) hidle
      obtain ⟨hP, hrank⟩ := hstep s s₁ false h₀ hs₁
      obtain ⟨fs, s', hrun, hdone⟩ := ih _ (hn ▸ hrank rfl) hP rfl
      exact ⟨false :: fs, s', run_cons_eq_some.mpr ⟨s₁, hs₁, hrun⟩, hdone⟩

/-- A served call started on an idle thread and returned. -/
theorem State.serve_eq {c : SeqCall ι T} (hidle : s.pc c.thread = .idle)
    (h : s.serve c = some s') :
    run step ({ s with calls := s.calls + 1 }.goto c.thread c.op.enter)
        (c.spurious.map (.step c.thread)) = some s' ∧ s'.pc c.thread = .idle := by
  obtain ⟨hrun, hreturned⟩ := Option.filter_eq_some_iff.mp h
  obtain ⟨s₁, hs₁, hrest⟩ := run_cons_eq_some.mp hrun
  simp only [step, hidle, Option.some.injEq] at hs₁
  subst hs₁
  refine ⟨hrest, ?_⟩
  cases hpc : s'.pc c.thread with
  | idle => rfl
  | _ => rw [hpc] at hreturned; cases hreturned

theorem State.goto_idle (hidle : s.pc t = .idle) : s.goto t .idle = s := by
  rw [State.goto, ← hidle, Function.update_eq_self]

/-- The tail's cell of a queue with room is free. -/
theorem Holds.seq_tail (h : Holds m q xs) (hroom : xs.length < 2 ^ m) :
    q.seqAt q.tailPos = q.tailPos := by
  have hfree := h.free xs.length (Nat.le_refl _) hroom
  rw [← h.tail] at hfree
  exact hfree

/-- The head's cell of a queue that is not empty holds the oldest value. -/
theorem Holds.seq_head {x : T} (h : Holds m q (x :: xs)) :
    q.seqAt q.headPos = q.headPos + 1 ∧ q.dataAt q.headPos = x := by
  have hstored := h.stored 0 x rfl
  rw [BitVec.add_zero] at hstored
  exact hstored

theorem Holds.push_decides (h : Holds m q xs) (hm : 1 ≤ m) (hm' : m ≤ 62) :
    q.seqAt q.tailPos = q.tailPos ∨ dif (q.seqAt q.tailPos) q.tailPos < 0 :=
  (Nat.lt_or_eq_of_le h.fits).imp h.seq_tail (h.dif_full hm hm')

theorem Holds.pop_decides (h : Holds m q xs) :
    q.seqAt q.headPos = q.headPos + 1 ∨ dif (q.seqAt q.headPos) (q.headPos + 1) < 0 := by
  cases xs with
  | nil => exact .inr h.dif_empty
  | cons x xs => exact .inl h.seq_head.1

/-- **What a `try_push` leaves behind when it returns.** -/
theorem pushing_returns (h : Quiescent m s xs) (hm : 1 ≤ m) (hm' : m ≤ 62) {v : T} {fs : List Bool}
    (hs : s.serve ⟨t, .tryPush v, fs⟩ = some s') :
    (xs.length < 2 ^ m ∧ s' = { s with
        calls := s.calls + 1
        queue := s.queue.afterPush v
        pushed := s.pushed ++ [(s.queue.tailPos.toNat, v)] }) ∨
      (xs.length = 2 ^ m ∧ s' = { s with calls := s.calls + 1 }) := by
  obtain ⟨hrun, hreturned⟩ := State.serve_eq (h.idle t) hs
  have hstay : { s with calls := s.calls + 1 }.goto t .idle = { s with calls := s.calls + 1 } :=
    State.goto_idle (h.idle t)
  have hend := run_alone (Pushing { s with calls := s.calls + 1 } t v)
    (fun _ _ _ hp ha => (hp.step (h.holds.push_decides hm hm') ha).1) .load hrun
  cases hend with
  | load => rw [State.goto_pc] at hreturned; cases hreturned
  | seq => rw [State.goto_pc] at hreturned; cases hreturned
  | cas => rw [State.goto_pc] at hreturned; cases hreturned
  | write => simp only [State.goto, Function.update_self, reduceCtorEq] at hreturned
  | publish => simp only [State.goto, Function.update_self, reduceCtorEq] at hreturned
  | done heq =>
    refine .inl ⟨?_, by rw [hstay]⟩
    refine Nat.lt_of_le_of_ne h.holds.fits fun hlen => ?_
    have hneg := h.holds.dif_full hm hm' hlen
    rw [dif_eq_zero.mpr heq] at hneg
    exact absurd hneg (lt_irrefl 0)
  | full hneg =>
    refine .inr ⟨?_, hstay⟩
    refine Nat.le_antisymm h.holds.fits (Nat.le_of_not_lt fun hlt => ?_)
    have hneg' : dif (s.queue.seqAt s.queue.tailPos) s.queue.tailPos < 0 := hneg
    rw [dif_eq_zero.mpr (h.holds.seq_tail hlt)] at hneg'
    exact absurd hneg' (lt_irrefl 0)

/-- **What a `try_pop` leaves behind when it returns.** -/
theorem popping_returns (h : Quiescent m s xs) {fs : List Bool}
    (hs : s.serve ⟨t, .tryPop, fs⟩ = some s') :
    (∃ x xs', xs = x :: xs' ∧ s' = { s with
        calls := s.calls + 1
        queue := s.queue.afterPop
        taken := s.taken ++ [s.queue.headPos.toNat]
        popped := (s.queue.headPos.toNat, x) :: s.popped }) ∨
      (xs = [] ∧ s' = { s with calls := s.calls + 1 }) := by
  obtain ⟨hrun, hreturned⟩ := State.serve_eq (h.idle t) hs
  have hstay : { s with calls := s.calls + 1 }.goto t .idle = { s with calls := s.calls + 1 } :=
    State.goto_idle (h.idle t)
  have hend := run_alone (Popping { s with calls := s.calls + 1 } t)
    (fun _ _ _ hp ha => (hp.step h.holds.pop_decides ha).1) .load hrun
  cases hend with
  | load => rw [State.goto_pc] at hreturned; cases hreturned
  | seq => rw [State.goto_pc] at hreturned; cases hreturned
  | cas => rw [State.goto_pc] at hreturned; cases hreturned
  | read => simp only [State.goto, Function.update_self, reduceCtorEq] at hreturned
  | publish => simp only [State.goto, Function.update_self, reduceCtorEq] at hreturned
  | done heq =>
    cases xs with
    | nil =>
      have hneg := h.holds.dif_empty
      rw [dif_eq_zero.mpr heq] at hneg
      exact absurd hneg (lt_irrefl 0)
    | cons x xs' =>
      refine .inl ⟨x, xs', rfl, ?_⟩
      rw [hstay, h.holds.seq_head.2]
  | empty hneg =>
    cases xs with
    | nil => exact .inr ⟨rfl, hstay⟩
    | cons x xs' =>
      have hneg' : dif (s.queue.seqAt s.queue.headPos) (s.queue.headPos + 1) < 0 := hneg
      rw [dif_eq_zero.mpr h.holds.seq_head.1] at hneg'
      exact absurd hneg' (lt_irrefl 0)

/-- A call is served on a quiescent queue: without spurious failures it returns. -/
theorem Quiescent.serves (h : Quiescent m s xs) (hm : 1 ≤ m) (hm' : m ≤ 62) (t : ι) (op : Op T) :
    ∃ fs s', s.serve ⟨t, op, fs⟩ = some s' := by
  have hcall : ∀ fs s', run step ({ s with calls := s.calls + 1 }.goto t op.enter)
      (fs.map (.step t)) = some s' → s'.pc t = .idle → s.serve ⟨t, op, fs⟩ = some s' := by
    intro fs s' hrun hidle
    refine Option.filter_eq_some_iff.mpr ⟨run_cons_eq_some.mpr ⟨_, ?_, hrun⟩, by rw [hidle]; rfl⟩
    simp only [step, h.idle t]
    rfl
  cases op with
  | tryPush v =>
    obtain ⟨fs, s', hrun, hidle⟩ := returns_alone (Pushing { s with calls := s.calls + 1 } t v)
      (fun _ _ _ hp ha => hp.step (h.holds.push_decides hm hm') ha) .load
    exact ⟨fs, s', hcall fs s' hrun hidle⟩
  | tryPop =>
    obtain ⟨fs, s', hrun, hidle⟩ := returns_alone (Popping { s with calls := s.calls + 1 } t)
      (fun _ _ _ hp ha => hp.step h.holds.pop_decides ha) .load
    exact ⟨fs, s', hcall fs s' hrun hidle⟩

/-- One call keeps the queue quiescent and returns what the bounded queue returns. -/
theorem Quiescent.exec (hm : 1 ≤ m) (hm' : m ≤ 62) {r r' : Trial ι T} {q : Bounded T}
    {c : SeqCall ι T} (h : Quiescent m r.state q.items) (hres : r.results = q.results)
    (hs : r.exec c = some r') :
    Quiescent m r'.state (q.exec (2 ^ m) c.op).items ∧
      r'.results = (q.exec (2 ^ m) c.op).results := by
  obtain ⟨s', hserve, rfl⟩ := Option.map_eq_some_iff.mp hs
  obtain ⟨t, op, fs⟩ := c
  cases op with
  | tryPush v =>
    rcases pushing_returns h hm hm' hserve with ⟨hlen, rfl⟩ | ⟨hlen, rfl⟩
    · simp only [Bounded.exec, if_neg hlen.ne]
      refine ⟨⟨h.holds.push (by omega) hlen v, h.idle⟩, ?_⟩
      simp [State.result, hres]
    · simp only [Bounded.exec, if_pos hlen]
      refine ⟨⟨h.holds, h.idle⟩, ?_⟩
      simp [State.result, hres]
  | tryPop =>
    rcases popping_returns h hserve with ⟨x, xs', hxs, rfl⟩ | ⟨hxs, rfl⟩
    · simp only [Bounded.exec, hxs]
      refine ⟨⟨(hxs ▸ h.holds).pop (by omega), h.idle⟩, ?_⟩
      simp [State.result, hres]
    · simp only [Bounded.exec, hxs]
      refine ⟨⟨hxs ▸ h.holds, h.idle⟩, ?_⟩
      simp [State.result, hres]

/-- `empty()` between calls. -/
theorem Holds.empty_iff (h : Holds m q xs) (hm : m ≤ 62) : q.empty = true ↔ xs = [] := by
  have hhigh : 2 ^ m ≤ 2 ^ 62 := Nat.pow_le_pow_right (by decide) hm
  have hfits := h.fits
  rw [Queue.empty, beq_iff_eq, h.tail]
  constructor
  · intro heq
    have hzero : BitVec.ofNat 64 xs.length = 0 := by
      have hcancel := congrArg (fun p => p - q.headPos) heq
      rw [BitVec.sub_self, BitVec.add_comm, BitVec.add_sub_cancel] at hcancel
      exact hcancel.symm
    have hnat := congrArg BitVec.toNat hzero
    rw [BitVec.toNat_ofNat, Nat.mod_eq_of_lt (by omega)] at hnat
    exact List.length_eq_zero_iff.mp hnat
  · rintro rfl
    exact (BitVec.add_zero _).symm

/-- **A bounded FIFO.**  A ring of `2 ^ m` cells, `1 ≤ m ≤ 62`, in any quiescent state: whatever the
64-bit counters are and wherever they wrap, every sequence of calls that do not overlap, by any threads
and with any spurious failures, returns what a queue of at most `2 ^ m` values returns, and leaves those
values.  In the state reached every call returns; `try_push` on a full queue and `try_pop` on an empty
one change nothing; and `empty()` says whether nothing is stored. -/
theorem sequential_bounded_fifo (hm : 1 ≤ m) (hm' : m ≤ 62) (s : State ι T) (xs : List T)
    (h : Quiescent m s xs) (calls : List (SeqCall ι T)) (r : Trial ι T)
    (hrun : run Trial.exec ⟨s, []⟩ calls = some r) (q : Bounded T)
    (hq : q = (calls.map SeqCall.op).foldl (Bounded.exec (2 ^ m)) ⟨xs, []⟩) :
    r.results = q.results ∧ Quiescent m r.state q.items ∧
      (r.state.queue.empty = true ↔ q.items = []) ∧
      (∀ t op, ∃ fs r', r.exec ⟨t, op, fs⟩ = some r') ∧
      (∀ t v fs r', r.exec ⟨t, .tryPush v, fs⟩ = some r' →
        (r'.results = r.results ++ [.pushed false] ↔ q.items.length = 2 ^ m) ∧
        (q.items.length = 2 ^ m → r'.state.queue = r.state.queue)) ∧
      ∀ t fs r', r.exec ⟨t, .tryPop, fs⟩ = some r' →
        (r'.results = r.results ++ [.popped none] ↔ q.items = []) ∧
        (q.items = [] → r'.state.queue = r.state.queue) := by
  have hR := run_abstracts (fun q c => Bounded.exec (2 ^ m) q c.op)
    (fun (r : Trial ι T) q => Quiescent m r.state q.items ∧ r.results = q.results)
    (fun _ _ _ _ hi hs => hi.1.exec hm hm' hi.2 hs)
    (show Quiescent m (Trial.mk s []).state (Bounded.mk xs []).items ∧ _ from ⟨h, rfl⟩) hrun
  rw [← List.foldl_map (f := SeqCall.op) (g := Bounded.exec (2 ^ m)), ← hq] at hR
  obtain ⟨hquiet, hres⟩ := hR
  refine ⟨hres, hquiet, hquiet.holds.empty_iff hm', fun t op => ?_, fun t v fs r' hs => ?_,
    fun t fs r' hs => ?_⟩
  · obtain ⟨fs, s', hs⟩ := hquiet.serves hm hm' t op
    exact ⟨fs, _, by rw [Trial.exec, hs]; rfl⟩
  · obtain ⟨s', hserve, rfl⟩ := Option.map_eq_some_iff.mp hs
    rcases pushing_returns hquiet hm hm' hserve with ⟨hlen, rfl⟩ | ⟨hlen, rfl⟩
    · simp [State.result, hlen.ne]
    · simp [State.result, hlen]
  · obtain ⟨s', hserve, rfl⟩ := Option.map_eq_some_iff.mp hs
    rcases popping_returns hquiet hserve with ⟨x, xs', hxs, rfl⟩ | ⟨hxs, rfl⟩
    · simp [State.result, hxs]
    · simp [State.result, hxs]

/-- A ring of two cells, empty, whose counters are about to wrap. -/
def wrapping : State Unit ℕ :=
  { queue :=
      { buffer := fun i => if i = 1 then ⟨-1, 0⟩ else ⟨0, 0⟩, bufferMask := 1, headPos := -1,
        tailPos := -1 }
    pc := fun _ => .idle, calls := 0, pushed := [], taken := [], popped := [] }

theorem wrapping_quiescent : Quiescent 1 wrapping [] := by
  refine ⟨⟨rfl, by decide, by decide, fun i x hx => ?_, fun i _ hi => ?_⟩, fun _ => rfl⟩
  · rw [List.getElem?_nil] at hx
    cases hx
  · rcases Nat.lt_or_ge i 1 with h0 | h1
    · obtain rfl : i = 0 := by omega
      decide
    · obtain rfl : i = 1 := by omega
      decide

/-- Three pushes, the third on a full ring, and three pops, the third on an empty one. -/
def wrapCalls : List (SeqCall Unit ℕ) :=
  [⟨(), .tryPush 7, [false, false, true, false, false, false, false]⟩,
    ⟨(), .tryPush 8, [false, false, false, false, false]⟩, ⟨(), .tryPush 9, [false, false]⟩,
    ⟨(), .tryPop, [false, false, false, false, false]⟩,
    ⟨(), .tryPop, [false, false, false, false, false]⟩, ⟨(), .tryPop, [false, false]⟩]

theorem sequential_bounded_fifo_wraps :
    ∃ r, run Trial.exec ⟨wrapping, []⟩ wrapCalls = some r ∧ r.state.queue.headPos = 1 ∧
      r.results = [.pushed true, .pushed true, .pushed false, .popped (some 7), .popped (some 8),
        .popped none] ∧ r.state.queue.empty = true :=
  have hrun : run Trial.exec ⟨wrapping, []⟩ wrapCalls = some _ := rfl
  have h := sequential_bounded_fifo (m := 1) (by decide) (by decide) wrapping [] wrapping_quiescent
    wrapCalls _ hrun _ rfl
  ⟨_, hrun, rfl, h.1, h.2.2.1.mpr rfl⟩

end KwNet.Mpmc
