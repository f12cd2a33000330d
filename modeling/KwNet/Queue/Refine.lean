import KwNet.Queue.Steps
import KwNet.Queue.Ticket

/-!
# The code of `mpmc_bounded_Queue` refines the queue by position

`State.byPosition` reads the queue by position off the code's counters and sequence numbers.  Every access
of a thread is one of the four moves of `Tickets` there, or changes nothing:

* the CAS of `try_push` claims, its last store publishes; a `try_push` gives up only where there is no
  `Room`;
* the CAS of `try_pop` takes what is at the `front`, its last store releases; a `try_pop` gives up only
  where `front` is `none`;
* **`run_tickets`** — a run of the code is a sequence of moves, and so keeps what `Tickets.Ok` says.

As everywhere in this directory the ring has at most `2 ^ 62` cells and sees fewer than `2 ^ 63` calls.
-/

namespace KwNet.Mpmc

open KwNet.Lib

variable {ι T : Type}

namespace Tickets

/-- One move of the queue by position. -/
inductive Move (q : Tickets T) : Tickets T → Prop
  | claim {v : T} (hroom : q.Room) : Move q (q.claim v)
  | publish {pos : ℕ} (hpos : pos < q.tail) (hnew : q.published pos = false) :
      Move q (q.publish pos)
  | take {v : T} (hfront : q.front = some v) : Move q q.take
  | release {pos : ℕ} (hpos : pos < q.head) (hnew : q.ready (pos + q.capacity) = false) :
      Move q (q.release pos)

theorem Ok.move {q q' : Tickets T} (h : q.Ok) (hm : q.Move q') : q'.Ok := by
  cases hm with
  | claim => exact h.claim _
  | publish hpos => exact h.publish hpos
  | take hfront => exact h.take hfront
  | release => exact h.release _

theorem Ok.moves {q q' : Tickets T} (h : q.Ok) (hm : Relation.ReflTransGen Move q q') : q'.Ok := by
  induction hm with
  | refl => exact h
  | tail _ hmove ih => exact ih.move hmove

end Tickets

/-- The queue by position in a state of the code. -/
def State.byPosition (m : ℕ) (s : State ι T) : Tickets T where
  capacity := 2 ^ m
  placed := s.pushed.map Prod.snd
  published := fun p => decide (p < s.t ∧ (p < s.h ∨ s.seq (2 ^ m) p = p + 1))
  head := s.h
  ready := fun p => decide (p < s.t ∨ p < s.h + 2 ^ m ∧ s.seq (2 ^ m) p = p)

/-- It is a view of the shared memory, whatever the threads do. -/
theorem tickets_congr {m : ℕ} {s s' : State ι T} (hh : s'.h = s.h) (ht : s'.t = s.t)
    (hseq : s'.seq (2 ^ m) = s.seq (2 ^ m)) (hp : s'.pushed = s.pushed) :
    s'.byPosition m = s.byPosition m := by
  simp only [State.byPosition, hh, ht, hseq, hp]

theorem Tickets.ext_fields {q q' : Tickets T} (hc : q.capacity = q'.capacity)
    (hp : q.placed = q'.placed) (hpub : ∀ p, q.published p = true ↔ q'.published p = true)
    (hh : q.head = q'.head) (hr : ∀ p, q.ready p = true ↔ q'.ready p = true) : q = q' := by
  obtain ⟨c, l, pub, h, r⟩ := q
  obtain ⟨c', l', pub', h', r'⟩ := q'
  have hpub' : pub = pub' := funext fun p => Bool.eq_iff_iff.mpr (hpub p)
  have hr' : r = r' := funext fun p => Bool.eq_iff_iff.mpr (hr p)
  simp only at hc hp hh
  rw [hc, hp, hh, hpub', hr']

section Accesses

variable [Fintype ι] [DecidableEq ι] {m : ℕ} {s s' : State ι T} {i : ι} {v : T} {pos : U64}

omit [DecidableEq ι] in
theorem Inv.tickets_tail (hI : Inv m s) : (s.byPosition m).tail = s.t := by
  rw [hI.tail_eq]
  exact List.length_map ..

omit [Fintype ι] [DecidableEq ι] in
theorem tickets_published {p : ℕ} : (s.byPosition m).published p = true ↔
    p < s.t ∧ (p < s.h ∨ s.seq (2 ^ m) p = p + 1) := by
  simp [State.byPosition]

omit [Fintype ι] [DecidableEq ι] in
theorem tickets_ready {p : ℕ} : (s.byPosition m).ready p = true ↔
    p < s.t ∨ p < s.h + 2 ^ m ∧ s.seq (2 ^ m) p = p := by
  simp [State.byPosition]

/-! ### `try_push` -/

/-- **The CAS of `try_push`** finds room and claims the tail. -/
theorem Inv.tickets_push_claim (hI : Inv m s) (hc : s.calls < 2 ^ 63)
    (hpc : s.pc i = .pushCas v pos) (htail : s.queue.tailPos = pos)
    (hs' : s' = { s.goto i (.pushWrite v pos) with
      queue := { s.queue with tailPos := pos + 1 }
      pushed := s.pushed ++ [(pos.toNat, v)] }) :
    pos.toNat = (s.byPosition m).tail ∧ (s.byPosition m).Room ∧
      s'.byPosition m = (s.byPosition m).claim v := by
  have hpos : pos.toNat = s.t := by rw [← htail]; rfl
  have hlt := hI.tail_lt hc
  have hle := hI.head_le
  have hok := hI.threads i
  rw [hpc] at hok
  obtain ⟨hseq, hroom⟩ := hok.2 hpos
  have hnext : s'.t = s.t + 1 := by
    rw [hs', ← hpos]
    exact toNat_succ (by omega)
  have hsame : s'.seq (2 ^ m) = s.seq (2 ^ m) ∧ s'.h = s.h := by rw [hs']; exact ⟨rfl, rfl⟩
  refine ⟨hpos.trans hI.tickets_tail.symm, ?_, ?_⟩
  · show (s.byPosition m).ready (s.byPosition m).tail = true
    rw [hI.tickets_tail, tickets_ready]
    exact .inr ⟨hroom, hseq⟩
  · refine Tickets.ext_fields rfl ?_ (fun p => ?_) hsame.2 (fun p => ?_)
    · rw [hs']
      exact List.map_append
    · -- the tail is claimed, and not published yet
      rw [Tickets.published_claim, tickets_published, tickets_published, hnext, hsame.1, hsame.2]
      constructor
      · rintro ⟨hp, hpub⟩
        by_cases hpt : p = s.t
        · rw [hpt] at hpub
          omega
        · exact ⟨by omega, hpub⟩
      · rintro ⟨hp, hpub⟩
        exact ⟨by omega, hpub⟩
    · show (s'.byPosition m).ready p = true ↔ (s.byPosition m).ready p = true
      rw [tickets_ready, tickets_ready, hnext, hsame.1, hsame.2]
      constructor
      · rintro (hp | hp)
        · by_cases hpt : p = s.t
          · rw [hpt]
            exact .inr ⟨hroom, hseq⟩
          · exact .inl (by omega)
        · exact .inr hp
      · rintro (hp | hp)
        · exact .inl (by omega)
        · exact .inr hp

/-- **The last store of `try_push`** publishes the position it claimed. -/
theorem Inv.tickets_push_publish (hI : Inv m s) (hc : s.calls < 2 ^ 63)
    (hpc : s.pc i = .pushPublish v pos)
    (hs' : s' = { s.goto i .idle with queue := s.queue.setSeq pos (pos + 1) }) :
    pos.toNat < (s.byPosition m).tail ∧ (s.byPosition m).published pos.toNat = false ∧
      (s.byPosition m).placed[pos.toNat]? = some v ∧
      s'.byPosition m = (s.byPosition m).publish pos.toNat := by
  have hok := hI.threads i
  rw [hpc] at hok
  obtain ⟨h1, h2, h3, h4, -⟩ := hok
  have hlt := hI.tail_lt hc
  have hle := hI.tail_le
  have hnext : (pos + 1).toNat = pos.toNat + 1 := toNat_succ (by omega)
  have hcells := hI.seq_setSeq (x := pos + 1) s' (by rw [hs'])
  have hcounts : s'.h = s.h ∧ s'.t = s.t ∧ s'.pushed = s.pushed := by rw [hs']; exact ⟨rfl, rfl, rfl⟩
  obtain ⟨hh, ht, hp'⟩ := hcounts
  -- between head and tail only `pos` lives in its cell
  have hother : ∀ p, s.h ≤ p → p < s.h + 2 ^ m → p ≠ pos.toNat →
      s'.seq (2 ^ m) p = s.seq (2 ^ m) p := by
    intro p hp hp₂ hne
    rw [hcells, if_neg]
    intro hmod
    rcases Nat.lt_or_gt_of_ne hne with hlt' | hgt
    · exact hne (eq_of_mod_eq hmod hlt'.le (by omega))
    · exact hne (eq_of_mod_eq hmod.symm hgt.le (by omega)).symm
  refine ⟨by rw [hI.tickets_tail]; exact h2, ?_, ?_, ?_⟩
  · rw [← Bool.not_eq_true, tickets_published]
    omega
  · show (s.pushed.map Prod.snd)[pos.toNat]? = some v
    rw [List.getElem?_map, h4]
    rfl
  · refine Tickets.ext_fields rfl (by rw [State.byPosition, hp']; rfl) (fun p => ?_) hh (fun p => ?_)
    · rw [Tickets.published_publish, tickets_published, tickets_published, hh, ht]
      by_cases hpp : p = pos.toNat
      · rw [hpp, hcells, if_pos rfl, hnext]
        exact ⟨fun _ => .inl rfl, fun _ => ⟨h2, .inr rfl⟩⟩
      · by_cases hph : p < s.h
        · exact ⟨fun h => .inr ⟨h.1, .inl hph⟩, fun h => ⟨by omega, .inl hph⟩⟩
        · by_cases hpt : p < s.t
          · rw [hother p (by omega) (by omega) hpp]
            exact ⟨.inr, fun h => h.resolve_left hpp⟩
          · exact ⟨fun h => absurd h.1 hpt, fun h => absurd (h.resolve_left hpp).1 hpt⟩
    · show (s'.byPosition m).ready p = true ↔ (s.byPosition m).ready p = true
      rw [tickets_ready, tickets_ready, hh, ht]
      by_cases hpt : p < s.t
      · exact ⟨fun _ => .inl hpt, fun _ => .inl hpt⟩
      · by_cases hpw : p < s.h + 2 ^ m
        · rw [hother p (by omega) hpw (by omega)]
        · exact ⟨fun h => absurd (h.resolve_left hpt).1 hpw,
            fun h => absurd (h.resolve_left hpt).1 hpw⟩

/-! ### `try_pop` -/

/-- **The CAS of `try_pop`** takes what is at the front. -/
theorem Inv.tickets_pop_claim (hI : Inv m s) (hm : 1 ≤ m) (hc : s.calls < 2 ^ 63)
    (hpc : s.pc i = .popCas pos) (hhead : s.queue.headPos = pos)
    (hs' : s' = { s.goto i (.popRead pos) with
      queue := { s.queue with headPos := pos + 1 }
      taken := s.taken ++ [pos.toNat] }) :
    pos.toNat = (s.byPosition m).head ∧
      (∃ v, (s.byPosition m).front = some v ∧ (s.byPosition m).placed[pos.toNat]? = some v) ∧
      s'.byPosition m = (s.byPosition m).take := by
  have hN : 2 ≤ 2 ^ m := Nat.pow_le_pow_right (n := 2) (by omega) hm
  have hpos : pos.toNat = s.h := by rw [← hhead]; rfl
  have hlt := hI.tail_lt hc
  have hle := hI.tail_le
  have hok := hI.threads i
  rw [hpc] at hok
  obtain ⟨hht, hseq⟩ := hok.2 hpos
  have hnext : s'.h = s.h + 1 := by
    rw [hs', ← hpos]
    exact toNat_succ (by omega)
  have hsame : s'.seq (2 ^ m) = s.seq (2 ^ m) ∧ s'.t = s.t ∧ s'.pushed = s.pushed := by
    rw [hs']
    exact ⟨rfl, rfl, rfl⟩
  obtain ⟨hcells, ht, hp'⟩ := hsame
  refine ⟨hpos, ?_, ?_⟩
  · rcases hI.filled s.h (le_refl _) hht with h0 | ⟨-, hput⟩
    · omega
    · have hplaced : (s.byPosition m).placed[s.h]? = some (s.dat (2 ^ m) s.h) := by
        show (s.pushed.map Prod.snd)[s.h]? = _
        rw [List.getElem?_map, hput]
        rfl
      refine ⟨s.dat (2 ^ m) s.h, ?_, by rw [hpos]; exact hplaced⟩
      have hpub : (s.byPosition m).published s.h = true :=
        tickets_published.mpr ⟨hht, .inr hseq⟩
      show (if (s.byPosition m).published s.h then (s.byPosition m).placed[s.h]? else none) = _
      rw [if_pos hpub, hplaced]
  · refine Tickets.ext_fields rfl (by rw [State.byPosition, hp']; rfl) (fun p => ?_) hnext
      (fun p => ?_)
    · -- the head was published already
      rw [Tickets.published_take, tickets_published, tickets_published, hnext, hcells, ht]
      by_cases hph : p = s.h
      · rw [hph]
        exact ⟨fun _ => ⟨hht, .inr hseq⟩, fun _ => ⟨hht, .inr hseq⟩⟩
      · omega
    · show (s'.byPosition m).ready p = true ↔ (s.byPosition m).ready p = true
      rw [tickets_ready, tickets_ready, hnext, hcells, ht]
      by_cases hph : p = s.h + 2 ^ m
      · have hcell : s.seq (2 ^ m) p = s.seq (2 ^ m) s.h := by
          rw [hph, State.seq, State.seq, Nat.add_mod_right]
        omega
      · omega

/-- **The last store of `try_pop`** releases the position it took, and returns what was placed there. -/
theorem Inv.tickets_pop_publish (hI : Inv m s) (hm : 1 ≤ m) (hm' : m ≤ 62) (hc : s.calls < 2 ^ 63)
    (hpc : s.pc i = .popPublish pos v)
    (hs' : s' = { s.goto i .idle with
      queue := s.queue.setSeq pos (pos + s.queue.bufferMask + 1)
      popped := (pos.toNat, v) :: s.popped }) :
    pos.toNat < (s.byPosition m).head ∧ (s.byPosition m).ready (pos.toNat + 2 ^ m) = false ∧
      (s.byPosition m).placed[pos.toNat]? = some v ∧
      s'.byPosition m = (s.byPosition m).release pos.toNat := by
  have hok := hI.threads i
  rw [hpc] at hok
  obtain ⟨h1, h2, h3, h4⟩ := hok
  have hN : 2 ≤ 2 ^ m := Nat.pow_le_pow_right (n := 2) (by omega) hm
  have hlt := hI.tail_lt hc
  have hle := hI.head_le
  have hnext := hI.toNat_revolution hm' (show pos.toNat < 2 ^ 63 by omega)
  have hcells := hI.seq_setSeq (x := pos + s.queue.bufferMask + 1) s' (by rw [hs'])
  have hcounts : s'.h = s.h ∧ s'.t = s.t ∧ s'.pushed = s.pushed := by rw [hs']; exact ⟨rfl, rfl, rfl⟩
  obtain ⟨hh, ht, hp'⟩ := hcounts
  -- between head and the end of the window only `pos + N` lives in the cell of `pos`
  have hother : ∀ p, s.h ≤ p → p < s.h + 2 ^ m → p ≠ pos.toNat + 2 ^ m →
      s'.seq (2 ^ m) p = s.seq (2 ^ m) p := by
    intro p hp hp₂ hne
    rw [hcells, if_neg]
    intro hmod
    rw [← Nat.add_mod_right pos.toNat] at hmod
    rcases Nat.lt_or_gt_of_ne hne with hlt' | hgt
    · exact hne (eq_of_mod_eq hmod hlt'.le (by omega))
    · exact hne (eq_of_mod_eq hmod.symm hgt.le (by omega)).symm
  refine ⟨h1, ?_, ?_, ?_⟩
  · have hcell : s.seq (2 ^ m) (pos.toNat + 2 ^ m) = s.seq (2 ^ m) pos.toNat := by
      rw [State.seq, State.seq, Nat.add_mod_right]
    rw [← Bool.not_eq_true, tickets_ready]
    omega
  · show (s.pushed.map Prod.snd)[pos.toNat]? = some v
    rw [List.getElem?_map, h4]
    rfl
  · refine Tickets.ext_fields rfl (by rw [State.byPosition, hp']; rfl) (fun p => ?_) hh (fun p => ?_)
    · rw [Tickets.published_release, tickets_published, tickets_published, hh, ht]
      by_cases hpw : s.h ≤ p ∧ p < s.t
      · rw [hother p hpw.1 (by omega) (by omega)]
      · omega
    · rw [tickets_ready, Tickets.ready_release, tickets_ready, hh, ht]
      by_cases hpp : p = pos.toNat + 2 ^ m
      · have hnow : s'.seq (2 ^ m) p = p := by
          rw [hcells, hpp, if_pos (Nat.add_mod_right ..), hnext]
        exact ⟨fun _ => .inl hpp, fun _ => .inr ⟨by omega, hnow⟩⟩
      · by_cases hpw : s.t ≤ p ∧ p < s.h + 2 ^ m
        · rw [hother p (by omega) hpw.2 hpp]
          exact ⟨.inr, fun h => h.resolve_left hpp⟩
        · have hskip : ∀ x : ℕ, (p < s.t ∨ p < s.h + 2 ^ m ∧ x = p) ↔ p < s.t := by omega
          rw [hskip, hskip]
          exact ⟨.inr, fun h => h.resolve_left hpp⟩

/-! ### Giving up -/

omit [Fintype ι] [DecidableEq ι] in
theorem dif_nonneg (seq pos : U64) (hle : pos.toNat ≤ seq.toNat) (hlt : seq.toNat < 2 ^ 63) :
    0 ≤ dif seq pos := by
  unfold dif
  rw [BitVec.toInt_eq_toNat_cond, BitVec.toNat_sub_of_le (BitVec.le_def.mpr hle)]
  split <;> omega

omit [DecidableEq ι] in
/-- The cell of a position that has been taken shows a later sequence number. -/
theorem Inv.seq_taken (hI : Inv m s) {p : ℕ} (hp : p < s.h) : p + 1 ≤ s.seq (2 ^ m) p := by
  obtain ⟨q, hq, hq₂, hpq, hmod⟩ := exists_window (Nat.two_pow_pos m) hp
  have hcell : s.seq (2 ^ m) p = s.seq (2 ^ m) q := by rw [State.seq, State.seq, hmod]
  rw [hcell]
  by_cases hqt : q < s.t
  · rcases hI.filled q hq hqt with h0 | ⟨h0, -⟩ <;> omega
  · rcases hI.free q (by omega) hq₂ with h0 | h0 <;> omega

omit [DecidableEq ι] in
theorem Inv.seq_le (hI : Inv m s) {p : ℕ} (hp : p < s.h + 2 ^ m) :
    s.seq (2 ^ m) p ≤ s.h + 2 ^ m := by
  have hle := hI.tail_le
  have hwindow : ∃ q, s.h ≤ q ∧ q < s.h + 2 ^ m ∧ s.seq (2 ^ m) p = s.seq (2 ^ m) q := by
    by_cases hph : p < s.h
    · obtain ⟨q, hq, hq₂, -, hmod⟩ := exists_window (Nat.two_pow_pos m) hph
      exact ⟨q, hq, hq₂, by rw [State.seq, State.seq, hmod]⟩
    · exact ⟨p, by omega, hp, rfl⟩
  obtain ⟨q, hq, hq₂, hcell⟩ := hwindow
  rw [hcell]
  by_cases hqt : q < s.t
  · rcases hI.filled q hq hqt with h0 | ⟨h0, -⟩ <;> omega
  · rcases hI.free q (by omega) hq₂ with h0 | h0 <;> omega

omit [DecidableEq ι] in
/-- **A `try_push` gives up** only where there is no room. -/
theorem Inv.tickets_push_fails (hI : Inv m s) (hc : s.calls + 2 ^ m < 2 ^ 63)
    (hpc : s.pc i = .pushSeq v pos)
    (hfail : pushBranch v pos (s.queue.seqAt pos) = .idle) : ¬(s.byPosition m).Room := by
  have hok : pos.toNat ≤ s.t := by
    have hok := hI.threads i
    rw [hpc] at hok
    exact hok
  have hcalls := hI.calls
  have hle := hI.head_le
  have hle' := hI.tail_le
  have hseqAt := hI.seqAt_eq pos
  have hneg : dif (s.queue.seqAt pos) pos < 0 := by
    unfold pushBranch at hfail
    by_contra hge
    rw [if_neg hge] at hfail
    split at hfail <;> cases hfail
  by_cases hpt : pos.toNat = s.t
  · show ¬(s.byPosition m).ready (s.byPosition m).tail = true
    rw [hI.tickets_tail, tickets_ready]
    rintro (hlt | ⟨-, hseq⟩)
    · omega
    · rw [hpt, hseq] at hseqAt
      have := dif_nonneg (s.queue.seqAt pos) pos (by omega) (by omega)
      omega
  · -- a position that is claimed shows at least its own number
    have hge : pos.toNat ≤ s.seq (2 ^ m) pos.toNat := by
      by_cases hph : pos.toNat < s.h
      · have := hI.seq_taken hph
        omega
      · rcases hI.filled pos.toNat (by omega) (by omega) with h0 | ⟨h0, -⟩ <;> omega
    have hlt := hI.seq_le (p := pos.toNat) (by omega)
    have := dif_nonneg (s.queue.seqAt pos) pos (by omega) (by omega)
    omega

omit [DecidableEq ι] in
/-- **A `try_pop` gives up** only where nothing is at the front. -/
theorem Inv.tickets_pop_fails (hI : Inv m s) (hc : s.calls + 2 ^ m < 2 ^ 63)
    (hpc : s.pc i = .popSeq pos)
    (hfail : popBranch (T := T) pos (s.queue.seqAt pos) = .idle) : (s.byPosition m).front = none := by
  have hok : pos.toNat ≤ s.h := by
    have hok := hI.threads i
    rw [hpc] at hok
    exact hok
  have hcalls := hI.calls
  have hle := hI.head_le
  have hle' := hI.tail_le
  have hpos := Nat.two_pow_pos m
  have hseqAt := hI.seqAt_eq pos
  have hnext : (pos + 1).toNat = pos.toNat + 1 := toNat_succ (by omega)
  have hneg : dif (s.queue.seqAt pos) (pos + 1) < 0 := by
    unfold popBranch at hfail
    by_contra hge
    rw [if_neg hge] at hfail
    split at hfail <;> cases hfail
  have hseq : s.seq (2 ^ m) pos.toNat < pos.toNat + 1 := by
    by_contra hge
    have hlt := hI.seq_le (p := pos.toNat) (by omega)
    have := dif_nonneg (s.queue.seqAt pos) (pos + 1) (by omega) (by omega)
    omega
  have hph : pos.toNat = s.h := by
    by_contra hne
    have := hI.seq_taken (p := pos.toNat) (by omega)
    omega
  have hpub : ¬(s.byPosition m).published s.h = true := by
    rw [tickets_published]
    rw [hph] at hseq
    omega
  show (if (s.byPosition m).published s.h then (s.byPosition m).placed[s.h]? else none) = none
  rw [if_neg hpub]

/-! ### Steps and runs -/

/-- Every access is a move, or nothing another user can see. -/
theorem Inv.access_tickets (hI : Inv m s) (hm : 1 ≤ m) (hm' : m ≤ 62) (hc : s.calls < 2 ^ 63)
    {spurious : Bool} (h : Mpmc.access s i spurious = some s') :
    s'.byPosition m = s.byPosition m ∨ (s.byPosition m).Move (s'.byPosition m) := by
  unfold Mpmc.access at h
  cases hpc : s.pc i with
  | idle =>
    rw [hpc] at h
    cases h
  | pushCas v pos =>
    simp only [hpc] at h
    split at h
    · rename_i htail
      obtain ⟨-, hroom, hmove⟩ := hI.tickets_push_claim hc hpc htail.1 (Option.some.inj h).symm
      rw [hmove]
      exact .inr (.claim hroom)
    · rw [← Option.some.inj h]
      exact .inl rfl
  | pushWrite v pos =>
    simp only [hpc, Option.some.injEq] at h
    rw [← h]
    exact .inl (tickets_congr rfl rfl (hI.seq_setData _ rfl) rfl)
  | pushPublish v pos =>
    simp only [hpc, Option.some.injEq] at h
    obtain ⟨hpos, hnew, -, hmove⟩ := hI.tickets_push_publish hc hpc h.symm
    rw [hmove]
    exact .inr (.publish hpos hnew)
  | popCas pos =>
    simp only [hpc] at h
    split at h
    · rename_i hhead
      obtain ⟨-, ⟨v, hfront, -⟩, hmove⟩ :=
        hI.tickets_pop_claim hm hc hpc hhead.1 (Option.some.inj h).symm
      rw [hmove]
      exact .inr (.take hfront)
    · rw [← Option.some.inj h]
      exact .inl rfl
  | popPublish pos v =>
    simp only [hpc, Option.some.injEq] at h
    obtain ⟨hpos, hnew, -, hmove⟩ := hI.tickets_pop_publish hm hm' hc hpc h.symm
    rw [hmove]
    exact .inr (.release hpos hnew)
  | _ =>
    simp only [hpc, Option.some.injEq] at h
    rw [← h]
    exact .inl rfl

theorem Inv.step_tickets (hI : Inv m s) (hm : 1 ≤ m) (hm' : m ≤ 62) (hc : s.calls < 2 ^ 63)
    {a : Action ι T} (h : Mpmc.step s a = some s') :
    s'.byPosition m = s.byPosition m ∨ (s.byPosition m).Move (s'.byPosition m) := by
  cases a with
  | call t op =>
    simp only [Mpmc.step] at h
    split at h
    · rw [← Option.some.inj h]
      exact .inl rfl
    · cases h
  | step t spurious => exact hI.access_tickets hm hm' hc h

end Accesses

theorem tickets_init {m : ℕ} {junk : T} {size : U64} {q : Queue T}
    (h : Queue.ctor junk size = some q) (hm' : m ≤ 62) :
    (State.init ι q).byPosition m = Tickets.init T (2 ^ m) := by
  have hN : (2 : ℕ) ^ m ≤ 2 ^ 62 := Nat.pow_le_pow_right (by omega) hm'
  unfold Queue.ctor at h
  split at h
  · cases h
    refine Tickets.ext_fields rfl rfl (fun p => ?_) rfl (fun p => ?_)
    · rw [tickets_published]
      exact ⟨fun hp => absurd hp.1 (Nat.not_lt_zero p), fun hp => absurd hp Bool.false_ne_true⟩
    · rw [tickets_ready]
      show p < 0 ∨ p < 0 + 2 ^ m ∧ (BitVec.ofNat 64 (p % 2 ^ m)).toNat = p ↔
        decide (p < 2 ^ m) = true
      rw [decide_eq_true_iff, Nat.zero_add]
      constructor
      · rintro (hp | hp)
        · exact absurd hp (Nat.not_lt_zero p)
        · exact hp.1
      · intro hp
        refine .inr ⟨hp, ?_⟩
        rw [Nat.mod_eq_of_lt hp, BitVec.toNat_ofNat, Nat.mod_eq_of_lt (by omega)]
  · cases h

/-- **A run of the code is a sequence of moves** of the queue by position. -/
theorem run_tickets [Fintype ι] [DecidableEq ι] {m : ℕ} {junk : T} {size : U64} {q : Queue T}
    (h : Queue.ctor junk size = some q) (hsize : size.toNat = 2 ^ m) (hm : 1 ≤ m) (hm' : m ≤ 62)
    {as : List (Action ι T)} {s : State ι T} (hrun : run step (State.init ι q) as = some s)
    (hcalls : s.calls < 2 ^ 63) :
    Relation.ReflTransGen Tickets.Move (Tickets.init T (2 ^ m)) (s.byPosition m) := by
  refine (run_induction (fun s => s.calls < 2 ^ 63 → Inv m s ∧
    Relation.ReflTransGen Tickets.Move (Tickets.init T (2 ^ m)) (s.byPosition m)) ?_ ?_ hrun hcalls).2
  · intro _
    rw [tickets_init h hm']
    exact ⟨inv_init h hsize hm', .refl⟩
  · intro t a t' ih ht hc
    have hc' : t.calls < 2 ^ 63 := Nat.lt_of_le_of_lt (calls_mono ht) hc
    obtain ⟨hI, hmoves⟩ := ih hc'
    refine ⟨hI.step hm hm' hc' ht, ?_⟩
    rcases hI.step_tickets hm hm' hc' ht with hsame | hmove
    · rw [hsame]
      exact hmoves
    · exact hmoves.tail hmove

/-- What the users of the queue rely on holds after every run of the code. -/
theorem run_tickets_ok [Fintype ι] [DecidableEq ι] {m : ℕ} {junk : T} {size : U64} {q : Queue T}
    (h : Queue.ctor junk size = some q) (hsize : size.toNat = 2 ^ m) (hm : 1 ≤ m) (hm' : m ≤ 62)
    {as : List (Action ι T)} {s : State ι T} (hrun : run step (State.init ι q) as = some s)
    (hcalls : s.calls < 2 ^ 63) : (s.byPosition m).Ok :=
  (Tickets.ok_init T (2 ^ m)).moves (run_tickets h hsize hm hm' hrun hcalls)

end KwNet.Mpmc
