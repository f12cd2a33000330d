import KwNet.Queue.Invariant

/-!
# The steps of `mpmc_bounded_Queue` keep the ring invariant

One lemma per access of the code: the two claims (`push_claim`, `pop_claim`), the payload write and
the two publishing stores, and the loads, which only move the thread.

* **`Inv.step`** — every step keeps the invariant, as long as fewer than `2 ^ 63` calls were made;
* **`inv_of_run`** — hence it holds after every run of any threads from a constructed queue.
-/

namespace KwNet.Mpmc

open KwNet.Lib

variable {ι T : Type}

section Steps

variable [Fintype ι] [DecidableEq ι] {m : ℕ} {s : State ι T} {i : ι}

/-! ### The steps that change the shared memory -/

omit [DecidableEq ι] in
theorem Inv.tail_lt (hI : Inv m s) (hc : s.calls < 2 ^ 63) : s.t < 2 ^ 63 := by
  have := hI.calls
  omega

omit [DecidableEq ι] in
theorem Inv.pushPos_lt (hI : Inv m s) {j : ι} {pos : U64} (h : (s.pc j).pushPos = some pos) :
    s.h ≤ pos.toNat ∧ pos.toNat < s.t := by
  have hok := hI.threads j
  cases hpc : s.pc j <;> simp only [hpc, Pc.pushPos, Option.some.injEq, reduceCtorEq] at h <;>
    subst h <;> rw [hpc] at hok <;> exact ⟨hok.1, hok.2.1⟩

omit [DecidableEq ι] in
theorem Inv.popPos_lt (hI : Inv m s) {j : ι} {pos : U64} (h : (s.pc j).popPos = some pos) :
    pos.toNat < s.h ∧ s.t ≤ pos.toNat + 2 ^ m := by
  have hok := hI.threads j
  cases hpc : s.pc j <;> simp only [hpc, Pc.popPos, Option.some.injEq, reduceCtorEq] at h <;>
    subst h <;> rw [hpc] at hok <;> exact ⟨hok.1, hok.2.1⟩

/-- A successful CAS on `tail_pos` turns the first free position into a filled one. -/
theorem Inv.push_claim (hI : Inv m s) (hm : 1 ≤ m) (hc : s.calls < 2 ^ 63) {v : T} {pos : U64}
    (hpc : s.pc i = .pushCas v pos) (htail : s.queue.tailPos = pos) :
    Inv m { s.goto i (.pushWrite v pos) with
      queue := { s.queue with tailPos := pos + 1 }
      pushed := s.pushed ++ [(pos.toNat, v)] } := by
  have hN : 2 ≤ 2 ^ m := Nat.pow_le_pow_right (n := 2) (by omega) hm
  have hpos : pos.toNat = s.t := by rw [← htail]; rfl
  have hlt := hI.tail_lt hc
  have hok := hI.threads i
  rw [hpc] at hok
  obtain ⟨hseq, hroom⟩ := hok.2 hpos
  have hnext : (pos + 1).toNat = s.t + 1 := by
    rw [toNat_succ (by omega), hpos]
  have hok' : PcOk (2 ^ m) { s.goto i (.pushWrite v pos) with
      queue := { s.queue with tailPos := pos + 1 }, pushed := s.pushed ++ [(pos.toNat, v)] }
      (.pushWrite v pos) := by
    refine ⟨?_, ?_, ?_, ?_⟩
    · exact hpos ▸ hI.head_le
    · exact show pos.toNat < (pos + 1).toNat by omega
    · exact hpos ▸ hseq
    · show (s.pushed ++ [(pos.toNat, v)])[pos.toNat]? = some (pos.toNat, v)
      have hlen : pos.toNat = s.pushed.length := hpos.trans hI.tail_eq
      rw [List.getElem?_append_right (Nat.le_of_eq hlen.symm), hlen, Nat.sub_self]
      rfl
  refine ⟨hI.mask, ?_, ?_, ?_, ?_, ?_, ?_, ?_, ?_, ?_, ?_, hI.taken, ?_, hI.once, ?_⟩
  · show (pos + 1).toNat = (s.pushed ++ [(pos.toNat, v)]).length
    rw [hnext, List.length_append, hI.tail_eq, List.length_singleton]
  · show s.h ≤ (pos + 1).toNat
    have := hI.head_le
    omega
  · show (pos + 1).toNat ≤ s.h + 2 ^ m
    omega
  · show s.h + (pos + 1).toNat + weight Pc.pending (Function.update s.pc i (.pushWrite v pos))
      ≤ s.calls
    have hw := weight_update Pc.pending s.pc i (.pushWrite v pos)
    have hcl := hI.calls
    rw [hpc] at hw
    simp only [Pc.pending] at hw
    omega
  · intro p hp1 hp2
    have hp2' : p < s.t + 1 := by rw [← hnext]; exact hp2
    by_cases hpt : p = s.t
    · subst hpt
      exact Or.inl hseq
    · rcases hI.filled p hp1 (by omega) with h | ⟨h1, h2⟩
      · exact Or.inl h
      · refine Or.inr ⟨h1, ?_⟩
        show (s.pushed ++ [(pos.toNat, v)])[p]? = some (p, s.dat (2 ^ m) p)
        rw [List.getElem?_append_left (by rw [← hI.tail_eq]; omega)]
        exact h2
  · intro p hp1 hp2
    have hp1' : s.t + 1 ≤ p := by rw [← hnext]; exact hp1
    exact hI.free p (by omega) hp2
  · intro j
    by_cases hji : j = i
    · subst hji
      simp only [State.goto, Function.update_self]
      exact hok'
    · simp only [State.goto, Function.update_of_ne hji]
      exact (hI.threads j).tail_advance hN rfl hnext rfl rfl rfl hI.tail_eq hseq
  · intro j k q hj hk
    simp only [State.goto, Function.update_apply] at hj hk
    split at hj <;> split at hk
    · simp_all
    · simp only [Pc.pushPos, Option.some.injEq] at hj
      subst hj
      have := hI.pushPos_lt hk
      omega
    · simp only [Pc.pushPos, Option.some.injEq] at hk
      subst hk
      have := hI.pushPos_lt hj
      omega
    · exact hI.pushers j k q hj hk
  · intro j k q hj hk
    simp only [State.goto, Function.update_apply] at hj hk
    split at hj
    · cases hj
    · split at hk
      · cases hk
      · exact hI.poppers j k q hj hk
  · show (s.pushed ++ [(pos.toNat, v)]).map Prod.fst
      = List.range (s.pushed ++ [(pos.toNat, v)]).length
    rw [List.map_append, List.length_append, List.length_singleton, List.range_succ, hI.order,
      hpos, hI.tail_eq]
    rfl
  · intro r hr
    obtain ⟨h1, h2⟩ := hI.results r hr
    refine ⟨h1, ?_⟩
    show (s.pushed ++ [(pos.toNat, v)])[r.1]? = some r
    rw [List.getElem?_append_left (List.getElem?_eq_some_iff.mp h2).1]
    exact h2
  · intro j q hj
    simp only [State.goto, Function.update_apply] at hj
    split at hj
    · cases hj
    · exact hI.fresh j q hj

/-- A successful CAS on `head_pos` takes the first filled position, whose payload is published. -/
theorem Inv.pop_claim (hI : Inv m s) (hc : s.calls < 2 ^ 63) {pos : U64}
    (hpc : s.pc i = .popCas pos) (hhead : s.queue.headPos = pos) :
    Inv m { s.goto i (.popRead pos) with
      queue := { s.queue with headPos := pos + 1 }
      taken := s.taken ++ [pos.toNat] } := by
  have hpos : pos.toNat = s.h := by rw [← hhead]; rfl
  have hlt := hI.tail_lt hc
  have hle := hI.head_le
  have hok := hI.threads i
  rw [hpc] at hok
  obtain ⟨hht, hseq⟩ := hok.2 hpos
  have hdat : s.pushed[s.h]? = some (s.h, s.dat (2 ^ m) s.h) := by
    rcases hI.filled s.h (le_refl _) hht with h | h
    · omega
    · exact h.2
  have hnext : (pos + 1).toNat = s.h + 1 := by
    rw [toNat_succ (by omega), hpos]
  have hok' : PcOk (2 ^ m) { s.goto i (.popRead pos) with
      queue := { s.queue with headPos := pos + 1 }, taken := s.taken ++ [pos.toNat] }
      (.popRead pos) := by
    refine ⟨?_, ?_, ?_, ?_⟩
    · exact show pos.toNat < (pos + 1).toNat by omega
    · exact hpos ▸ hI.tail_le
    · exact hpos ▸ hseq
    · exact hpos ▸ hdat
  refine ⟨hI.mask, hI.tail_eq, ?_, ?_, ?_, ?_, ?_, ?_, ?_, ?_, hI.order, ?_, ?_, hI.once, ?_⟩
  · show (pos + 1).toNat ≤ s.t
    omega
  · show s.t ≤ (pos + 1).toNat + 2 ^ m
    have := hI.tail_le
    omega
  · show (pos + 1).toNat + s.t + weight Pc.pending (Function.update s.pc i (.popRead pos))
      ≤ s.calls
    have hw := weight_update Pc.pending s.pc i (.popRead pos)
    have hcl := hI.calls
    rw [hpc] at hw
    simp only [Pc.pending] at hw
    omega
  · intro p hp1 hp2
    have hp1' : s.h + 1 ≤ p := by rw [← hnext]; exact hp1
    exact hI.filled p (by omega) hp2
  · intro p hp1 hp2
    have hp2' : p < s.h + 1 + 2 ^ m := by rw [← hnext]; exact hp2
    by_cases hph : p = s.h + 2 ^ m
    · refine Or.inr ?_
      have : s.seq (2 ^ m) p = s.seq (2 ^ m) s.h := by
        rw [hph, State.seq, State.seq, Nat.add_mod_right]
      show s.seq (2 ^ m) p + 2 ^ m = p + 1
      omega
    · exact hI.free p hp1 (by omega)
  · intro j
    by_cases hji : j = i
    · subst hji
      simp only [State.goto, Function.update_self]
      exact hok'
    · simp only [State.goto, Function.update_of_ne hji]
      exact (hI.threads j).head_advance hnext rfl rfl rfl rfl hseq
  · intro j k q hj hk
    simp only [State.goto, Function.update_apply] at hj hk
    split at hj
    · cases hj
    · split at hk
      · cases hk
      · exact hI.pushers j k q hj hk
  · intro j k q hj hk
    simp only [State.goto, Function.update_apply] at hj hk
    split at hj <;> split at hk
    · simp_all
    · simp only [Pc.popPos, Option.some.injEq] at hj
      subst hj
      have := hI.popPos_lt hk
      omega
    · simp only [Pc.popPos, Option.some.injEq] at hk
      subst hk
      have := hI.popPos_lt hj
      omega
    · exact hI.poppers j k q hj hk
  · show s.taken ++ [pos.toNat] = List.range (pos + 1).toNat
    rw [hnext, List.range_succ, hI.taken, hpos]
  · intro r hr
    obtain ⟨h1, h2⟩ := hI.results r hr
    exact ⟨show r.1 < (pos + 1).toNat by omega, h2⟩
  · intro j q hj
    simp only [State.goto, Function.update_apply] at hj
    split at hj
    · simp only [Pc.popPos, Option.some.injEq] at hj
      subst hj
      intro hmem
      obtain ⟨r, hr, hrq⟩ := List.mem_map.mp hmem
      have := (hI.results r hr).1
      omega
    · exact hI.fresh j q hj

omit [DecidableEq ι] in
theorem Inv.seq_setSeq (hI : Inv m s) (s' : State ι T) {pos x : U64}
    (hq : s'.queue = s.queue.setSeq pos x) (p : ℕ) :
    s'.seq (2 ^ m) p
      = if p % 2 ^ m = pos.toNat % 2 ^ m then x.toNat else s.seq (2 ^ m) p := by
  simp only [State.seq, hq, Queue.setSeq, hI.slot_eq, Function.update_apply]
  split <;> rfl

omit [DecidableEq ι] in
theorem Inv.dat_setSeq (hI : Inv m s) (s' : State ι T) {pos x : U64}
    (hq : s'.queue = s.queue.setSeq pos x) : s'.dat (2 ^ m) = s.dat (2 ^ m) := by
  funext p
  simp only [State.dat, hq, Queue.setSeq, hI.slot_eq, Function.update_apply]
  split
  · rename_i hp
    rw [hp]
  · rfl

omit [DecidableEq ι] in
theorem Inv.seq_setData (hI : Inv m s) (s' : State ι T) {pos : U64} {v : T}
    (hq : s'.queue = s.queue.setData pos v) : s'.seq (2 ^ m) = s.seq (2 ^ m) := by
  funext p
  simp only [State.seq, hq, Queue.setData, hI.slot_eq, Function.update_apply]
  split
  · rename_i hp
    rw [hp]
  · rfl

omit [DecidableEq ι] in
theorem Inv.dat_setData (hI : Inv m s) (s' : State ι T) {pos : U64} {v : T}
    (hq : s'.queue = s.queue.setData pos v) (p : ℕ) :
    s'.dat (2 ^ m) p = if p % 2 ^ m = pos.toNat % 2 ^ m then v else s.dat (2 ^ m) p := by
  simp only [State.dat, hq, Queue.setData, hI.slot_eq, Function.update_apply]
  split <;> rfl

/-- A pusher that has claimed `pos` works on the cell of `pos` alone: writing the payload and
publishing are the two instances. -/
theorem Inv.push_own (hI : Inv m s) {s' : State ι T} (pos : U64) {pc : Pc T}
    (hpush : (s.pc i).pushPos = some pos)
    (hpc : s'.pc = Function.update s.pc i pc) (hmask : s'.queue.bufferMask = s.queue.bufferMask)
    (hh : s'.queue.headPos = s.queue.headPos) (ht : s'.queue.tailPos = s.queue.tailPos)
    (hcalls : s'.calls = s.calls) (hpushed : s'.pushed = s.pushed) (htaken : s'.taken = s.taken)
    (hpopped : s'.popped = s.popped)
    (hseq : ∀ p, p % 2 ^ m ≠ pos.toNat % 2 ^ m → s'.seq (2 ^ m) p = s.seq (2 ^ m) p)
    (hdat : ∀ p, p % 2 ^ m ≠ pos.toNat % 2 ^ m → s'.dat (2 ^ m) p = s.dat (2 ^ m) p)
    (hown : s'.seq (2 ^ m) pos.toNat = s.seq (2 ^ m) pos.toNat ∨
      s'.seq (2 ^ m) pos.toNat = pos.toNat + 1)
    (hfill : s'.seq (2 ^ m) pos.toNat = pos.toNat ∨ (s'.seq (2 ^ m) pos.toNat = pos.toNat + 1 ∧
      s.pushed[pos.toNat]? = some (pos.toNat, s'.dat (2 ^ m) pos.toNat)))
    (hok : PcOk (2 ^ m) s' pc)
    (hkeep : pc.pushPos = some pos ∨ pc.pushPos = none) (hnopop : pc.popPos = none)
    (hpend : pc.pending = 0) : Inv m s' := by
  obtain ⟨hqh, hqt⟩ := hI.pushPos_lt hpush
  have hh' : s'.h = s.h := by rw [State.h, State.h, hh]
  have ht' : s'.t = s.t := by rw [State.t, State.t, ht]
  have htN := hI.tail_le
  refine ⟨by rw [hmask]; exact hI.mask, by rw [ht', hpushed]; exact hI.tail_eq,
    by rw [hh', ht']; exact hI.head_le, by rw [hh', ht']; exact htN, ?_, ?_, ?_, ?_, ?_, ?_,
    by rw [hpushed]; exact hI.order, by rw [htaken, hh']; exact hI.taken,
    by rw [hpopped, hpushed, hh']; exact hI.results, by rw [hpopped]; exact hI.once, ?_⟩
  · have hw := weight_update Pc.pending s.pc i pc
    have hcl := hI.calls
    rw [hpend] at hw
    rw [hh', ht', hcalls, hpc]
    omega
  · intro p hp1 hp2
    rw [hh'] at hp1
    rw [ht'] at hp2
    by_cases hpq : p = pos.toNat
    · rw [hpq, hpushed]
      exact hfill
    · have hne : p % 2 ^ m ≠ pos.toNat % 2 ^ m := by
        rcases Nat.lt_or_gt_of_ne hpq with hlt | hgt
        · exact ne_mod_of_lt hlt (by omega)
        · exact (ne_mod_of_lt hgt (by omega)).symm
      rw [hseq p hne, hdat p hne, hpushed]
      exact hI.filled p hp1 hp2
  · intro p hp1 hp2
    rw [ht'] at hp1
    rw [hh'] at hp2
    rw [hseq p (ne_mod_of_lt (by omega) (by omega)).symm]
    exact hI.free p hp1 hp2
  · intro j
    by_cases hji : j = i
    · subst hji
      rw [hpc, Function.update_self]
      exact hok
    · rw [hpc, Function.update_of_ne hji]
      refine (hI.threads j).push_cell hqh hqt htN hh' ht' hpushed hseq hdat hown ?_
      intro q hq he
      have : q = pos := BitVec.eq_of_toNat_eq he
      subst this
      exact hji (hI.pushers j i q hq hpush)
  · intro j k q hj hk
    rw [hpc, Function.update_apply] at hj hk
    split at hj <;> split at hk
    · simp_all
    · rcases hkeep with h | h
      · simp_all [hI.pushers i k q]
      · simp_all
    · rcases hkeep with h | h
      · simp_all [hI.pushers j i q]
      · simp_all
    · exact hI.pushers j k q hj hk
  · intro j k q hj hk
    rw [hpc, Function.update_apply] at hj hk
    split at hj
    · rw [hnopop] at hj
      cases hj
    · split at hk
      · rw [hnopop] at hk
        cases hk
      · exact hI.poppers j k q hj hk
  · intro j q hj
    rw [hpc, Function.update_apply] at hj
    split at hj
    · rw [hnopop] at hj
      cases hj
    · rw [hpopped]
      exact hI.fresh j q hj

theorem Inv.push_write (hI : Inv m s) {v : T} {pos : U64} (hpc : s.pc i = .pushWrite v pos) :
    Inv m { s.goto i (.pushPublish v pos) with queue := s.queue.setData pos v } := by
  have hok := hI.threads i
  rw [hpc] at hok
  obtain ⟨h1, h2, h3, h4⟩ := hok
  have hseq := hI.seq_setData { s.goto i (.pushPublish v pos) with
    queue := s.queue.setData pos v } rfl
  have hdat := hI.dat_setData { s.goto i (.pushPublish v pos) with
    queue := s.queue.setData pos v } rfl
  refine hI.push_own pos (by rw [hpc]; rfl) rfl rfl rfl rfl rfl rfl rfl rfl
    (fun p _ => by rw [hseq]) (fun p hp => by rw [hdat, if_neg hp]) (Or.inl (by rw [hseq]))
    (Or.inl (by rw [hseq]; exact h3)) ⟨h1, h2, ?_, h4, ?_⟩ (Or.inl rfl) rfl rfl
  · rw [hseq]
    exact h3
  · rw [hdat, if_pos rfl]

theorem Inv.push_publish (hI : Inv m s) (hc : s.calls < 2 ^ 63) {v : T} {pos : U64}
    (hpc : s.pc i = .pushPublish v pos) :
    Inv m { s.goto i .idle with queue := s.queue.setSeq pos (pos + 1) } := by
  have hok := hI.threads i
  rw [hpc] at hok
  obtain ⟨h1, h2, h3, h4, h5⟩ := hok
  have hlt := hI.tail_lt hc
  have hnext : (pos + 1).toNat = pos.toNat + 1 := toNat_succ (by omega)
  have hseq := hI.seq_setSeq { s.goto i .idle with
    queue := s.queue.setSeq pos (pos + 1) } rfl
  have hdat := hI.dat_setSeq { s.goto i .idle with
    queue := s.queue.setSeq pos (pos + 1) } rfl
  have hown : State.seq (2 ^ m) { s.goto i .idle with queue := s.queue.setSeq pos (pos + 1) }
      pos.toNat = pos.toNat + 1 := by
    rw [hseq, if_pos rfl, hnext]
  refine hI.push_own pos (by rw [hpc]; rfl) rfl rfl rfl rfl rfl rfl rfl rfl
    (fun p hp => by rw [hseq, if_neg hp]) (fun p _ => by rw [hdat]) (Or.inr hown)
    (Or.inr ⟨hown, ?_⟩) trivial (Or.inr rfl) rfl rfl
  rw [hdat, h5]
  exact h4

omit [DecidableEq ι] in
/-- The sequence number a popper stores: a revolution further on. -/
theorem Inv.toNat_revolution (hI : Inv m s) (hm : m ≤ 62) {pos : U64} (hpos : pos.toNat < 2 ^ 63) :
    (pos + s.queue.bufferMask + 1).toNat = pos.toNat + 2 ^ m := by
  have hN : (2 : ℕ) ^ m ≤ 2 ^ 62 := Nat.pow_le_pow_right (by omega) hm
  have hmask := hI.mask
  have hsum : (pos + s.queue.bufferMask).toNat = pos.toNat + s.queue.bufferMask.toNat := by
    rw [BitVec.toNat_add, Nat.mod_eq_of_lt]
    omega
  rw [toNat_succ (by omega), hsum]
  omega

/-- The popper's last store frees the cell for position `pos + N`. -/
theorem Inv.pop_publish (hI : Inv m s) (hm : m ≤ 62) (hc : s.calls < 2 ^ 63) {v : T} {pos : U64}
    (hpc : s.pc i = .popPublish pos v) :
    Inv m { s.goto i .idle with
      queue := s.queue.setSeq pos (pos + s.queue.bufferMask + 1)
      popped := (pos.toNat, v) :: s.popped } := by
  have hok := hI.threads i
  rw [hpc] at hok
  obtain ⟨h1, h2, h3, h4⟩ := hok
  have hpop : (s.pc i).popPos = some pos := by rw [hpc]; rfl
  have hle := hI.head_le
  have htN := hI.tail_le
  have hlt := hI.tail_lt hc
  have hnext := hI.toNat_revolution hm (show pos.toNat < 2 ^ 63 by omega)
  have hseq := hI.seq_setSeq { s.goto i .idle with
    queue := s.queue.setSeq pos (pos + s.queue.bufferMask + 1)
    popped := (pos.toNat, v) :: s.popped } rfl
  have hdat := hI.dat_setSeq { s.goto i .idle with
    queue := s.queue.setSeq pos (pos + s.queue.bufferMask + 1)
    popped := (pos.toNat, v) :: s.popped } rfl
  refine ⟨hI.mask, hI.tail_eq, hle, htN, ?_, ?_, ?_, ?_, ?_, ?_, hI.order, hI.taken, ?_, ?_, ?_⟩
  · show s.h + s.t + weight Pc.pending (Function.update s.pc i .idle) ≤ s.calls
    have hw := weight_update Pc.pending s.pc i .idle
    have hcl := hI.calls
    simp only [Pc.pending] at hw
    omega
  · intro p hp1 hp2
    have hne : p % 2 ^ m ≠ pos.toNat % 2 ^ m :=
      (ne_mod_of_lt (Nat.lt_of_lt_of_le h1 hp1) (Nat.lt_of_lt_of_le hp2 h2)).symm
    rw [hseq, if_neg hne, hdat]
    exact hI.filled p hp1 hp2
  · intro p hp1 hp2
    by_cases hpq : p = pos.toNat + 2 ^ m
    · refine Or.inl ?_
      rw [hseq, if_pos (by rw [hpq, Nat.add_mod_right]), hnext, hpq]
    · have hp1' : s.t ≤ p := hp1
      have hp2' : p < s.h + 2 ^ m := hp2
      have hne : p % 2 ^ m ≠ pos.toNat % 2 ^ m := by
        rcases Nat.lt_or_gt_of_ne hpq with hlt' | hgt
        · exact (ne_mod_of_lt (by omega) (by omega)).symm
        · have := ne_mod_of_lt (N := 2 ^ m) hgt (by omega)
          rw [Nat.add_mod_right] at this
          exact this.symm
      rw [hseq, if_neg hne]
      exact hI.free p hp1 hp2
  · intro j
    by_cases hji : j = i
    · subst hji
      simp only [State.goto, Function.update_self]
      trivial
    · simp only [State.goto, Function.update_of_ne hji]
      refine (hI.threads j).pop_cell h1 h2 hle rfl rfl rfl (fun p hp => by
        exact (hseq p).trans (if_neg hp)) ((hseq pos.toNat).trans ?_) hdat ?_
      · rw [if_pos rfl, hnext]
      · intro q hq he
        have : q = pos := BitVec.eq_of_toNat_eq he
        subst this
        exact hji (hI.poppers j i q hq hpop)
  · intro j k q hj hk
    simp only [State.goto, Function.update_apply] at hj hk
    split at hj
    · cases hj
    · split at hk
      · cases hk
      · exact hI.pushers j k q hj hk
  · intro j k q hj hk
    simp only [State.goto, Function.update_apply] at hj hk
    split at hj
    · cases hj
    · split at hk
      · cases hk
      · exact hI.poppers j k q hj hk
  · intro r hr
    rcases List.mem_cons.mp hr with h | h
    · subst h
      exact ⟨h1, h4⟩
    · exact hI.results r h
  · rw [List.map_cons, List.nodup_cons]
    exact ⟨hI.fresh i pos hpop, hI.once⟩
  · intro j q hj
    simp only [State.goto, Function.update_apply] at hj
    split at hj
    · cases hj
    · rename_i hji
      rw [List.map_cons, List.mem_cons, not_or]
      refine ⟨fun he => ?_, hI.fresh j q hj⟩
      have : q = pos := BitVec.eq_of_toNat_eq he
      subst this
      exact hji (hI.poppers j i q hj hpop)

/-! ### Every step keeps the invariant -/

/-- Reading `sequence = pos` with `pos` still the tail means the cell is free for `pos`. -/
theorem Inv.push_seq (hI : Inv m s) (hm : 1 ≤ m) {v : T} {pos : U64}
    (hpc : s.pc i = .pushSeq v pos) : Inv m (s.goto i (pushBranch v pos (s.queue.seqAt pos))) := by
  have hN : 2 ≤ 2 ^ m := Nat.pow_le_pow_right (n := 2) (by omega) hm
  have hok := hI.threads i
  rw [hpc] at hok
  rcases pushBranch_eq v pos (s.queue.seqAt pos) with ⟨heq, h⟩ | h | h <;> rw [h]
  · refine hI.goto ⟨hok, fun hpos => ?_⟩ (Or.inr rfl) (Or.inr rfl) (by rw [hpc]; exact le_refl _)
    have hseq : s.seq (2 ^ m) s.t = s.t := by
      rw [← hpos, ← hI.seqAt_eq, heq]
    refine ⟨hseq, ?_⟩
    -- a full ring would show the sequence number of position `h` instead
    by_contra hfull
    have hle := hI.tail_le
    have htN : s.t = s.h + 2 ^ m := by omega
    have hcell : s.seq (2 ^ m) s.t = s.seq (2 ^ m) s.h := by
      rw [htN, State.seq, State.seq, Nat.add_mod_right]
    rcases hI.filled s.h (le_refl _) (by omega) with h0 | ⟨h1, -⟩ <;> omega
  · exact hI.goto trivial (Or.inr rfl) (Or.inr rfl) (Nat.zero_le _)
  · exact hI.goto trivial (Or.inr rfl) (Or.inr rfl) (by rw [hpc]; exact le_refl _)

/-- Reading `sequence = pos + 1` with `pos` still the head means position `pos` is published. -/
theorem Inv.pop_seq (hI : Inv m s) (hm : 1 ≤ m) (hc : s.calls < 2 ^ 63) {pos : U64}
    (hpc : s.pc i = .popSeq pos) : Inv m (s.goto i (popBranch pos (s.queue.seqAt pos))) := by
  have hN : 2 ≤ 2 ^ m := Nat.pow_le_pow_right (n := 2) (by omega) hm
  have hlt := hI.tail_lt hc
  have hle := hI.head_le
  have hok := hI.threads i
  rw [hpc] at hok
  rcases popBranch_eq (T := T) pos (s.queue.seqAt pos) with ⟨heq, h⟩ | h | h <;> rw [h]
  · refine hI.goto ⟨hok, fun hpos => ?_⟩ (Or.inr rfl) (Or.inr rfl) (by rw [hpc]; exact le_refl _)
    have hnext : (pos + 1).toNat = pos.toNat + 1 := toNat_succ (by omega)
    have hseq : s.seq (2 ^ m) s.h = s.h + 1 := by
      rw [← hpos, ← hI.seqAt_eq, heq, hnext]
    refine ⟨?_, hseq⟩
    by_contra hempty
    rcases hI.free s.h (by omega) (by omega) with h0 | h0 <;> omega
  · exact hI.goto trivial (Or.inr rfl) (Or.inr rfl) (Nat.zero_le _)
  · exact hI.goto trivial (Or.inr rfl) (Or.inr rfl) (by rw [hpc]; exact le_refl _)

theorem Inv.access (hI : Inv m s) (hm : 1 ≤ m) (hm' : m ≤ 62) (hc : s.calls < 2 ^ 63)
    {spurious : Bool} {s' : State ι T} (h : access s i spurious = some s') : Inv m s' := by
  unfold Mpmc.access at h
  cases hpc : s.pc i with
  | idle =>
    simp only [hpc] at h
    cases h
  | pushLoad v =>
    simp only [hpc, Option.some.injEq] at h
    subst h
    exact hI.goto (le_refl _) (Or.inr rfl) (Or.inr rfl) (by rw [hpc]; exact le_refl _)
  | pushSeq v pos =>
    simp only [hpc, Option.some.injEq] at h
    subst h
    exact hI.push_seq hm hpc
  | pushCas v pos =>
    simp only [hpc] at h
    split at h
    · rename_i htail
      cases h
      exact hI.push_claim hm hc hpc htail.1
    · cases h
      exact hI.goto (le_refl _) (Or.inr rfl) (Or.inr rfl) (by rw [hpc]; exact le_refl _)
  | pushWrite v pos =>
    simp only [hpc, Option.some.injEq] at h
    subst h
    exact hI.push_write hpc
  | pushPublish v pos =>
    simp only [hpc, Option.some.injEq] at h
    subst h
    exact hI.push_publish hc hpc
  | popLoad =>
    simp only [hpc, Option.some.injEq] at h
    subst h
    exact hI.goto (le_refl _) (Or.inr rfl) (Or.inr rfl) (by rw [hpc]; exact le_refl _)
  | popSeq pos =>
    simp only [hpc, Option.some.injEq] at h
    subst h
    exact hI.pop_seq hm hc hpc
  | popCas pos =>
    simp only [hpc] at h
    split at h
    · rename_i hhead
      cases h
      exact hI.pop_claim hc hpc hhead.1
    · cases h
      exact hI.goto (le_refl _) (Or.inr rfl) (Or.inr rfl) (by rw [hpc]; exact le_refl _)
  | popRead pos =>
    simp only [hpc, Option.some.injEq] at h
    subst h
    have hok := hI.threads i
    rw [hpc] at hok
    obtain ⟨h1, h2, h3, h4⟩ := hok
    exact hI.goto ⟨h1, h2, h3, by rw [hI.dataAt_eq]; exact h4⟩ (Or.inr rfl)
      (Or.inl (by rw [hpc]; rfl)) (Nat.zero_le _)
  | popPublish pos v =>
    simp only [hpc, Option.some.injEq] at h
    subst h
    exact hI.pop_publish hm' hc hpc

/-- A call adds one thread without a position and one call. -/
theorem Inv.call (hI : Inv m s) {op : Op T} :
    Inv m { s.goto i op.enter with calls := s.calls + 1 } := by
  have hpush : op.enter.pushPos = none := by cases op <;> rfl
  have hpop : op.enter.popPos = none := by cases op <;> rfl
  have hpend : op.enter.pending = 1 := by cases op <;> rfl
  have hok : PcOk (2 ^ m) s op.enter := by cases op <;> trivial
  refine ⟨hI.mask, hI.tail_eq, hI.head_le, hI.tail_le, ?_, hI.filled, hI.free, ?_, ?_, ?_,
    hI.order, hI.taken, hI.results, hI.once, ?_⟩
  · show s.h + s.t + weight Pc.pending (Function.update s.pc i op.enter) ≤ s.calls + 1
    have hw := weight_update Pc.pending s.pc i op.enter
    have hcl := hI.calls
    rw [hpend] at hw
    omega
  · intro j
    refine (pcOk_congr s _ rfl rfl _).mpr ?_
    simp only [State.goto, Function.update_apply]
    split
    · exact hok
    · exact hI.threads j
  · intro j k pos hj hk
    simp only [State.goto, Function.update_apply] at hj hk
    split at hj <;> split at hk <;> simp_all [hI.pushers j k pos]
  · intro j k pos hj hk
    simp only [State.goto, Function.update_apply] at hj hk
    split at hj <;> split at hk <;> simp_all [hI.poppers j k pos]
  · intro j pos hj
    simp only [State.goto, Function.update_apply] at hj
    split at hj
    · rw [hpop] at hj
      cases hj
    · exact hI.fresh j pos hj

omit [Fintype ι] in
theorem calls_mono {s' : State ι T} {a : Action ι T} (h : step s a = some s') :
    s.calls ≤ s'.calls := by
  cases a with
  | call t op =>
    simp only [step] at h
    split at h
    · cases h
      exact Nat.le_succ _
    · cases h
  | step t spurious =>
    simp only [step, access] at h
    split at h
    case h_1 => cases h
    case h_4 => split at h <;> cases h <;> exact le_refl _
    case h_9 => split at h <;> cases h <;> exact le_refl _
    all_goals cases h; exact le_refl _

/-- **One step.** -/
theorem Inv.step (hI : Inv m s) (hm : 1 ≤ m) (hm' : m ≤ 62) (hc : s.calls < 2 ^ 63)
    {a : Action ι T} {s' : State ι T} (h : Mpmc.step s a = some s') : Inv m s' := by
  cases a with
  | call t op =>
    simp only [Mpmc.step] at h
    split at h
    · cases h
      exact hI.call
    · cases h
  | step t spurious => exact hI.access hm hm' hc h

end Steps

/-! ### The constructor and the whole run -/

theorem toNat_two_pow_sub_one {m : ℕ} {size : U64} (h : size.toNat = 2 ^ m) :
    (size - 1).toNat + 1 = 2 ^ m := by
  have hpos : 0 < size.toNat := by rw [h]; exact Nat.two_pow_pos m
  have hone : (1 : U64).toNat = 1 := rfl
  rw [BitVec.toNat_sub_of_le (by rw [BitVec.le_def, hone]; exact hpos), hone, ← h]
  omega

/-- The constructor's assertion accepts the powers of two from `2` on. -/
theorem ctor_size {junk : T} {size : U64} {q : Queue T} (h : Queue.ctor junk size = some q) :
    ∃ m, 1 ≤ m ∧ size.toNat = 2 ^ m := by
  unfold Queue.ctor at h
  split at h
  · rename_i hsize
    obtain ⟨htwo, hand⟩ := hsize
    have htwo' : 2 ≤ size.toNat := by simpa [BitVec.le_def] using htwo
    have hand' : size.toNat &&& (size.toNat - 1) = 0 := by
      have hsub : (size - 1).toNat = size.toNat - 1 := by
        have hone : (1 : U64).toNat = 1 := rfl
        rw [BitVec.toNat_sub_of_le (by rw [BitVec.le_def, hone]; omega), hone]
      have := congrArg BitVec.toNat hand
      rwa [BitVec.toNat_and, hsub] at this
    obtain ⟨m, hm⟩ := (Nat.and_sub_one_eq_zero_iff_isPowerOfTwo (by omega)).mp hand'
    refine ⟨m, ?_, hm⟩
    by_contra h0
    have : m = 0 := by omega
    subst this
    omega
  · cases h

theorem inv_init [Fintype ι] {m : ℕ} {junk : T} {size : U64} {q : Queue T}
    (h : Queue.ctor junk size = some q) (hsize : size.toNat = 2 ^ m) (hm' : m ≤ 62) :
    Inv m (State.init ι q) := by
  have hN : (2 : ℕ) ^ m ≤ 2 ^ 62 := Nat.pow_le_pow_right (by omega) hm'
  have hpos : 0 < 2 ^ m := Nat.two_pow_pos m
  unfold Queue.ctor at h
  split at h
  · cases h
    refine ⟨toNat_two_pow_sub_one hsize, rfl, le_refl _, Nat.zero_le _, ?_, ?_, ?_,
      fun _ => trivial, ?_, ?_, rfl, rfl, ?_, List.nodup_nil, ?_⟩
    · show 0 + 0 + weight Pc.pending (fun _ : ι => (Pc.idle : Pc T)) ≤ 0
      rw [weight_const_zero Pc.pending Pc.idle rfl]
    · intro p _ hp
      exact absurd hp (Nat.not_lt_zero p)
    · intro p _ hp
      refine Or.inl ?_
      have hp' : p < 2 ^ m := by simpa [State.h, State.init] using hp
      show (BitVec.ofNat 64 (p % 2 ^ m)).toNat = p
      rw [Nat.mod_eq_of_lt hp', BitVec.toNat_ofNat, Nat.mod_eq_of_lt (by omega)]
    · intro i j pos hi
      cases hi
    · intro i j pos hi
      cases hi
    · intro r hr
      cases hr
    · intro i pos hi
      cases hi
  · cases h

/-- **The invariant of a whole run**: any threads, any interleaving, fewer than `2 ^ 63` calls. -/
theorem inv_of_run [Fintype ι] [DecidableEq ι] {m : ℕ} {junk : T} {size : U64} {q : Queue T}
    (h : Queue.ctor junk size = some q) (hsize : size.toNat = 2 ^ m) (hm : 1 ≤ m) (hm' : m ≤ 62)
    {as : List (Action ι T)} {s : State ι T} (hrun : run step (State.init ι q) as = some s)
    (hcalls : s.calls < 2 ^ 63) : Inv m s := by
  -- the bound is on the last state, and `calls` only grows along the run
  refine run_induction (fun s => s.calls < 2 ^ 63 → Inv m s) (fun _ => inv_init h hsize hm') ?_
    hrun hcalls
  intro s a s' ih hs hc
  have hc' : s.calls < 2 ^ 63 := Nat.lt_of_le_of_lt (calls_mono hs) hc
  exact (ih hc').step hm hm' hc' hs

end KwNet.Mpmc
