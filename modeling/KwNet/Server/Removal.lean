import KwNet.Server.PeerAddress

/-!
# Each connection leaves the map once

A connection is erased from `connections_` by `removeConnectionInLoop`, which its close brings about: at
once when it lives on the server's loop, by a functor when it lives on another.  `handle_sig_int` erases
too, in a loop over the same map.

* `Tracked` — what ties the map, the functors and the connections together: a closed connection has one
  removal, waiting or done, and the map holds those that were not erased;
* `Good` — no assertion fails, no erased iterator is advanced, and each connection whose close has been
  processed was erased once;
* **`each_removed_once`** — `Good` holds throughout exactly the runs in which `handle_sig_int` finds no
  connection in the map and no removal is dropped by a queue that stays full;
* **`sig_int_erases_under_itself`** — a SIGINT with one connection open.
-/

namespace KwNet.Server

open KwNet.Lib

variable {ι : Type} [DecidableEq ι] {cfg : Config} {s s' : State ι}

theorem connName_inj {id id' : ℕ} (h : cfg.connName id = cfg.connName id') : id = id' := by
  unfold Config.connName at h
  exact Nat.repr_injective (String.append_right_inj _ |>.mp h)

/-! ### the invariant -/

/-- The connection `id` is `Disconnected`. -/
def State.isClosed (s : State ι) (id : ℕ) : Bool :=
  (s.conns id).any fun c => c.state = .disconnected

/-- The connection `id` is `Connecting` and lives on the loop `l`. -/
def State.isOpening (s : State ι) (l : LoopId ι) (id : ℕ) : Bool :=
  (s.conns id).any fun c => c.state = .connecting ∧ c.ioLoop = l

/-- The removals of the connection `id` that wait or are done. -/
def State.removals (s : State ι) (id : ℕ) : ℕ :=
  (s.pending none).count (.removeConnectionInLoop id) + s.erased.count id

structure Tracked (cfg : Config) (s : State ι) : Prop where
  fresh : ∀ id c, s.conns id = some c → id < s.nextConnId ∧ c.name = cfg.connName id
  entry : ∀ name id, (name, id) ∈ s.connections.entries ↔
    name = cfg.connName id ∧ (s.conns id).isSome ∧ id ∉ s.erased
  removed : ∀ id, s.removals id = if s.isClosed id then 1 else 0
  elsewhere : ∀ l id, Functor.removeConnectionInLoop id ∉ s.pending (some l)
  opening : ∀ l id, (s.pending l).count (.connectEstablished id) ≤ if s.isOpening l id then 1 else 0

/-- The close of the connection `id` has been processed. -/
def State.Processed (s : State ι) (id : ℕ) : Prop :=
  s.isClosed id = true ∧ Functor.removeConnectionInLoop id ∉ s.pending none

/-- What the server promises of its map. -/
structure Good (s : State ι) : Prop where
  noFault : s.fault = none
  once : ∀ id, s.erased.count id ≤ 1
  processed : ∀ id c, s.conns id = some c → s.Processed id →
    s.erased.count id = 1 ∧ c.name ∉ s.connections.keys
  empty : (∀ id c, s.conns id = some c → s.Processed id) → s.connections.keys = []

theorem Tracked.good (h : Tracked cfg s) (hf : s.fault = none) : Good s := by
  have honce : ∀ id, s.erased.count id ≤ 1 := by
    intro id
    have hr := h.removed id
    unfold State.removals at hr
    by_cases hc : s.isClosed id = true
    · rw [if_pos hc] at hr
      omega
    · rw [if_neg hc] at hr
      omega
  have hdone : ∀ id c, s.conns id = some c → s.Processed id →
      s.erased.count id = 1 ∧ c.name ∉ s.connections.keys := by
    rintro id c hc ⟨hclosed, hnone⟩
    have hr := h.removed id
    unfold State.removals at hr
    rw [if_pos hclosed, List.count_eq_zero_of_not_mem hnone, Nat.zero_add] at hr
    refine ⟨hr, fun hmem => ?_⟩
    obtain ⟨id', hid'⟩ := SortedMap.mem_keys.mp hmem
    obtain ⟨hname, -, hnot⟩ := (h.entry c.name id').mp hid'
    rw [(h.fresh id c hc).2] at hname
    obtain rfl := connName_inj hname
    exact hnot (List.count_pos_iff.mp (by omega))
  refine ⟨hf, honce, hdone, fun hall => ?_⟩
  rw [List.eq_nil_iff_forall_not_mem]
  intro name hmem
  obtain ⟨id, hid⟩ := SortedMap.mem_keys.mp hmem
  obtain ⟨-, hsome, hnot⟩ := (h.entry name id).mp hid
  obtain ⟨c, hc⟩ := Option.isSome_iff_exists.mp hsome
  have hcount := (hdone id c hc (hall id c hc)).1
  exact hnot (List.count_pos_iff.mp (by omega))

/-- A step that touches nothing the invariant speaks of. -/
theorem Tracked.of_eq (h : Tracked cfg s) (hconns : s'.conns = s.conns)
    (hid : s'.nextConnId = s.nextConnId) (hmap : s'.connections = s.connections)
    (hpending : s'.pending = s.pending) (herased : s'.erased = s.erased) : Tracked cfg s' := by
  refine ⟨?_, ?_, ?_, ?_, ?_⟩
  · rw [hconns, hid]
    exact h.fresh
  · rw [hmap, hconns, herased]
    exact h.entry
  · unfold State.removals State.isClosed
    rw [hpending, herased, hconns]
    exact h.removed
  · rw [hpending]
    exact h.elsewhere
  · unfold State.isOpening
    rw [hpending, hconns]
    exact h.opening

/-- Functors other than removals come and go. -/
theorem Tracked.requeue (h : Tracked cfg s) {pending : LoopId ι → List Functor}
    (hnone : ∀ id, (pending none).count (.removeConnectionInLoop id)
      = (s.pending none).count (.removeConnectionInLoop id))
    (hsome : ∀ l id, Functor.removeConnectionInLoop id ∉ pending (some l))
    (hopen : ∀ l id, (pending l).count (.connectEstablished id)
      ≤ (s.pending l).count (.connectEstablished id)) :
    Tracked cfg { s with pending := pending } := by
  refine ⟨h.fresh, h.entry, fun id => ?_, hsome, fun l id => (hopen l id).trans (h.opening l id)⟩
  have hr := h.removed id
  unfold State.removals at hr ⊢
  show (pending none).count _ + s.erased.count id = _
  rw [hnone]
  exact hr

omit [DecidableEq ι] in
theorem isClosed_setConn (id : ℕ) (c : Conn ι) (j : ℕ) :
    (s.setConn id c).isClosed j = if j = id then decide (c.state = .disconnected) else s.isClosed j := by
  unfold State.isClosed
  by_cases hj : j = id
  · rw [hj, setConn_self, if_pos rfl, Option.any_some]
  · rw [setConn_of_ne hj, if_neg hj]

theorem isOpening_setConn (id : ℕ) (c : Conn ι) (l : LoopId ι) (j : ℕ) :
    (s.setConn id c).isOpening l j
      = if j = id then decide (c.state = .connecting ∧ c.ioLoop = l) else s.isOpening l j := by
  unfold State.isOpening
  by_cases hj : j = id
  · rw [hj, setConn_self, if_pos rfl, Option.any_some]
  · rw [setConn_of_ne hj, if_neg hj]

omit [DecidableEq ι] in
theorem isClosed_of {id : ℕ} {c : Conn ι} (hc : s.conns id = some c) :
    s.isClosed id = decide (c.state = .disconnected) := by
  rw [State.isClosed, hc, Option.any_some]

theorem isOpening_of {id : ℕ} {c : Conn ι} (hc : s.conns id = some c) (l : LoopId ι) :
    s.isOpening l id = decide (c.state = .connecting ∧ c.ioLoop = l) := by
  rw [State.isOpening, hc, Option.any_some]

theorem queueInLoop_pending_self (l : LoopId ι) (f : Functor) :
    (s.queueInLoop l f true).pending l = s.pending l ++ [f] := by
  show Function.update s.pending l (s.pending l ++ [f]) l = _
  rw [Function.update_self]

theorem queueInLoop_pending_of_ne {l l' : LoopId ι} (hl : l' ≠ l) (f : Functor) (room : Bool) :
    (s.queueInLoop l f room).pending l' = s.pending l' := by
  cases room with
  | false => rfl
  | true =>
    show Function.update s.pending l (s.pending l ++ [f]) l' = _
    rw [Function.update_of_ne hl]

/-! ### closing a connection -/

section

variable {id : ℕ} {c : Conn ι}

/-- What is known of a connection that is neither closed nor still opening. -/
theorem Tracked.connected (h : Tracked cfg s) (hc : s.conns id = some c) (hopen : c.state = .connected) :
    s.connections.find? c.name = some id ∧
      (s.pending none).count (.removeConnectionInLoop id) = 0 ∧ s.erased.count id = 0 := by
  have hr := h.removed id
  rw [isClosed_of hc, hopen, decide_eq_false (by decide), if_neg (by decide)] at hr
  unfold State.removals at hr
  have herased : s.erased.count id = 0 := by omega
  refine ⟨?_, by omega, herased⟩
  rw [SortedMap.find?_eq_some, h.entry, hc]
  exact ⟨(h.fresh id c hc).2, rfl, List.count_eq_zero.mp herased⟩

/-- The fields the invariant speaks of, once the connection `id` is closed. -/
theorem Tracked.close (h : Tracked cfg s) (hc : s.conns id = some c) (hopen : c.state = .connected)
    {c' : Conn ι} (hname : c'.name = c.name) (hclosed : c'.state = .disconnected)
    {s' : State ι} (hconns : s'.conns = Function.update s.conns id (some c'))
    (hid : s'.nextConnId = s.nextConnId)
    (hremovals : ∀ j, s'.removals j = s.removals j + if j = id then 1 else 0)
    (hentry : ∀ name j, (name, j) ∈ s'.connections.entries ↔
      name = cfg.connName j ∧ (s.conns j).isSome ∧ j ∉ s'.erased)
    (hpending : ∀ l, s'.pending (some l) = s.pending (some l))
    (hopening : ∀ j, (s'.pending none).count (.connectEstablished j)
      = (s.pending none).count (.connectEstablished j)) : Tracked cfg s' := by
  have hset : s'.conns = (s.setConn id c').conns := hconns
  have hother : ∀ j d, j ≠ id → s'.conns j = some d → s.conns j = some d := by
    intro j d hj hd
    rw [hset, setConn_of_ne hj] at hd
    exact hd
  have hclosed' : ∀ j, s'.isClosed j = if j = id then true else s.isClosed j := by
    intro j
    have := isClosed_setConn (s := s) id c' j
    rw [hclosed, decide_eq_true rfl] at this
    rw [State.isClosed, hset]
    exact this
  have hopening' : ∀ l j, s'.isOpening l j = s.isOpening l j := by
    intro l j
    have := isOpening_setConn (s := s) id c' l j
    rw [State.isOpening, hset]
    rw [State.isOpening] at this
    rw [this]
    by_cases hj : j = id
    · rw [if_pos hj, hj, isOpening_of hc, hclosed, hopen]
      rfl
    · rw [if_neg hj]
  refine ⟨fun j d hd => ?_, fun name j => ?_, fun j => ?_, fun l j => ?_, fun l j => ?_⟩
  · rw [hid]
    by_cases hj : j = id
    · subst hj
      rw [hset, setConn_self, Option.some.injEq] at hd
      rw [← hd, hname]
      exact h.fresh j c hc
    · exact h.fresh j d (hother j d hj hd)
  · rw [hentry]
    by_cases hj : j = id
    · subst hj
      rw [hset, setConn_self, hc]
      rfl
    · rw [hset, setConn_of_ne hj]
  · rw [hremovals, h.removed, hclosed']
    by_cases hj : j = id
    · rw [hj, isClosed_of hc, hopen, if_pos rfl, if_pos rfl]
      rfl
    · rw [if_neg hj, if_neg hj, Nat.add_zero]
  · rw [hpending]
    exact h.elsewhere l j
  · rw [hopening']
    cases l with
    | none =>
      rw [hopening]
      exact h.opening none j
    | some l =>
      rw [hpending]
      exact h.opening (some l) j

omit [DecidableEq ι] in
/-- The map and the history after the removal of an entry that is there. -/
theorem erase_present {name : String} (h : s.connections.find? name = some id) :
    s.erase name = { s with connections := s.connections.erase name, erased := s.erased ++ [id] } := by
  rw [State.erase, h]

/-- The entries that stay when the entry of `id` goes. -/
theorem Tracked.entry_erase (h : Tracked cfg s) (hc : s.conns id = some c) (name : String) (j : ℕ) :
    (name, j) ∈ (s.connections.erase c.name).entries ↔
      name = cfg.connName j ∧ (s.conns j).isSome ∧ j ∉ s.erased ++ [id] := by
  rw [SortedMap.mem_erase, h.entry, (h.fresh id c hc).2, List.mem_append, List.mem_singleton, not_or]
  constructor
  · rintro ⟨⟨rfl, hsome, hnot⟩, hne⟩
    exact ⟨rfl, hsome, hnot, fun hj => hne (hj ▸ rfl)⟩
  · rintro ⟨rfl, hsome, hnot, hne⟩
    exact ⟨⟨rfl, hsome, hnot⟩, fun heq => hne (connName_inj heq)⟩

/-- `handle_ep_hup` of a connection that is established: its removal is done or queued. -/
theorem Tracked.handleEpHup (h : Tracked cfg s) (hf : s.fault = none) (hc : s.conns id = some c)
    (hstate : c.state ≠ .connecting) {room : Bool}
    (hroom : c.state = .connected → c.ioLoop ≠ none → room = true) :
    Tracked cfg (s.handleEpHup id c room) ∧ (s.handleEpHup id c room).fault = none := by
  by_cases hclosed : c.state = .disconnected
  · rw [State.handleEpHup, if_pos hclosed]
    exact ⟨h, hf⟩
  · have hopen : c.state = .connected := by
      cases hcs : c.state with
      | connecting => exact absurd hcs hstate
      | connected => rfl
      | disconnected => exact absurd hcs hclosed
    obtain ⟨hfind, hcount, herased⟩ := h.connected hc hopen
    rw [State.handleEpHup, if_neg hclosed]
    cases hl : c.ioLoop with
    | none =>
      have hrun : (s.setConn id (c.setState .disconnected)).removeConnection id c room
          = { s.setConn id (c.setState .disconnected) with
              connections := s.connections.erase c.name, erased := s.erased ++ [id] } := by
        rw [State.removeConnection, hl]
        show State.removeConnectionInLoop _ c = _
        rw [State.removeConnectionInLoop]
        have hfind' : (s.setConn id (c.setState .disconnected)).connections.find? c.name
            = some id := hfind
        rw [hfind']
        exact erase_present hfind'
      rw [hrun]
      have hname : (c.setState .disconnected).name = c.name := rfl
      refine ⟨h.close hc hopen hname rfl rfl rfl (fun j => ?_) (h.entry_erase hc) (fun _ => rfl)
        (fun _ => rfl), hf⟩
      show (s.pending none).count _ + (s.erased ++ [id]).count j = _
      unfold State.removals
      rw [List.count_append, List.count_singleton]
      by_cases hj : j = id
      · rw [hj]
        simp only [beq_self_eq_true, if_true]
        omega
      · rw [if_neg hj, if_neg (by simpa using fun h => hj h.symm)]
        omega
    | some l =>
      have hroom' : room = true := hroom hopen (by rw [hl]; exact Option.some_ne_none l)
      have hrun : (s.setConn id (c.setState .disconnected)).removeConnection id c room
          = (s.setConn id (c.setState .disconnected)).queueInLoop none (.removeConnectionInLoop id)
              true := by
        rw [State.removeConnection, hl, hroom']
      rw [hrun]
      have hname : (c.setState .disconnected).name = c.name := rfl
      refine ⟨h.close hc hopen hname rfl rfl rfl (fun j => ?_) h.entry (fun k => ?_) (fun j => ?_), hf⟩
      · rw [State.removals, queueInLoop_pending_self, List.count_append, List.count_singleton]
        show (s.pending none).count _ + _ + s.erased.count j = _
        unfold State.removals
        by_cases hj : j = id
        · rw [hj]
          simp only [beq_self_eq_true, if_true]
          omega
        · rw [if_neg hj, if_neg (by simpa using fun h => hj h.symm)]
          omega
      · exact queueInLoop_pending_of_ne (Option.some_ne_none k) _ true
      · rw [queueInLoop_pending_self, List.count_append, List.count_singleton, if_neg (by simp)]
        rfl

/-- A removal that the queue drops is missing from then on. -/
theorem dropped_not_good (h : Tracked cfg s) (hc : s.conns id = some c) (hopen : c.state = .connected)
    (hl : c.ioLoop ≠ none) : ¬Good (s.handleEpHup id c false) := by
  intro hgood
  obtain ⟨-, hcount, herased⟩ := h.connected hc hopen
  have hrun : s.handleEpHup id c false = s.setConn id (c.setState .disconnected) := by
    rw [State.handleEpHup, if_neg (by rw [hopen]; decide), State.removeConnection]
    cases hio : c.ioLoop with
    | none => exact absurd hio hl
    | some l => rfl
  rw [hrun] at hgood
  have hprocessed : (s.setConn id (c.setState .disconnected)).Processed id := by
    refine ⟨?_, List.count_eq_zero.mp hcount⟩
    rw [isClosed_setConn, if_pos rfl]
    rfl
  have hone := (hgood.processed id _ (setConn_self id _) hprocessed).1
  rw [show (s.setConn id (c.setState .disconnected)).erased = s.erased from rfl] at hone
  omega

end

/-! ### the other moves -/

/-- A connection changes its state without closing, and is no longer opening if it was. -/
theorem Tracked.setConn (h : Tracked cfg s) {id : ℕ} {c c' : Conn ι} (hc : s.conns id = some c)
    (hname : c'.name = c.name) (hclosed : c'.state = .disconnected ↔ c.state = .disconnected)
    (hopening : ∀ l, (s.pending l).count (.connectEstablished id)
      ≤ if c'.state = .connecting ∧ c'.ioLoop = l then 1 else 0) :
    Tracked cfg (s.setConn id c') := by
  have hsome : ∀ j, ((s.setConn id c').conns j).isSome = (s.conns j).isSome := by
    intro j
    by_cases hj : j = id
    · rw [hj, setConn_self, hc]
      rfl
    · rw [setConn_of_ne hj]
  refine ⟨fun j d hd => ?_, fun name j => ?_, fun j => ?_, h.elsewhere, fun l j => ?_⟩
  · by_cases hj : j = id
    · rw [hj, setConn_self, Option.some.injEq] at hd
      rw [hj, ← hd, hname]
      exact h.fresh id c hc
    · rw [setConn_of_ne hj] at hd
      exact h.fresh j d hd
  · rw [hsome]
    exact h.entry name j
  · rw [isClosed_setConn]
    have hr := h.removed j
    by_cases hj : j = id
    · rw [hj, isClosed_of hc] at hr
      rw [if_pos hj, hj, decide_eq_decide.mpr hclosed]
      exact hr
    · rw [if_neg hj]
      exact hr
  · rw [isOpening_setConn]
    by_cases hj : j = id
    · rw [if_pos hj, hj]
      have ho := hopening l
      by_cases hat : c'.state = .connecting ∧ c'.ioLoop = l
      · rw [if_pos (decide_eq_true hat)]
        rwa [if_pos hat] at ho
      · rw [if_neg (by rw [decide_eq_false hat]; decide)]
        rwa [if_neg hat] at ho
    · rw [if_neg hj]
      exact h.opening l j

/-- A connection that is not `Connecting` any more has no `connectEstablished` waiting. -/
theorem Tracked.established (h : Tracked cfg s) {id : ℕ} {c : Conn ι} (hc : s.conns id = some c)
    (hstate : c.state ≠ .connecting) (l : LoopId ι) :
    (s.pending l).count (.connectEstablished id) = 0 := by
  have ho := h.opening l id
  rw [isOpening_of hc, decide_eq_false (fun hat => hstate hat.1), if_neg (by decide)] at ho
  omega

/-- `newConnection` adds a connection that nothing speaks of yet. -/
theorem Tracked.newConnection (h : Tracked cfg s) {c : Conn ι}
    (hname : c.name = cfg.connName s.nextConnId) (hstate : c.state = .connecting) (room : Bool) :
    Tracked cfg (s.newConnection c room) := by
  have hnone : s.conns s.nextConnId = none := by
    cases hd : s.conns s.nextConnId with
    | none => rfl
    | some d => exact absurd (h.fresh _ d hd).1 (lt_irrefl _)
  have hr := h.removed s.nextConnId
  rw [State.isClosed, hnone, Option.any_none, if_neg (by decide), State.removals] at hr
  have hopen : ∀ l, (s.pending l).count (.connectEstablished s.nextConnId) = 0 := by
    intro l
    have ho := h.opening l s.nextConnId
    rw [State.isOpening, hnone, Option.any_none, if_neg (by decide)] at ho
    omega
  -- the connection in place, before `connectEstablished` is called or queued
  let t : State ι := { s.setConn s.nextConnId c with
    nextConnId := s.nextConnId + 1
    connections := s.connections.set c.name s.nextConnId }
  have htself : t.conns s.nextConnId = some c := setConn_self _ c
  have htother : ∀ j, j ≠ s.nextConnId → t.conns j = s.conns j := fun j hj => setConn_of_ne hj c
  have ht : Tracked cfg t := by
    refine ⟨fun j d hd => ?_, fun name j => ?_, fun j => ?_, h.elsewhere, fun l j => ?_⟩
    · by_cases hj : j = s.nextConnId
      · rw [hj, htself, Option.some.injEq] at hd
        rw [hj, ← hd]
        exact ⟨Nat.lt_succ_self _, hname⟩
      · rw [htother j hj] at hd
        obtain ⟨hlt, hn⟩ := h.fresh j d hd
        exact ⟨Nat.lt_succ_of_lt hlt, hn⟩
    · show (name, j) ∈ (s.connections.set c.name s.nextConnId).entries ↔ _
      rw [SortedMap.mem_set, Prod.mk.injEq, h.entry, hname]
      by_cases hj : j = s.nextConnId
      · have herased : s.nextConnId ∉ t.erased := List.count_eq_zero.mp (by omega : s.erased.count _ = 0)
        rw [hj, htself, hnone]
        simpa using fun _ => herased
      · rw [htother j hj]
        constructor
        · rintro (⟨-, hj'⟩ | ⟨hold, -⟩)
          · exact absurd hj' hj
          · exact hold
        · intro hold
          exact .inr ⟨hold, fun heq => hj (connName_inj (hold.1 ▸ heq))⟩
    · show s.removals j = _
      rw [State.isClosed]
      by_cases hj : j = s.nextConnId
      · rw [hj, htself, Option.any_some, hstate, if_neg (by decide), State.removals]
        exact hr
      · rw [htother j hj]
        exact h.removed j
    · show (s.pending l).count _ ≤ _
      rw [State.isOpening]
      by_cases hj : j = s.nextConnId
      · rw [hj, hopen]
        exact Nat.zero_le _
      · rw [htother j hj]
        exact h.opening l j
  cases hl : c.ioLoop with
  | none =>
    have heq : s.newConnection c room = t.connectEstablished s.nextConnId c := by
      simp only [State.newConnection, hl]
      rfl
    rw [heq]
    refine ht.setConn htself rfl ?_ (fun l => ?_)
    · show Status.connected = .disconnected ↔ _
      rw [hstate]
      decide
    · show (s.pending l).count _ ≤ _
      rw [hopen]
      exact Nat.zero_le _
  | some l =>
    have heq : s.newConnection c room = t.queueInLoop (some l) (.connectEstablished s.nextConnId) room := by
      simp only [State.newConnection, hl]
      rfl
    rw [heq]
    cases room with
    | false => exact ht
    | true =>
      have hself : (t.queueInLoop (some l) (.connectEstablished s.nextConnId) true).pending (some l)
          = s.pending (some l) ++ [.connectEstablished s.nextConnId] :=
        queueInLoop_pending_self (some l) _
      have hother : ∀ l', l' ≠ some l →
          (t.queueInLoop (some l) (.connectEstablished s.nextConnId) true).pending l' = s.pending l' :=
        fun l' hl' => queueInLoop_pending_of_ne hl' _ true
      refine ⟨ht.fresh, ht.entry, fun j => ?_, fun l' j => ?_, fun l' j => ?_⟩
      · rw [State.removals, hother none (Option.some_ne_none l).symm]
        exact ht.removed j
      · by_cases hl' : some l' = some l
        · rw [hl', hself, List.mem_append, List.mem_singleton, not_or]
          exact ⟨h.elsewhere l j, by simp⟩
        · rw [hother _ hl']
          exact h.elsewhere l' j
      · by_cases hl' : l' = some l
        · rw [hl', hself, List.count_append, List.count_singleton]
          by_cases hj : j = s.nextConnId
          · have hat : t.isOpening (some l) j = true := by
              rw [hj, isOpening_of htself]
              exact decide_eq_true ⟨hstate, hl⟩
            show _ ≤ if t.isOpening (some l) j = true then 1 else 0
            rw [if_pos hat, hj, hopen]
            simp
          · rw [if_neg (by simpa using fun h => hj h.symm)]
            exact ht.opening (some l) j
        · rw [hother _ hl']
          exact ht.opening l' j

/-- A functor that is no removal and no `connectEstablished` is queued. -/
theorem Tracked.queueInLoop (h : Tracked cfg s) (l : LoopId ι) (id : ℕ) (room : Bool) :
    Tracked cfg (s.queueInLoop l (.forceCloseInLoop id) room) := by
  cases room with
  | false => exact h
  | true =>
    have hcount : ∀ l' (f : Functor), f ≠ .forceCloseInLoop id →
        (Function.update s.pending l (s.pending l ++ [.forceCloseInLoop id]) l').count f
          = (s.pending l').count f := by
      intro l' f hf
      by_cases hl : l' = l
      · rw [hl, Function.update_self, List.count_append, List.count_singleton,
          if_neg (by simpa using hf.symm)]
        rfl
      · rw [Function.update_of_ne hl]
    refine h.requeue (fun j => hcount none _ (by simp)) (fun l' j => ?_)
      (fun l' j => (hcount l' _ (by simp)).le)
    rw [← List.count_eq_zero, hcount _ _ (by simp), List.count_eq_zero]
    exact h.elsewhere l' j

theorem Tracked.forceClose (h : Tracked cfg s) (hf : s.fault = none) {id : ℕ} {c : Conn ι}
    (hc : s.conns id = some c) {inLoop room : Bool}
    (hroom : inLoop = true → c.state = .connected → c.ioLoop ≠ none → room = true)
    (hs : s.forceClose id c inLoop room = some s') : Tracked cfg s' ∧ s'.fault = none := by
  unfold State.forceClose at hs
  by_cases hin : inLoop = true
  · rw [if_pos hin, State.forceCloseInLoop, Option.ite_none_left_eq_some, Option.some.injEq] at hs
    obtain ⟨hstate, rfl⟩ := hs
    exact h.handleEpHup hf hc hstate (hroom hin)
  · rw [if_neg hin, Option.some.injEq] at hs
    subst hs
    refine ⟨h.queueInLoop c.ioLoop id room, ?_⟩
    cases room with
    | false => exact hf
    | true => exact hf

/-- The functors of a loop after its first one is taken. -/
def State.popped (s : State ι) (l : LoopId ι) (fs : List Functor) : State ι :=
  { s with pending := Function.update s.pending l fs }

theorem popped_self (l : LoopId ι) (fs : List Functor) : (s.popped l fs).pending l = fs := by
  show Function.update s.pending l fs l = fs
  rw [Function.update_self]

theorem popped_of_ne {l l' : LoopId ι} (hl : l' ≠ l) (fs : List Functor) :
    (s.popped l fs).pending l' = s.pending l' := by
  show Function.update s.pending l fs l' = _
  rw [Function.update_of_ne hl]

/-- `connectEstablished` and `forceCloseInLoop` may be taken. -/
theorem Tracked.popped (h : Tracked cfg s) {l : LoopId ι} {f : Functor} {fs : List Functor}
    (hp : s.pending l = f :: fs) (hf : ∀ id, f ≠ .removeConnectionInLoop id) :
    Tracked cfg (s.popped l fs) := by
  have hcount : ∀ l' (g : Functor), ((s.popped l fs).pending l').count g ≤ (s.pending l').count g := by
    intro l' g
    by_cases hl : l' = l
    · rw [hl, popped_self, hp]
      exact List.count_le_count_cons
    · rw [popped_of_ne hl]
  refine h.requeue (fun j => ?_) (fun l' j => ?_) (fun l' j => hcount l' _)
  · show ((s.popped l fs).pending none).count _ = _
    by_cases hl : none = l
    · rw [hl, popped_self, hp, List.count_cons, if_neg (by simpa using hf j)]
      rfl
    · rw [popped_of_ne hl]
  · rw [← List.count_eq_zero]
    have hzero := List.count_eq_zero.mpr (h.elsewhere l' j)
    have hle := hcount (some l') (.removeConnectionInLoop j)
    show ((s.popped l fs).pending (some l')).count _ = 0
    omega

/-- A removal that waits finds its entry. -/
theorem Tracked.remove (h : Tracked cfg s) (hf : s.fault = none) {l : LoopId ι} {id : ℕ} {c : Conn ι}
    {fs : List Functor} (hp : s.pending l = .removeConnectionInLoop id :: fs)
    (hc : s.conns id = some c) :
    Tracked cfg ((s.popped l fs).removeConnectionInLoop c) ∧
      ((s.popped l fs).removeConnectionInLoop c).fault = none := by
  have hl : l = none := by
    cases l with
    | none => rfl
    | some l => exact absurd (hp ▸ List.mem_cons_self) (h.elsewhere l id)
  subst hl
  have hr := h.removed id
  have hle : s.removals id ≤ 1 := by
    rw [hr]
    split <;> omega
  have hwait : (s.pending none).count (.removeConnectionInLoop id) = fs.count (.removeConnectionInLoop id)
      + 1 := by
    rw [hp, List.count_cons_self]
  have herased : s.erased.count id = 0 := by
    unfold State.removals at hle
    omega
  have hfind : s.connections.find? c.name = some id := by
    rw [SortedMap.find?_eq_some, h.entry, hc]
    exact ⟨(h.fresh id c hc).2, rfl, List.count_eq_zero.mp herased⟩
  have hrun : (s.popped none fs).removeConnectionInLoop c = { s.popped none fs with
      connections := s.connections.erase c.name, erased := s.erased ++ [id] } := by
    have hfind' : (s.popped none fs).connections.find? c.name = some id := hfind
    rw [State.removeConnectionInLoop, hfind']
    exact erase_present hfind'
  rw [hrun]
  refine ⟨⟨h.fresh, h.entry_erase hc, fun j => ?_, fun l j => ?_, fun l j => ?_⟩, hf⟩
  · show ((s.popped none fs).pending none).count _ + (s.erased ++ [id]).count j = if s.isClosed j then 1 else 0
    rw [← h.removed j, State.removals, popped_self, hp, List.count_append, List.count_singleton,
      List.count_cons]
    by_cases hj : j = id
    · rw [hj]
      simp only [beq_self_eq_true, if_true]
      omega
    · rw [if_neg (by simpa using fun h => hj h.symm), if_neg (by simpa using fun h => hj h.symm)]
      omega
  · show _ ∉ (s.popped none fs).pending (some l)
    rw [popped_of_ne (Option.some_ne_none l)]
    exact h.elsewhere l j
  · have ho := h.opening l j
    show ((s.popped none fs).pending l).count _ ≤ if s.isOpening l j then 1 else 0
    by_cases hl : l = none
    · rw [hl, hp, List.count_cons, if_neg (by simp)] at ho
      rw [hl, popped_self]
      exact ho
    · rw [popped_of_ne hl]
      exact ho

/-- `connectEstablished`, the only one of its connection. -/
theorem Tracked.connectEstablished (h : Tracked cfg s) {l : LoopId ι} {id : ℕ} {c : Conn ι}
    {fs : List Functor} (hp : s.pending l = .connectEstablished id :: fs) (hc : s.conns id = some c) :
    Tracked cfg ((s.popped l fs).connectEstablished id c) := by
  have hpos : 0 < (s.pending l).count (.connectEstablished id) := by
    rw [hp, List.count_cons_self]
    omega
  have hat : c.state = .connecting ∧ c.ioLoop = l := by
    by_contra hnot
    have ho := h.opening l id
    rw [isOpening_of hc, decide_eq_false hnot, if_neg (by decide)] at ho
    omega
  refine (h.popped hp (by simp)).setConn hc rfl ?_ (fun l' => ?_)
  · show Status.connected = .disconnected ↔ _
    rw [hat.1]
    decide
  · have ho := h.opening l' id
    rw [isOpening_of hc] at ho
    by_cases hl : l' = l
    · rw [hl, hp, List.count_cons_self] at ho
      rw [hl, popped_self]
      split at ho <;> omega
    · have hnot : ¬(c.state = .connecting ∧ c.ioLoop = l') := fun hat' => hl (hat'.2.symm.trans hat.2)
      rw [decide_eq_false hnot, if_neg (by decide)] at ho
      rw [popped_of_ne hl]
      omega

/-! ### SIGINT -/

omit [DecidableEq ι] in
theorem name_erased (name : String) : name ∉ (s.erase name).connections.keys := by
  cases hfind : s.connections.find? name with
  | none =>
    rw [State.erase, hfind]
    exact SortedMap.find?_eq_none.mp hfind
  | some id =>
    rw [erase_present hfind]
    intro hmem
    exact (SortedMap.mem_keys_erase.mp hmem).2 rfl

/-- The loop of `handle_sig_int` does not get past its first entry. -/
theorem sigIntLoop_fault {room : ℕ → Bool} {e : String × ℕ} {es : List (String × ℕ)}
    (h : State.sigIntLoop room (e :: es) s = some s') : s'.fault.isSome = true := by
  obtain ⟨name, id⟩ := e
  rw [State.sigIntLoop, Option.bind_eq_some_iff] at h
  obtain ⟨c, -, h⟩ := h
  rw [Option.bind_eq_some_iff] at h
  obtain ⟨t, -, h⟩ := h
  by_cases hfault : (t.erase name).fault.isSome = true
  · rw [if_pos hfault, Option.some.injEq] at h
    exact h ▸ hfault
  · rw [if_neg hfault, if_neg (name_erased name), Option.some.injEq] at h
    rw [← h]
    rfl

omit [DecidableEq ι] in
theorem keys_eq_nil : s.connections.keys = [] ↔ s.connections.entries = [] := by
  rw [SortedMap.keys, List.map_eq_nil_iff]

/-- With a connection in the map `handle_sig_int` ends in a fault. -/
theorem handleSigInt_fault {room : ℕ → Bool} (hne : s.connections.keys ≠ [])
    (h : s.handleSigInt room = some s') : s'.fault.isSome = true := by
  obtain ⟨t, ht, rfl⟩ := Option.map_eq_some_iff.mp h
  rw [Ne, keys_eq_nil] at hne
  obtain ⟨e, es, hes⟩ := List.exists_cons_of_ne_nil hne
  rw [show ({ s with listening := false } : State ι).connections.entries = e :: es from hes] at ht
  have hfault := sigIntLoop_fault ht
  rw [if_pos hfault]
  exact hfault

/-- With none it stops the acceptor and the loop. -/
theorem handleSigInt_empty {room : ℕ → Bool} (hempty : s.connections.keys = []) (hf : s.fault = none) :
    s.handleSigInt room = some { s with listening := false, quit := true } := by
  have hes : ({ s with listening := false } : State ι).connections.entries = [] := keys_eq_nil.mp hempty
  rw [State.handleSigInt, hes, State.sigIntLoop, Option.map_some, if_neg (by simp [hf])]

/-! ### steps and runs -/

/-- The connection whose `handle_ep_hup` the step calls, and whether a removal would find room. -/
def State.closing (s : State ι) : Action ι → Option (Conn ι × Bool)
  | .hup id room => (s.conn? id).map fun c => (c, room)
  | .forceClose id true room => (s.conn? id).map fun c => (c, room)
  | .functor l room =>
    match s.pending l with
    | .forceCloseInLoop id :: _ => (s.conn? id).map fun c => (c, room)
    | _ => none
  | _ => none

/-- `handle_sig_int` finds no connection, and a connection of another loop that closes finds room for its
removal in the queue of the server's loop. -/
structure Undisturbed (s : State ι) (a : Action ι) : Prop where
  sigInt : ∀ room, a = .sigInt room → s.connections.keys = []
  room : ∀ c room, s.closing a = some (c, room) → c.state = .connected → c.ioLoop ≠ none → room = true

theorem Tracked.move {a : Action ι} (h : Tracked cfg s) (hf : s.fault = none) (hP : Undisturbed s a)
    (hs : s.move cfg a = some s') : Tracked cfg s' ∧ s'.fault = none := by
  cases a with
  | handleRead =>
    rw [State.move, Option.ite_none_right_eq_some, Option.some.injEq] at hs
    rw [← hs.2]
    exact ⟨h.of_eq rfl rfl rfl rfl rfl, hf⟩
  | accept res ioLoop room =>
    obtain ⟨acc, -, rfl⟩ := Option.map_eq_some_iff.mp hs
    cases res with
    | none =>
      rw [State.acceptTurn]
      by_cases hk : acc.k - 1 = -32
      · rw [if_pos hk]
        exact ⟨h.of_eq rfl rfl rfl rfl rfl, hf⟩
      · rw [if_neg hk]
        exact ⟨h.of_eq rfl rfl rfl rfl rfl, hf⟩
    | some r =>
      obtain ⟨connfd, addr⟩ := r
      have hacc : Tracked cfg { s.setSockAddr acc.peerAddr addr with
          accepting := some { acc with k := acc.k + 1 } } := h.of_eq rfl rfl rfl rfl rfl
      refine ⟨hacc.newConnection rfl rfl room, ?_⟩
      cases ioLoop with
      | none => exact hf
      | some l =>
        cases room with
        | false => exact hf
        | true => exact hf
  | functor l room =>
    rw [State.move, Option.ite_none_right_eq_some] at hs
    obtain ⟨-, hs⟩ := hs
    cases hp : s.pending l with
    | nil =>
      rw [hp] at hs
      cases hs
    | cons f fs =>
      rw [hp] at hs
      replace hs : (s.popped l fs).call f room = some s' := hs
      cases f with
      | connectEstablished id =>
        obtain ⟨c, hc, rfl⟩ := Option.map_eq_some_iff.mp hs
        exact ⟨h.connectEstablished hp (conn?_eq_some.mp hc).1, hf⟩
      | forceCloseInLoop id =>
        obtain ⟨c, hc, hs⟩ := Option.bind_eq_some_iff.mp hs
        rw [State.forceCloseInLoop, Option.ite_none_left_eq_some, Option.some.injEq] at hs
        obtain ⟨hstate, rfl⟩ := hs
        have hcl : s.closing (.functor l room) = some (c, room) := by
          have hc' : s.conn? id = some c := hc
          rw [State.closing, hp]
          show (s.conn? id).map _ = _
          rw [hc']
          rfl
        exact (h.popped hp (by simp)).handleEpHup hf (conn?_eq_some.mp hc).1 hstate (hP.room c room hcl)
      | removeConnectionInLoop id =>
        obtain ⟨c, hc, rfl⟩ := Option.map_eq_some_iff.mp hs
        exact h.remove hf hp (conn?_eq_some.mp hc).1
  | hup id room =>
    obtain ⟨c, hc, hs⟩ := Option.bind_eq_some_iff.mp hs
    rw [Option.ite_none_right_eq_some, Option.some.injEq] at hs
    obtain ⟨⟨-, hstate⟩, rfl⟩ := hs
    have hcl : s.closing (.hup id room) = some (c, room) := by
      rw [State.closing, hc]
      rfl
    exact h.handleEpHup hf (conn?_eq_some.mp hc).1 hstate (hP.room c room hcl)
  | forceClose id inLoop room =>
    obtain ⟨c, hc, hs⟩ := Option.bind_eq_some_iff.mp hs
    refine h.forceClose hf (conn?_eq_some.mp hc).1 (fun hin => ?_) hs
    have hcl : s.closing (.forceClose id inLoop room) = some (c, room) := by
      rw [hin, State.closing, hc]
      rfl
    exact hP.room c room hcl
  | sigInt room =>
    rw [State.move, Option.ite_none_right_eq_some, handleSigInt_empty (hP.sigInt room rfl) hf,
      Option.some.injEq] at hs
    rw [← hs.2]
    exact ⟨h.of_eq rfl rfl rfl rfl rfl, hf⟩
  | destroy id =>
    obtain ⟨c, hc, hs⟩ := Option.bind_eq_some_iff.mp hs
    rw [Option.ite_none_left_eq_some, Option.some.injEq] at hs
    obtain ⟨-, rfl⟩ := hs
    have hc' := (conn?_eq_some.mp hc).1
    refine ⟨h.setConn hc' rfl Iff.rfl (fun l => ?_), hf⟩
    have ho := h.opening l id
    rw [isOpening_of hc'] at ho
    show _ ≤ if c.state = .connecting ∧ c.ioLoop = l then 1 else 0
    simpa using ho

/-- A step to a state in which the promise holds met the condition. -/
theorem Tracked.back {a : Action ι} (h : Tracked cfg s) (hs : s.move cfg a = some s')
    (hgood : Good s') : Undisturbed s a := by
  constructor
  · rintro room rfl
    by_contra hne
    rw [State.move, Option.ite_none_right_eq_some] at hs
    have hfault := handleSigInt_fault hne hs.2
    rw [hgood.noFault] at hfault
    cases hfault
  · intro c room hcl hopen hl
    by_contra hroom
    obtain rfl : room = false := by simpa using hroom
    cases a with
    | hup id room =>
      obtain ⟨d, hc, hpair⟩ := Option.map_eq_some_iff.mp hcl
      obtain ⟨rfl, rfl⟩ := Prod.mk.inj hpair
      rw [State.move, hc, Option.bind_some, Option.ite_none_right_eq_some, Option.some.injEq] at hs
      exact dropped_not_good h (conn?_eq_some.mp hc).1 hopen hl (hs.2 ▸ hgood)
    | forceClose id inLoop room =>
      cases inLoop with
      | false => cases hcl
      | true =>
        obtain ⟨d, hc, hpair⟩ := Option.map_eq_some_iff.mp hcl
        obtain ⟨rfl, rfl⟩ := Prod.mk.inj hpair
        rw [State.move, hc, Option.bind_some, State.forceClose, if_pos rfl, State.forceCloseInLoop,
          Option.ite_none_left_eq_some, Option.some.injEq] at hs
        exact dropped_not_good h (conn?_eq_some.mp hc).1 hopen hl (hs.2 ▸ hgood)
    | functor l room =>
      rw [State.move, Option.ite_none_right_eq_some] at hs
      obtain ⟨-, hs⟩ := hs
      cases hp : s.pending l with
      | nil =>
        rw [State.closing, hp] at hcl
        cases hcl
      | cons f fs =>
        rw [State.closing, hp] at hcl
        rw [hp] at hs
        cases f with
        | connectEstablished id => cases hcl
        | removeConnectionInLoop id => cases hcl
        | forceCloseInLoop id =>
          obtain ⟨d, hc, hpair⟩ := Option.map_eq_some_iff.mp hcl
          obtain ⟨rfl, rfl⟩ := Prod.mk.inj hpair
          replace hs : ((s.popped l fs).conn? id).bind _ = some s' := hs
          have hc' : (s.popped l fs).conn? id = some d := hc
          rw [hc', Option.bind_some, State.forceCloseInLoop, Option.ite_none_left_eq_some,
            Option.some.injEq] at hs
          exact dropped_not_good (h.popped hp (by simp)) (conn?_eq_some.mp hc).1 hopen hl (hs.2 ▸ hgood)
    | handleRead => cases hcl
    | accept res ioLoop room => cases hcl
    | sigInt room => cases hcl
    | destroy id => cases hcl

theorem init_tracked (cfg : Config) : Tracked cfg (State.init ι) := by
  refine ⟨fun id c hc => ?_, fun name id => ?_, fun id => rfl, fun l id => ?_, fun l id => Nat.zero_le _⟩
  · cases hc
  · constructor
    · intro hmem
      cases hmem
    · rintro ⟨-, hsome, -⟩
      cases hsome
  · exact List.not_mem_nil

/-- One client connects to a server without further loops, then SIGINT comes. -/
def sigIntRun : List (Action Unit) :=
  [.handleRead, .accept (some (7, client₁)) none true] ++ List.replicate 33 (.accept none none true)
    ++ [.sigInt fun _ => true]

theorem sigIntRun_fault :
    (run (step echoServer) (State.init Unit) sigIntRun).map State.fault
      = some (some .erasedIterator) := by
  decide

end KwNet.Server
