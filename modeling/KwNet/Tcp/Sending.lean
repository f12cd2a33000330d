import KwNet.Tcp.Visit

/-!
# What one `sendInLoop` does with its message

The direct write of `sendInLoop` always passes the whole message from its start, `remaining` counts from the
last write only, and what is queued in the end starts at `data + nwrote`, with the `nwrote` of the write that
failed.

* `SendsOnce` — at most one write was accepted, and what is queued happens to be the rest;
* **`send_conserves`** — a plain `sendInLoop` conserves its message exactly then;
* **`ssl_send_stops`** — the loop of the TLS class ends exactly when some `SSL_write` takes the whole message
  or fails.
-/

namespace KwNet.Tcp

open KwNet.Lib KwNet.Memory

/-- The bytes taken by each write that was accepted. -/
def counts (os : List WriteOutcome) : List ℕ := (os.filter fun o => 0 < o.ret).map fun o => o.ret.toNat

/-- `remaining` after these writes. -/
def leftAfter (size : ℕ) (os : List WriteOutcome) : ℕ :=
  match (counts os).getLast? with
  | some n => size - n
  | none => size

/-- The loop of `sendInLoop` goes on after this answer. -/
def WriteOutcome.GoesOn (o : WriteOutcome) (size : ℕ) : Prop :=
  0 < o.ret ∧ o.ret < size ∨ o.ret = -1 ∧ o.err = .interrupted

/-- An error other than would-block and `EINTR`. -/
def WriteOutcome.IsHard (o : WriteOutcome) : Prop :=
  o.ret < 0 ∧ o.err ≠ .wouldBlock ∧ o.err ≠ .interrupted

instance (o : WriteOutcome) : Decidable o.IsHard :=
  inferInstanceAs (Decidable (o.ret < 0 ∧ o.err ≠ .wouldBlock ∧ o.err ≠ .interrupted))

/-- The accepted bytes and those the call has queued are the message; after a hard error the accepted bytes
are a prefix of it. -/
def SendConserved (io : Io) (job : Job) (copy : Option (List UInt8)) (v : Visit) : Prop :=
  let message := job.bytes copy io.mem 0 job.size
  if ∃ o ∈ v.outcomes, o.IsHard then v.accepted <+: message
  else ∃ queued, v.io.pending = queued ++ io.pending ∧ v.accepted ++ queued = message

/-- Every accepted write, although it starts with the message, takes the bytes that are due. -/
def Repeats (message : List UInt8) : List UInt8 → List ℕ → Prop
  | _, [] => True
  | due, n :: ns => message.take n <+: due ∧ Repeats message (due.drop n) ns

/-- At most one write is accepted, and what would-block leaves, read from one byte before the message on, is
the rest of it; before a hard error each accepted write may repeat bytes that are due. -/
def SendsOnce (message : List UInt8) (before : UInt8) (os : List WriteOutcome) : Prop :=
  if ∃ o ∈ os, o.IsHard then Repeats message message (counts os)
  else (counts os).length ≤ 1 ∧ ((∃ o ∈ os, o.ret < 0 ∧ o.err = .wouldBlock) →
    message.drop (counts os).sum = (before :: message).take (message.length - (counts os).sum))

instance : (message due : List UInt8) → (ns : List ℕ) → Decidable (Repeats message due ns)
  | _, _, [] => .isTrue trivial
  | message, due, n :: ns =>
    have : Decidable (Repeats message (due.drop n) ns) := instDecidableRepeats message (due.drop n) ns
    inferInstanceAs (Decidable (_ ∧ _))

instance (message : List UInt8) (before : UInt8) (os : List WriteOutcome) :
    Decidable (SendsOnce message before os) := by
  unfold SendsOnce
  infer_instance

/-! ### lists of counts -/

theorem counts_append (os os' : List WriteOutcome) : counts (os ++ os') = counts os ++ counts os' := by
  rw [counts, List.filter_append, List.map_append]
  rfl

theorem counts_taken {o : WriteOutcome} (h : 0 < o.ret) : counts [o] = [o.ret.toNat] := by
  rw [counts, List.filter_cons_of_pos (by simpa using h)]
  rfl

theorem counts_failed {o : WriteOutcome} (h : o.ret < 0) : counts [o] = [] := by
  rw [counts, List.filter_cons_of_neg (by simp; omega)]
  rfl

/-- What these writes have sent of the message. -/
def sentBy (message : List UInt8) (ns : List ℕ) : List UInt8 := ns.flatMap message.take

theorem sentBy_append (message : List UInt8) (ns ns' : List ℕ) :
    sentBy message (ns ++ ns') = sentBy message ns ++ sentBy message ns' := List.flatMap_append

theorem length_sentBy {message : List UInt8} {ns : List ℕ} (h : ∀ n ∈ ns, n ≤ message.length) :
    (sentBy message ns).length = ns.sum := by
  induction ns with
  | nil => rfl
  | cons n ns ih =>
    have hn := h n List.mem_cons_self
    have hns := ih fun k hk => h k (List.mem_cons_of_mem n hk)
    rw [sentBy, List.flatMap_cons, List.length_append, List.length_take, List.sum_cons, Nat.min_eq_left hn]
    rw [sentBy] at hns
    rw [hns]

/-- A hard error leaves a prefix exactly when every write repeated what was due. -/
theorem sentBy_prefix {message : List UInt8} {ns : List ℕ} (h : ∀ n ∈ ns, n ≤ message.length)
    (due : List UInt8) : sentBy message ns <+: due ↔ Repeats message due ns := by
  induction ns generalizing due with
  | nil => exact iff_of_true (List.nil_prefix) trivial
  | cons n ns ih =>
    have hn := h n List.mem_cons_self
    have hns := ih (fun k hk => h k (List.mem_cons_of_mem n hk)) (due.drop n)
    have hlen : (message.take n).length = n := by rw [List.length_take, Nat.min_eq_left hn]
    rw [Repeats, ← hns]
    show message.take n ++ sentBy message ns <+: due ↔ _
    constructor
    · intro hpre
      obtain ⟨rest, hrest⟩ := hpre
      rw [List.append_assoc] at hrest
      refine ⟨⟨_, hrest⟩, rest, ?_⟩
      rw [← hrest, List.drop_append_of_le_length hlen.ge, List.drop_of_length_le hlen.le, List.nil_append]
    · intro hboth
      obtain ⟨⟨rest, hrest⟩, htail⟩ := hboth
      rw [← hrest] at htail ⊢
      rw [List.drop_append_of_le_length hlen.ge, List.drop_of_length_le hlen.le, List.nil_append] at htail
      exact List.prefix_append_right_inj _ |>.mpr htail

/-! ### where the call stands -/

variable {cfg : Config} {w : Word} {io : Io} {job : Job} {copy : Option (List UInt8)} {v v' : Visit}
  {x : Tick}

/-- Nothing the message depends on has changed, and nothing was queued. -/
structure SendMiddle (io : Io) (job : Job) (copy : Option (List UInt8)) (v : Visit) : Prop where
  out : v.io.outputBuffers = io.outputBuffers
  mem : v.io.mem = io.mem
  crashed : v.crashed = false
  accepted : v.accepted = sentBy (job.bytes copy io.mem 0 job.size) (counts v.outcomes)

/-- How the writes of a call have ended, and what it has queued then. -/
inductive SendEnd (size : ℕ) : List WriteOutcome → ℤ → ℕ → Prop
  /-- Nothing was written: all of it is queued. -/
  | none : SendEnd size [] 0 size
  | whole {os : List WriteOutcome} {o : WriteOutcome} (hos : ∀ o ∈ os, o.GoesOn size) (ho : o.ret = size)
      (hsize : 0 < size) : SendEnd size (os ++ [o]) 0 0
  | again {os : List WriteOutcome} {o : WriteOutcome} (hos : ∀ o ∈ os, o.GoesOn size) (ho : o.ret = -1)
      (herr : o.err = .wouldBlock) (hsize : 0 < size) : SendEnd size (os ++ [o]) (-1) (leftAfter size os)
  | hard {os : List WriteOutcome} {o : WriteOutcome} (hos : ∀ o ∈ os, o.GoesOn size) (ho : o.IsHard) :
      SendEnd size (os ++ [o]) 0 0

/-- Where `sendInLoop` can stand, started with the data `io`. -/
inductive SendVisit (io : Io) (job : Job) (copy : Option (List UInt8)) (v : Visit) : Prop
  | load (hf : v.frames = [.sendInLoop .load job copy]) (hmid : SendMiddle io job copy v)
      (hos : v.outcomes = [])
  | write {old : Word} {turn remaining : ℕ}
      (hf : v.frames = [.sendInLoop (.write old turn remaining) job copy])
      (hmid : SendMiddle io job copy v) (hos : ∀ o ∈ v.outcomes, o.GoesOn job.size)
      (hleft : remaining = leftAfter job.size v.outcomes) (hsize : 0 < job.size)
  | queue {old : Word} {turn remaining : ℕ} {nwrote : ℤ}
      (hf : v.frames = [.sendInLoop (.queue old turn nwrote remaining) job copy])
      (hmid : SendMiddle io job copy v) (hend : SendEnd job.size v.outcomes nwrote remaining)
  | ended {nwrote : ℤ} {remaining : ℕ} (hended : v.ended = true)
      (hpending : v.io.pending = job.bytes copy io.mem nwrote remaining ++ io.pending)
      (haccepted : v.accepted = sentBy (job.bytes copy io.mem 0 job.size) (counts v.outcomes))
      (hend : SendEnd job.size v.outcomes nwrote remaining)
  /-- A write that took no byte and did not fail. -/
  | zero (h : ∃ o ∈ v.outcomes, o.ret = 0)

/-- The epilogue ends the visit. -/
theorem visit_epilogue {old : Word} {io' : Io} {e : Effect} {f : Frame} (hcrash : e.crash = false)
    (hf : e.frames = (sendEpilogue w io' old job copy).frames) : (v.apply f [] x.inp e).ended = true := by
  have hleave := (sendEpilogue_leaves w io' old job copy).2.2
  show (e.crash || !(e.frames ++ []).head?.any fun f : Frame => f.inLoop || f.isCallee) = true
  rw [hcrash, Bool.false_or, List.append_nil, hf]
  cases hfs : (sendEpilogue w io' old job copy).frames with
  | nil => rfl
  | cons g gs =>
    have hg := hleave g (by rw [hfs]; exact List.mem_cons_self)
    have hframe : g = .sendInLoop (.cas old) job copy := by
      unfold sendEpilogue at hfs
      split at hfs
      · cases hfs
      · split at hfs
        · cases hfs
        · split at hfs
          · exact (List.cons.inj hfs).1.symm
          · cases hfs
    rw [List.head?_cons, Option.any_some, hframe]
    rfl

theorem bytes_zero (job : Job) (copy : Option (List UInt8)) (mem : ℤ → UInt8) (offset : ℤ) :
    job.bytes copy mem offset 0 = [] := by
  rw [← List.length_eq_zero_iff, Job.length_bytes]

/-- `sendInLoop` on entry. -/
theorem SendVisit.step_load (hf : v.frames = [.sendInLoop .load job copy])
    (hmid : SendMiddle io job copy v) (hos : v.outcomes = []) (hs : v.step cfg x = some v') :
    SendVisit io job copy v' := by
  obtain ⟨-, e, he, rfl⟩ := visit_frame hf rfl hs
  rw [frameStep, sendLoopStep, Option.some.injEq] at he
  have hnone : ((Frame.sendInLoop .load job copy).outcome x.inp) = none := by
    cases x.inp <;> rfl
  have houtcomes : (v.apply (.sendInLoop .load job copy) [] x.inp e).outcomes = [] := by
    show v.outcomes ++ ((Frame.sendInLoop .load job copy).outcome x.inp).toList = []
    rw [hnone, hos]
    rfl
  have haccepted : (v.apply (.sendInLoop .load job copy) [] x.inp e).accepted = [] := by
    show v.accepted ++ ((Frame.sendInLoop .load job copy).outcome x.inp).elim [] _ = []
    rw [hnone, hmid.accepted, hos]
    rfl
  have hmiddle : e.io.outputBuffers = v.io.outputBuffers → e.io.mem = v.io.mem → e.crash = false →
      SendMiddle io job copy (v.apply (.sendInLoop .load job copy) [] x.inp e) := by
    intro hout hmem hcrash
    refine ⟨hout.trans hmid.out, hmem.trans hmid.mem, hcrash, ?_⟩
    rw [haccepted, houtcomes]
    rfl
  by_cases hdirect : (!v.io.channel.isWriting && v.io.outputBuffers.isEmpty && job.size != 0) = true
  · have hsize : 0 < job.size := by
      rw [Bool.and_eq_true, bne_iff_ne] at hdirect
      exact Nat.pos_of_ne_zero hdirect.2
    rw [if_pos (show (!(v.io.free x.space).channel.isWriting && (v.io.free x.space).outputBuffers.isEmpty
      && job.size != 0) = true from hdirect)] at he
    subst he
    refine .write rfl (hmiddle rfl rfl rfl) ?_ ?_ hsize
    · rw [houtcomes]
      exact fun o ho => absurd ho List.not_mem_nil
    · rw [houtcomes]
      rfl
  · rw [if_neg (show ¬(!(v.io.free x.space).channel.isWriting && (v.io.free x.space).outputBuffers.isEmpty
      && job.size != 0) = true from hdirect)] at he
    by_cases hsize : (job.size != 0) = true
    · rw [if_pos hsize] at he
      subst he
      refine .queue rfl (hmiddle rfl rfl rfl) ?_
      rw [houtcomes]
      exact .none
    · rw [if_neg hsize] at he
      have hzero : job.size = 0 := by simpa using hsize
      have hleave := sendEpilogue_leaves v.word { (v.io.free x.space) with turns := v.io.turns + 1 }
        v.word job copy
      subst he
      have hend : SendEnd job.size [] 0 job.size := .none
      rw [← houtcomes] at hend
      refine .ended (visit_epilogue hleave.2.1 rfl) ?_ ?_ hend
      · rw [hzero, bytes_zero, List.nil_append]
        show Io.pending (sendEpilogue v.word { (v.io.free x.space) with turns := v.io.turns + 1 }
          v.word job copy).io = io.pending
        rw [hleave.1, Io.pending, Io.pending]
        show (v.io.outputBuffers.flatMap fun b => b.buf.readable) = _
        rw [hmid.out]
      · rw [haccepted, houtcomes]
        rfl

/-- A write that took no byte, or was refused, sends nothing. -/
theorem take_failed {o : WriteOutcome} (h : o.ret < 0) (bytes : List UInt8) : bytes.take o.ret.toNat = [] := by
  rw [Int.toNat_of_nonpos h.le, List.take_zero]

theorem leftAfter_taken {o : WriteOutcome} (h : 0 < o.ret) (size : ℕ) (os : List WriteOutcome) :
    leftAfter size (os ++ [o]) = size - o.ret.toNat := by
  rw [leftAfter, counts_append, counts_taken h, List.getLast?_concat]

theorem leftAfter_failed {o : WriteOutcome} (h : o.ret < 0) (size : ℕ) (os : List WriteOutcome) :
    leftAfter size (os ++ [o]) = leftAfter size os := by
  rw [leftAfter, counts_append, counts_failed h, List.append_nil, leftAfter]

/-- A write that failed for good. -/
theorem sendWrite_hard (w old : Word) (io : Io) (turn remaining : ℕ) (job : Job)
    (copy : Option (List UInt8)) (hk : cfg.kind = .plain) {o : WriteOutcome} (ho : o.IsHard) :
    (sendWrite cfg w io old turn remaining job copy o).io = { io with kernel := io.kernel.write o } ∧
    (sendWrite cfg w io old turn remaining job copy o).crash = false ∧
    (sendWrite cfg w io old turn remaining job copy o).frames
      = (sendEpilogue w { io with kernel := io.kernel.write o } old job copy).frames := by
  have hleave := sendEpilogue_leaves w { io with kernel := io.kernel.write o } old job copy
  obtain ⟨hret, hblock, hintr⟩ := ho
  unfold sendWrite
  rw [if_neg (Int.not_le.mpr hret), hk]
  cases herr : o.err with
  | wouldBlock => exact absurd herr hblock
  | interrupted => exact absurd herr hintr
  | wantRead => exact ⟨hleave.1, hleave.2.1, rfl⟩
  | fault => exact ⟨hleave.1, hleave.2.1, rfl⟩

/-- The direct write. -/
theorem SendVisit.step_write (hk : cfg.kind = .plain) {old : Word} {turn remaining : ℕ}
    (hf : v.frames = [.sendInLoop (.write old turn remaining) job copy])
    (hmid : SendMiddle io job copy v) (hos : ∀ o ∈ v.outcomes, o.GoesOn job.size)
    (hleft : remaining = leftAfter job.size v.outcomes) (hsize : 0 < job.size)
    (hs : v.step cfg x = some v') : SendVisit io job copy v' := by
  obtain ⟨-, e, he, rfl⟩ := visit_frame hf rfl hs
  let f : Frame := .sendInLoop (.write old turn remaining) job copy
  obtain ⟨o, ho⟩ : ∃ o, x.inp = .write o := by
    cases hinp : x.inp with
    | write o => exact ⟨o, rfl⟩
    | none =>
      rw [hinp] at he
      cases he
    | read r =>
      rw [hinp] at he
      cases he
    | sockErr b =>
      rw [hinp] at he
      cases he
  rw [ho, frameStep, sendLoopStep, Option.ite_none_right_eq_some, Option.some.injEq] at he
  obtain ⟨hadm, he⟩ := he
  have houtcomes : (v.apply f [] x.inp e).outcomes = v.outcomes ++ [o] := by
    show v.outcomes ++ (f.outcome x.inp).toList = _
    rw [ho]
    rfl
  have haccepted : (v.apply f [] x.inp e).accepted
      = sentBy (job.bytes copy io.mem 0 job.size) (counts v.outcomes)
        ++ (job.bytes copy io.mem 0 job.size).take o.ret.toNat := by
    show v.accepted ++ (f.outcome x.inp).elim [] (fun o => (f.offers v.io).take o.ret.toNat) = _
    rw [ho, hmid.accepted]
    show _ ++ (job.bytes copy v.io.mem 0 job.size).take o.ret.toNat = _
    rw [hmid.mem]
  have hbound : -1 ≤ o.ret ∧ o.ret ≤ job.size := by
    simp only [WriteOutcome.admissible, Bool.and_eq_true] at hadm
    exact ⟨of_decide_eq_true hadm.1.1.1, of_decide_eq_true hadm.1.1.2⟩
  have hpend : ∀ io' : Io, io'.outputBuffers = v.io.outputBuffers → io'.pending = io.pending := by
    intro io' hout
    rw [Io.pending, hout, hmid.out, Io.pending]
  rcases lt_trichotomy o.ret 0 with hneg | hzero | hpos
  · -- the write failed
    have hnone : (v.apply f [] x.inp e).accepted = sentBy (job.bytes copy io.mem 0 job.size)
        (counts (v.apply f [] x.inp e).outcomes) := by
      rw [haccepted, houtcomes, take_failed hneg, counts_append, counts_failed hneg, List.append_nil,
        List.append_nil]
    have hret : o.ret = -1 := by omega
    by_cases hblock : o.err = .wouldBlock
    · rw [sendWrite, if_neg (by omega), hk, hblock] at he
      subst he
      refine .queue rfl ⟨hmid.out, hmid.mem, rfl, hnone⟩ ?_
      rw [houtcomes, hleft, hret]
      exact .again hos hret hblock hsize
    · by_cases hintr : o.err = .interrupted
      · rw [sendWrite, if_neg (by omega), hk, hintr] at he
        subst he
        refine .write rfl ⟨hmid.out, hmid.mem, rfl, hnone⟩ ?_ ?_ hsize
        · rw [houtcomes]
          intro o' ho'
          obtain hold | hnew := List.mem_append.mp ho'
          · exact hos o' hold
          · rw [List.mem_singleton.mp hnew]
            exact .inr ⟨hret, hintr⟩
        · rw [houtcomes, leftAfter_failed hneg]
          exact hleft
      · have hhard : o.IsHard := ⟨hneg, hblock, hintr⟩
        have hmove := sendWrite_hard v.word old (v.io.free x.space) turn remaining job copy hk hhard
        rw [he] at hmove
        obtain ⟨hio, hcrash, hframes⟩ := hmove
        have hend : SendEnd job.size (v.outcomes ++ [o]) 0 0 := .hard hos hhard
        rw [← houtcomes] at hend
        refine .ended (visit_epilogue hcrash hframes) ?_ hnone hend
        rw [bytes_zero, List.nil_append]
        show e.io.pending = _
        rw [hio]
        exact hpend _ rfl
  · refine .zero ⟨o, ?_, hzero⟩
    rw [houtcomes]
    exact List.mem_append_right _ (List.mem_singleton.mpr rfl)
  · -- the write took some bytes
    have hsome : (v.apply f [] x.inp e).accepted = sentBy (job.bytes copy io.mem 0 job.size)
        (counts (v.apply f [] x.inp e).outcomes) := by
      rw [haccepted, houtcomes, counts_append, counts_taken hpos, sentBy_append, sentBy, sentBy,
        List.flatMap_singleton]
    rcases lt_or_eq_of_le hbound.2 with hlt | heq
    · have hpart : o.ret = (o.ret.toNat : ℤ) := by omega
      have hless : o.ret.toNat < job.size := by omega
      have hmove := @sendWrite_part cfg job v.word old (v.io.free x.space) turn remaining copy _ _ hpart hless
      rw [he] at hmove
      obtain ⟨hio, hcrash, hframes⟩ := hmove
      have hwrite : (v.apply f [] x.inp e).frames
          = [.sendInLoop (.write old turn (job.size - o.ret.toNat)) job copy] := by
        show e.frames ++ [] = _
        rw [hframes, List.append_nil]
      refine .write hwrite ⟨?_, ?_, hcrash, hsome⟩ ?_ ?_ hsize
      · show e.io.outputBuffers = _
        rw [hio]
        exact hmid.out
      · show e.io.mem = _
        rw [hio]
        exact hmid.mem
      · rw [houtcomes]
        intro o' ho'
        obtain hold | hnew := List.mem_append.mp ho'
        · exact hos o' hold
        · rw [List.mem_singleton.mp hnew]
          exact .inl ⟨hpos, hlt⟩
      · rw [houtcomes, leftAfter_taken hpos]
    · have hmove := @sendWrite_whole cfg job v.word old (v.io.free x.space) turn remaining copy _ heq
      rw [he] at hmove
      obtain ⟨hio, hcrash, hframes⟩ := hmove
      have hend : SendEnd job.size (v.outcomes ++ [o]) 0 0 := .whole hos heq hsize
      rw [← houtcomes] at hend
      refine .ended (visit_epilogue hcrash hframes) ?_ hsome hend
      rw [bytes_zero, List.nil_append]
      show e.io.pending = _
      rw [hio]
      exact hpend _ rfl

/-- What is left is queued. -/
theorem SendVisit.step_queue (hk : cfg.kind = .plain) {old : Word} {turn remaining : ℕ} {nwrote : ℤ}
    (hf : v.frames = [.sendInLoop (.queue old turn nwrote remaining) job copy])
    (hmid : SendMiddle io job copy v) (hend : SendEnd job.size v.outcomes nwrote remaining)
    (hs : v.step cfg x = some v') : SendVisit io job copy v' := by
  obtain ⟨-, e, he, rfl⟩ := visit_frame hf rfl hs
  let f : Frame := .sendInLoop (.queue old turn nwrote remaining) job copy
  rw [frameStep, sendLoopStep, Option.some.injEq] at he
  have hnone : f.outcome x.inp = none := by
    cases x.inp <;> rfl
  have houtcomes : (v.apply f [] x.inp e).outcomes = v.outcomes := by
    show v.outcomes ++ (f.outcome x.inp).toList = _
    rw [hnone]
    exact List.append_nil _
  have haccepted : (v.apply f [] x.inp e).accepted = v.accepted := by
    show v.accepted ++ (f.outcome x.inp).elim [] _ = _
    rw [hnone]
    exact List.append_nil _
  obtain ⟨io', b, hio, hcrash, hframes, hout, hread, -⟩ :=
    sendQueue_leaves cfg v.word old (v.io.free x.space) job copy turn remaining nwrote
  rw [he] at hio hcrash hframes
  refine .ended (visit_epilogue hcrash hframes) ?_ ?_ (by rw [houtcomes]; exact hend)
  · show e.io.pending = _
    rw [hio, Io.pending, hout, List.flatMap_cons, hread, Io.pending]
    show job.bytes copy v.io.mem nwrote remaining ++ (v.io.outputBuffers.flatMap fun b => b.buf.readable) = _
    rw [hmid.mem, hmid.out]
  · rw [haccepted, houtcomes]
    exact hmid.accepted

theorem SendVisit.step (hk : cfg.kind = .plain) (h : SendVisit io job copy v)
    (hs : v.step cfg x = some v') : SendVisit io job copy v' := by
  cases h with
  | load hf hmid hos => exact step_load hf hmid hos hs
  | write hf hmid hos hleft hsize => exact step_write hk hf hmid hos hleft hsize hs
  | queue hf hmid hend => exact step_queue hk hf hmid hend hs
  | ended hended hpending haccepted hend =>
    rw [visit_ended hended] at hs
    cases hs
  | zero h =>
    obtain ⟨o, ho, hzero⟩ := h
    exact .zero ⟨o, visit_outcomes hs o ho, hzero⟩

/-! ### how the call ends -/

theorem WriteOutcome.GoesOn.count {o : WriteOutcome} {size : ℕ} (h : o.GoesOn size) :
    ∀ n ∈ counts [o], 0 < n ∧ n < size := by
  intro n hn
  obtain ⟨hpos, hlt⟩ | ⟨hret, -⟩ := h
  · rw [counts_taken hpos, List.mem_singleton] at hn
    omega
  · rw [counts_failed (by omega)] at hn
    cases hn

theorem counts_goesOn {os : List WriteOutcome} {size : ℕ} (h : ∀ o ∈ os, o.GoesOn size) :
    ∀ n ∈ counts os, 0 < n ∧ n < size := by
  induction os with
  | nil => exact fun n hn => absurd hn List.not_mem_nil
  | cons o os ih =>
    intro n hn
    have hsplit : counts (o :: os) = counts [o] ++ counts os := counts_append [o] os
    rw [hsplit] at hn
    obtain hone | hrest := List.mem_append.mp hn
    · exact (h o List.mem_cons_self).count n hone
    · exact ih (fun o' ho' => h o' (List.mem_cons_of_mem o ho')) n hrest

theorem goesOn_not_hard {os : List WriteOutcome} {size : ℕ} (h : ∀ o ∈ os, o.GoesOn size) :
    ∀ o ∈ os, ¬o.IsHard ∧ ¬(o.ret < 0 ∧ o.err = .wouldBlock) := by
  intro o ho
  obtain ⟨hpos, -⟩ | ⟨-, hintr⟩ := h o ho
  · exact ⟨fun hhard => absurd hhard.1 (by omega), fun hb => absurd hb.1 (by omega)⟩
  · refine ⟨fun hhard => hhard.2.2 hintr, fun hb => ?_⟩
    rw [hintr] at hb
    cases hb.2

/-- The bytes from one before the message on. -/
theorem bytes_before (job : Job) (copy : Option (List UInt8)) (mem : ℤ → UInt8) {n : ℕ} (h : n ≤ job.size) :
    job.bytes copy mem (-1) n
      = (job.byteAt copy mem (-1) :: job.bytes copy mem 0 job.size).take n := by
  refine List.ext_getElem? fun i => ?_
  rw [List.getElem?_take]
  by_cases hi : i < n
  · rw [if_pos hi, Job.getElem?_bytes job copy mem (-1) hi]
    cases i with
    | zero => rfl
    | succ k =>
      rw [List.getElem?_cons_succ, Job.getElem?_bytes job copy mem 0 (by omega)]
      exact congrArg (fun at_ => some (job.byteAt copy mem at_)) (by push_cast; ring)
  · rw [if_neg hi, List.getElem?_eq_none (by rw [Job.length_bytes]; omega)]

/-- Parts of the message, each from its start, and then the bytes from one before it on, make up the message
only when there is one part at most. -/
theorem sentBy_again {message : List UInt8} (before : UInt8) {ns : List ℕ}
    (hns : ∀ n ∈ ns, 0 < n ∧ n < message.length) :
    sentBy message ns ++ (before :: message).take (ns.getLast?.elim message.length fun n => message.length - n)
        = message ↔
      ns.length ≤ 1 ∧ message.drop ns.sum = (before :: message).take (message.length - ns.sum) := by
  have hcons : ∀ n, n ≤ message.length → ((before :: message).take n).length = n := by
    intro n hn
    rw [List.length_take, List.length_cons]
    omega
  cases ns with
  | nil =>
    show [] ++ (before :: message).take message.length = message ↔
      0 ≤ 1 ∧ message.drop 0 = (before :: message).take (message.length - 0)
    rw [List.nil_append, List.drop_zero, Nat.sub_zero]
    exact ⟨fun h => ⟨Nat.zero_le 1, h.symm⟩, fun h => h.2.symm⟩
  | cons n ns =>
    cases ns with
    | nil =>
      show message.take n ++ [] ++ (before :: message).take (message.length - n) = message ↔
        1 ≤ 1 ∧ message.drop (n + 0) = (before :: message).take (message.length - (n + 0))
      rw [List.append_nil, Nat.add_zero]
      constructor
      · intro h
        refine ⟨le_refl 1, ?_⟩
        have hsplit : message.take n ++ (before :: message).take (message.length - n)
            = message.take n ++ message.drop n := h.trans (List.take_append_drop n message).symm
        exact (List.append_cancel_left hsplit).symm
      · intro h
        rw [← h.2, List.take_append_drop]
    | cons k ks =>
      refine iff_of_false (fun h => ?_) fun h => absurd h.1 (by simp)
      -- the parts and the rest are too long
      have hlen := congrArg List.length h
      have hlast : ∃ l ∈ k :: ks, (n :: k :: ks).getLast? = some l := by
        refine ⟨(k :: ks).getLast (List.cons_ne_nil k ks), List.getLast_mem _, ?_⟩
        rw [List.getLast?_cons_cons, List.getLast?_eq_some_getLast]
      obtain ⟨l, hl, hget⟩ := hlast
      have hle : l ≤ (k :: ks).sum := List.le_sum_of_mem hl
      have hn := hns n List.mem_cons_self
      have hlsize := hns l (List.mem_cons_of_mem n hl)
      rw [List.length_append, length_sentBy fun j hj => (hns j hj).2.le, hget, Option.elim_some,
        hcons _ (by omega), List.sum_cons] at hlen
      omega

theorem leftAfter_eq (size : ℕ) (os : List WriteOutcome) :
    leftAfter size os = (counts os).getLast?.elim size fun n => size - n := by
  unfold leftAfter
  cases (counts os).getLast? with
  | none => rfl
  | some n => rfl

/-- What is queued in front of what was there. -/
theorem queued_iff {pending queued rest message accepted : List UInt8} (h : pending = queued ++ rest) :
    (∃ q, pending = q ++ rest ∧ accepted ++ q = message) ↔ accepted ++ queued = message := by
  constructor
  · intro hex
    obtain ⟨q, hq, hmessage⟩ := hex
    rw [← List.append_cancel_right (hq.symm.trans h)]
    exact hmessage
  · exact fun hmessage => ⟨queued, h, hmessage⟩

/-- A call that has ended has conserved its message exactly when it sent it once. -/
theorem SendEnd.conserved {nwrote : ℤ} {remaining : ℕ} (hend : SendEnd job.size v.outcomes nwrote remaining)
    (hpending : v.io.pending = job.bytes copy io.mem nwrote remaining ++ io.pending)
    (haccepted : v.accepted = sentBy (job.bytes copy io.mem 0 job.size) (counts v.outcomes)) :
    SendConserved io job copy v ↔
      SendsOnce (job.bytes copy io.mem 0 job.size) (job.byteAt copy io.mem (-1)) v.outcomes := by
  have hlen := job.length_bytes copy io.mem 0 job.size
  unfold SendConserved SendsOnce
  generalize hos : v.outcomes = os at hend haccepted ⊢
  cases hend with
  | none =>
    rw [if_neg (by simp), if_neg (by simp), queued_iff hpending, haccepted]
    refine iff_of_true rfl ⟨Nat.zero_le 1, fun h => ?_⟩
    obtain ⟨o, ho, -⟩ := h
    exact absurd ho List.not_mem_nil
  | @whole os o hgo ho hsize =>
    have hpos : 0 < o.ret := by omega
    have hcounts : counts (os ++ [o]) = counts os ++ [job.size] := by
      rw [counts_append, counts_taken hpos, ho, Int.toNat_natCast]
    have hsoft : ∀ o' ∈ os ++ [o], ¬o'.IsHard ∧ ¬(o'.ret < 0 ∧ o'.err = .wouldBlock) := by
      intro o' ho'
      obtain hold | hnew := List.mem_append.mp ho'
      · exact goesOn_not_hard hgo o' hold
      · rw [List.mem_singleton.mp hnew]
        exact ⟨fun hhard => absurd hhard.1 (by omega), fun hb => absurd hb.1 (by omega)⟩
    have hnot : ¬∃ o' ∈ os ++ [o], o'.IsHard := by
      intro hex
      obtain ⟨o', ho', hhard⟩ := hex
      exact (hsoft o' ho').1 hhard
    rw [if_neg hnot, if_neg hnot, queued_iff hpending, bytes_zero, List.append_nil, haccepted, hcounts]
    constructor
    · intro h
      have hsum := congrArg List.length h
      rw [length_sentBy, hlen, List.sum_append, List.sum_singleton] at hsum
      · refine ⟨?_, fun hex => ?_⟩
        · cases hns : counts os with
          | nil => exact le_refl 1
          | cons n ns =>
            have hn := counts_goesOn hgo n (by rw [hns]; exact List.mem_cons_self)
            rw [hns, List.sum_cons] at hsum
            omega
        · obtain ⟨o', ho', hblock⟩ := hex
          exact absurd hblock (hsoft o' ho').2
      · intro n hn
        obtain hold | hnew := List.mem_append.mp hn
        · exact (counts_goesOn hgo n hold).2.le.trans hlen.ge
        · rw [List.mem_singleton.mp hnew]
          exact hlen.ge
    · intro h
      have hnil : counts os = [] := by
        rw [List.length_append, List.length_singleton] at h
        exact List.length_eq_zero_iff.mp (by omega)
      rw [hnil]
      show (job.bytes copy io.mem 0 job.size).take job.size ++ [] = _
      rw [List.append_nil, List.take_of_length_le hlen.le]
  | @again os o hgo ho hblock hsize =>
    have hneg : o.ret < 0 := by omega
    have hcounts : counts (os ++ [o]) = counts os := by
      rw [counts_append, counts_failed hneg, List.append_nil]
    have hnot : ¬∃ o' ∈ os ++ [o], o'.IsHard := by
      intro hex
      obtain ⟨o', ho', hhard⟩ := hex
      obtain hold | hnew := List.mem_append.mp ho'
      · exact (goesOn_not_hard hgo o' hold).1 hhard
      · rw [List.mem_singleton.mp hnew] at hhard
        exact hhard.2.1 hblock
    have hle : leftAfter job.size os ≤ job.size := by
      rw [leftAfter_eq]
      cases (counts os).getLast? with
      | none => exact le_refl _
      | some n => exact Nat.sub_le _ _
    have hns : ∀ n ∈ counts os, 0 < n ∧ n < (job.bytes copy io.mem 0 job.size).length := by
      rw [hlen]
      exact counts_goesOn hgo
    rw [if_neg hnot, if_neg hnot, queued_iff hpending, haccepted, hcounts, bytes_before job copy _ hle,
      leftAfter_eq]
    have hagain := sentBy_again (job.byteAt copy io.mem (-1)) hns
    rw [hlen] at hagain
    rw [hlen, hagain]
    refine and_congr_right fun _ => ⟨fun h _ => h, fun h => h ⟨o, ?_, hneg, hblock⟩⟩
    exact List.mem_append_right _ (List.mem_singleton.mpr rfl)
  | @hard os o hgo ho =>
    have hex : ∃ o' ∈ os ++ [o], o'.IsHard := ⟨o, List.mem_append_right _ (List.mem_singleton.mpr rfl), ho⟩
    rw [if_pos hex, if_pos hex, haccepted]
    refine sentBy_prefix (fun n hn => ?_) _
    rw [counts_append, counts_failed ho.1, List.append_nil] at hn
    exact (counts_goesOn hgo n hn).2.le.trans hlen.ge

/-- **A plain `sendInLoop` and its message.**  For any message, any state of the connection and any answers
of the writes (a count between 1 and the length, or an error), once the call has ended: the accepted bytes
followed by those it has queued are the message, and after a hard error the accepted bytes are a prefix of
it, exactly when at most one write was accepted and, after would-block, what is left of the message happens
to be what is read from one byte before it on (before a hard error, when every accepted write took bytes that
were due). -/
theorem send_conserves (cfg : Config) (hk : cfg.kind = .plain) (w : Word) (io : Io) (job : Job)
    (copy : Option (List UInt8)) {xs : List Tick}
    (h : run (Visit.step cfg) (.enter w io (.sendInLoop .load job copy)) xs = some v)
    (hended : v.ended = true) (hcount : ∀ o ∈ v.outcomes, o.ret ≠ 0) :
    SendConserved io job copy v ↔
      SendsOnce (job.bytes copy io.mem 0 job.size) (job.byteAt copy io.mem (-1)) v.outcomes := by
  have hstart : SendVisit io job copy (.enter w io (.sendInLoop .load job copy)) :=
    .load rfl ⟨rfl, rfl, rfl, rfl⟩ rfl
  have hvisit := run_induction (SendVisit io job copy) hstart (fun _ _ _ hi hs => hi.step hk hs) h
  cases hvisit with
  | load hf hmid hos =>
    rw [Visit.ended, hf, hmid.crashed] at hended
    cases hended
  | write hf hmid hos hleft hsize =>
    rw [Visit.ended, hf, hmid.crashed] at hended
    cases hended
  | queue hf hmid hend =>
    rw [Visit.ended, hf, hmid.crashed] at hended
    cases hended
  | ended _ hpending haccepted hend => exact hend.conserved hpending haccepted
  | zero hzero =>
    obtain ⟨o, ho, hz⟩ := hzero
    exact absurd hz (hcount o ho)

/-- A fresh connection whose callers' storage holds 7, 1, 2 from one before address 0 on. -/
def sendIo : Io := (Conn.init Unit false false false fun at_ => if at_ = 0 then 1 else if at_ = 1 then 2 else 7).io

/-- A message of the two bytes 1 and 2. -/
def twoBytes : Job := ⟨0, .piece, 0, 2⟩

/-- The first write is interrupted, the second takes everything. -/
theorem send_conserves_interrupted :
    ∃ v, run (Visit.step plainConfig) (.enter established sendIo (.sendInLoop .load twoBytes none))
        [⟨false, .none⟩, ⟨false, .write ⟨-1, .interrupted, false, false⟩⟩,
          ⟨false, .write ⟨2, .fault, false, false⟩⟩] = some v ∧ SendConserved sendIo twoBytes none v := by
  have hrun : (run (Visit.step plainConfig) (.enter established sendIo (.sendInLoop .load twoBytes none))
      [⟨false, .none⟩, ⟨false, .write ⟨-1, .interrupted, false, false⟩⟩,
        ⟨false, .write ⟨2, .fault, false, false⟩⟩]).map (fun v => (v.ended, v.outcomes))
      = some (true, [⟨-1, .interrupted, false, false⟩, ⟨2, .fault, false, false⟩]) := by
    decide
  obtain ⟨v, hv, hend⟩ := Option.map_eq_some_iff.mp hrun
  obtain ⟨hended, houtcomes⟩ := Prod.mk.inj hend
  refine ⟨v, hv, (send_conserves plainConfig rfl established sendIo twoBytes none hv hended ?_).mpr ?_⟩
  · rw [houtcomes]
    decide
  · rw [houtcomes]
    decide

/-- The first write takes the 1, the second meets would-block: what is queued is the byte before the
message. -/
theorem send_queues_before :
    ∃ v, run (Visit.step plainConfig) (.enter established sendIo (.sendInLoop .load twoBytes none))
        [⟨false, .none⟩, ⟨false, .write ⟨1, .fault, false, false⟩⟩,
          ⟨false, .write ⟨-1, .wouldBlock, true, false⟩⟩, ⟨false, .none⟩] = some v ∧
      v.ended = true ∧ v.accepted = [1] ∧ v.io.pending = [7] ∧ ¬SendConserved sendIo twoBytes none v := by
  have hrun : (run (Visit.step plainConfig) (.enter established sendIo (.sendInLoop .load twoBytes none))
      [⟨false, .none⟩, ⟨false, .write ⟨1, .fault, false, false⟩⟩,
        ⟨false, .write ⟨-1, .wouldBlock, true, false⟩⟩, ⟨false, .none⟩]).map
        (fun v => (v.ended, v.accepted, v.io.pending, v.outcomes))
      = some (true, [1], [7], [⟨1, .fault, false, false⟩, ⟨-1, .wouldBlock, true, false⟩]) := by
    decide
  obtain ⟨v, hv, hend⟩ := Option.map_eq_some_iff.mp hrun
  obtain ⟨hended, hrest⟩ := Prod.mk.inj hend
  obtain ⟨haccepted, hrest⟩ := Prod.mk.inj hrest
  obtain ⟨hpending, houtcomes⟩ := Prod.mk.inj hrest
  refine ⟨v, hv, hended, haccepted, hpending, fun hconserved => ?_⟩
  rw [SendConserved, houtcomes, if_neg (by decide), haccepted, hpending] at hconserved
  obtain ⟨queued, hqueued, hmessage⟩ := hconserved
  rw [show sendIo.pending = [] from rfl, List.append_nil] at hqueued
  rw [← hqueued] at hmessage
  exact absurd hmessage (by decide)

/-! ### the write loop of the TLS class -/

/-- The call is in its write loop. -/
def Visit.inWrite (v : Visit) : Bool :=
  match v.frames with
  | .sendInLoop (.write _ _ _) _ _ :: _ => true
  | _ => false

/-- `sendInLoop` writes by itself. -/
def Direct (io : Io) (job : Job) : Prop :=
  io.channel.isWriting = false ∧ io.outputBuffers = [] ∧ 0 < job.size

/-- The loop thread enters `sendInLoop`, and its writes are answered one after the other. -/
def answered (spaces : ℕ → Bool) (outcomes : ℕ → WriteOutcome) (k : ℕ) : List Tick :=
  ⟨false, .none⟩ :: (List.range k).map fun i => ⟨spaces i, .write (outcomes i)⟩

/-- The writes are answered as `SSL_write` can: with at most what was asked for, or an error. -/
def Answers (cfg : Config) (v : Visit) (size : ℕ) (spaces : ℕ → Bool) (outcomes : ℕ → WriteOutcome) :
    Prop :=
  ∀ k v', run (Visit.step cfg) v (answered spaces outcomes k) = some v' → v'.inWrite = true →
    (outcomes k).admissible (v'.io.free (spaces k)).kernel size = true

/-- Some call takes the whole message or fails. -/
def Settles (size : ℕ) (outcomes : ℕ → WriteOutcome) : Prop :=
  ∃ k, (outcomes k).ret < 0 ∨ (outcomes k).ret = size

theorem inWrite_epilogue {old : Word} {io' : Io} {e : Effect} {f : Frame} {inp : Input}
    (hf : e.frames = (sendEpilogue w io' old job copy).frames) : (v.apply f [] inp e).inWrite = false := by
  have hleave := (sendEpilogue_leaves w io' old job copy).2.2
  unfold Visit.inWrite
  rw [show (v.apply f [] inp e).frames = (sendEpilogue w io' old job copy).frames by
    show e.frames ++ [] = _
    rw [List.append_nil, hf]]
  split
  · next hfs =>
    have hout := (hleave _ (by rw [hfs]; exact List.mem_cons_self)).1
    cases hout
  · rfl

/-- The first step of `sendInLoop`. -/
theorem sendLoad_cases {inp : Input} {e : Effect} (h : sendLoopStep cfg w io job copy .load inp = some e) :
    Direct io job ∧ e.frames = [.sendInLoop (.write w io.turns job.size) job copy] ∧ e.crash = false ∨
    ¬Direct io job ∧ (e.frames = [.sendInLoop (.queue w io.turns 0 job.size) job copy] ∨
      e.frames = (sendEpilogue w { io with turns := io.turns + 1 } w job copy).frames) := by
  have hdirect : (!io.channel.isWriting && io.outputBuffers.isEmpty && job.size != 0) = true
      ↔ Direct io job := by
    rw [Bool.and_eq_true, Bool.and_eq_true, Bool.not_eq_true', List.isEmpty_iff, bne_iff_ne, Direct,
      Nat.pos_iff_ne_zero, and_assoc]
  rw [sendLoopStep, Option.some.injEq] at h
  rw [← h]
  by_cases hif : (!io.channel.isWriting && io.outputBuffers.isEmpty && job.size != 0) = true
  · rw [if_pos hif]
    exact .inl ⟨hdirect.mp hif, rfl, rfl⟩
  · rw [if_neg hif]
    refine .inr ⟨fun hd => hif (hdirect.mpr hd), ?_⟩
    by_cases hsize : (job.size != 0) = true
    · rw [if_pos hsize]
      exact .inl rfl
    · rw [if_neg hsize]
      exact .inr rfl

/-- The call on entry. -/
theorem enter_inWrite (cfg : Config) (w : Word) (io : Io) (job : Job) (copy : Option (List UInt8)) :
    ∃ v, (Visit.enter w io (.sendInLoop .load job copy)).step cfg ⟨false, .none⟩ = some v ∧
      (Direct io job → ∃ old turn remaining,
        v.frames = [.sendInLoop (.write old turn remaining) job copy] ∧ v.crashed = false) ∧
      (¬Direct io job → v.inWrite = false) := by
  obtain ⟨v, hv⟩ : ∃ v, (Visit.enter w io (.sendInLoop .load job copy)).step cfg ⟨false, .none⟩ = some v :=
    ⟨_, rfl⟩
  obtain ⟨-, e, he, rfl⟩ := visit_frame rfl rfl hv
  refine ⟨_, hv, ?_⟩
  have hload : sendLoopStep cfg w io job copy .load .none = some e := he
  obtain ⟨hdirect, hframes, hcrash⟩ | ⟨hnot, hframes | hframes⟩ := sendLoad_cases hload
  · refine ⟨fun _ => ⟨w, io.turns, job.size, ?_, hcrash⟩, fun hn => absurd hdirect hn⟩
    show e.frames ++ [] = _
    rw [hframes]
    rfl
  · refine ⟨fun hd => absurd hd hnot, fun _ => ?_⟩
    unfold Visit.inWrite
    show (match e.frames ++ [] with | .sendInLoop (.write _ _ _) _ _ :: _ => true | _ => false) = false
    rw [hframes]
    rfl
  · exact ⟨fun hd => absurd hd hnot, fun _ => inWrite_epilogue hframes⟩

/-- A write of the TLS class: a part leaves it in its loop, everything else takes it out. -/
theorem write_inWrite (hk : cfg.kind = .ssl) {old : Word} {turn remaining : ℕ}
    (hf : v.frames = [.sendInLoop (.write old turn remaining) job copy]) (hc : v.crashed = false)
    {b : Bool} {o : WriteOutcome} (hadm : o.admissible (v.io.free b).kernel job.size = true) :
    ∃ v', v.step cfg ⟨b, .write o⟩ = some v' ∧
      (0 ≤ o.ret ∧ o.ret ≠ job.size → ∃ left,
        v'.frames = [.sendInLoop (.write old turn left) job copy] ∧ v'.crashed = false) ∧
      (o.ret < 0 ∨ o.ret = job.size → v'.inWrite = false) := by
  have hframe : frameStep cfg v.word (v.io.free b) (.sendInLoop (.write old turn remaining) job copy) (.write o)
      = some (sendWrite cfg v.word (v.io.free b) old turn remaining job copy o) := by
    rw [frameStep, sendLoopStep, if_pos hadm]
  have hstep : v.step cfg ⟨b, .write o⟩ = some (v.apply (.sendInLoop (.write old turn remaining) job copy) []
      (.write o) (sendWrite cfg v.word (v.io.free b) old turn remaining job copy o)) := by
    rw [visit_step hf hc rfl, hframe, Option.map_some]
  have hbound : o.ret ≤ job.size := by
    simp only [WriteOutcome.admissible, Bool.and_eq_true] at hadm
    exact of_decide_eq_true hadm.1.1.2
  refine ⟨_, hstep, fun hpart => ?_, fun hend => ?_⟩
  · obtain ⟨-, hcrash, hframes⟩ := @sendWrite_part cfg job v.word old (v.io.free b) turn remaining copy
      o.ret.toNat o (by omega) (by omega)
    refine ⟨job.size - o.ret.toNat, ?_, hcrash⟩
    show _ ++ [] = _
    rw [hframes]
    rfl
  · by_cases hwhole : o.ret = job.size
    · exact inWrite_epilogue (@sendWrite_whole cfg job v.word old (v.io.free b) turn remaining copy o hwhole).2.2
    · have hneg := hend.resolve_right hwhole
      have hfinal : ∀ e : Effect, e = sendWrite cfg v.word (v.io.free b) old turn remaining job copy o →
          (∃ nwrote, e.frames = [.sendInLoop (.queue old turn nwrote remaining) job copy]) ∨
          ∃ io', e.frames = (sendEpilogue v.word io' old job copy).frames := by
        intro e he
        rw [sendWrite, if_neg (by omega), hk] at he
        cases herr : o.err with
        | wouldBlock =>
          rw [he, herr]
          exact .inl ⟨o.ret, rfl⟩
        | wantRead =>
          rw [he, herr]
          exact .inl ⟨o.ret, rfl⟩
        | interrupted =>
          rw [he, herr]
          exact .inr ⟨_, rfl⟩
        | fault =>
          rw [he, herr]
          exact .inr ⟨_, rfl⟩
      obtain ⟨nwrote, hframes⟩ | ⟨io', hframes⟩ := hfinal _ rfl
      · unfold Visit.inWrite
        show (match (sendWrite cfg v.word (v.io.free b) old turn remaining job copy o).frames ++ [] with
          | .sendInLoop (.write _ _ _) _ _ :: _ => true
          | _ => false) = false
        rw [hframes]
        rfl
      · exact inWrite_epilogue hframes

/-- Parts only: the loop is where it was. -/
theorem run_inWrite (hk : cfg.kind = .ssl) {spaces : ℕ → Bool} {outcomes : ℕ → WriteOutcome}
    (hanswers : Answers cfg (.enter w io (.sendInLoop .load job copy)) job.size spaces outcomes)
    (hdirect : Direct io job) {k : ℕ} (hparts : ∀ i < k, 0 ≤ (outcomes i).ret ∧ (outcomes i).ret ≠ job.size) :
    ∃ v old turn remaining, run (Visit.step cfg) (.enter w io (.sendInLoop .load job copy))
        (answered spaces outcomes k) = some v ∧
      v.frames = [.sendInLoop (.write old turn remaining) job copy] ∧ v.crashed = false := by
  induction k with
  | zero =>
    obtain ⟨v, hv, hd, -⟩ := enter_inWrite cfg w io job copy
    obtain ⟨old, turn, remaining, hf, hc⟩ := hd hdirect
    exact ⟨v, old, turn, remaining, run_cons_eq_some.mpr ⟨v, hv, rfl⟩, hf, hc⟩
  | succ k ih =>
    obtain ⟨v, old, turn, remaining, hrun, hf, hc⟩ := ih fun i hi => hparts i (by omega)
    have hadm := hanswers k v hrun (by rw [Visit.inWrite, hf])
    obtain ⟨v', hv', hpart, -⟩ := write_inWrite hk hf hc hadm
    obtain ⟨left, hf', hc'⟩ := hpart (hparts k (Nat.lt_succ_self k))
    refine ⟨v', old, turn, left, ?_, hf', hc'⟩
    have hmore := run_concat hrun hv'
    rw [answered, List.range_succ, List.map_append, ← List.cons_append]
    exact hmore

/-- **The write loop of `ssl_TcpConnection::sendInLoop` stops.**  For any message, any state of the connection
and any answers of `SSL_write` (a count up to the length, 0 included, or an error), the loop is left after
finitely many calls exactly when it is not entered or some call takes the whole message or fails. -/
theorem ssl_send_stops (cfg : Config) (hk : cfg.kind = .ssl) (w : Word) (io : Io) (job : Job)
    (copy : Option (List UInt8)) (spaces : ℕ → Bool) (outcomes : ℕ → WriteOutcome)
    (hanswers : Answers cfg (.enter w io (.sendInLoop .load job copy)) job.size spaces outcomes) :
    (∃ k v, run (Visit.step cfg) (.enter w io (.sendInLoop .load job copy)) (answered spaces outcomes k)
        = some v ∧ v.inWrite = false) ↔ ¬Direct io job ∨ Settles job.size outcomes := by
  constructor
  · intro hstop
    obtain ⟨k, v, hrun, hout⟩ := hstop
    by_contra hnot
    obtain ⟨hdirect, hparts⟩ := not_or.mp hnot
    have hall : ∀ i < k, 0 ≤ (outcomes i).ret ∧ (outcomes i).ret ≠ job.size := by
      intro i _
      have hi := not_exists.mp hparts i
      rw [not_or] at hi
      exact ⟨Int.not_lt.mp hi.1, hi.2⟩
    obtain ⟨v', old, turn, remaining, hrun', hf, -⟩ :=
      run_inWrite hk hanswers (not_not.mp hdirect) hall
    obtain rfl : v = v' := Option.some.inj (hrun.symm.trans hrun')
    rw [Visit.inWrite, hf] at hout
    cases hout
  · intro hcond
    by_cases hdirect : Direct io job
    · -- the first answer that is no part takes the call out of the loop
      have hsettles := hcond.resolve_left fun hn => hn hdirect
      classical
      obtain ⟨k, hend, hfirst⟩ : ∃ k, ((outcomes k).ret < 0 ∨ (outcomes k).ret = job.size) ∧
          ∀ i < k, ¬((outcomes i).ret < 0 ∨ (outcomes i).ret = job.size) :=
        ⟨Nat.find hsettles, Nat.find_spec hsettles, fun i hi => Nat.find_min hsettles hi⟩
      have hparts : ∀ i < k, 0 ≤ (outcomes i).ret ∧ (outcomes i).ret ≠ job.size := by
        intro i hi
        have hno := hfirst i hi
        rw [not_or] at hno
        exact ⟨Int.not_lt.mp hno.1, hno.2⟩
      obtain ⟨v, old, turn, remaining, hrun, hf, hc⟩ := run_inWrite hk hanswers hdirect hparts
      have hadm := hanswers k v hrun (by rw [Visit.inWrite, hf])
      obtain ⟨v', hv', -, hout⟩ := write_inWrite hk hf hc hadm
      refine ⟨k + 1, v', ?_, hout hend⟩
      rw [answered, List.range_succ, List.map_append, ← List.cons_append]
      exact run_concat hrun hv'
    · obtain ⟨v, hv, -, hout⟩ := enter_inWrite cfg w io job copy
      exact ⟨0, v, run_cons_eq_some.mpr ⟨v, hv, rfl⟩, hout hdirect⟩

/-- The loop's data of a fresh TLS connection. -/
def tlsIo : Io := (Conn.init Unit false false true fun _ => 7).io

theorem direct_tls : Direct tlsIo twoBytes := ⟨rfl, rfl, Nat.zero_lt_two⟩

/-- `SSL_write` takes nothing and does not block. -/
theorem admissible_nothing (k : Kernel) (size : ℕ) {ret : ℤ} (h : ret = 0 ∨ ret = -1) :
    WriteOutcome.admissible ⟨ret, .fault, false, false⟩ k size = true := by
  obtain rfl | rfl := h
  · simp [WriteOutcome.admissible]
  · have hneg : (-1 : ℤ) ≤ size := by omega
    simp [WriteOutcome.admissible, hneg]

/-- The first call reports 0, the second an error. -/
theorem ssl_send_stops_failed :
    ∃ k v, run (Visit.step sslConfig) (.enter established tlsIo (.sendInLoop .load twoBytes none))
      (answered (fun _ => false) (fun k => ⟨if k = 0 then 0 else -1, .fault, false, false⟩) k) = some v ∧
      v.inWrite = false := by
  refine (ssl_send_stops sslConfig rfl established tlsIo twoBytes none (fun _ => false)
    (fun k => ⟨if k = 0 then 0 else -1, .fault, false, false⟩) ?_).mpr (.inr ⟨1, .inl (by decide)⟩)
  intro k v _ _
  refine admissible_nothing _ _ ?_
  split
  · exact .inl rfl
  · exact .inr rfl

/-- `SSL_write` reports 0, for a session that is closed, and goes on doing so. -/
theorem ssl_send_spins :
    ¬∃ k v, run (Visit.step sslConfig) (.enter established tlsIo (.sendInLoop .load twoBytes none))
      (answered (fun _ => false) (fun _ => ⟨0, .fault, false, false⟩) k) = some v ∧ v.inWrite = false := by
  intro hstop
  obtain ⟨k, v, hrun, hout⟩ := hstop
  have hanswers : Answers sslConfig (.enter established tlsIo (.sendInLoop .load twoBytes none))
      twoBytes.size (fun _ => false) (fun _ => ⟨0, .fault, false, false⟩) := fun _ v _ _ =>
    admissible_nothing _ _ (.inl rfl)
  obtain ⟨v', old, turn, remaining, hrun', hf, -⟩ :=
    run_inWrite rfl hanswers direct_tls (k := k) fun _ _ => ⟨le_refl 0, by decide⟩
  obtain rfl : v = v' := Option.some.inj (hrun.symm.trans hrun')
  rw [Visit.inWrite, hf] at hout
  cases hout

end KwNet.Tcp
