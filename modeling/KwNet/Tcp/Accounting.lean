import KwNet.Tcp.Delivery

/-!
# The sender field at rest

The barrier needs the sender field to be at least what is outstanding.  Whether it comes back to zero
needs the other direction, and that rests on `sendInLoop`: it takes its snapshot of the word before it
writes and releases its sender with one CAS on that snapshot after it.  If a send is admitted in
between, the CAS fails and `sendInLoop` returns, and its sender stays in the field for good.

* `Frame.inWindow` — between the snapshot and the CAS;
* `SettledInv` — the field is at most what is outstanding, the snapshot of a running `sendInLoop` is
  current, and whoever left the field empty with `writing` set is about to take care of it;
* **`senders_settled`** — where no admission falls into the window and no message is dropped by a full
  queue, a connection at rest has an empty field and no `writing`.
-/

namespace KwNet.Tcp

open KwNet.Lib

variable {ι : Type} {cfg : Config} {io : Io} {p : Phase}

/-- `sendInLoop` between its snapshot and the CAS on it. -/
def Frame.inWindow : Frame → Bool
  | .sendInLoop (.write _ _ _) _ _ | .sendInLoop (.queue _ _ _ _) _ _ | .sendInLoop (.cas _) _ _ => true
  | _ => false

/-- A send is admitted while a `sendInLoop` is in its window. -/
def AdmitsInWindow (s : Conn ι) (a : Action ι) : Prop :=
  Admits s a ∧ s.loop.head?.any Frame.inWindow = true

instance (s : Conn ι) (a : Action ι) : Decidable (AdmitsInWindow s a) :=
  inferInstanceAs (Decidable (_ ∧ _))

/-- The snapshot of `sendInLoop` is the word, unless the connection has been closed. -/
def Frame.Current (w : Word) : Frame → Prop
  | .sendInLoop (.write old _ _) _ _ | .sendInLoop (.queue old _ _ _) _ _
  | .sendInLoop (.cas old) _ _ => w = Phase.closed.word ∨ w = old
  | _ => True

/-- The call is about to count itself, after it has set `writing`. -/
def Call.marks : Call → Bool
  | .send (.casFirst _) _ => true
  | _ => false

def Caller.marks : Caller → Bool
  | .calling c => c.marks
  | _ => false

/-- The frame is about to count itself, or to clear `writing`. -/
def Frame.marks : Frame → Bool
  | .call c _ => c.marks
  | .sendInLoop (.clear _) _ _ => true
  | _ => false

/-- Somebody answers for `writing` on a connection without senders. -/
def Conn.Marked (s : Conn ι) : Prop :=
  (∃ t, (s.callers t).marks = true) ∨ s.loop.head?.any Frame.marks = true

theorem Frame.current_closed (f : Frame) : f.Current Phase.closed.word := by
  unfold Frame.Current
  split <;> first | exact .inl rfl | trivial

theorem Frame.current_of_not_inWindow {f : Frame} {w : Word} (h : f.inWindow = false) :
    f.Current w := by
  unfold Frame.inWindow at h
  unfold Frame.Current
  split <;> trivial

theorem Call.wake_marks (c : Call) : c.wake.marks = c.marks := by
  unfold Call.wake
  split <;> rfl

theorem Caller.wake_marks (c : Caller) : c.wake.marks = c.marks := by
  cases c with
  | calling c => exact c.wake_marks
  | _ => rfl

theorem Frame.wake_marks (f : Frame) : f.wake.marks = f.marks := by
  unfold Frame.wake
  split
  · exact Call.wake_marks _
  · rfl
  · rfl

theorem Frame.wake_current {f : Frame} {w : Word} (h : f.Current w) : f.wake.Current w := by
  unfold Frame.wake
  split
  · trivial
  · trivial
  · exact h

theorem Frame.inWindow_of_isHandler {f : Frame} (h : f.isHandler = true) : f.inWindow = false := by
  cases f <;> first | rfl | cases h

theorem Frame.inWindow_of_suspended {f : Frame} {kind : Kind} (h : f.suspended kind = true) :
    f.inWindow = false := by
  unfold Frame.suspended at h
  split at h
  · rfl
  · exact Frame.inWindow_of_isHandler h

theorem Frame.inWindow_of_isEntry {f : Frame} (h : f.isEntry = true) : f.inWindow = false := by
  unfold Frame.isEntry at h
  split at h <;> first | rfl | cases h

/-! ### One step of the top frame -/

/-- With `n` outstanding before the step of the frame `f`: its effect leaves no more senders in the
field than are outstanding after it, a current snapshot on top, and somebody who answers for
`writing`. -/
structure FrameSettles (n : ℕ) (p : Phase) (f : Frame) (e : Effect) : Prop where
  settled : ∀ m c, m + owed.frame f = n + owed.frames e.frames → c < 2 ^ 58 →
    e.word = (Phase.busy c).word → c ≤ m
  current : ∀ g, e.frames.head? = some g → g.Current e.word
  marked : e.word = (Phase.busy 0).word →
    p.word = (Phase.busy 0).word ∧ f.marks = false ∨ e.frames.head?.any Frame.marks = true

/-- The sender field holds at most `n`. -/
def Phase.Settled (n : ℕ) (p : Phase) : Prop :=
  ∀ c, c < 2 ^ 58 → p.word = (Phase.busy c).word → c ≤ n

theorem FrameSettles.same {n : ℕ} {f : Frame} {e : Effect} (hn : p.Settled n)
    (hw : e.word = p.word) (howed : owed.frame f ≤ owed.frames e.frames)
    (hcur : ∀ g, e.frames.head? = some g → g.Current p.word) (hm : f.marks = false) :
    FrameSettles n p f e := by
  refine ⟨fun m c hm hc hbusy => ?_, ?_, fun hbusy => .inl ⟨by rw [← hw]; exact hbusy, hm⟩⟩
  · have hle := hn c hc (by rw [← hw]; exact hbusy)
    omega
  · rw [hw]
    exact hcur

/-- Phases without a sender field leave nothing to settle. -/
theorem FrameSettles.quiet {n : ℕ} {f : Frame} {e : Effect} {q : Phase} (hw : e.word = q.word)
    (hq : has q.word .writing = false) (hcur : ∀ g, e.frames.head? = some g → g.Current e.word) :
    FrameSettles n p f e := by
  refine ⟨fun m c _ _ hbusy => ?_, hcur, fun hbusy => ?_⟩
  · exact absurd (hbusy.symm.trans hw) (busy_ne c hq)
  · exact absurd (hbusy.symm.trans hw) (busy_ne 0 hq)

theorem SendMid.settles {old : Word} {job : Job} {copy : Option (List UInt8)} {fs : List Frame}
    {evs : List Event} (h : SendMid old job copy fs evs) (hu : has old .used = true)
    (hw : has old .writing = true) :
    owed.frames fs = 1 ∧ ∀ g, fs.head? = some g → g.Current old := by
  cases h with
  | write => exact ⟨rfl, by rintro g ⟨⟩; exact .inr rfl⟩
  | queue => exact ⟨rfl, by rintro g ⟨⟩; exact .inr rfl⟩
  | cas => exact ⟨rfl, by rintro g ⟨⟩; exact .inr rfl⟩
  | unused hu' => rw [hu] at hu'; cases hu'
  | impossible _ hw' => rw [hw] at hw'; cases hw'

/-- A step of `sendInLoop` towards its CAS, on the snapshot it took. -/
theorem SendMove.settles {n : ℕ} {old : Word} {job : Job} {copy : Option (List UInt8)}
    {pre : List Event} {pc : SendLoopPc} {e : Effect} (h : SendMove p.word old io job copy pre e)
    (hn : p.Allows n) (hset : p.Settled n) (hle : 1 ≤ n) (hpc : pc.holds = 1)
    (hold : p.word = Phase.closed.word ∨ p.word = old) :
    FrameSettles n p (.sendInLoop pc job copy) e := by
  obtain ⟨evs, -, hmid⟩ := h.mid
  rcases hn.live hle with hd | ⟨hu, hw⟩
  · obtain rfl : p = .closed := by cases p <;> first | rfl | simp at hd
    exact .quiet h.word (by simp) fun g _ => by rw [h.word]; exact g.current_closed
  · have hcur : p.word = old := hold.resolve_left fun hclosed => by
      rw [hclosed] at hu
      exact absurd hu (by decide)
    obtain ⟨hone, htop⟩ := hmid.settles (hcur ▸ hu) (hcur ▸ hw)
    refine .same hset h.word ?_ (by rw [hcur]; exact htop) (by cases pc <;> first | rfl | cases hpc)
    rw [hone]
    exact Nat.le_of_eq hpc

theorem sendLoopStep_settles {n : ℕ} {job : Job} {copy : Option (List UInt8)} {pc : SendLoopPc}
    {inp : Input} {e : Effect} (hpc : pc.Ok) (hn : p.Allows n) (hset : p.Settled n)
    (hle : pc.holds ≤ n) (hcur : (Frame.sendInLoop pc job copy).Current p.word)
    (h : sendLoopStep cfg p.word io job copy pc inp = some e) :
    FrameSettles n p (.sendInLoop pc job copy) e := by
  cases sendLoopStep_move h with
  | load hm => exact hm.settles hn hset hle rfl (.inr rfl)
  | write hm => exact hm.settles hn hset hle rfl hcur
  | queue hm => exact hm.settles hn hset hle rfl hcur
  | last hw hlast =>
    obtain ⟨d, rfl⟩ := hpc
    obtain ⟨c, rfl⟩ := Phase.eq_busy hw
    have hone : c = 1 := by
      have hmod := (busy_last c).mp (hw ▸ hlast)
      rw [Nat.mod_eq_of_lt hn.2] at hmod
      exact hmod
    subst hone
    refine ⟨fun m c _ hc hbusy => ?_, by rintro g ⟨⟩; trivial, fun _ => .inr rfl⟩
    have hzero : (Phase.busy 0).word = (Phase.busy c).word := by
      rw [← hbusy, Effect.goto, ← hw]
      exact (busy_sub 0).symm
    rw [← busy_inj (Nat.two_pow_pos 58) hc hzero]
    exact Nat.zero_le m
  | release hw hlast =>
    obtain ⟨d, rfl⟩ := hpc
    obtain ⟨c, rfl⟩ := Phase.eq_busy hw
    have hlt := hn.2
    obtain ⟨c, rfl⟩ : ∃ c', c = c' + 1 := Nat.exists_eq_succ_of_ne_zero (by
      have hnc := hn.1
      have hle' : 1 ≤ n := hle
      omega)
    have hword : (Phase.busy d).word - oneSender = (Phase.busy c).word := by rw [← hw, busy_sub]
    have hmax := hset (c + 1) hlt rfl
    refine ⟨fun m c' hm hc hbusy => ?_, forall_none, fun hbusy => ?_⟩
    · obtain rfl : c = c' := busy_inj (by omega) hc (hword.symm.trans hbusy)
      have hm' : m + 1 = n := hm
      omega
    · obtain rfl : c = 0 := busy_inj (by omega) (Nat.two_pow_pos 58) (hword.symm.trans hbusy)
      exact absurd (hw ▸ (busy_last 1).mpr rfl) hlast
  | casFailed hne =>
    have hclosed : p.word = Phase.closed.word := hcur.resolve_right hne
    exact .quiet (q := .closed) hclosed (by simp) forall_none
  | clear hw =>
    obtain rfl : _ = (Phase.busy 0).word := hpc
    exact .quiet (q := .idle) busy_zero_xor (by simp) (by rintro g ⟨⟩; trivial)
  | clearFailed hne =>
    obtain rfl : _ = (Phase.busy 0).word := hpc
    refine ⟨fun m c hm hc hbusy => ?_, forall_none, fun hbusy => absurd hbusy hne⟩
    have hm' : m = n := hm
    rw [hm']
    exact hset c hc hbusy
  | wake => exact .same hset rfl (Nat.le_refl 0) forall_none rfl

theorem hupStep_settles {n : ℕ} {pc : HupPc} (hset : p.Settled n) :
    FrameSettles n p (.hup pc) (hupStep cfg p.word io pc) := by
  have htop : ∀ {fs : List Frame}, (∀ g, fs.head? = some g → g.inWindow = false) →
      ∀ g, fs.head? = some g → g.Current p.word := fun h g hg =>
    Frame.current_of_not_inWindow (h g hg)
  cases pc with
  | store => exact .quiet (q := .closed) rfl (by simp) fun g _ => g.current_closed
  | load =>
    simp only [hupStep]
    split
    · exact .same hset rfl (Nat.le_refl 0) forall_none rfl
    · split <;> exact .same hset rfl (Nat.le_refl 0) (htop (by rintro g ⟨⟩; rfl)) rfl
  | free => exact .same hset rfl (Nat.le_refl 0) (htop (by rintro g ⟨⟩; rfl)) rfl
  | close =>
    simp only [hupStep]
    split <;> exact .same hset rfl (Nat.le_refl 0) (htop (by rintro g ⟨⟩; rfl)) rfl
  | wake =>
    simp only [hupStep]
    split
    · exact .same hset rfl (Nat.le_refl 0) (htop (by rintro g ⟨⟩; rfl)) rfl
    · exact .same hset rfl (Nat.le_refl 0) forall_none rfl
  | callback =>
    simp only [hupStep]
    split <;> exact .same hset rfl (Nat.le_refl 0) (htop (by rintro g ⟨⟩; rfl)) rfl

theorem delayStep_settles {n : ℕ} {pc : DelayPc} (hset : p.Settled n) :
    FrameSettles n p (.delay pc) (delayStep p.word io pc) := by
  cases pc with
  | store => exact .quiet (q := .shut) rfl (by simp) forall_none
  | isConnected =>
    simp only [delayStep]
    split <;> exact .same hset rfl (Nat.le_refl 0) (by rintro g ⟨⟩; trivial) rfl
  | isDisconnecting =>
    simp only [delayStep]
    split
    · exact .same hset rfl (Nat.le_refl 0) (by rintro g ⟨⟩; trivial) rfl
    · exact .same hset rfl (Nat.le_refl 0) forall_none rfl

/-! ### Calls -/

/-- The second CAS of a first sender succeeds on the word it left. -/
theorem callStep_marks {c : Call} {e : CallEffect} (hc : c.Ok) (hm : c.marks = true)
    (h : callStep (Phase.busy 0).word c = some e) : e.word = (Phase.busy 1).word := by
  unfold Call.marks at hm
  split at hm
  · obtain rfl : _ = (Phase.busy 0).word := hc
    simp only [callStep, sendStep, if_true, Option.some.injEq] at h
    rw [← h]
    exact busy_add 0
  · cases hm

/-- The call goes on to its second CAS. -/
def Next.marks : Next → Bool
  | .goto c => c.marks
  | _ => false

theorem callStep_marked {c : Call} {e : CallEffect} (hc : c.Ok) (h : callStep p.word c = some e)
    (hlt : ∀ d, p = .busy d → d + 1 < 2 ^ 58 ∨ c.admitting p.word = false)
    (hw : e.word = (Phase.busy 0).word) :
    p.word = (Phase.busy 0).word ∧ c.marks = false ∨ e.next.marks = true := by
  have hm := callStep_move hc h
  cases hm with
  | quiet =>
    refine .inl ⟨hw, Bool.eq_false_iff.mpr fun hmark => ?_⟩
    have hw' : p.word = (Phase.busy 0).word := hw
    rw [hw'] at h
    have hone : (Phase.busy 0).word = (Phase.busy 1).word := callStep_marks hc hmark h
    exact absurd (busy_inj (by decide) (by decide) hone) (by decide)
  | mark => exact .inr rfl
  | @admits d pc job hadm =>
    rcases hlt d rfl with hlt | hnot
    · exact absurd (busy_inj hlt (Nat.two_pow_pos 58) hw) (by omega)
    · rw [hadm] at hnot
      cases hnot
  | clear => exact absurd hw.symm (busy_ne 0 (p := .unused) (by simp))
  | win => exact absurd hw.symm (busy_ne 0 (p := .shut) (by simp))

theorem CallMove.settled {c : Call} {e : CallEffect} {n : ℕ} (h : CallMove p c e)
    (hn : p.Allows n) (hset : p.Settled n)
    (hroom : c.admitting p.word = true → (p.word >>> sendersOffset).toNat + 1 < 2 ^ 58) :
    ∀ d, d < 2 ^ 58 → e.word = (Phase.busy d).word → d ≤ n + owed.caller e.next.caller := by
  intro d hd hw
  cases h with
  | quiet => exact Nat.le_trans (hset d hd hw) (Nat.le_add_right _ _)
  | mark =>
    rw [← busy_inj (by decide) hd hw]
    exact Nat.zero_le _
  | @admits c pc job hadm =>
    have hlt := hroom hadm
    rw [busy_field hn.2] at hlt
    have hle := hset c hn.2 rfl
    rw [← busy_inj hlt hd hw]
    exact Nat.add_le_add_right hle 1
  | clear => exact absurd hw.symm (busy_ne d (p := .unused) (by simp))
  | win => exact absurd hw.symm (busy_ne d (p := .shut) (by simp))

/-- The snapshot of a running `sendInLoop` survives a call that is not an admission. -/
theorem CallMove.current {c : Call} {e : CallEffect} {n : ℕ} {f : Frame} (h : CallMove p c e)
    (hn : p.Allows n) (hle : owed.frame f ≤ n)
    (hwindow : c.admitting p.word = true → f.inWindow = false) (hf : f.Current p.word) :
    f.Current e.word := by
  cases hwin : f.inWindow with
  | false => exact Frame.current_of_not_inWindow hwin
  | true =>
    have hone : owed.frame f = 1 := by
      unfold Frame.inWindow at hwin
      split at hwin <;> first | rfl | cases hwin
    have hne : n ≠ 0 := by omega
    cases h with
    | quiet => exact hf
    | mark => exact absurd hn hne
    | admits hadm =>
      rw [hwindow hadm] at hwin
      cases hwin
    | clear => exact absurd hn hne
    | win => exact absurd hn hne

theorem Next.frames_top (next : Next) (k : Cont) {w : Word} :
    (∀ g, (next.frames k).head? = some g → g.Current w) ∧
      (next.marks = true → (next.frames k).head?.any Frame.marks = true) := by
  constructor
  · rintro g hg
    cases next <;> cases k <;> cases hg <;> trivial
  · intro hm
    cases next with
    | goto c => exact hm
    | _ => cases hm

theorem frameStep_settles {f : Frame} {inp : Input} {e : Effect} {n : ℕ} (hf : f.Ok)
    (hn : p.Allows n) (hset : p.Settled n) (hle : owed.frame f ≤ n) (hcur : f.Current p.word)
    (hroom : ∀ c k, f = .call c k → c.admitting p.word = true →
      (p.word >>> sendersOffset).toNat + 1 < 2 ^ 58)
    (h : frameStep cfg p.word io f inp = some e) : FrameSettles n p f e := by
  cases f with
  | user => cases h
  | call c k =>
    obtain ⟨ce, hce, rfl⟩ := Option.map_eq_some_iff.mp h
    obtain ⟨htop, hmark⟩ := ce.next.frames_top k (w := ce.word)
    have hfit := hroom c k rfl
    refine ⟨fun m d hm hd hw => ?_, htop, fun hw => ?_⟩
    · have hm' : m + owed.ofCall c = n + owed.frames (ce.next.frames k) := hm
      rw [owed_ofCall, Next.frames_measure, Nat.add_zero] at hm'
      rw [hm']
      exact (callStep_move hf.1 hce).settled hn hset hfit d hd hw
    · refine (callStep_marked hf.1 hce ?_ hw).imp id hmark
      rintro d rfl
      cases hadm : c.admitting (Phase.busy d).word with
      | false => exact .inr rfl
      | true =>
        have hlt := hfit hadm
        rw [busy_field hn.2] at hlt
        exact .inl hlt
  | sendInLoop pc job copy => exact sendLoopStep_settles hf hn hset hle hcur h
  | shutdownInLoop =>
    cases h
    exact .same hset rfl (Nat.le_refl 0) forall_none rfl
  | hup pc =>
    cases h
    exact hupStep_settles hset
  | delay pc =>
    cases h
    exact delayStep_settles hset
  | handler pc =>
    have hm := handlerStep_move h
    refine .same hset hm.word (Nat.zero_le _) (fun g hg => ?_) rfl
    have hhandler := List.all_eq_true.mp hm.frames g (List.mem_of_head? hg)
    exact Frame.current_of_not_inWindow (Frame.inWindow_of_isHandler hhandler)

/-! ### The invariant -/

variable [Fintype ι]

/-- The sender field counts exactly what is outstanding. -/
structure SettledInv (cfg : Config) (s : Conn ι) : Prop extends BarrierInv cfg s where
  settled : ∀ c, c < 2 ^ 58 → s.word = (Phase.busy c).word → c ≤ s.owed
  current : ∀ f, s.loop.head? = some f → f.Current s.word
  marked : s.word = (Phase.busy 0).word → s.Marked

variable {s s' : Conn ι} [DecidableEq ι]

/-- The steps that keep the field exact. -/
def KeepsSettled (s : Conn ι) (a : Action ι) : Prop :=
  NoOverflow s a ∧ ¬ AdmitsInWindow s a ∧ s.dropsSend a = false

instance (s : Conn ι) (a : Action ι) : Decidable (KeepsSettled s a) :=
  inferInstanceAs (Decidable (_ ∧ _))

omit [Fintype ι] in
theorem afterCall_callers {t u : ι} {e : CallEffect} (h : u ≠ t) :
    ((s.afterCall t e).callers u).marks = (s.callers u).marks := by
  unfold Conn.afterCall Conn.setCaller
  dsimp only
  rw [Function.update_of_ne h]
  split
  · exact Caller.wake_marks _
  · rfl

omit [Fintype ι] in
/-- A thread's call does not disturb the others that answer for `writing`. -/
theorem Conn.Marked.afterCall {t : ι} {c : Call} {e : CallEffect} (h : s.Marked)
    (ht : s.callers t = .calling c) (hc : c.marks = false) : (s.afterCall t e).Marked := by
  rcases h with ⟨u, hu⟩ | htop
  · refine .inl ⟨u, ?_⟩
    rw [afterCall_callers, hu]
    rintro rfl
    rw [ht] at hu
    exact Bool.false_ne_true (hc.symm.trans hu)
  · right
    rcases afterCall_loop (s := s) t e with hl | hl
    · rw [hl]
      exact htop
    · rw [hl, List.head?_map, Option.any_map]
      refine htop ▸ ?_
      cases s.loop.head? with
      | none => rfl
      | some f => exact f.wake_marks

omit [Fintype ι] [DecidableEq ι] in
/-- A step of a frame that does not answer for `writing` leaves those that do. -/
theorem Conn.Marked.apply {f : Frame} {rest : List Frame} {e : Effect} (h : s.Marked)
    (hl : s.loop = f :: rest) (hf : f.marks = false) : (s.apply rest e).Marked := by
  rcases h with ⟨u, hu⟩ | htop
  · refine .inl ⟨u, ?_⟩
    unfold Conn.apply
    dsimp only
    split
    · rw [Caller.wake_marks]
      exact hu
    · exact hu
  · rw [hl] at htop
    exact absurd (hf.symm.trans htop) Bool.false_ne_true

omit [Fintype ι] in
theorem Conn.Marked.giveUp {t : ι} {f : Functor} {evs : List Event} (h : s.Marked)
    (ht : s.callers t = .queueing f) :
    ({ s.setCaller t .idle with log := evs } : Conn ι).Marked := by
  rcases h with ⟨u, hu⟩ | htop
  · refine .inl ⟨u, ?_⟩
    show (Function.update s.callers t .idle u).marks = true
    rw [Function.update_of_ne, hu]
    rintro rfl
    rw [ht] at hu
    cases hu
  · exact .inr htop

theorem Call.eq_of_marks {c : Call} (h : c.marks = true) : ∃ old job, c = .send (.casFirst old) job := by
  unfold Call.marks at h
  split at h
  · exact ⟨_, _, rfl⟩
  · cases h

/-- Who answers for `writing` is neither user code nor asleep. -/
theorem Frame.awake_of_marks {f : Frame} (h : f.marks = true) : f ≠ .user ∧ f.spurious = none := by
  cases f with
  | call c k =>
    obtain ⟨old, job, rfl⟩ := Call.eq_of_marks h
    exact ⟨(by rintro ⟨⟩), rfl⟩
  | sendInLoop pc job copy => exact ⟨(by rintro ⟨⟩), rfl⟩
  | _ => cases h

omit [DecidableEq ι] in
theorem Conn.Marked.admin {a : Action ι} (h : s.Marked) (hadmin : Admin s a s') : s'.Marked := by
  rcases h with ⟨u, hu⟩ | htop
  · refine .inl ⟨u, ?_⟩
    cases hcaller : s.callers u with
    | calling c =>
      rw [hcaller] at hu
      obtain ⟨old, job, rfl⟩ := Call.eq_of_marks hu
      rw [hadmin.first u old job hcaller, hcaller]
      rfl
    | _ =>
      rw [hcaller] at hu
      cases hu
  · right
    cases hl : s.loop with
    | nil =>
      rw [hl] at htop
      cases htop
    | cons f rest =>
      rw [hl] at htop
      obtain ⟨huser, hawake⟩ := Frame.awake_of_marks htop
      rw [hadmin.stay f rest hl huser hawake, hl]
      exact htop

omit [Fintype ι] [DecidableEq ι] in
/-- A window below the top of the stack does not exist. -/
theorem PhaseInv.head_of_inWindow {f : Frame} (h : PhaseInv cfg s) (hf : f ∈ s.loop)
    (hw : f.inWindow = true) : s.loop.head? = some f := by
  have htail := h.tail
  cases hl : s.loop with
  | nil =>
    rw [hl] at hf
    cases hf
  | cons g rest =>
    rw [hl] at hf htail
    rcases List.mem_cons.mp hf with rfl | hf
    · rfl
    · have hsusp := List.all_eq_true.mp htail f hf
      rw [Frame.inWindow_of_suspended hsusp] at hw
      cases hw

omit [DecidableEq ι] in
theorem SettledInv.phase_settled (h : SettledInv cfg s) (hp : s.word = p.word) :
    p.Settled s.owed := by
  intro c hc hw
  exact h.settled c hc (hp.trans hw)

/-- An admission by the call `c` in phase `p` fits the field. -/
theorem Phase.Allows.fits {n : ℕ} {c : Call} (hn : p.Allows n)
    (hroom : c.admitting p.word = true → (p.word >>> sendersOffset).toNat + 1 < 2 ^ 58) :
    ∀ d, p = .busy d → d + 1 < 2 ^ 58 ∨ c.admitting p.word = false := by
  rintro d rfl
  cases hadm : c.admitting (Phase.busy d).word with
  | false => exact .inr rfl
  | true =>
    have hlt := hroom hadm
    rw [busy_field hn.2] at hlt
    exact .inl hlt

theorem SettledInv.call {t : ι} {c : Call} {e : CallEffect} (h : SettledInv cfg s)
    (hb : BarrierInv cfg (s.afterCall t e)) (hroom : NoOverflow s (.move t))
    (hwindow : ¬ AdmitsInWindow s (.move t)) (ht : s.callers t = .calling c)
    (he : callStep s.word c = some e) : SettledInv cfg (s.afterCall t e) := by
  obtain ⟨p, hp, hallows⟩ := h.counted
  have hset := h.phase_settled hp
  have hmove := moving_caller ht
  have hc := h.toPhaseInv.moving_ok hmove
  have hfield := hroom.field hp hmove
  have htot := total_afterCall (μ := owed) (e := e) ht
  rw [owed_ofCall, owed_events] at htot
  have ho : (s.afterCall t e).owed = s.owed + owed.caller e.next.caller := htot
  rw [hp] at he
  have hm := callStep_move hc he
  refine ⟨hb, ?_, fun f hf => ?_, fun hw => ?_⟩
  · rw [ho]
    exact hm.settled hallows hset hfield
  · have hcur : ∀ g, s.loop.head? = some g → g.Current e.word := by
      intro g hg
      have hg' := h.current g hg
      rw [hp] at hg'
      refine hm.current hallows (owed_total_le g (List.mem_of_head? hg)) (fun hadm => ?_) hg'
      refine Bool.eq_false_iff.mpr fun hwin => hwindow ⟨⟨c, hmove, by rw [hp]; exact hadm⟩, ?_⟩
      rw [hg]
      exact hwin
    rcases afterCall_loop (s := s) t e with hloop | hloop
    · rw [hloop] at hf
      exact hcur f hf
    · rw [hloop, List.head?_map] at hf
      obtain ⟨g, hg, rfl⟩ := Option.map_eq_some_iff.mp hf
      exact Frame.wake_current (hcur g hg)
  · rcases callStep_marked hc he (hallows.fits hfield) hw with ⟨hzero, hnot⟩ | hmark
    · exact (h.marked (hp.trans hzero)).afterCall ht hnot
    · refine .inl ⟨t, ?_⟩
      have hself : (s.afterCall t e).callers t = e.next.caller := Function.update_self ..
      rw [hself]
      cases hnext : e.next with
      | goto c' =>
        rw [hnext] at hmark
        exact hmark
      | _ =>
        rw [hnext] at hmark
        cases hmark

omit [DecidableEq ι] in
theorem SettledInv.frame {inp : Input} {f : Frame} {rest : List Frame} {e : Effect}
    (h : SettledInv cfg s) (hb : BarrierInv cfg (s.apply rest e))
    (hroom : NoOverflow s (.loop (.step inp))) (hl : s.loop = f :: rest)
    (he : frameStep cfg s.word s.io f inp = some e) : SettledInv cfg (s.apply rest e) := by
  obtain ⟨p, hp, hallows⟩ := h.counted
  have hmem : f ∈ s.loop := by rw [hl]; exact List.mem_cons_self
  have htot := total_apply (μ := owed) hl (frameStep_posted he)
  rw [owed_events] at htot
  have hcur := h.current f (by rw [hl]; rfl)
  rw [hp] at he hcur
  have hm := frameStep_settles (h.loop f hmem) hallows (h.phase_settled hp) (owed_total_le f hmem) hcur
    (fun c k hc => hroom.field hp (moving_loop (hc ▸ hl))) he
  have hrest : rest.all (Frame.suspended cfg.kind) = true := by
    have htail := h.tail
    rw [hl] at htail
    exact htail
  refine ⟨hb, fun c hc hw => hm.settled _ c htot hc hw, fun g hg => ?_, fun hw => ?_⟩
  · have hg' : (e.frames ++ rest).head? = some g := hg
    cases hfs : e.frames with
    | nil =>
      rw [hfs, List.nil_append] at hg'
      have hsusp := List.all_eq_true.mp hrest g (List.mem_of_head? hg')
      exact Frame.current_of_not_inWindow (Frame.inWindow_of_suspended hsusp)
    | cons f' fs =>
      rw [hfs] at hg'
      exact hm.current g (by rw [hfs]; exact hg')
  · rcases hm.marked hw with ⟨hzero, hnot⟩ | hmark
    · exact (h.marked (hp.trans hzero)).apply hl hnot
    · right
      show (e.frames ++ rest).head?.any Frame.marks = true
      cases hfs : e.frames with
      | nil =>
        rw [hfs] at hmark
        cases hmark
      | cons f' fs =>
        rw [hfs] at hmark
        exact hmark

theorem SettledInv.giveUp {t : ι} {f : Functor} (h : SettledInv cfg s)
    (hb : BarrierInv cfg { s.setCaller t .idle with log := s.log ++ f.droppedEvents })
    (ht : s.callers t = .queueing f) (hdrop : s.dropsSend (.giveUp t) = false) :
    SettledInv cfg { s.setCaller t .idle with log := s.log ++ f.droppedEvents } := by
  have htot := total_giveUp (μ := owed) ht
  rw [owed_events] at htot
  have hzero : owed.functor f = 0 := by
    rw [Conn.dropsSend, ht] at hdrop
    cases f with
    | send job copy => cases hdrop
    | _ => rfl
  refine ⟨hb, fun c hc hw => ?_, h.current, fun hw => (h.marked hw).giveUp ht⟩
  have hle := h.settled c hc hw
  unfold Conn.owed at hle ⊢
  omega

omit [DecidableEq ι] in
theorem SettledInv.admin {a : Action ι} (h : SettledInv cfg s) (hb : BarrierInv cfg s')
    (hadmin : Admin s a s') : SettledInv cfg s' := by
  refine ⟨hb, ?_, fun f hf => ?_, fun hw => ?_⟩
  · rw [hadmin.word, hadmin.owed]
    exact h.settled
  · cases hwin : f.inWindow with
    | false => exact Frame.current_of_not_inWindow hwin
    | true =>
      rcases hadmin.loop f (List.mem_of_head? hf) with hold | ⟨hentry, -⟩
      · rw [hadmin.word]
        exact h.current f (h.toPhaseInv.head_of_inWindow hold hwin)
      · rw [Frame.inWindow_of_isEntry hentry] at hwin
        cases hwin
  · rw [hadmin.word] at hw
    exact (h.marked hw).admin hadmin

/-- **The field stays exact** as long as no admission falls into the window, none overflows it, and no
message is dropped. -/
theorem SettledInv.step {a : Action ι} (h : SettledInv cfg s) (hk : KeepsSettled s a)
    (hs : Tcp.step cfg s a = some s') : SettledInv cfg s' := by
  obtain ⟨hroom, hwindow, hdrop⟩ := hk
  have hb := h.toBarrierInv.step hroom hs
  rcases step_kinds hs with ⟨t, c, e, rfl, ht, he, rfl⟩ | ⟨inp, f, rest, e, rfl, hl, he, rfl⟩ |
    ⟨t, f, rfl, ht, rfl⟩ | hadmin
  · exact h.call hb hroom hwindow ht he
  · exact h.frame hb hroom hl he
  · exact h.giveUp hb ht hdrop
  · exact h.admin hb hadmin

omit [DecidableEq ι] in
theorem settledInv_init (cfg : Config) (rdhupPhrase isIoChannel ssl : Bool) (mem : ℤ → UInt8) :
    SettledInv cfg (Conn.init ι rdhupPhrase isIoChannel ssl mem) := by
  refine ⟨barrierInv_init cfg _ _ _ _, fun c _ hw => ?_, by rintro f ⟨⟩; trivial, fun hw => ?_⟩
  · exact absurd hw.symm (busy_ne c (p := .idle) (by simp))
  · exact absurd hw.symm (busy_ne 0 (p := .idle) (by simp))

/-! ### At rest -/

def Functor.isSend : Functor → Bool
  | .send _ _ => true
  | _ => false

def Caller.isSending : Caller → Bool
  | .calling c => c.job?.isSome
  | .queueing f => f.isSend
  | .idle => false

def Frame.isSending : Frame → Bool
  | .call c _ => c.job?.isSome
  | .sendInLoop _ _ _ => true
  | _ => false

/-- No call of `send` is in progress and no `sendInLoop` is queued or running. -/
structure Conn.AtRest (s : Conn ι) : Prop where
  callers : ∀ t, (s.callers t).isSending = false
  loop : ∀ f ∈ s.loop, f.isSending = false
  functors : ∀ f ∈ s.functors, f.isSend = false

omit [DecidableEq ι] in
theorem owed_of_atRest (h : s.AtRest) : s.owed = 0 := by
  have hfunctor : ∀ f : Functor, f.isSend = false → owed.functor f = 0 := by
    intro f hf
    cases f <;> first | rfl | cases hf
  have hcallers : weight owed.caller s.callers = 0 := by
    refine Finset.sum_eq_zero fun t _ => ?_
    have ht := h.callers t
    cases hc : s.callers t with
    | idle => rfl
    | calling c => exact owed_ofCall c
    | queueing f =>
      rw [hc] at ht
      exact hfunctor f ht
  have hframes : owed.frames s.loop = 0 := by
    refine List.sum_eq_zero fun n hn => ?_
    obtain ⟨f, hf, rfl⟩ := List.mem_map.mp hn
    have hf' := h.loop f hf
    cases f with
    | call c k => exact owed_ofCall c
    | sendInLoop pc job copy => cases hf'
    | _ => rfl
  have hfunctors : owed.functors s.functors = 0 := by
    refine List.sum_eq_zero fun n hn => ?_
    obtain ⟨f, hf, rfl⟩ := List.mem_map.mp hn
    exact hfunctor f (h.functors f hf)
  unfold Conn.owed Conn.total
  rw [hcallers, hframes, hfunctors, owed_events]

omit [Fintype ι] [DecidableEq ι] in
theorem not_marked_of_atRest (h : s.AtRest) : ¬ s.Marked := by
  have hcall : ∀ c : Call, c.job?.isSome = false → c.marks = false := by
    intro c hc
    cases c <;> first | rfl | cases hc
  rintro (⟨t, ht⟩ | htop)
  · have hrest := h.callers t
    cases hc : s.callers t with
    | calling c =>
      rw [hc] at ht hrest
      exact Bool.false_ne_true ((hcall c hrest).symm.trans ht)
    | _ =>
      rw [hc] at ht
      cases ht
  · cases hl : s.loop with
    | nil =>
      rw [hl] at htop
      cases htop
    | cons f rest =>
      have hrest := h.loop f (by rw [hl]; exact List.mem_cons_self)
      rw [hl] at htop
      cases f with
      | call c k => exact Bool.false_ne_true ((hcall c hrest).symm.trans htop)
      | sendInLoop pc job copy => cases hrest
      | _ => cases htop

/-- **The sender field is exact at rest.**  In every run whose steps admit no send between the snapshot
and the CAS of a `sendInLoop`, drop no message and do not overflow the field: when no `send` is in
progress, no `sendInLoop` is queued or running and the connection is not closed, the sender field is
`0` and `writing` is clear. -/
theorem senders_settled (cfg : Config) (rdhupPhrase isIoChannel ssl : Bool) (mem : ℤ → UInt8)
    (as : List (Action ι)) (s : Conn ι)
    (hkeep : Along (step cfg) KeepsSettled (Conn.init ι rdhupPhrase isIoChannel ssl mem) as)
    (h : run (step cfg) (Conn.init ι rdhupPhrase isIoChannel ssl mem) as = some s)
    (hrest : s.AtRest) (hlive : has s.word .disconnected = false) :
    s.word >>> sendersOffset = 0 ∧ has s.word .writing = false := by
  have hinv := run_induction_along KeepsSettled (SettledInv cfg) (settledInv_init cfg _ _ _ _)
    (fun _ _ _ hi hP hs => hi.step hP hs) hkeep h
  obtain ⟨p, hp, hallows⟩ := hinv.counted
  rw [hp] at hlive ⊢
  cases p with
  | busy c =>
    have hle := hinv.settled c hallows.2 hp
    rw [owed_of_atRest hrest] at hle
    obtain rfl := Nat.le_zero.mp hle
    exact absurd (hinv.marked hp) (not_marked_of_atRest hrest)
  | closed => simp at hlive
  | _ => exact ⟨by decide, by simp⟩

/-- Two sends one after the other, each run to its end. -/
def settledRun : List (Action Unit) :=
  [.loop .ret] ++ sendAndRun ++ sendAndRun
where
  sendAndRun : List (Action Unit) :=
    [.invoke () (.send .piece 0 1), .move (), .move (), .move (), .move (), .loop .functor,
      .loop (.step .none), .loop (.step (.write ⟨1, .fault, false, false⟩)), .loop (.step .none),
      .loop (.step .none), .loop (.step .none)]

theorem senders_settled_two_sends :
    ∃ s, run (step plainConfig) (Conn.init Unit false false false fun _ => 0) settledRun = some s ∧
      s.log.countP (fun ev => ev matches .began _) = 2 ∧
      s.word >>> sendersOffset = 0 ∧ has s.word .writing = false :=
  have hrun : run (step plainConfig) (Conn.init Unit false false false fun _ => 0) settledRun
      = some _ := rfl
  ⟨_, hrun, by decide, senders_settled plainConfig false false false (fun _ => 0) settledRun _
    (by decide) hrun ⟨by decide, by decide, by decide⟩ (by decide)⟩

/-- A second send is admitted while the `sendInLoop` of the first one writes. -/
def windowRun : List (Action Bool) :=
  [.loop .ret, .invoke false (.send .piece 0 1), .move false, .move false, .move false, .move false, .loop .functor,
    .loop (.step .none), .invoke true (.send .piece 8 1), .move true, .move true, .move true,
    .loop (.step (.write ⟨1, .fault, false, false⟩)), .loop (.step .none), .loop .functor,
    .loop (.step .none), .loop (.step (.write ⟨1, .fault, false, false⟩)), .loop (.step .none)]

/-- Everything has run, and one sender stays in the field, with either class. -/
theorem sender_leaks :
    (∃ s, run (step plainConfig) (Conn.init Bool false false false fun _ => 0) windowRun = some s ∧
      s.AtRest ∧ has s.word .disconnected = false ∧ s.word >>> sendersOffset = 1 ∧
      has s.word .writing = true) ∧
    ∃ s, run (step sslConfig) (Conn.init Bool false false true fun _ => 0) windowRun = some s ∧
      s.AtRest ∧ has s.word .disconnected = false ∧ s.word >>> sendersOffset = 1 ∧
      has s.word .writing = true :=
  ⟨⟨_, rfl, ⟨by decide, by decide, by decide⟩, by decide, by decide, by decide⟩,
    ⟨_, rfl, ⟨by decide, by decide, by decide⟩, by decide, by decide, by decide⟩⟩

end KwNet.Tcp
