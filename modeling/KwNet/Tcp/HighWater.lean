import KwNet.Tcp.Message
import KwNet.Tcp.Moves

/-!
# The high-water callback

`sendInLoop` adds to `oldLen` what it queues, and compares it with the mark; the output loops, which take
from the queue, leave `oldLen` as it is.

* `Io.pendingLen` — the bytes pending in `outputBuffers_`;
* `Notifies` — the step schedules the callback as it should;
* `OnMark` — the condition on the state before the step;
* **`high_water_notified`** — the steps of a run schedule the callback as they should exactly under the
  condition.
-/

namespace KwNet.Tcp

open KwNet.Lib KwNet.Memory

/-- The bytes pending in `outputBuffers_`. -/
def Io.pendingLen (io : Io) : ℕ := (io.outputBuffers.map fun b => b.buf.readableBytes).sum

/-- What is to be scheduled when the pending bytes go from `before` to `after`. -/
def highWaterDue (mark before after : ℕ) : Option Functor :=
  if before < mark ∧ mark ≤ after then some (.highWaterMark after) else none

/-- `oldLen` once it has been raised. -/
def Io.raised (io : Io) (remaining : ℕ) : ℕ := (io.oldLen + remaining) % 2 ^ 64

/-- The pending bytes rise across the mark. -/
def Crosses (mark before remaining : ℕ) : Prop := before < mark ∧ mark ≤ before + remaining

instance (mark before remaining : ℕ) : Decidable (Crosses mark before remaining) :=
  inferInstanceAs (Decidable (_ ∧ _))

/-- The condition for a `sendInLoop` that queues `remaining` bytes: nothing is due and nothing is
scheduled, or `oldLen`, raised already, is what was pending before. -/
def Marks (cfg : Config) (io : Io) (remaining : ℕ) : Prop :=
  match cfg.kind with
  | .plain => ¬Crosses cfg.highWaterMark io.pendingLen remaining
  | .ssl =>
    (¬Crosses cfg.highWaterMark io.pendingLen remaining ∧
        ¬((io.raised remaining + remaining) % 2 ^ 64 ≥ cfg.highWaterMark ∧ io.raised remaining < cfg.highWaterMark)) ∨
      io.raised remaining = io.pendingLen ∧ io.pendingLen + remaining < 2 ^ 64

instance (cfg : Config) (io : Io) (remaining : ℕ) : Decidable (Marks cfg io remaining) := by
  unfold Marks
  split <;> infer_instance

variable {ι : Type}

/-- A step in which `sendInLoop` queues schedules the callback exactly when the pending bytes rise across
the mark, with the new total. -/
def Notifies (cfg : Config) (s : Conn ι) (a : Action ι) : Prop :=
  match s.loop, a with
  | .sendInLoop (.queue old turn nwrote remaining) job copy :: _, .loop (.step _) =>
    let e := sendQueue cfg s.word s.io old turn nwrote remaining job copy
    e.posted = highWaterDue cfg.highWaterMark s.io.pendingLen e.io.pendingLen
  | _, _ => True

/-- The condition on such a step. -/
def OnMark (cfg : Config) (s : Conn ι) (a : Action ι) : Prop :=
  match s.loop, a with
  | .sendInLoop (.queue _ _ _ remaining) _ _ :: _, .loop (.step _) => Marks cfg s.io remaining
  | _, _ => True

instance (cfg : Config) (s : Conn ι) (a : Action ι) : Decidable (OnMark cfg s a) := by
  unfold OnMark
  split <;> infer_instance

instance (cfg : Config) (s : Conn ι) (a : Action ι) : Decidable (Notifies cfg s a) := by
  unfold Notifies
  split <;> infer_instance

variable {cfg : Config} {w old : Word} {io : Io} {turn remaining : ℕ} {nwrote : ℤ} {job : Job}
  {copy : Option (List UInt8)}

/-- What is queued is pending. -/
theorem sendQueue_pending (cfg : Config) (w : Word) (io : Io) (old : Word) (turn : ℕ) (nwrote : ℤ)
    (remaining : ℕ) (job : Job) (copy : Option (List UInt8)) :
    (sendQueue cfg w io old turn nwrote remaining job copy).io.pendingLen = io.pendingLen + remaining ∧
      (sendQueue cfg w io old turn nwrote remaining job copy).posted
        = cfg.highWater (io.raised remaining) remaining := by
  obtain ⟨buf, hbuf, hvalid, hread⟩ :=
    freshBuffer_append cfg remaining (job.bytes copy io.mem nwrote remaining)
  have hlen : buf.readableBytes = remaining := by
    rw [← hvalid.length_readable, hread, Job.length_bytes]
  unfold sendQueue
  dsimp only
  rw [hbuf]
  refine ⟨?_, rfl⟩
  have hio : ∀ io' : Io, io'.outputBuffers = ⟨turn, buf⟩ :: io.outputBuffers →
      (sendEpilogue w io' old job copy).io.pendingLen = io.pendingLen + remaining := by
    intro io' hout
    rw [sendEpilogue_io, Io.pendingLen, hout, List.map_cons, List.sum_cons, hlen, Io.pendingLen, Nat.add_comm]
  refine hio _ ?_
  split <;> rfl

/-- What the code schedules is what is due exactly under the condition. -/
theorem highWater_due (hcallback : cfg.highWaterMarkCallback = true) (io : Io) (remaining : ℕ) :
    cfg.highWater (io.raised remaining) remaining
        = highWaterDue cfg.highWaterMark io.pendingLen (io.pendingLen + remaining) ↔
      Marks cfg io remaining := by
  have hcross : highWaterDue cfg.highWaterMark io.pendingLen (io.pendingLen + remaining)
      = if Crosses cfg.highWaterMark io.pendingLen remaining then some (.highWaterMark (io.pendingLen + remaining))
        else none := rfl
  rw [hcross, Config.highWater, Marks]
  cases cfg.kind with
  | plain =>
    dsimp only
    rw [if_neg (by omega)]
    by_cases hc : Crosses cfg.highWaterMark io.pendingLen remaining
    · rw [if_pos hc]
      refine ⟨fun h => ?_, fun h => absurd hc h⟩
      cases h
    · rw [if_neg hc]
      exact ⟨fun _ => hc, fun _ => rfl⟩
  | ssl =>
    dsimp only
    have hraised : io.raised remaining < 2 ^ 64 := Nat.mod_lt _ (by decide)
    -- where `oldLen` tells the truth, the test is the right one
    have htrue : io.raised remaining = io.pendingLen ∧ io.pendingLen + remaining < 2 ^ 64 →
        (io.raised remaining + remaining) % 2 ^ 64 = io.pendingLen + remaining := by
      rintro ⟨heq, hlt⟩
      rw [heq, Nat.mod_eq_of_lt hlt]
    by_cases hs : (io.raised remaining + remaining) % 2 ^ 64 ≥ cfg.highWaterMark
        ∧ io.raised remaining < cfg.highWaterMark
    · rw [if_pos ⟨hs.1, hs.2, hcallback⟩]
      by_cases hc : Crosses cfg.highWaterMark io.pendingLen remaining
      · rw [if_pos hc, Option.some.injEq, Functor.highWaterMark.injEq]
        refine ⟨fun h => .inr (by omega), fun h => ?_⟩
        obtain ⟨hno, -⟩ | h := h
        · exact absurd hc hno
        · exact htrue h
      · rw [if_neg hc]
        refine ⟨fun h => ?_, fun h => ?_⟩
        · cases h
        · obtain ⟨-, hno⟩ | h := h
          · exact absurd hs hno
          · have heq := htrue h
            exact absurd ⟨by omega, by omega⟩ hc
    · rw [if_neg fun h => hs ⟨h.1, h.2.1⟩]
      by_cases hc : Crosses cfg.highWaterMark io.pendingLen remaining
      · rw [if_pos hc]
        refine ⟨fun h => ?_, fun h => ?_⟩
        · cases h
        · obtain ⟨hno, -⟩ | h := h
          · exact absurd hc hno
          · have heq := htrue h
            obtain ⟨hbelow, habove⟩ := hc
            exact absurd ⟨by omega, by omega⟩ hs
      · rw [if_neg hc]
        exact ⟨fun _ => .inl ⟨hc, hs⟩, fun _ => rfl⟩

theorem notifies_iff (hcallback : cfg.highWaterMarkCallback = true) (s : Conn ι) (a : Action ι) :
    Notifies cfg s a ↔ OnMark cfg s a := by
  unfold Notifies OnMark
  split
  · next old turn nwrote remaining job copy rest inp _ =>
    obtain ⟨hpending, hposted⟩ := sendQueue_pending cfg s.word s.io old turn nwrote remaining job copy
    dsimp only
    rw [hpending, hposted]
    exact highWater_due hcallback s.io remaining
  · exact Iff.rfl

variable [DecidableEq ι]

/-- **High-water notification.**  For every mark and every run of either class (sends and drains in any
order, from any state): each `sendInLoop` that queues schedules the callback as it should exactly if it
meets the condition. -/
theorem high_water_notified (hcallback : cfg.highWaterMarkCallback = true) (s : Conn ι) (as : List (Action ι)) :
    Along (step cfg) (Notifies cfg) s as ↔ Along (step cfg) (OnMark cfg) s as :=
  ⟨fun h => h.imp fun t a => (notifies_iff hcallback t a).mp,
    fun h => h.imp fun t a => (notifies_iff hcallback t a).mpr⟩

/-- A user callback sends one byte, and the write is refused. -/
def refusedSend : List (Action Unit) :=
  [.loop (.user (.send .piece 0 1)), .loop (.step .none), .loop (.step .none), .loop (.step .none),
    .loop (.step .none), .loop (.step (.write ⟨-1, .wouldBlock, true, false⟩)), .loop (.step .none)]

/-- With a callback for this mark. -/
def Config.withMark (cfg : Config) (mark : ℕ) : Config :=
  { cfg with highWaterMark := mark, highWaterMarkCallback := true }

set_option maxRecDepth 10000 in
/-- The mark is above the byte and its double. -/
theorem high_water_notified_below :
    (∃ s, run (step (sslConfig.withMark 3)) (Conn.init Unit false false true fun _ => 0) refusedSend = some s ∧
      s.io.pendingLen = 1) ∧
    Along (step (sslConfig.withMark 3)) (Notifies (sslConfig.withMark 3)) (Conn.init Unit false false true fun _ => 0)
      refusedSend := by
  have hrun : (run (step (sslConfig.withMark 3)) (Conn.init Unit false false true fun _ => 0) refusedSend).map
      (fun s => s.io.pendingLen) = some 1 := by
    decide
  exact ⟨Option.map_eq_some_iff.mp hrun, (high_water_notified rfl _ _).mpr (by decide)⟩

set_option maxRecDepth 10000 in
/-- The plain class does not report a mark of one byte, and the TLS class reports one of two bytes. -/
theorem mark_missed :
    ¬Along (step (plainConfig.withMark 1)) (Notifies (plainConfig.withMark 1))
      (Conn.init Unit false false false fun _ => 0) refusedSend ∧
    ¬Along (step (sslConfig.withMark 2)) (Notifies (sslConfig.withMark 2))
      (Conn.init Unit false false true fun _ => 0) refusedSend := by
  decide

end KwNet.Tcp
