import KwNet.Lib.Run
import KwNet.Tcp.BackPressure

/-!
# One call on the loop thread by itself

`sendInLoop`, the event handlers and `finish_in_out` from their entry to their return, with any answers of
the system calls they make.  Nothing else runs meanwhile, but space may become free in the send buffer; and
what they call (`handle_ep_hup`, the callbacks of the user) is taken to return and to leave the connection
alone.

* `Visit` — the loop thread inside the call, with what its writes have sent so far;
* `Visit.step` — one step, `frameStep` for the frames of the loops;
* **`visit_frame`** — a step of a visit inverted.
-/

namespace KwNet.Tcp

open KwNet.Lib KwNet.Memory

structure Visit where
  word : Word
  io : Io
  frames : List Frame
  crashed : Bool
  /-- What was handed to `queueInLoop`. -/
  posted : List Functor
  /-- What the writes have had for an answer. -/
  outcomes : List WriteOutcome
  /-- The bytes the writes have accepted. -/
  accepted : List UInt8
  /-- Calls of `handle_ep_hup`. -/
  hangups : ℕ

/-- The loop thread enters `f`. -/
def Visit.enter (w : Word) (io : Io) (f : Frame) : Visit :=
  { word := w, io := io, frames := [f], crashed := false, posted := [], outcomes := [], accepted := [],
    hangups := 0 }

/-- The frames of the loops. -/
def Frame.inLoop : Frame → Bool
  | .sendInLoop .load _ _ | .sendInLoop (.write _ _ _) _ _ | .sendInLoop (.queue _ _ _ _) _ _ => true
  | .handler _ => true
  | _ => false

/-- A callee that returns. -/
def Frame.isCallee : Frame → Bool
  | .user | .hup .load => true
  | _ => false

/-- The call has returned, or gone on to the release of its sender. -/
def Visit.ended (v : Visit) : Bool :=
  v.crashed || !v.frames.head?.any fun f => f.inLoop || f.isCallee

/-- What the next step passes to `write`. -/
def Frame.offers (io : Io) : Frame → List UInt8
  | .sendInLoop (.write _ _ _) job copy => job.bytes copy io.mem 0 job.size
  | .handler (.drainWrite _ left) =>
    match io.outputBuffers with
    | [] => []
    | b :: _ => (b.buf.buf.drop b.buf.readIdx).take (countOf left)
  | _ => []

/-- The answer a step consumes, if it is a `write`. -/
def Frame.outcome (f : Frame) : Input → Option WriteOutcome
  | .write o => if f.writes then some o else none
  | _ => none

/-- The effect of the top frame `f`. -/
def Visit.apply (v : Visit) (f : Frame) (rest : List Frame) (inp : Input) (e : Effect) : Visit :=
  { word := e.word
    io := e.io
    frames := e.frames ++ rest
    crashed := e.crash
    posted := v.posted ++ e.posted.toList
    outcomes := v.outcomes ++ (f.outcome inp).toList
    accepted := v.accepted ++ (f.outcome inp).elim [] fun o => (f.offers v.io).take o.ret.toNat
    hangups := v.hangups }

/-- What comes from outside with one step. -/
structure Tick where
  /-- Space has become free in the send buffer. -/
  space : Bool
  inp : Input
  deriving DecidableEq, Repr

def Io.free (io : Io) (space : Bool) : Io :=
  { io with kernel := if space then io.kernel.space else io.kernel }

def Visit.step (cfg : Config) (v : Visit) (x : Tick) : Option Visit :=
  match v.frames with
  | [] => none
  | f :: rest =>
    if v.crashed then none
    else if f.inLoop then
      (frameStep cfg v.word (v.io.free x.space) f x.inp).map (v.apply f rest x.inp)
    else if f = .user then some { v with frames := rest }
    else if f = .hup .load then some { v with frames := rest, hangups := v.hangups + 1 }
    else none

variable {cfg : Config} {v v' : Visit} {x : Tick}

theorem visit_step {f : Frame} {rest : List Frame} (hf : v.frames = f :: rest) (hc : v.crashed = false)
    (hloop : f.inLoop = true) :
    v.step cfg x = (frameStep cfg v.word (v.io.free x.space) f x.inp).map (v.apply f rest x.inp) := by
  rw [Visit.step, hf]
  dsimp only
  rw [hc, if_neg Bool.false_ne_true, if_pos hloop]

/-- A step inside a loop is a step of its frame. -/
theorem visit_frame {f : Frame} {rest : List Frame} (hf : v.frames = f :: rest) (hloop : f.inLoop = true)
    (h : v.step cfg x = some v') :
    v.crashed = false ∧ ∃ e, frameStep cfg v.word (v.io.free x.space) f x.inp = some e ∧
      v' = v.apply f rest x.inp e := by
  rw [Visit.step, hf] at h
  dsimp only at h
  rw [Option.ite_none_left_eq_some, if_pos hloop] at h
  obtain ⟨hcrash, h⟩ := h
  obtain ⟨e, he, rfl⟩ := Option.map_eq_some_iff.mp h
  exact ⟨Bool.eq_false_iff.mpr hcrash, e, he, rfl⟩

theorem user_step {rest : List Frame} (hf : v.frames = .user :: rest) (hc : v.crashed = false) :
    v.step cfg x = some { v with frames := rest } := by
  rw [Visit.step, hf]
  dsimp only
  rw [if_neg (show ¬v.crashed = true by rw [hc]; decide), if_neg (by decide), if_pos rfl]

theorem hup_step {rest : List Frame} (hf : v.frames = .hup .load :: rest) (hc : v.crashed = false) :
    v.step cfg x = some { v with frames := rest, hangups := v.hangups + 1 } := by
  rw [Visit.step, hf]
  dsimp only
  rw [if_neg (show ¬v.crashed = true by rw [hc]; decide), if_neg (by decide), if_neg (by decide), if_pos rfl]

/-- A callback returns. -/
theorem visit_user {rest : List Frame} (hf : v.frames = .user :: rest) (h : v.step cfg x = some v') :
    v' = { v with frames := rest } := by
  rw [Visit.step, hf] at h
  dsimp only at h
  rw [Option.ite_none_left_eq_some, if_neg (by decide), if_pos rfl, Option.some.injEq] at h
  exact h.2.symm

/-- `handle_ep_hup` returns. -/
theorem visit_hup {rest : List Frame} (hf : v.frames = .hup .load :: rest)
    (h : v.step cfg x = some v') : v' = { v with frames := rest, hangups := v.hangups + 1 } := by
  rw [Visit.step, hf] at h
  dsimp only at h
  rw [Option.ite_none_left_eq_some, if_neg (by decide), if_neg (by decide), if_pos rfl,
    Option.some.injEq] at h
  exact h.2.symm

/-- A call that is over makes no further step. -/
theorem visit_ended (h : v.ended = true) : v.step cfg x = none := by
  unfold Visit.ended at h
  unfold Visit.step
  cases hf : v.frames with
  | nil => rfl
  | cons f rest =>
    rw [hf, List.head?_cons, Option.any_some] at h
    dsimp only
    by_cases hcrash : v.crashed = true
    · rw [if_pos hcrash]
    · rw [Bool.eq_false_iff.mpr hcrash, Bool.false_or, Bool.not_eq_true', Bool.or_eq_false_iff] at h
      rw [if_neg hcrash, if_neg (by rw [h.1]; decide), if_neg, if_neg]
      · rintro rfl
        cases h.2
      · rintro rfl
        cases h.2

/-- The answers of the writes are kept. -/
theorem visit_outcomes (h : v.step cfg x = some v') : ∀ o ∈ v.outcomes, o ∈ v'.outcomes := by
  intro o ho
  cases hf : v.frames with
  | nil =>
    rw [Visit.step, hf] at h
    cases h
  | cons f rest =>
    by_cases hloop : f.inLoop = true
    · obtain ⟨-, e, -, rfl⟩ := visit_frame hf hloop h
      exact List.mem_append_left _ ho
    · rw [Visit.step, hf] at h
      dsimp only at h
      rw [Option.ite_none_left_eq_some, if_neg hloop] at h
      obtain ⟨-, h⟩ := h
      split at h
      · rw [← Option.some.inj h]
        exact ho
      · rw [Option.ite_none_right_eq_some, Option.some.injEq] at h
        rw [← h.2]
        exact ho

end KwNet.Tcp
