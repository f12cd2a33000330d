import KwNet.Tcp.Transition
import KwNet.Tcp.Message

/-!
# Whether `send` captures its message

`send(const stringPiece&)` and `send_OOB` called outside the loop thread leave the work to a functor that
has captured the pointer, `send(Buffer*)` to one that has captured a copy.  Whatever happens to the caller's
storage before `sendInLoop` has read the message happens to the message.

* `Message` — a message under way with the copy made of it, wherever it stands: in its call, in
  `queueInLoop`, in `pendingFunctors` or in a `sendInLoop` that still reads it;
* `Piece` — what `sendInLoop` passes to one `write` or appends to the output queue;
* `Traced` — a connection with what every message held when it was sent, and the pieces so far;
* **`send_captures`** — messages and pieces hold what was sent throughout exactly the runs in which no
  message under way is overwritten;
* **`overwritten_piece_sent`** — a message that is overwritten while its functor waits.
-/

namespace KwNet.Tcp

open KwNet.Lib

variable {ι : Type} {cfg : Config} {w : Word} {io : Io} {Q : Message → Prop}

/-- A message, with the copy made of it, if any. -/
structure Message where
  job : Job
  copy : Option (List UInt8)
  deriving DecidableEq, Repr

/-- What the message holds now. -/
def Message.bytes (m : Message) (mem : ℤ → UInt8) : List UInt8 := m.job.bytes m.copy mem 0 m.job.size

def Call.message? : Call → Option Message
  | .send _ job => some ⟨job, none⟩
  | _ => none

def Functor.message? : Functor → Option Message
  | .send job copy => some ⟨job, copy⟩
  | _ => none

def Caller.message? : Caller → Option Message
  | .idle => none
  | .calling c => c.message?
  | .queueing f => f.message?

/-- `sendInLoop` has not read its message for the last time. -/
def SendLoopPc.reads : SendLoopPc → Bool
  | .load | .write _ _ _ | .queue _ _ _ _ => true
  | .cas _ | .clear _ | .wake => false

def Frame.message? : Frame → Option Message
  | .call c _ => c.message?
  | .sendInLoop pc job copy => if pc.reads then some ⟨job, copy⟩ else none
  | _ => none

/-- Every message under way meets `Q`. -/
structure Conn.All (s : Conn ι) (Q : Message → Prop) : Prop where
  callers : ∀ t, ∀ m ∈ (s.callers t).message?, Q m
  functors : ∀ f ∈ s.functors, ∀ m ∈ f.message?, Q m
  loop : ∀ f ∈ s.loop, ∀ m ∈ f.message?, Q m

instance [Fintype ι] [DecidablePred Q] (s : Conn ι) : Decidable (s.All Q) :=
  decidable_of_iff ((∀ t, ∀ m ∈ (s.callers t).message?, Q m) ∧
    (∀ f ∈ s.functors, ∀ m ∈ f.message?, Q m) ∧ ∀ f ∈ s.loop, ∀ m ∈ f.message?, Q m)
    ⟨fun h => ⟨h.1, h.2.1, h.2.2⟩, fun h => ⟨h.callers, h.functors, h.loop⟩⟩

/-- Bytes that were read from the message `id`, from `offset` on. -/
structure Piece where
  id : ℕ
  offset : ℤ
  bytes : List UInt8
  deriving DecidableEq, Repr

/-- What the next step of a frame passes to `write` or appends to the output queue. -/
def Frame.transmits (mem : ℤ → UInt8) : Frame → Option Piece
  | .sendInLoop (.write _ _ _) job copy => some ⟨job.id, 0, job.bytes copy mem 0 job.size⟩
  | .sendInLoop (.queue _ _ nwrote remaining) job copy =>
    some ⟨job.id, nwrote, job.bytes copy mem nwrote remaining⟩
  | _ => none

def Conn.transmits (s : Conn ι) : Action ι → Option Piece
  | .loop (.step _) => s.loop.head?.bind (Frame.transmits s.io.mem)
  | _ => none

/-- A connection with the history of its messages. -/
structure Traced (ι : Type) where
  conn : Conn ι
  /-- What each message held when `send` was called. -/
  sent : ℕ → List UInt8
  transmitted : List Piece

/-- `sent` after an action. -/
def Traced.record (t : Traced ι) (a : Action ι) : ℕ → List UInt8 :=
  match a.job? t.conn.nextId with
  | some job => Function.update t.sent job.id (job.bytes none t.conn.io.mem 0 job.size)
  | none => t.sent

def Traced.step [DecidableEq ι] (cfg : Config) (t : Traced ι) (a : Action ι) : Option (Traced ι) :=
  (Tcp.step cfg t.conn a).map fun s =>
    { conn := s, sent := t.record a, transmitted := t.transmitted ++ (t.conn.transmits a).toList }

def Traced.init (ι : Type) (rdhupPhrase isIoChannel ssl : Bool) (mem : ℤ → UInt8) : Traced ι :=
  { conn := Conn.init ι rdhupPhrase isIoChannel ssl mem, sent := fun _ => [], transmitted := [] }

/-- Where it lies inside the message, the piece agrees with it. -/
def Piece.From (p : Piece) (sent : List UInt8) : Prop :=
  ∀ i, i < p.bytes.length → 0 ≤ p.offset + i → p.offset + i < sent.length →
    p.bytes[i]? = sent[(p.offset + i).toNat]?

/-- What is under way and what was transmitted is what was sent. -/
structure Captured (t : Traced ι) : Prop where
  underway : t.conn.All fun m => m.bytes t.conn.io.mem = t.sent m.job.id
  transmitted : ∀ p ∈ t.transmitted, p.From (t.sent p.id)

/-- The action overwrites no message that is under way. -/
def Undisturbed (t : Traced ι) : Action ι → Prop
  | .overwrite mem => t.conn.All fun m => m.bytes mem = m.bytes t.conn.io.mem
  | _ => True

instance [Fintype ι] (t : Traced ι) : (a : Action ι) → Decidable (Undisturbed t a)
  | .overwrite mem =>
    inferInstanceAs (Decidable (t.conn.All fun m => m.bytes mem = m.bytes t.conn.io.mem))
  | .invoke _ _ => .isTrue trivial
  | .move _ => .isTrue trivial
  | .spurious _ => .isTrue trivial
  | .giveUp _ => .isTrue trivial
  | .loop _ => .isTrue trivial
  | .space => .isTrue trivial

/-! ### where messages go -/

/-- The message a call leaves behind. -/
def Next.message? : Next → Option Message
  | .goto c => c.message?
  | .admits job => some ⟨job, none⟩
  | _ => none

theorem caller_message (n : Next) : n.caller.message? = n.message? := by
  cases n <;> rfl

theorem frames_message {n : Next} {k : Cont} {f : Frame} {m : Message} (hf : f ∈ n.frames k)
    (hm : m ∈ f.message?) : m ∈ n.message? := by
  have hcont : f ∈ k.frames → m ∈ n.message? := by
    intro hk
    cases k with
    | ret => exact absurd hk List.not_mem_nil
    | hup =>
      rw [List.mem_singleton.mp hk] at hm
      cases hm
    | close =>
      rw [List.mem_singleton.mp hk] at hm
      cases hm
  cases n with
  | goto c =>
    rw [List.mem_singleton.mp hf] at hm
    exact hm
  | refuse job why => exact hcont hf
  | admits job =>
    obtain rfl | hk := List.mem_cons.mp hf
    · exact hm
    · exact hcont hk
  | ret => exact hcont hf
  | win =>
    obtain rfl | hk := List.mem_cons.mp hf
    · cases hm
    · exact hcont hk

theorem sendHead_message {job : Job} {old : Word} {m : Message} (h : m ∈ (sendHead job old).message?) :
    m = ⟨job, none⟩ := by
  unfold sendHead at h
  split at h
  · cases h
  · split at h
    · cases h
    · split at h
      · exact (Option.some.inj h).symm
      · exact (Option.some.inj h).symm

theorem sendStep_message {job : Job} {pc : SendPc} {e : CallEffect} {m : Message}
    (h : sendStep w job pc = some e) (hm : m ∈ e.next.message?) : m = ⟨job, none⟩ := by
  have hgoto : ∀ pc', m ∈ (Next.goto (.send pc' job)).message? → m = ⟨job, none⟩ := fun _ h =>
    (Option.some.inj h).symm
  cases pc with
  | load =>
    simp only [sendStep] at h
    split at h
    · rw [← Option.some.inj h] at hm
      exact hgoto _ hm
    · rw [← Option.some.inj h] at hm
      exact sendHead_message hm
  | await =>
    rw [← Option.some.inj h] at hm
    exact hgoto _ hm
  | blocked => cases h
  | reload =>
    rw [← Option.some.inj h] at hm
    exact sendHead_message hm
  | casAdd old =>
    simp only [sendStep] at h
    split at h
    · rw [← Option.some.inj h] at hm
      exact (Option.some.inj hm).symm
    · rw [← Option.some.inj h] at hm
      exact sendHead_message hm
  | casWriting old =>
    simp only [sendStep] at h
    split at h
    · rw [← Option.some.inj h] at hm
      exact hgoto _ hm
    · rw [← Option.some.inj h] at hm
      exact hgoto _ hm
  | casFirst old =>
    simp only [sendStep] at h
    split at h
    · rw [← Option.some.inj h] at hm
      exact (Option.some.inj hm).symm
    · split at h
      · rw [← Option.some.inj h] at hm
        cases hm
      · rw [← Option.some.inj h] at hm
        cases hm

/-- `set_unused` and `shutdown` carry nothing. -/
theorem unusedHead_message (old : Word) : (unusedHead old).message? = none := by
  unfold unusedHead
  split
  · rfl
  · split
    · rfl
    · split <;> rfl

theorem shutdownHead_message (old : Word) : (shutdownHead old).message? = none := by
  unfold shutdownHead
  split
  · rfl
  · split
    · rfl
    · split <;> rfl

theorem unusedStep_message {pc : UnusedPc} {e : CallEffect} (h : unusedStep w pc = some e) :
    e.next.message? = none := by
  cases pc with
  | blocked => cases h
  | load =>
    simp only [unusedStep] at h
    split at h
    · rw [← Option.some.inj h]
      rfl
    · rw [← Option.some.inj h]
      exact unusedHead_message w
  | await expected =>
    rw [← Option.some.inj h]
    rfl
  | reload =>
    rw [← Option.some.inj h]
    exact unusedHead_message w
  | casUnused old =>
    simp only [unusedStep] at h
    split at h
    · rw [← Option.some.inj h]
      rfl
    · rw [← Option.some.inj h]
      exact unusedHead_message w
  | wake =>
    rw [← Option.some.inj h]
    rfl

theorem shutdownStep_message {pc : ShutdownPc} {e : CallEffect} (h : shutdownStep w pc = some e) :
    e.next.message? = none := by
  cases pc with
  | blocked => cases h
  | blockedLocal => cases h
  | load =>
    simp only [shutdownStep] at h
    split at h
    · rw [← Option.some.inj h]
      rfl
    · rw [← Option.some.inj h]
      exact shutdownHead_message w
  | await =>
    rw [← Option.some.inj h]
    rfl
  | reload =>
    rw [← Option.some.inj h]
    exact shutdownHead_message w
  | casDisconnecting old =>
    simp only [shutdownStep] at h
    split at h
    · rw [← Option.some.inj h]
      rfl
    · rw [← Option.some.inj h]
      exact shutdownHead_message w

/-- An access of a call leaves behind the message the call had, if any. -/
theorem callStep_message {c : Call} {e : CallEffect} {m : Message} (h : callStep w c = some e)
    (hm : m ∈ e.next.message?) : m ∈ c.message? := by
  cases c with
  | send pc job =>
    rw [sendStep_message h hm]
    rfl
  | setUnused pc =>
    rw [unusedStep_message h] at hm
    cases hm
  | shutdown pc =>
    rw [shutdownStep_message h] at hm
    cases hm

theorem call_wake_message (c : Call) : c.wake.message? = c.message? := by
  unfold Call.wake
  split <;> rfl

theorem caller_wake_message (c : Caller) : c.wake.message? = c.message? := by
  cases c with
  | calling c => exact call_wake_message c
  | idle => rfl
  | queueing f => rfl

theorem frame_wake_message (f : Frame) : f.wake.message? = f.message? := by
  unfold Frame.wake
  split
  · exact call_wake_message _
  · rfl
  · rfl

theorem call_spurious_message {c c' : Call} (h : c.spurious = some c') : c'.message? = c.message? := by
  unfold Call.spurious at h
  split at h <;> cases h <;> rfl

theorem frame_spurious_message {f f' : Frame} (h : f.spurious = some f') : f'.message? = f.message? := by
  unfold Frame.spurious at h
  split at h
  · obtain ⟨c', hc, rfl⟩ := Option.map_eq_some_iff.mp h
    exact call_spurious_message hc
  · cases h
    rfl
  · cases h

/-- Handlers carry nothing. -/
theorem handler_message {f : Frame} (h : f.isHandler = true) : f.message? = none := by
  cases f <;> first | rfl | cases h

theorem SendMid.message_mem {old : Word} {job : Job} {copy : Option (List UInt8)} {fs : List Frame}
    {evs : List Event} (h : SendMid old job copy fs evs) {f : Frame} {m : Message} (hf : f ∈ fs)
    (hm : m ∈ f.message?) : m = ⟨job, copy⟩ := by
  cases h with
  | write =>
    rw [List.mem_singleton.mp hf] at hm
    exact (Option.some.inj hm).symm
  | queue =>
    rw [List.mem_singleton.mp hf] at hm
    exact (Option.some.inj hm).symm
  | cas hu hw =>
    rw [List.mem_singleton.mp hf] at hm
    cases hm
  | unused hu => exact absurd hf List.not_mem_nil
  | impossible hu hw => exact absurd hf List.not_mem_nil

/-- A step of a frame leaves behind the message the frame had, if any. -/
theorem frameStep_message_mem {f g : Frame} {inp : Input} {e : Effect} {m : Message}
    (h : frameStep cfg w io f inp = some e) (hg : g ∈ e.frames) (hm : m ∈ g.message?) :
    m ∈ f.message? := by
  cases f with
  | user => cases h
  | call c k =>
    obtain ⟨ce, hce, rfl⟩ := Option.map_eq_some_iff.mp h
    exact callStep_message hce (frames_message hg hm)
  | sendInLoop pc job copy =>
    have hmid : ∀ {old : Word} {pre : List Event}, SendMove w old io job copy pre e → m = ⟨job, copy⟩ := by
      intro old pre hmove
      obtain ⟨evs, -, hmid⟩ := hmove.mid
      exact hmid.message_mem hg hm
    cases sendLoopStep_move h with
    | load hmove => exact congrArg some (hmid hmove).symm
    | write hmove => exact congrArg some (hmid hmove).symm
    | queue hmove => exact congrArg some (hmid hmove).symm
    | last hw hlast =>
      rw [List.mem_singleton.mp hg] at hm
      cases hm
    | release hw hlast => exact absurd hg List.not_mem_nil
    | casFailed hw => exact absurd hg List.not_mem_nil
    | clear hw =>
      rw [List.mem_singleton.mp hg] at hm
      cases hm
    | clearFailed hw => exact absurd hg List.not_mem_nil
    | wake => exact absurd hg List.not_mem_nil
  | shutdownInLoop =>
    rw [← Option.some.inj h] at hg
    exact absurd hg List.not_mem_nil
  | hup pc =>
    rw [← Option.some.inj h] at hg
    have hnone : ∀ g ∈ (hupStep cfg w io pc).frames, g.message? = none := by
      cases pc <;> simp only [hupStep] <;> (repeat' split) <;>
        simp [Effect.goto, Frame.message?, Call.message?]
    rw [hnone g hg] at hm
    cases hm
  | delay pc =>
    rw [← Option.some.inj h] at hg
    have hnone : ∀ g ∈ (delayStep w io pc).frames, g.message? = none := by
      cases pc <;> simp only [delayStep] <;> (repeat' split) <;> simp [Effect.goto, Frame.message?]
    rw [hnone g hg] at hm
    cases hm
  | handler pc =>
    have hall := (handlerStep_move h).frames
    rw [handler_message (List.all_eq_true.mp hall g hg)] at hm
    cases hm

/-- No step of the loop thread writes to the callers' storage. -/
theorem frameStep_mem {f : Frame} {inp : Input} {e : Effect} (h : frameStep cfg w io f inp = some e) :
    e.io.mem = io.mem := by
  by_cases hf : f = .handler .rdhupEnd
  · subst hf
    cases h
    rfl
  · exact (frameStep_fixed hf h).mem

/-! ### one action -/

section Action

variable [DecidableEq ι] {s s' : Conn ι} {a : Action ι}

/-- The storage is what it was, unless the action overwrites it. -/
theorem transition_mem (h : Transition cfg s a s') :
    (∃ mem, a = .overwrite mem ∧ s' = { s with io := { s.io with mem := mem } }) ∨
      (∀ mem, a ≠ .overwrite mem) ∧ s'.io.mem = s.io.mem := by
  have hkeep : ∀ {a : Action ι} {s' : Conn ι}, (∀ mem, a ≠ .overwrite mem) → s'.io.mem = s.io.mem →
      (∃ mem, a = .overwrite mem ∧ s' = { s with io := { s.io with mem := mem } }) ∨
      (∀ mem, a ≠ .overwrite mem) ∧ s'.io.mem = s.io.mem := fun ha hm => .inr ⟨ha, hm⟩
  cases h with
  | @overwrite mem => exact .inl ⟨mem, rfl, rfl⟩
  | @invoke t api ht =>
    refine hkeep (fun _ => by simp) ?_
    cases api <;> rfl
  | @call t c e ht he =>
    refine hkeep (fun _ => by simp) ?_
    unfold Conn.afterCall
    dsimp only
    split <;> rfl
  | frame hl he => exact hkeep (fun _ => by simp) (frameStep_mem he)
  | @userCall api rest hl =>
    refine hkeep (fun _ => by simp) ?_
    cases api <;> rfl
  | _ => exact hkeep (fun _ => by simp) rfl

theorem transition_nextId (h : Transition cfg s a s') :
    s'.nextId = s.nextId + (a.job? s.nextId).toList.length := by
  cases h with
  | @invoke t api ht => cases api <;> rfl
  | @call t c e ht he =>
    unfold Conn.afterCall
    dsimp only
    split <;> rfl
  | @userCall api rest hl => cases api <;> rfl
  | _ => rfl

omit [DecidableEq ι] in
theorem Conn.All.of_eq (h : s.All Q) (hcallers : s'.callers = s.callers)
    (hfunctors : s'.functors = s.functors) (hloop : s'.loop = s.loop) : s'.All Q := by
  constructor
  · rw [hcallers]
    exact h.callers
  · rw [hfunctors]
    exact h.functors
  · rw [hloop]
    exact h.loop

theorem Conn.All.setCaller (h : s.All Q) (t : ι) {c : Caller} (hc : ∀ m ∈ c.message?, Q m) :
    (s.setCaller t c).All Q := by
  refine ⟨fun u => ?_, h.functors, h.loop⟩
  show ∀ m ∈ (Function.update s.callers t c u).message?, Q m
  by_cases heq : u = t
  · rw [heq, Function.update_self]
    exact hc
  · rw [Function.update_of_ne heq]
    exact h.callers u

omit [DecidableEq ι] in
theorem Conn.All.enter (h : s.All Q) {fs : List Frame} (hf : ∀ f ∈ fs, ∀ m ∈ f.message?, Q m) :
    (s.enter fs).All Q := by
  refine ⟨h.callers, h.functors, fun f hmem => ?_⟩
  obtain hin | hin := List.mem_append.mp hmem
  · exact hf f hin
  · exact h.loop f hin

omit [DecidableEq ι] in
/-- `queueInLoop` of a functor without a message. -/
theorem post_message {q : List Functor} (hq : ∀ f ∈ q, ∀ m ∈ f.message?, Q m) {posted : Option Functor}
    (hp : ∀ f, posted = some f → f.isNotice = true) : ∀ f ∈ post q posted, ∀ m ∈ f.message?, Q m := by
  unfold post
  cases posted with
  | none => exact hq
  | some g =>
    dsimp only
    split
    · intro f hf m hm
      obtain hin | hin := List.mem_append.mp hf
      · exact hq f hin m hm
      · rw [List.mem_singleton.mp hin] at hm
        have hnotice := hp g rfl
        cases g <;> first | (cases hnotice; done) | cases hm
    · exact hq

omit [DecidableEq ι] in
theorem Conn.All.apply (h : s.All Q) {f : Frame} {rest : List Frame} {inp : Input} {e : Effect}
    (hl : s.loop = f :: rest) (he : frameStep cfg s.word s.io f inp = some e) : (s.apply rest e).All Q := by
  refine ⟨fun t => ?_, post_message h.functors (frameStep_posted he), fun g hg m hm => ?_⟩
  · unfold Conn.apply
    dsimp only
    split
    · rw [caller_wake_message]
      exact h.callers t
    · exact h.callers t
  · have hstack : ∀ g ∈ f :: rest, ∀ m ∈ g.message?, Q m := by
      rw [← hl]
      exact h.loop
    obtain hin | hin := List.mem_append.mp hg
    · exact hstack f List.mem_cons_self m (frameStep_message_mem he hin hm)
    · exact hstack g (List.mem_cons_of_mem f hin) m hm

theorem Conn.All.afterCall (h : s.All Q) {t : ι} {c : Call} {e : CallEffect}
    (ht : s.callers t = .calling c) (he : callStep s.word c = some e) : (s.afterCall t e).All Q := by
  have hnext : ∀ m ∈ e.next.caller.message?, Q m := by
    intro m hm
    rw [caller_message] at hm
    refine h.callers t m ?_
    rw [ht]
    exact callStep_message he hm
  have hset : ∀ u : Conn ι, u.All Q → ({ u.setCaller t e.next.caller with
      word := e.word, log := s.log ++ e.next.events } : Conn ι).All Q := fun u hu =>
    (hu.setCaller t hnext).of_eq rfl rfl rfl
  unfold Conn.afterCall
  dsimp only
  split
  · refine hset _ ⟨fun u => ?_, h.functors, fun f hf => ?_⟩
    · rw [caller_wake_message]
      exact h.callers u
    · obtain ⟨g, hg, rfl⟩ := List.mem_map.mp hf
      rw [frame_wake_message]
      exact h.loop g hg
  · exact hset s h

/-- A functor's frame has the functor's message. -/
theorem functor_frame_message (f : Functor) : f.frame.message? = f.message? := by
  cases f <;> rfl

theorem capture_message {f : Functor} {mem : ℤ → UInt8} {m : Message}
    (hm : m ∈ (f.capture mem).message?) :
    m ∈ f.message? ∨ ∃ job, f.message? = some ⟨job, none⟩ ∧
      m = ⟨job, some (job.bytes none mem 0 job.size)⟩ := by
  unfold Functor.capture at hm
  split at hm
  · next job =>
    split at hm
    · exact .inr ⟨job, rfl, (Option.some.inj hm).symm⟩
    · exact .inl hm
    · exact .inl hm
  · exact .inl hm

/-- What holds of every message under way, of a message that begins, and of the copy of one that is made,
holds of every message under way next. -/
theorem Conn.All.step (hall : s.All Q) (hnew : ∀ job ∈ a.job? s.nextId, Q ⟨job, none⟩)
    (hcopy : ∀ job, Q ⟨job, none⟩ → Q ⟨job, some (job.bytes none s.io.mem 0 job.size)⟩)
    (h : Transition cfg s a s') : s'.All Q := by
  have hnone : ∀ {o : Option Message}, o = none → ∀ m ∈ o, Q m := by
    intro o ho m hm
    rw [ho] at hm
    cases hm
  have hone : ∀ {g : Frame}, (∀ m ∈ g.message?, Q m) → ∀ f ∈ [g], ∀ m ∈ f.message?, Q m := by
    intro g hg f hf
    rw [List.mem_singleton.mp hf]
    exact hg
  have hfirst : ∀ {kind : SendKind} {data : ℤ} {size : ℕ},
      Api.job? s.nextId (.send kind data size) ∈ [a.job? s.nextId] →
      ∀ m ∈ (some ⟨⟨s.nextId, kind, data, size⟩, none⟩ : Option Message), Q m := by
    intro kind data size hjob m hm
    rw [← Option.some.inj hm]
    exact hnew _ (List.mem_singleton.mp hjob).symm
  cases h with
  | @invoke t api ht =>
    cases api with
    | send kind data size =>
      exact (hall.setCaller t (c := .calling (.send .load ⟨s.nextId, kind, data, size⟩))
        (hfirst (List.mem_singleton.mpr rfl))).of_eq rfl rfl rfl
    | _ => exact hall.setCaller t (hnone rfl)
  | call ht he => exact hall.afterCall ht he
  | @push t f ht hroom =>
    have hf : ∀ m ∈ f.message?, Q m := by
      have hcaller := hall.callers t
      rw [ht] at hcaller
      exact hcaller
    have hidle := hall.setCaller t (hnone (o := Caller.idle.message?) rfl)
    refine ⟨hidle.callers, fun g hg m hm => ?_, hidle.loop⟩
    obtain hin | hin := List.mem_append.mp hg
    · exact hall.functors g hin m hm
    · rw [List.mem_singleton.mp hin] at hm
      obtain hsame | ⟨job, hjob, rfl⟩ := capture_message hm
      · exact hf m hsame
      · exact hcopy job (hf _ hjob)
  | @spurious t c c' ht hc =>
    refine hall.setCaller t ?_
    show ∀ m ∈ c'.message?, Q m
    rw [call_spurious_message hc]
    have hcaller := hall.callers t
    rw [ht] at hcaller
    exact hcaller
  | @giveUp t f ht hfull => exact (hall.setCaller t (hnone rfl)).of_eq rfl rfl rfl
  | frame hl he => exact hall.apply hl he
  | @loopSpurious f f' rest hl hf =>
    refine ⟨hall.callers, hall.functors, fun g hg => ?_⟩
    have hstack := hall.loop
    rw [hl] at hstack
    obtain rfl | hin := List.mem_cons.mp hg
    · rw [frame_spurious_message hf]
      exact hstack f List.mem_cons_self
    · exact hstack g (List.mem_cons_of_mem f hin)
  | @userCall api rest hl =>
    cases api with
    | send kind data size =>
      exact (hall.enter (hone (g := .call (.send .load ⟨s.nextId, kind, data, size⟩) .ret)
        (hfirst (List.mem_singleton.mpr rfl)))).of_eq rfl rfl rfl
    | task =>
      have htask : ∀ f, some Functor.task = some f → f.isNotice = true := by
        intro f hf
        rw [← Option.some.inj hf]
        rfl
      exact ⟨hall.callers, post_message hall.functors htask, hall.loop⟩
    | _ => exact hall.enter (hone (hnone rfl))
  | delay hl => exact hall.enter (hone (hnone rfl))
  | ret hl =>
    refine ⟨hall.callers, hall.functors, fun g hg => hall.loop g ?_⟩
    rw [hl]
    exact List.mem_cons_of_mem _ hg
  | poll hl hr hi hm => exact hall.of_eq rfl rfl rfl
  | dispatch hl hr => exact (hall.enter (hone (hnone rfl))).of_eq rfl rfl rfl
  | @functor f fs hl hr hq =>
    have hqueue := hall.functors
    rw [hq] at hqueue
    have hframe := hall.enter (hone (g := f.frame) (by
      rw [functor_frame_message]
      exact hqueue f List.mem_cons_self))
    exact ⟨hframe.callers, fun g hg => hqueue g (List.mem_cons_of_mem f hg), hframe.loop⟩
  | timer hl ht => exact (hall.enter (hone (hnone rfl))).of_eq rfl rfl rfl
  | foreign hl => exact hall.enter (hone (hnone rfl))
  | space => exact hall.of_eq rfl rfl rfl
  | overwrite => exact hall.of_eq rfl rfl rfl

end Action

/-! ### what is read is what was sent -/

theorem Conn.All.imp {s : Conn ι} {Q' : Message → Prop} (h : s.All Q) (himp : ∀ m, Q m → Q' m) : s.All Q' :=
  ⟨fun t m hm => himp m (h.callers t m hm), fun f hf m hm => himp m (h.functors f hf m hm),
    fun f hf m hm => himp m (h.loop f hf m hm)⟩

theorem Conn.All.and {s : Conn ι} {Q' : Message → Prop} (h : s.All Q) (h' : s.All Q') :
    s.All fun m => Q m ∧ Q' m :=
  ⟨fun t m hm => ⟨h.callers t m hm, h'.callers t m hm⟩,
    fun f hf m hm => ⟨h.functors f hf m hm, h'.functors f hf m hm⟩,
    fun f hf m hm => ⟨h.loop f hf m hm, h'.loop f hf m hm⟩⟩

/-- What is read from `offset` on agrees with what is read from the start. -/
theorem bytes_from (job : Job) (copy : Option (List UInt8)) (mem : ℤ → UInt8) (offset : ℤ) (n : ℕ) :
    Piece.From ⟨job.id, offset, job.bytes copy mem offset n⟩ (Message.bytes ⟨job, copy⟩ mem) := by
  intro i hi hlow hhigh
  dsimp only at hi hlow hhigh ⊢
  rw [Job.length_bytes] at hi
  rw [Message.bytes, Job.length_bytes] at hhigh
  have hend : offset + (i : ℤ) < (job.size : ℤ) := hhigh
  have hat : (offset + (i : ℤ)).toNat < job.size := by omega
  have hsame : (0 : ℤ) + ((offset + (i : ℤ)).toNat : ℤ) = offset + (i : ℤ) := by omega
  rw [Message.bytes, Job.getElem?_bytes job copy mem offset hi, Job.getElem?_bytes job copy mem 0 hat, hsame]

/-- A frame reads its message only. -/
theorem frame_transmits {f : Frame} {mem : ℤ → UInt8} {p : Piece} (h : p ∈ f.transmits mem) :
    ∃ m ∈ f.message?, p.id = m.job.id ∧ p.From (m.bytes mem) := by
  unfold Frame.transmits at h
  split at h
  · next job copy =>
    rw [← Option.some.inj h]
    exact ⟨⟨job, copy⟩, rfl, rfl, bytes_from job copy mem 0 job.size⟩
  · next nwrote remaining job copy =>
    rw [← Option.some.inj h]
    exact ⟨⟨job, copy⟩, rfl, rfl, bytes_from job copy mem nwrote remaining⟩
  · cases h

/-- What holds between the steps: the messages under way have old numbers and whole copies, and hold what
was sent. -/
structure Held (t : Traced ι) : Prop where
  underway : t.conn.All fun m => m.job.id < t.conn.nextId ∧
    (∀ bytes, m.copy = some bytes → bytes.length = m.job.size) ∧
    m.bytes t.conn.io.mem = t.sent m.job.id
  transmitted : ∀ p ∈ t.transmitted, p.id < t.conn.nextId ∧ p.From (t.sent p.id)

theorem Held.captured {t : Traced ι} (h : Held t) : Captured t :=
  ⟨h.underway.imp fun _ hm => hm.2.2, fun p hp => (h.transmitted p hp).2⟩

/-- Only new numbers are recorded. -/
theorem record_of_lt (t : Traced ι) (a : Action ι) {id : ℕ} (h : id < t.conn.nextId) :
    t.record a id = t.sent id := by
  unfold Traced.record
  cases hjob : a.job? t.conn.nextId with
  | none => rfl
  | some job =>
    refine Function.update_of_ne ?_ _ _
    rw [Action.job?_id hjob]
    exact h.ne

theorem record_new {t : Traced ι} {a : Action ι} {job : Job} (h : a.job? t.conn.nextId = some job) :
    t.record a job.id = job.bytes none t.conn.io.mem 0 job.size := by
  rw [Traced.record, h]
  show Function.update t.sent job.id _ job.id = _
  rw [Function.update_self]

variable [DecidableEq ι]

theorem step_held {t t' : Traced ι} {a : Action ι} (h : Held t) (hP : Undisturbed t a)
    (hs : t.step cfg a = some t') : Held t' := by
  obtain ⟨s', hs', rfl⟩ := Option.map_eq_some_iff.mp hs
  have htrans := step_cases hs'
  have hnext : t.conn.nextId ≤ s'.nextId := by
    rw [transition_nextId htrans]
    exact Nat.le_add_right _ _
  have hkept : ∀ id, id < t.conn.nextId → t.record a id = t.sent id := fun id => record_of_lt t a
  -- the messages under way, with the storage as it was
  have hstep : s'.All fun m => m.job.id < s'.nextId ∧
      (∀ bytes, m.copy = some bytes → bytes.length = m.job.size) ∧
      m.bytes t.conn.io.mem = t.record a m.job.id := by
    refine Conn.All.step (h.underway.imp fun m hm => ?_) (fun job hjob => ?_) (fun job hm => ?_) htrans
    · refine ⟨lt_of_lt_of_le hm.1 hnext, hm.2.1, ?_⟩
      rw [hkept _ hm.1]
      exact hm.2.2
    · refine ⟨?_, fun _ hc => (by cases hc), ?_⟩
      · rw [transition_nextId htrans, Option.mem_def.mp hjob, Action.job?_id hjob]
        exact Nat.lt_succ_self _
      · exact (record_new hjob).symm
    · have hlen := job.length_bytes none t.conn.io.mem 0 job.size
      refine ⟨hm.1, fun bytes hc => ?_, ?_⟩
      · rw [← Option.some.inj hc]
        exact hlen
      · rw [Message.bytes, Job.bytes_copy job _ hlen]
        exact hm.2.2
  have hpieces : ∀ p ∈ t.transmitted ++ (t.conn.transmits a).toList,
      p.id < s'.nextId ∧ p.From (t.record a p.id) := by
    intro p hp
    obtain hold | hnew := List.mem_append.mp hp
    · obtain ⟨hlt, hfrom⟩ := h.transmitted p hold
      refine ⟨lt_of_lt_of_le hlt hnext, ?_⟩
      rw [hkept _ hlt]
      exact hfrom
    · rw [Option.mem_toList, Conn.transmits.eq_def] at hnew
      split at hnew
      · obtain ⟨f, hf, hpiece⟩ := Option.bind_eq_some_iff.mp hnew
        obtain ⟨m, hm, hid, hfrom⟩ := frame_transmits hpiece
        obtain ⟨hlt, -, hbytes⟩ := h.underway.loop f (List.mem_of_head? hf) m hm
        rw [hid, hkept _ hlt, ← hbytes]
        exact ⟨lt_of_lt_of_le hlt hnext, hfrom⟩
      · cases hnew
  refine ⟨?_, hpieces⟩
  obtain ⟨mem, rfl, rfl⟩ | ⟨-, hmem⟩ := transition_mem htrans
  · -- the storage changes, but not under a message
    have hsame : ({ t.conn with io := { t.conn.io with mem := mem } } : Conn ι).All
        fun m => m.bytes mem = m.bytes t.conn.io.mem := Conn.All.of_eq hP rfl rfl rfl
    exact (hstep.and hsame).imp fun m hm => ⟨hm.1.1, hm.1.2.1, hm.2.trans hm.1.2.2⟩
  · dsimp only
    rw [hmem]
    exact hstep

/-- An action after which everything under way holds what was sent has overwritten nothing of it. -/
theorem captured_back {t t' : Traced ι} {a : Action ι} (h : Held t) (hs : t.step cfg a = some t')
    (hcap : Captured t') : Undisturbed t a := by
  obtain ⟨s', hs', rfl⟩ := Option.map_eq_some_iff.mp hs
  obtain ⟨mem, rfl, rfl⟩ | ⟨hne, -⟩ := transition_mem (step_cases hs')
  · have hafter : t.conn.All fun m => m.bytes mem = t.sent m.job.id :=
      ⟨hcap.underway.callers, hcap.underway.functors, hcap.underway.loop⟩
    exact (h.underway.and hafter).imp fun m hm => hm.2.trans hm.1.2.2.symm
  · cases a with
    | overwrite mem => exact absurd rfl (hne mem)
    | _ => trivial

omit [DecidableEq ι] in
theorem init_held (rdhupPhrase isIoChannel ssl : Bool) (mem : ℤ → UInt8) :
    Held (Traced.init ι rdhupPhrase isIoChannel ssl mem) := by
  refine ⟨⟨fun _ m hm => ?_, fun f hf => absurd hf List.not_mem_nil, fun f hf m hm => ?_⟩,
    fun p hp => absurd hp List.not_mem_nil⟩
  · cases hm
  · rw [List.mem_singleton.mp hf] at hm
    cases hm

/-- **`send` captures its message.**  In a run of a connection of either class, with any threads calling
`send` and `send_OOB` in any interleaving: every message under way holds what it held when it was sent, and
whatever `sendInLoop` passed to `write` or queued is what was sent, throughout the run, exactly when no
storage is overwritten while a message in it is under way without a copy. -/
theorem send_captures (cfg : Config) (rdhupPhrase isIoChannel ssl : Bool) (mem : ℤ → UInt8)
    {as : List (Action ι)} {t : Traced ι}
    (h : run (Traced.step cfg) (Traced.init ι rdhupPhrase isIoChannel ssl mem) as = some t) :
    Along (Traced.step cfg) Undisturbed (Traced.init ι rdhupPhrase isIoChannel ssl mem) as
      ↔ Throughout (Traced.step cfg) Captured (Traced.init ι rdhupPhrase isIoChannel ssl mem) as := by
  have hkeep : ∀ (t : Traced ι) a t', Held t → Undisturbed t a → t.step cfg a = some t' →
      Held t' ∧ Captured t' := by
    intro t a t' hI hP ht
    have hI' := step_held hI hP ht
    exact ⟨hI', hI'.captured⟩
  have hback : ∀ (t : Traced ι) a t', Held t → t.step cfg a = some t' → Captured t' →
      Undisturbed t a := by
    intro t a t' hI ht hcap
    exact captured_back hI ht hcap
  have hinit := init_held (ι := ι) rdhupPhrase isIoChannel ssl mem
  exact along_iff_throughout Undisturbed Held Captured hkeep hback hinit hinit.captured h

/-! ### two runs -/

/-- Storage that holds this byte everywhere. -/
def filled (b : UInt8) : ℤ → UInt8 := fun _ => b

/-- A thread sends one byte, 1, and overwrites it when `send` has returned; the loop runs the functor, and
`write` takes the byte. -/
def sentThenOverwritten (kind : SendKind) : List (Action Unit) :=
  [.loop .ret, .invoke () (.send kind 0 1), .move (), .move (), .move (), .move (), .overwrite (filled 2),
    .loop .functor, .loop (.step .none), .loop (.step (.write ⟨1, .fault, false, false⟩))]

/-- `send(Buffer*)` has made its copy. -/
theorem send_captures_buffer :
    Throughout (Traced.step plainConfig) Captured (Traced.init Unit false false false (filled 1))
      (sentThenOverwritten .buffer) := by
  have hrun : (run (Traced.step plainConfig) (Traced.init Unit false false false (filled 1))
      (sentThenOverwritten .buffer)).isSome = true := by
    decide
  obtain ⟨t, ht⟩ := Option.isSome_iff_exists.mp hrun
  exact (send_captures plainConfig false false false (filled 1) ht).mp (by decide)

/-- `send(const stringPiece&)` was called with a 1, and `write` gets a 2. -/
theorem overwritten_piece_sent :
    ∃ t, run (Traced.step plainConfig) (Traced.init Unit false false false (filled 1))
        (sentThenOverwritten .piece) = some t ∧ t.sent 0 = [1] ∧ t.transmitted = [⟨0, 0, [2]⟩] ∧
      ¬Captured t := by
  have hrun : (run (Traced.step plainConfig) (Traced.init Unit false false false (filled 1))
      (sentThenOverwritten .piece)).map (fun t => (t.sent 0, t.transmitted)) = some ([1], [⟨0, 0, [2]⟩]) := by
    decide
  obtain ⟨t, ht, hend⟩ := Option.map_eq_some_iff.mp hrun
  obtain ⟨hsent, htransmitted⟩ := Prod.mk.inj hend
  refine ⟨t, ht, hsent, htransmitted, fun hcap => ?_⟩
  have hpiece := hcap.transmitted ⟨0, 0, [2]⟩ (by rw [htransmitted]; exact List.mem_singleton.mpr rfl)
  rw [hsent] at hpiece
  exact absurd (hpiece 0 (by decide) (by decide) (by decide)) (by decide)

end KwNet.Tcp
