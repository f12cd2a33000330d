import KwNet.Lib.BitField

/-!
# The state word of a connection

`TcpConnection::state_` packs six flags (`StateE`) and, from bit `senders_offset` on, the number of
sends that have been admitted and not released.  The code tests flags with `&` and moves the counter
with `+`/`-` of `1 << senders_offset`.

Over the life of an established connection the word takes few shapes, named by `Phase`:

* `idle` — connected, used, nobody writing;
* `busy c` — connected, used, writing, with `c` in the sender field;
* `unused` — `set_unused` has cleared `used`;
* `shut` — `shutdown` has stored `Disconnecting`;
* `closed` — `handle_ep_hup` has stored `Disconnected`.

`Phase.word` gives the word of each, and the simp set evaluates every test the code makes on them.
-/

namespace KwNet.Tcp

open KwNet.Lib

/-- `atomic_ulong`, the type of `state_`. -/
abbrev Word := BitVec 64

/-- `TcpConnection::StateE`. -/
inductive StateE where
  | connecting
  | disconnecting
  | disconnected
  | connected
  | used
  | writing
  deriving DecidableEq, Repr

def StateE.bits : StateE → ℕ
  | .connecting => 1
  | .disconnecting => 2
  | .disconnected => 4
  | .connected => 8
  | .used => 16
  | .writing => 32

/-- The enumerator as it enters word arithmetic. -/
def StateE.word (e : StateE) : Word := BitVec.ofNat 64 e.bits

/-- `old_state & e`. -/
def has (w : Word) (e : StateE) : Bool := w &&& e.word != 0

/-- `kw_unlikely(old_state & e)`.  The macro puts `!!` in front of its argument without parentheses,
so the test compiled is `!!old_state & e`. -/
def unlikelyHas (w : Word) (e : StateE) : Bool :=
  (if w = 0 then (0 : Word) else 1) &&& e.word != 0

def sendersOffset : ℕ := 6

/-- `1 << senders_offset`. -/
def oneSender : Word := 1 <<< sendersOffset

/-- `Connected | used`, what `connectEstablished` stores. -/
def established : Word := StateE.connected.word ||| StateE.used.word

/-- The part of the word `futex_wait` compares (`uint32_t`). -/
def low32 (w : Word) : BitVec 32 := w.setWidth 32

/-! ### Phases -/

/-- The shapes of the state word after `connectEstablished`. -/
inductive Phase where
  | idle
  | busy (senders : ℕ)
  | unused
  | shut
  | closed

def Phase.word : Phase → Word
  | .idle => established
  | .busy c => pack 64 6 56 c
  | .unused => StateE.connected.word
  | .shut => StateE.disconnecting.word
  | .closed => StateE.disconnected.word

theorem has_pack (c : ℕ) (e : StateE) : has (pack 64 6 56 c) e = decide (56 &&& e.bits ≠ 0) := by
  have he : e.bits < 2 ^ 6 := by cases e <;> decide
  have hand := pack_and 64 (k := 6) (f := 56) c (by decide) he
  unfold has StateE.word
  rw [hand]
  cases e <;> decide

@[simp] theorem has_idle (e : StateE) :
    has Phase.idle.word e = (decide (e = .connected) || decide (e = .used)) := by
  cases e <;> decide

@[simp] theorem has_busy (c : ℕ) (e : StateE) :
    has (Phase.busy c).word e
      = (decide (e = .connected) || decide (e = .used) || decide (e = .writing)) := by
  rw [Phase.word, has_pack]
  cases e <;> decide

@[simp] theorem has_unused (e : StateE) : has Phase.unused.word e = decide (e = .connected) := by
  cases e <;> decide

@[simp] theorem has_shut (e : StateE) : has Phase.shut.word e = decide (e = .disconnecting) := by
  cases e <;> decide

@[simp] theorem has_closed (e : StateE) :
    has Phase.closed.word e = decide (e = .disconnected) := by
  cases e <;> decide

/-- The truth value `!!old_state` has no bit in common with `Disconnected`. -/
@[simp] theorem unlikelyHas_disconnected (w : Word) : unlikelyHas w .disconnected = false := by
  unfold unlikelyHas
  split <;> decide

/-! ### The arithmetic of the code on the phases -/

/-- `old_state | writing` on an idle connection. -/
theorem idle_or_writing : Phase.idle.word ||| StateE.writing.word = (Phase.busy 0).word := by decide

/-- `old_state + (1 << senders_offset)`. -/
theorem busy_add (c : ℕ) : (Phase.busy c).word + oneSender = (Phase.busy (c + 1)).word :=
  pack_succ 64 6 56 c

/-- `old_state - (1 << senders_offset)`. -/
theorem busy_sub (c : ℕ) : (Phase.busy (c + 1)).word - oneSender = (Phase.busy c).word :=
  pack_pred 64 6 56 c

/-- `old_state - used` on an idle connection. -/
theorem idle_sub_used : Phase.idle.word - StateE.used.word = Phase.unused.word := by decide

/-- `old_state >> senders_offset`. -/
theorem busy_shiftRight (c : ℕ) :
    (Phase.busy c).word >>> sendersOffset = BitVec.ofNat 64 (c % 2 ^ 58) :=
  pack_shiftRight c (by decide) (by decide)

/-- `!((old_state >> senders_offset) ^ 1)`, the last-sender test. -/
theorem busy_last (c : ℕ) :
    ((Phase.busy c).word >>> sendersOffset) ^^^ 1 = 0 ↔ c % 2 ^ 58 = 1 := by
  have hlt : c % 2 ^ 58 < 2 ^ 58 := Nat.mod_lt _ (by decide)
  rw [busy_shiftRight]
  refine BitVec.xor_eq_zero_iff.trans ?_
  constructor
  · intro h
    have h' := congrArg BitVec.toNat h
    rw [BitVec.toNat_ofNat, Nat.mod_eq_of_lt (by omega)] at h'
    exact h'
  · intro h
    rw [h]
    rfl

/-- `old_state ^= 1 << senders_offset` with one sender in the field. -/
theorem busy_one_xor : (Phase.busy 1).word ^^^ oneSender = (Phase.busy 0).word := by decide

/-- `old_state ^ writing` with nobody in the field. -/
theorem busy_zero_xor : (Phase.busy 0).word ^^^ StateE.writing.word = Phase.idle.word := by decide

/-- The sender field is `58` bits wide. -/
theorem busy_mod (c : ℕ) : (Phase.busy (c % 2 ^ 58)).word = (Phase.busy c).word := by
  apply BitVec.eq_of_toNat_eq
  rw [Phase.word, Phase.word, toNat_pack _ (by decide) (by decide),
    toNat_pack _ (by decide) (by decide), Nat.mod_mod_of_dvd _ (Nat.dvd_refl _)]

/-! ### Reading the phase back from the word -/

theorem busy_ne (c : ℕ) {p : Phase} (hp : has p.word .writing = false) :
    (Phase.busy c).word ≠ p.word := by
  intro h
  rw [← h, has_busy] at hp
  cases hp

/-- A word with the flags of a busy connection belongs to one. -/
theorem Phase.eq_busy {p : Phase} {d : ℕ} (h : p.word = (Phase.busy d).word) :
    ∃ c, p = .busy c := by
  cases p with
  | busy c => exact ⟨c, rfl⟩
  | _ => exact absurd h.symm (busy_ne d (by simp))

/-- Without a sender field the word determines the phase. -/
theorem Phase.eq_of_word {p q : Phase} (hq : has q.word .writing = false) (h : p.word = q.word) :
    p = q := by
  cases q with
  | busy d => simp at hq
  | _ =>
    cases p with
    | busy c => exact absurd h (busy_ne c hq)
    | _ => first | rfl | exact absurd h (by decide)

/-- The sender field is determined below its width. -/
theorem busy_inj {c d : ℕ} (hc : c < 2 ^ 58) (hd : d < 2 ^ 58)
    (h : (Phase.busy c).word = (Phase.busy d).word) : c = d := by
  have h' := congrArg (fun w : Word => (w >>> sendersOffset).toNat) h
  simp only [busy_shiftRight, BitVec.toNat_ofNat] at h'
  omega

end KwNet.Tcp
