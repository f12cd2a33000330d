import KwNet.Lib.Endian
import KwNet.Memory.Fifo

/-!
# Integers in a `Buffer`

`appendInt16/32/64` convert a signed word to network order and append the bytes it has in memory;
`peekInt16/32/64` copy the bytes back into a word and convert it to host order, and `readIntN` also
retrieves them.  The 8-bit variants move the byte itself.  The conversions of `Sockets/Endian.h` take
and return unsigned words; between a signed word and an unsigned one the bits stay, so both are
`BitVec`.

* **`appendVal_spec`** — what is appended is the big-endian two's-complement encoding;
* **`readVal_spec`** — a value in front is read back and taken off;
* **`codec_round_trip`** — over every sequence of appends and matching reads, from any buffer.
-/

namespace KwNet.Memory

open KwNet.Lib

namespace Buffer

/-- `appendInt16/32/64` on a word of `k` bytes. -/
def appendInt (host : ByteOrder) (b : Buffer) (k : ℕ) (x : BitVec (8 * k)) : Option Buffer :=
  b.append (host.toMemory k (host.htobe k x.toNat))

def appendInt64 (host : ByteOrder) (b : Buffer) (x : BitVec 64) : Option Buffer :=
  b.appendInt host 8 x

def appendInt32 (host : ByteOrder) (b : Buffer) (x : BitVec 32) : Option Buffer :=
  b.appendInt host 4 x

def appendInt16 (host : ByteOrder) (b : Buffer) (x : BitVec 16) : Option Buffer :=
  b.appendInt host 2 x

def appendInt8 (b : Buffer) (x : BitVec 8) : Option Buffer := b.append [UInt8.ofBitVec x]

/-- `peekInt16/32/64`, with their assertion. -/
def peekInt (host : ByteOrder) (b : Buffer) (k : ℕ) : Option (BitVec (8 * k)) :=
  if k ≤ b.readableBytes then
    some (BitVec.ofNat (8 * k) (host.betoh k (host.ofMemory ((b.buf.drop b.readIdx).take k))))
  else none

def peekInt64 (host : ByteOrder) (b : Buffer) : Option (BitVec 64) := b.peekInt host 8

def peekInt32 (host : ByteOrder) (b : Buffer) : Option (BitVec 32) := b.peekInt host 4

def peekInt16 (host : ByteOrder) (b : Buffer) : Option (BitVec 16) := b.peekInt host 2

def peekInt8 (b : Buffer) : Option (BitVec 8) :=
  if 1 ≤ b.readableBytes then some (b.buf.getD b.readIdx 0).toBitVec else none

/-- `readIntN`: `peekIntN`, then `retrieveIntN`. -/
def readInt {α : Type} (b : Buffer) (k : ℕ) (peeked : Option α) : Option (α × Buffer) :=
  peeked.bind fun x => (b.retrieve k).map fun b' => (x, b')

def readInt64 (host : ByteOrder) (b : Buffer) : Option (BitVec 64 × Buffer) :=
  b.readInt 8 (b.peekInt64 host)

def readInt32 (host : ByteOrder) (b : Buffer) : Option (BitVec 32 × Buffer) :=
  b.readInt 4 (b.peekInt32 host)

def readInt16 (host : ByteOrder) (b : Buffer) : Option (BitVec 16 × Buffer) :=
  b.readInt 2 (b.peekInt16 host)

def readInt8 (b : Buffer) : Option (BitVec 8 × Buffer) := b.readInt 1 b.peekInt8

end Buffer

/-! ### Values of the four widths -/

inductive IntWidth where
  | int8
  | int16
  | int32
  | int64
  deriving DecidableEq, Repr

def IntWidth.bytes : IntWidth → ℕ
  | .int8 => 1
  | .int16 => 2
  | .int32 => 4
  | .int64 => 8

inductive IntVal where
  | int8 (x : BitVec 8)
  | int16 (x : BitVec 16)
  | int32 (x : BitVec 32)
  | int64 (x : BitVec 64)
  deriving DecidableEq, Repr

namespace IntVal

def width : IntVal → IntWidth
  | .int8 _ => .int8
  | .int16 _ => .int16
  | .int32 _ => .int32
  | .int64 _ => .int64

/-- The signed value. -/
def toInt : IntVal → ℤ
  | .int8 x => x.toInt
  | .int16 x => x.toInt
  | .int32 x => x.toInt
  | .int64 x => x.toInt

/-- The encoding on the wire: two's complement, most significant byte first. -/
def encode (v : IntVal) : List UInt8 := twosComplement v.width.bytes v.toInt

theorem length_encode (v : IntVal) : v.encode.length = v.width.bytes :=
  length_twosComplement _ _

end IntVal

namespace Buffer

variable {host : ByteOrder} {b : Buffer}

def appendVal (host : ByteOrder) (b : Buffer) : IntVal → Option Buffer
  | .int8 x => b.appendInt8 x
  | .int16 x => b.appendInt16 host x
  | .int32 x => b.appendInt32 host x
  | .int64 x => b.appendInt64 host x

def peekVal (host : ByteOrder) (b : Buffer) : IntWidth → Option IntVal
  | .int8 => b.peekInt8.map .int8
  | .int16 => (b.peekInt16 host).map .int16
  | .int32 => (b.peekInt32 host).map .int32
  | .int64 => (b.peekInt64 host).map .int64

def readVal (host : ByteOrder) (b : Buffer) : IntWidth → Option (IntVal × Buffer)
  | .int8 => b.readInt8.map fun r => (.int8 r.1, r.2)
  | .int16 => (b.readInt16 host).map fun r => (.int16 r.1, r.2)
  | .int32 => (b.readInt32 host).map fun r => (.int32 r.1, r.2)
  | .int64 => (b.readInt64 host).map fun r => (.int64 r.1, r.2)

/-! ### One call -/

theorem appendInt_bytes (host : ByteOrder) {k : ℕ} (x : BitVec (8 * k)) :
    host.toMemory k (host.htobe k x.toNat) = twosComplement k x.toInt := by
  rw [toMemory_htobe, littleEndian_toInt]

theorem appendInt8_bytes (x : BitVec 8) : [UInt8.ofBitVec x] = twosComplement 1 x.toInt := by
  have h := littleEndian_toInt (k := 1) x
  rw [← h]
  show [UInt8.ofBitVec x] = [UInt8.ofNat x.toNat]
  congr 1
  apply UInt8.toNat_inj.mp
  rw [UInt8.toNat_ofNat']
  exact (Nat.mod_eq_of_lt x.isLt).symm

theorem appendVal_spec (host : ByteOrder) (h : b.Valid) (v : IntVal) :
    ∃ b', b.appendVal host v = some b' ∧ b'.Valid ∧ b'.readable = b.readable ++ v.encode := by
  cases v with
  | int8 x =>
    show ∃ b', b.append [UInt8.ofBitVec x] = some b' ∧ _
    rw [appendInt8_bytes]
    exact append_spec h _
  | int16 x =>
    show ∃ b', b.append (host.toMemory 2 (host.htobe 2 x.toNat)) = some b' ∧ _
    rw [appendInt_bytes host (k := 2) x]
    exact append_spec h _
  | int32 x =>
    show ∃ b', b.append (host.toMemory 4 (host.htobe 4 x.toNat)) = some b' ∧ _
    rw [appendInt_bytes host (k := 4) x]
    exact append_spec h _
  | int64 x =>
    show ∃ b', b.append (host.toMemory 8 (host.htobe 8 x.toNat)) = some b' ∧ _
    rw [appendInt_bytes host (k := 8) x]
    exact append_spec h _

/-- The bytes at `readBegin()`, as long as they are readable. -/
theorem front_bytes (h : b.Valid) {bytes rest : List UInt8} (hb : b.readable = bytes ++ rest) :
    bytes.length ≤ b.readableBytes ∧ (b.buf.drop b.readIdx).take bytes.length = bytes := by
  have hlen : bytes.length ≤ b.readableBytes := by
    rw [← h.length_readable, hb, List.length_append]
    omega
  refine ⟨hlen, ?_⟩
  have htake : b.readable.take bytes.length = bytes := by rw [hb, List.take_left]
  rw [readable, List.take_take, Nat.min_eq_left hlen] at htake
  exact htake

theorem peekInt_spec (h : b.Valid) {k : ℕ} (x : BitVec (8 * k)) {rest : List UInt8}
    (hb : b.readable = twosComplement k x.toInt ++ rest) : b.peekInt host k = some x := by
  obtain ⟨hlen, htake⟩ := front_bytes h hb
  rw [length_twosComplement] at hlen htake
  have hpow : 256 ^ k = 2 ^ (8 * k) := by rw [Nat.pow_mul]
  rw [peekInt, if_pos hlen, htake, betoh_ofMemory host (length_twosComplement k _),
    ← littleEndian_toInt, List.reverse_reverse, ofLittleEndian_littleEndian, hpow,
    Nat.mod_eq_of_lt x.isLt, BitVec.ofNat_toNat, BitVec.setWidth_eq]

theorem peekInt8_spec (h : b.Valid) (x : BitVec 8) {rest : List UInt8}
    (hb : b.readable = twosComplement 1 x.toInt ++ rest) : b.peekInt8 = some x := by
  rw [← appendInt8_bytes] at hb
  obtain ⟨hlen, htake⟩ := front_bytes h hb
  rw [List.length_singleton] at hlen htake
  have hget : b.buf.getD b.readIdx 0 = UInt8.ofBitVec x := by
    have h0 := congrArg (fun l : List UInt8 => l.getD 0 0) htake
    simpa [List.getD_eq_getElem?_getD] using h0
  rw [peekInt8, if_pos hlen, hget]

theorem peekVal_spec (host : ByteOrder) (h : b.Valid) {v : IntVal} {rest : List UInt8}
    (hb : b.readable = v.encode ++ rest) : b.peekVal host v.width = some v := by
  cases v with
  | int8 x =>
    show b.peekInt8.map _ = _
    rw [peekInt8_spec h x hb]
    rfl
  | int16 x =>
    show (b.peekInt host 2).map _ = _
    rw [peekInt_spec h (k := 2) x hb]
    rfl
  | int32 x =>
    show (b.peekInt host 4).map _ = _
    rw [peekInt_spec h (k := 4) x hb]
    rfl
  | int64 x =>
    show (b.peekInt host 8).map _ = _
    rw [peekInt_spec h (k := 8) x hb]
    rfl

/-- `readIntN` is `peekIntN` and `retrieve` of its width. -/
theorem readVal_eq (host : ByteOrder) (b : Buffer) (w : IntWidth) :
    b.readVal host w
      = (b.peekVal host w).bind fun v => (b.retrieve w.bytes).map fun b' => (v, b') := by
  cases w <;>
    simp only [readVal, peekVal, readInt8, readInt16, readInt32, readInt64, readInt, IntWidth.bytes,
      Option.bind_map, Option.map_bind, Option.map_map, Function.comp_def]

theorem readVal_spec (host : ByteOrder) (h : b.Valid) {v : IntVal} {rest : List UInt8}
    (hb : b.readable = v.encode ++ rest) :
    ∃ b', b.readVal host v.width = some (v, b') ∧ b'.Valid ∧ b'.readable = rest := by
  have hlen := (front_bytes h hb).1
  obtain ⟨b', hb', hvalid, hread⟩ := retrieve_spec h hlen
  rw [v.length_encode] at hb'
  refine ⟨b', ?_, hvalid, ?_⟩
  · rw [readVal_eq, peekVal_spec host h hb, hb']
    rfl
  · rw [hread, hb, List.drop_left]

end Buffer

/-! ### Sequences of calls -/

/-- One call.  `skip` retrieves bytes that were in the buffer before. -/
inductive CodecOp where
  | append (v : IntVal)
  | read (w : IntWidth)
  | peek (w : IntWidth)
  | skip (len : ℕ)
  deriving DecidableEq, Repr

/-- The buffer, with the values read and peeked so far. -/
structure Session where
  buf : Buffer
  results : List IntVal

/-- The abstract counterpart: what was in the buffer before, the values appended and not read. -/
structure TypedQueue where
  before : List UInt8
  values : List IntVal
  results : List IntVal
  deriving DecidableEq, Repr

def Session.exec (host : ByteOrder) (s : Session) : CodecOp → Option Session
  | .append v => (s.buf.appendVal host v).map fun b => { s with buf := b }
  | .read w =>
    (s.buf.readVal host w).map fun r => { buf := r.2, results := s.results ++ [r.1] }
  | .peek w => (s.buf.peekVal host w).map fun v => { s with results := s.results ++ [v] }
  | .skip len => (s.buf.retrieve len).map fun b => { s with buf := b }

/-- A read or a peek matches when the oldest value not read has its width and nothing is before it. -/
def TypedQueue.exec (q : TypedQueue) : CodecOp → Option TypedQueue
  | .append v => some { q with values := q.values ++ [v] }
  | .read w =>
    match q.before, q.values with
    | [], v :: vs =>
      if v.width = w then some { q with values := vs, results := q.results ++ [v] } else none
    | _, _ => none
  | .peek w =>
    match q.before, q.values with
    | [], v :: _ => if v.width = w then some { q with results := q.results ++ [v] } else none
    | _, _ => none
  | .skip len => if len ≤ q.before.length then some { q with before := q.before.drop len } else none

/-- The bytes that stand for a typed queue. -/
def TypedQueue.bytes (q : TypedQueue) : List UInt8 := q.before ++ q.values.flatMap IntVal.encode

/-- A valid buffer holds the bytes of the queue, and the results agree. -/
structure Session.Holds (s : Session) (q : TypedQueue) : Prop where
  valid : s.buf.Valid
  bytes : s.buf.readable = q.bytes
  results : s.results = q.results

/-- The oldest value is in front when nothing is before it. -/
theorem Session.Holds.front {s : Session} {q : TypedQueue} (h : s.Holds q) {v : IntVal}
    {vs : List IntVal} (hb : q.before = []) (hv : q.values = v :: vs) :
    s.buf.readable = v.encode ++ vs.flatMap IntVal.encode := by
  rw [h.bytes, TypedQueue.bytes, hb, hv, List.nil_append, List.flatMap_cons]

theorem Session.Holds.step (host : ByteOrder) {s : Session} {q q' : TypedQueue} {op : CodecOp}
    (h : s.Holds q) (hop : q.exec op = some q') :
    ∃ s', s.exec host op = some s' ∧ s'.Holds q' := by
  cases op with
  | append v =>
    cases hop
    obtain ⟨b', hb', hvalid, hread⟩ := Buffer.appendVal_spec host h.valid v
    refine ⟨{ s with buf := b' }, by rw [Session.exec, hb']; rfl, hvalid, ?_, h.results⟩
    show b'.readable = _
    rw [hread, h.bytes]
    simp only [TypedQueue.bytes, List.flatMap_append, List.flatMap_cons, List.flatMap_nil,
      List.append_nil, List.append_assoc]
  | read w =>
    simp only [TypedQueue.exec] at hop
    split at hop
    · next v vs hbefore hvalues =>
      split at hop <;> cases hop
      next hw =>
      subst hw
      obtain ⟨b', hb', hvalid, hread⟩ :=
        Buffer.readVal_spec host h.valid (h.front hbefore hvalues)
      refine ⟨⟨b', s.results ++ [v]⟩, by rw [Session.exec, hb']; rfl, hvalid, ?_, ?_⟩
      · show b'.readable = q.before ++ _
        rw [hread, hbefore, List.nil_append]
      · show s.results ++ [v] = q.results ++ [v]
        rw [h.results]
    · cases hop
  | peek w =>
    simp only [TypedQueue.exec] at hop
    split at hop
    · next v vs hbefore hvalues =>
      split at hop <;> cases hop
      next hw =>
      subst hw
      have hpeek := Buffer.peekVal_spec host h.valid (h.front hbefore hvalues)
      refine ⟨{ s with results := s.results ++ [v] }, by rw [Session.exec, hpeek]; rfl, h.valid,
        h.bytes, ?_⟩
      show s.results ++ [v] = q.results ++ [v]
      rw [h.results]
    · cases hop
  | skip len =>
    simp only [TypedQueue.exec] at hop
    split at hop <;> cases hop
    next hlen =>
    have hroom : len ≤ s.buf.readableBytes := by
      rw [← h.valid.length_readable, h.bytes, TypedQueue.bytes, List.length_append]
      omega
    obtain ⟨b', hb', hvalid, hread⟩ := Buffer.retrieve_spec h.valid hroom
    refine ⟨{ s with buf := b' }, by rw [Session.exec, hb']; rfl, hvalid, ?_, h.results⟩
    show b'.readable = _
    rw [hread, h.bytes, TypedQueue.bytes, List.drop_append_of_le_length hlen]
    rfl

/-- **Round trip.**  From a buffer in any state, over every sequence of appends of the four widths with
matching reads and peeks in between (and retrieves of what was there before): no assertion fails, the
values read and peeked are those appended, in order, and the buffer holds the encodings of the values
not read yet.  In the state reached an append adds the encoding of its value, a peek of the oldest value
returns it, and a read returns it and takes off exactly its width. -/
theorem codec_round_trip (host : ByteOrder) (b : Buffer) (hb : b.Valid) (ops : List CodecOp)
    (q : TypedQueue) (hq : run TypedQueue.exec ⟨b.readable, [], []⟩ ops = some q) :
    ∃ s, run (Session.exec host) ⟨b, []⟩ ops = some s ∧ s.results = q.results ∧
      s.buf.readable = q.before ++ q.values.flatMap IntVal.encode ∧
      (∀ v, ∃ b', s.buf.appendVal host v = some b' ∧ b'.readable = s.buf.readable ++ v.encode) ∧
      ∀ v vs, q.before = [] → q.values = v :: vs →
        s.buf.peekVal host v.width = some v ∧
        ∃ b', s.buf.readVal host v.width = some (v, b') ∧
          b'.readable = vs.flatMap IntVal.encode ∧
          b'.readableBytes + v.width.bytes = s.buf.readableBytes := by
  have h₀ : Session.Holds ⟨b, []⟩ ⟨b.readable, [], []⟩ :=
    ⟨hb, (List.append_nil _).symm, rfl⟩
  obtain ⟨s, hrun, hholds⟩ := run_simulates TypedQueue.exec Session.Holds
    (fun _ _ _ _ h hop => h.step host hop) h₀ hq
  refine ⟨s, hrun, hholds.results, hholds.bytes, fun v => ?_, fun v vs hbefore hvalues => ?_⟩
  · obtain ⟨b', hb', -, hread⟩ := Buffer.appendVal_spec host hholds.valid v
    exact ⟨b', hb', hread⟩
  · have hfront := hholds.front hbefore hvalues
    obtain ⟨b', hb', hvalid, hread⟩ := Buffer.readVal_spec host hholds.valid hfront
    refine ⟨Buffer.peekVal_spec host hholds.valid hfront, b', hb', hread, ?_⟩
    rw [← hvalid.length_readable, ← hholds.valid.length_readable, hread, hfront,
      List.length_append, v.length_encode]
    omega

/-- Extreme values of mixed widths, on a small buffer that is not empty. -/
def codecOps : List CodecOp :=
  [.append (.int64 (BitVec.ofInt 64 (-2))), .skip 1, .append (.int16 0x8000#16), .peek .int64,
    .read .int64, .append (.int8 0xff#8), .read .int16, .append (.int32 0x80000001#32), .peek .int8]

theorem codec_round_trip_extremes :
    ∃ s, run (Session.exec .little) ⟨⟨[7, 9, 0], 1, 2⟩, []⟩ codecOps = some s ∧
      s.results.map IntVal.toInt = [-2, -2, -32768, -1] ∧
      s.buf.readable = [0xff, 0x80, 0, 0, 1] := by
  obtain ⟨s, hrun, hres, hread, -⟩ := codec_round_trip .little ⟨[7, 9, 0], 1, 2⟩
    ⟨by decide, by decide⟩ codecOps
    ⟨[], [.int8 0xff#8, .int32 0x80000001#32],
      [.int64 (BitVec.ofInt 64 (-2)), .int64 (BitVec.ofInt 64 (-2)), .int16 0x8000#16, .int8 0xff#8]⟩
    (by decide)
  refine ⟨s, hrun, ?_, ?_⟩
  · rw [hres]
    decide
  · rw [hread]
    decide

end KwNet.Memory
