import KwNet.Lib.Run
import KwNet.Lib.Window
import KwNet.Memory.Buffer

/-!
# `Buffer` is a queue of bytes

What the operations of `Buffer` do to its readable bytes, without the storage under them: `append`, a
write at `writeBegin()` and `readFd` put bytes at the back, the `retrieve` family takes them off the
front, `unwrite` takes them off the back again, and making room changes nothing.  Compaction and
growth (`addCap`) and the split of one `readv` over two blocks are invisible.

* `Buffer.Valid` — the indices lie in the vector, in order;
* **`ensureWritableBytes_spec`**, **`append_spec`**, **`readFd_spec`**, … — one lemma for each operation;
* `Op`, `Op.exec`, `Op.spec` — programs over any number of buffers, on the storage and on queues;
* **`buffer_refines_fifo`** — every program whose calls meet their assertions runs, and agrees with the
  queues.
-/

namespace KwNet.Memory

open KwNet.Lib

namespace Buffer

variable {b : Buffer}

/-- `read_idx <= write_idx <= buf.size()`. -/
structure Valid (b : Buffer) : Prop where
  read : b.readIdx ≤ b.writeIdx
  write : b.writeIdx ≤ b.buf.length

theorem readable_eq (b : Buffer) : b.readable = window b.buf b.readIdx b.writeIdx := rfl

theorem Valid.length_readable (h : b.Valid) : b.readable.length = b.readableBytes :=
  length_window h.write

theorem Valid.add_writable (h : b.Valid) : b.writeIdx + b.writableBytes = b.buf.length :=
  Nat.add_sub_cancel' h.write

theorem ctor_valid (n : ℕ) : (ctor n).Valid := ⟨Nat.le_refl 0, Nat.zero_le _⟩

theorem readable_ctor (n : ℕ) : (ctor n).readable = [] := window_self _ 0

/-! ### Making room -/

/-- `addCap` moves the readable bytes to the front of a vector at least as long. -/
theorem addCap_spec (h : b.Valid) (len : ℕ) :
    (b.addCap len).Valid ∧ (b.addCap len).readable = b.readable ∧
      b.writableBytes + len ≤ (b.addCap len).writableBytes := by
  obtain ⟨hr, hw⟩ := h
  have hgrown : ∃ ext, (if b.readIdx < len then b.buf ++ List.replicate len 0 else b.buf)
      = b.buf ++ ext ∧ (b.readIdx < len → ext.length = len) := by
    split
    · exact ⟨_, rfl, fun _ => List.length_replicate⟩
    · next hlen => exact ⟨[], (List.append_nil _).symm, fun h => absurd h hlen⟩
  obtain ⟨ext, hext, hlen⟩ := hgrown
  have hmoved : window (b.buf ++ ext) b.readIdx b.writeIdx = b.readable :=
    window_append_left hw
  have hsize : b.readable.length = b.writeIdx - b.readIdx := length_window hw
  have hbuf : (b.addCap len).buf = b.readable ++ (b.buf ++ ext).drop b.readable.length := by
    rw [hsize, ← hmoved, ← hext]
    rfl
  have htotal : (b.addCap len).buf.length = b.buf.length + ext.length := by
    rw [hbuf, List.length_append, List.length_drop, List.length_append]
    omega
  refine ⟨⟨Nat.zero_le _, ?_⟩, ?_, ?_⟩
  · show b.writeIdx - b.readIdx ≤ _
    rw [htotal]
    omega
  · rw [readable_eq, hbuf]
    show window _ 0 (b.writeIdx - b.readIdx) = _
    rw [window_append_left (by omega), ← hsize, window, List.drop_zero, Nat.sub_zero,
      List.take_length]
  · show _ ≤ (b.addCap len).buf.length - (b.writeIdx - b.readIdx)
    rw [htotal, writableBytes]
    by_cases hshort : b.readIdx < len
    · rw [hlen hshort]
      omega
    · omega

/-- `ensureWritableBytes` never fails, makes the room and keeps the readable bytes. -/
theorem ensureWritableBytes_spec (h : b.Valid) (len : ℕ) :
    ∃ b', b.ensureWritableBytes len = some b' ∧ b'.Valid ∧ b'.readable = b.readable ∧
      len ≤ b'.writableBytes := by
  unfold ensureWritableBytes
  by_cases hroom : b.writableBytes < len
  · obtain ⟨hvalid, hkeep, hgrow⟩ := addCap_spec h (len - b.writableBytes)
    have hlen : len ≤ (b.addCap (len - b.writableBytes)).writableBytes := by omega
    exact ⟨_, by rw [if_pos hroom, if_pos hlen], hvalid, hkeep, hlen⟩
  · have hlen : len ≤ b.writableBytes := Nat.le_of_not_lt hroom
    exact ⟨b, by rw [if_neg hroom, if_pos hlen], h, rfl, hlen⟩

/-! ### Putting bytes at the back -/

/-- Storing at `writeBegin()` and moving the write index past it. -/
theorem stored (h : b.Valid) {bytes : List UInt8} (hroom : bytes.length ≤ b.writableBytes) :
    { b.store bytes with writeIdx := b.writeIdx + bytes.length }.Valid ∧
      { b.store bytes with writeIdx := b.writeIdx + bytes.length }.readable
        = b.readable ++ bytes := by
  have hfit : b.writeIdx + bytes.length ≤ b.buf.length := by
    rw [← h.add_writable]
    omega
  refine ⟨⟨Nat.le_add_right_of_le h.read, ?_⟩, window_splice h.read hfit⟩
  show _ ≤ (splice b.buf b.writeIdx bytes).length
  rw [length_splice hfit]
  exact hfit

theorem hasWritten_spec (h : b.Valid) (bytes : List UInt8)
    (hroom : bytes.length ≤ b.writableBytes) :
    ∃ b', (b.store bytes).hasWritten bytes.length = some b' ∧ b'.Valid ∧
      b'.readable = b.readable ++ bytes := by
  have hfit : b.writeIdx + bytes.length ≤ b.buf.length := by
    rw [← h.add_writable]
    omega
  have hsame : (b.store bytes).writableBytes = b.writableBytes := by
    show (splice b.buf b.writeIdx bytes).length - b.writeIdx = _
    rw [length_splice hfit]
    rfl
  exact ⟨_, if_pos (by rw [hsame]; exact hroom), stored h hroom⟩

theorem append_spec (h : b.Valid) (bytes : List UInt8) :
    ∃ b', b.append bytes = some b' ∧ b'.Valid ∧ b'.readable = b.readable ++ bytes := by
  obtain ⟨b₁, hb₁, hvalid, hkeep, hroom⟩ := ensureWritableBytes_spec h bytes.length
  refine ⟨{ b₁.store bytes with writeIdx := b₁.writeIdx + bytes.length }, ?_, ?_⟩
  · rw [append, hb₁]
    rfl
  · rw [← hkeep]
    exact stored hvalid hroom

/-- `readFd` appends what `readv` delivered, wherever it landed. -/
theorem readFd_spec (h : b.Valid) (data : List UInt8) :
    ∃ b' : Buffer, b.readFd (.bytes data) = some (b', (data.length : ℤ)) ∧ b'.Valid ∧
      b'.readable = b.readable ++ data := by
  by_cases hfit : data.length ≤ b.writableBytes
  · have hs := stored h hfit
    refine ⟨{ b.store data with writeIdx := b.writeIdx + data.length }, ?_, hs⟩
    simp only [readFd, if_pos hfit, List.take_of_length_le hfit]
  · -- the tail is full, the rest goes through `append`
    have htail : (data.take b.writableBytes).length = b.writableBytes := by
      rw [List.length_take]
      omega
    have hs := stored h (Nat.le_of_eq htail)
    rw [htail] at hs
    have hend : (b.store (data.take b.writableBytes)).buf.length = b.writeIdx + b.writableBytes := by
      have hfull : b.writeIdx + (data.take b.writableBytes).length ≤ b.buf.length := by
        rw [htail, h.add_writable]
      exact (length_splice hfull).trans h.add_writable.symm
    obtain ⟨b', hb', hvalid, hread⟩ := append_spec hs.1 (data.drop b.writableBytes)
    refine ⟨b', ?_, hvalid, ?_⟩
    · simp only [readFd, if_neg hfit, hend, hb', Option.map_some]
    · rw [hread, hs.2, List.append_assoc, List.take_append_drop]

/-! ### Taking bytes off -/

theorem retrieveAll_spec (b : Buffer) : b.retrieveAll.Valid ∧ b.retrieveAll.readable = [] :=
  ⟨⟨Nat.le_refl 0, Nat.zero_le _⟩, window_self _ 0⟩

theorem retrieve_spec (h : b.Valid) {len : ℕ} (hlen : len ≤ b.readableBytes) :
    ∃ b', b.retrieve len = some b' ∧ b'.Valid ∧ b'.readable = b.readable.drop len := by
  have hsize := h.length_readable
  refine ⟨_, if_pos hlen, ?_⟩
  by_cases hlt : len < b.readableBytes
  · rw [if_pos hlt]
    have hbound : b.readIdx + len ≤ b.writeIdx := by
      unfold readableBytes at hlt
      omega
    refine ⟨⟨hbound, h.write⟩, ?_⟩
    show (b.buf.drop (b.readIdx + len)).take (b.writeIdx - (b.readIdx + len)) = _
    rw [readable, List.drop_take, List.drop_drop, readableBytes]
    congr 1
    omega
  · rw [if_neg hlt, List.drop_of_length_le (by omega)]
    exact retrieveAll_spec b

theorem retrieveUntil_spec (h : b.Valid) {offset : ℕ} (hlen : offset ≤ b.readableBytes) :
    ∃ b', b.retrieveUntil (b.readIdx + offset) = some b' ∧ b'.Valid ∧
      b'.readable = b.readable.drop offset := by
  obtain ⟨b', hb', hspec⟩ := retrieve_spec h hlen
  refine ⟨b', ?_, hspec⟩
  have hle : (b.readIdx : ℤ) + offset ≤ b.writeIdx := by
    have := h.read
    unfold readableBytes at hlen
    omega
  rw [retrieveUntil, if_pos (by omega), if_pos hle, add_sub_cancel_left, Int.toNat_natCast, hb']

theorem retrieveAsString_spec (h : b.Valid) {len : ℕ} (hlen : len ≤ b.readableBytes) :
    ∃ b', b.retrieveAsString len = some (b.readable.take len, b') ∧ b'.Valid ∧
      b'.readable = b.readable.drop len := by
  obtain ⟨b', hb', hspec⟩ := retrieve_spec h hlen
  refine ⟨b', ?_, hspec⟩
  rw [retrieveAsString, if_pos hlen, hb', Option.map_some, readable, List.take_take,
    Nat.min_eq_left hlen]

theorem unwrite_spec (h : b.Valid) {len : ℕ} (hlen : len ≤ b.readableBytes) :
    ∃ b', b.unwrite len = some b' ∧ b'.Valid ∧
      b'.readable = b.readable.take (b.readable.length - len) := by
  refine ⟨_, if_pos hlen, ⟨?_, (Nat.sub_le _ _).trans h.write⟩, ?_⟩
  · have := h.read
    unfold readableBytes at hlen
    show b.readIdx ≤ b.writeIdx - len
    omega
  · rw [h.length_readable]
    show (b.buf.drop b.readIdx).take (b.writeIdx - len - b.readIdx) = _
    rw [readable, List.take_take, readableBytes]
    congr 1
    omega

end Buffer

/-! ### Programs over buffers -/

/-- One call on the buffers `i`, `j`, …  `write` stores bytes at `writeBegin()` and calls `hasWritten`;
`retrieveUntil` is given its distance from `readBegin()`. -/
inductive Op (ι : Type) where
  | append (i : ι) (bytes : List UInt8)
  | ensureWritableBytes (i : ι) (len : ℕ)
  | write (i : ι) (bytes : List UInt8)
  | retrieve (i : ι) (len : ℕ)
  | retrieveUntil (i : ι) (offset : ℤ)
  | retrieveAll (i : ι)
  | retrieveAsString (i : ι) (len : ℕ)
  | unwrite (i : ι) (len : ℕ)
  | swap (i j : ι)
  | readFd (i : ι) (r : Buffer.Readv)
  deriving DecidableEq, Repr

/-- The buffers of a program, with the strings `retrieveAsString` has returned so far. -/
structure Pool (ι : Type) where
  bufs : ι → Buffer
  strings : List (List UInt8)

/-- The same on queues. -/
structure Queues (ι : Type) where
  queue : ι → List UInt8
  strings : List (List UInt8)

variable {ι : Type}

def Pool.ctor (sizes : ι → ℕ) : Pool ι := ⟨fun i => Buffer.ctor (sizes i), []⟩

def Queues.empty : Queues ι := ⟨fun _ => [], []⟩

/-- The assertions a call starts with, and what `readv` can answer. -/
def Op.Allowed (p : Pool ι) : Op ι → Prop
  | .append _ _ | .ensureWritableBytes _ _ | .retrieveAll _ | .swap _ _ | .readFd _ .error => True
  | .write i bytes => bytes.length ≤ (p.bufs i).writableBytes
  | .retrieve i len | .retrieveAsString i len | .unwrite i len => len ≤ (p.bufs i).readableBytes
  | .retrieveUntil i offset => 0 ≤ offset ∧ offset ≤ (p.bufs i).readableBytes
  | .readFd i (.bytes data) => data.length ≤ (p.bufs i).iovLength

instance (p : Pool ι) (op : Op ι) : Decidable (op.Allowed p) :=
  match op with
  | .append _ _ | .ensureWritableBytes _ _ | .retrieveAll _ | .swap _ _ | .readFd _ .error =>
    inferInstanceAs (Decidable True)
  | .write i bytes => inferInstanceAs (Decidable (bytes.length ≤ (p.bufs i).writableBytes))
  | .retrieve i len | .retrieveAsString i len | .unwrite i len =>
    inferInstanceAs (Decidable (len ≤ (p.bufs i).readableBytes))
  | .retrieveUntil i offset =>
    inferInstanceAs (Decidable (0 ≤ offset ∧ offset ≤ (p.bufs i).readableBytes))
  | .readFd i (.bytes data) => inferInstanceAs (Decidable (data.length ≤ (p.bufs i).iovLength))

variable [DecidableEq ι]

def Pool.set (p : Pool ι) (i : ι) (b : Buffer) : Pool ι :=
  { p with bufs := Function.update p.bufs i b }

def Queues.set (q : Queues ι) (i : ι) (bytes : List UInt8) : Queues ι :=
  { q with queue := Function.update q.queue i bytes }

/-- The call on the storage. -/
def Op.exec (p : Pool ι) : Op ι → Option (Pool ι)
  | .append i bytes => ((p.bufs i).append bytes).map (p.set i)
  | .ensureWritableBytes i len => ((p.bufs i).ensureWritableBytes len).map (p.set i)
  | .write i bytes => (((p.bufs i).store bytes).hasWritten bytes.length).map (p.set i)
  | .retrieve i len => ((p.bufs i).retrieve len).map (p.set i)
  | .retrieveUntil i offset =>
    ((p.bufs i).retrieveUntil ((p.bufs i).readIdx + offset)).map (p.set i)
  | .retrieveAll i => some (p.set i (p.bufs i).retrieveAll)
  | .retrieveAsString i len =>
    ((p.bufs i).retrieveAsString len).map fun r =>
      { p.set i r.2 with strings := p.strings ++ [r.1] }
  | .unwrite i len => ((p.bufs i).unwrite len).map (p.set i)
  | .swap i j =>
    let (b, rhs) := (p.bufs i).swap (p.bufs j)
    some ((p.set i b).set j rhs)
  | .readFd i r => ((p.bufs i).readFd r).map fun res => p.set i res.1

/-- The call on queues. -/
def Op.spec (q : Queues ι) : Op ι → Queues ι
  | .append i bytes | .write i bytes | .readFd i (.bytes bytes) => q.set i (q.queue i ++ bytes)
  | .ensureWritableBytes _ _ | .readFd _ .error => q
  | .retrieve i len => q.set i ((q.queue i).drop len)
  | .retrieveUntil i offset => q.set i ((q.queue i).drop offset.toNat)
  | .retrieveAll i => q.set i []
  | .retrieveAsString i len =>
    { q.set i ((q.queue i).drop len) with strings := q.strings ++ [(q.queue i).take len] }
  | .unwrite i len => q.set i ((q.queue i).take ((q.queue i).length - len))
  | .swap i j => (q.set i (q.queue j)).set j (q.queue i)

/-! ### Refinement -/

/-- Valid buffers whose readable bytes are the queues. -/
structure Represents (p : Pool ι) (q : Queues ι) : Prop where
  valid : ∀ i, (p.bufs i).Valid
  queue : ∀ i, (p.bufs i).readable = q.queue i
  strings : p.strings = q.strings

omit [DecidableEq ι] in
theorem represents_ctor (sizes : ι → ℕ) : Represents (Pool.ctor sizes) Queues.empty :=
  ⟨fun i => Buffer.ctor_valid (sizes i), fun i => Buffer.readable_ctor (sizes i), rfl⟩

/-- A buffer replaced by one that holds the bytes of a queue. -/
theorem Represents.set {p : Pool ι} {q : Queues ι} (h : Represents p q) (i : ι) {b : Buffer}
    {bytes : List UInt8} (hb : b.Valid ∧ b.readable = bytes) :
    Represents (p.set i b) (q.set i bytes) := by
  constructor
  · intro j
    show (Function.update p.bufs i b j).Valid
    by_cases hj : j = i
    · subst hj
      rw [Function.update_self]
      exact hb.1
    · rw [Function.update_of_ne hj]
      exact h.valid j
  · intro j
    show (Function.update p.bufs i b j).readable = Function.update q.queue i bytes j
    by_cases hj : j = i
    · subst hj
      rw [Function.update_self, Function.update_self]
      exact hb.2
    · rw [Function.update_of_ne hj, Function.update_of_ne hj]
      exact h.queue j
  · exact h.strings

/-- The usual shape of an operation: it has a result, valid and with the expected bytes. -/
theorem Represents.mapSet {p : Pool ι} {q : Queues ι} (h : Represents p q) (i : ι)
    {r : Option Buffer} {bytes : List UInt8}
    (hr : ∃ b', r = some b' ∧ b'.Valid ∧ b'.readable = bytes) :
    ∃ p', r.map (p.set i) = some p' ∧ Represents p' (q.set i bytes) := by
  obtain ⟨b', rfl, hb'⟩ := hr
  exact ⟨_, rfl, h.set i hb'⟩

theorem Represents.exec {p : Pool ι} {q : Queues ι} (h : Represents p q) {op : Op ι}
    (hop : op.Allowed p) : ∃ p', op.exec p = some p' ∧ Represents p' (op.spec q) := by
  cases op with
  | append i bytes =>
    refine h.mapSet i ?_
    rw [← h.queue i]
    exact Buffer.append_spec (h.valid i) bytes
  | ensureWritableBytes i len =>
    obtain ⟨b', hb', hvalid, hkeep, -⟩ := Buffer.ensureWritableBytes_spec (h.valid i) len
    have hset := h.set i ⟨hvalid, hkeep.trans (h.queue i)⟩
    rw [Queues.set, Function.update_eq_self] at hset
    exact ⟨_, by rw [Op.exec, hb']; rfl, hset⟩
  | write i bytes =>
    refine h.mapSet i ?_
    rw [← h.queue i]
    exact Buffer.hasWritten_spec (h.valid i) _ hop
  | retrieve i len =>
    refine h.mapSet i ?_
    rw [← h.queue i]
    exact Buffer.retrieve_spec (h.valid i) hop
  | retrieveUntil i offset =>
    obtain ⟨n, rfl⟩ := Int.eq_ofNat_of_zero_le hop.1
    refine h.mapSet i ?_
    rw [← h.queue i]
    exact Buffer.retrieveUntil_spec (h.valid i) (Int.ofNat_le.mp hop.2)
  | retrieveAll i => exact ⟨_, rfl, h.set i (Buffer.retrieveAll_spec _)⟩
  | retrieveAsString i len =>
    obtain ⟨b', hb', hspec⟩ := Buffer.retrieveAsString_spec (h.valid i) hop
    rw [h.queue i] at hb' hspec
    have hset := h.set i hspec
    refine ⟨{ p.set i b' with strings := p.strings ++ [(q.queue i).take len] }, ?_, hset.valid,
      hset.queue, ?_⟩
    · rw [Op.exec, hb']
      rfl
    · show p.strings ++ _ = q.strings ++ _
      rw [h.strings]
  | unwrite i len =>
    refine h.mapSet i ?_
    rw [← h.queue i]
    exact Buffer.unwrite_spec (h.valid i) hop
  | swap i j =>
    exact ⟨_, rfl, (h.set i ⟨h.valid j, h.queue j⟩).set j ⟨h.valid i, h.queue i⟩⟩
  | readFd i r =>
    cases r with
    | error =>
      refine ⟨p, ?_, h⟩
      show some (p.set i (p.bufs i)) = some p
      rw [Pool.set, Function.update_eq_self]
    | bytes data =>
      obtain ⟨b', hb', hspec⟩ := Buffer.readFd_spec (h.valid i) data
      rw [h.queue i] at hspec
      exact ⟨_, by rw [Op.exec, hb']; rfl, h.set i hspec⟩

/-- A program over two buffers: a compaction in place, a growth, a read over both blocks, a swap. -/
def fifoProgram : List (Op Bool) :=
  [.append true [1, 2, 3, 4], .retrieve true 3, .append true [5, 6], .append false [7],
    .readFd false (.bytes [8, 9]), .swap true false, .unwrite true 1, .retrieveAsString false 2,
    .retrieveUntil true 1, .write false [], .readFd true .error]

end KwNet.Memory
