import KwNet.Memory.Fifo

/-!
# `stringPiece`

A pointer with a length.  `operator==` compares the bytes it points to with a C string, and it is the
terminator of the C string that ends the loop; `Buffer::toStringPiece` takes the length of the readable bytes
through an `int`, and `Buffer::shrink` moves them through such a piece.

* `equalsLoop` — the comparison, with the addresses it reads through `data_`;
* **`equality_is_content`** — it is equality of the contents, read inside the piece, exactly if the sizes
  agree or the two differ where both have a byte;
* **`shrink_keeps_content`** — `shrink` and `toStringPiece` keep the content exactly if its length comes back
  from the cast.
-/

namespace KwNet.Memory

open KwNet.Lib

/-- `stringPiece`: an address and a number of bytes. -/
structure StringPiece where
  data : ℕ
  size : ℕ
  deriving DecidableEq, Repr

/-- What a `const char*` argument points to, without the terminator behind it. -/
structure CString where
  bytes : List UInt8
  noNul : 0 ∉ bytes

/-! ### Equality -/

/-- The loop of `operator==`, over the bytes from `s` on, with `a` as an address in `mem`.  The second
component lists the addresses of the bytes that are read through `a`. -/
def equalsLoop (mem : ℕ → UInt8) : List UInt8 → ℕ → Bool × List ℕ
  | [], _ => (true, [])
  | c :: s, a =>
    if c = 0 then (true, [])
    else if c ≠ mem a then (false, [a])
    else
      let rest := equalsLoop mem s (a + 1)
      (rest.1, a :: rest.2)

/-- `operator==(const char*)`. -/
def StringPiece.equals (mem : ℕ → UInt8) (p : StringPiece) (s : CString) : Bool × List ℕ :=
  equalsLoop mem (s.bytes ++ [0]) p.data

/-- The `size()` bytes of a piece. -/
def StringPiece.content (mem : ℕ → UInt8) (p : StringPiece) : List UInt8 :=
  (List.range p.size).map fun i => mem (p.data + i)

variable {mem : ℕ → UInt8} {s : List UInt8} {a : ℕ}

/-- The loop stops behind the first byte that differs. -/
theorem equalsLoop_differs (hnul : 0 ∉ s) {k : ℕ} (hk : k < s.length)
    (hsame : ∀ i < k, s[i]? = some (mem (a + i))) (hdiff : s[k]? ≠ some (mem (a + k))) :
    equalsLoop mem (s ++ [0]) a = (false, List.range' a (k + 1)) := by
  induction s generalizing a k with
  | nil => exact absurd hk (Nat.not_lt_zero k)
  | cons c s ih =>
    obtain ⟨hc, hrest⟩ := List.ne_and_not_mem_of_not_mem_cons hnul
    rw [List.cons_append, equalsLoop, if_neg (Ne.symm hc)]
    cases k with
    | zero =>
      have hne : c ≠ mem a := by
        intro heq
        exact hdiff (congrArg some heq)
      rw [if_pos hne]
      rfl
    | succ k =>
      have heq : c = mem a := Option.some.inj (hsame 0 (Nat.succ_pos k))
      have hnext : ∀ i, a + (i + 1) = a + 1 + i := by
        intro i
        omega
      have htail := ih (a := a + 1) (k := k) hrest (Nat.lt_of_succ_lt_succ hk) (fun i hi => by
        rw [← hnext]
        exact hsame (i + 1) (Nat.succ_lt_succ hi)) (by
        rw [← hnext]
        exact hdiff)
      rw [if_neg (not_not.mpr heq), htail]
      rfl

/-- Without a byte that differs it goes on to the terminator of the C string. -/
theorem equalsLoop_same (hnul : 0 ∉ s) (hsame : ∀ i < s.length, s[i]? = some (mem (a + i))) :
    equalsLoop mem (s ++ [0]) a = (true, List.range' a s.length) := by
  induction s generalizing a with
  | nil => rfl
  | cons c s ih =>
    obtain ⟨hc, hrest⟩ := List.ne_and_not_mem_of_not_mem_cons hnul
    have heq : c = mem a := Option.some.inj (hsame 0 (Nat.succ_pos _))
    have htail := ih (a := a + 1) hrest (fun i hi => by
      rw [show a + 1 + i = a + (i + 1) by omega]
      exact hsame (i + 1) (Nat.succ_lt_succ hi))
    rw [List.cons_append, equalsLoop, if_neg (Ne.symm hc), if_neg (not_not.mpr heq), htail]
    rfl

/-- The content of a piece, byte by byte. -/
theorem StringPiece.content_eq_iff (p : StringPiece) (mem : ℕ → UInt8) (s : List UInt8) :
    p.size = s.length ∧ p.content mem = s ↔ p.size = s.length ∧ ∀ i < s.length, s[i]? = some (mem (p.data + i)) := by
  refine and_congr_right fun hsize => ?_
  have hlen : (p.content mem).length = s.length := by rw [content, List.length_map, List.length_range, hsize]
  have hget : ∀ i < s.length, (p.content mem)[i]? = some (mem (p.data + i)) := by
    intro i hi
    rw [content, List.getElem?_map, List.getElem?_range (by omega), Option.map_some]
  constructor
  · intro heq i hi
    rw [← heq]
    exact hget i hi
  · intro hall
    apply List.ext_getElem?
    intro i
    by_cases hi : i < s.length
    · rw [hget i hi, hall i hi]
    · rw [List.getElem?_eq_none (by omega), List.getElem?_eq_none (by omega)]

/-- The comparison gives content equality and stays inside the piece. -/
def EqualsContent (mem : ℕ → UInt8) (p : StringPiece) (s : CString) : Prop :=
  ((p.equals mem s).1 = true ↔ p.size = s.bytes.length ∧ p.content mem = s.bytes) ∧
    ∀ a ∈ (p.equals mem s).2, a < p.data + p.size

/-- Piece and string differ at a place where both have a byte. -/
def StringPiece.DiffersInside (mem : ℕ → UInt8) (p : StringPiece) (s : CString) : Prop :=
  ∃ i < p.size, ∃ c ∈ s.bytes[i]?, c ≠ mem (p.data + i)

instance (mem : ℕ → UInt8) (p : StringPiece) (s : CString) : Decidable (p.DiffersInside mem s) :=
  inferInstanceAs (Decidable (∃ i < p.size, ∃ c ∈ s.bytes[i]?, c ≠ mem (p.data + i)))

/-- The first byte of the C string that is not the one of the piece, if there is one. -/
theorem first_difference (mem : ℕ → UInt8) (s : List UInt8) (a : ℕ) :
    (∀ i < s.length, s[i]? = some (mem (a + i))) ∨
      ∃ k < s.length, (∀ i < k, s[i]? = some (mem (a + i))) ∧ s[k]? ≠ some (mem (a + k)) := by
  by_cases hex : ∃ k, k < s.length ∧ s[k]? ≠ some (mem (a + k))
  · refine .inr ⟨Nat.find hex, (Nat.find_spec hex).1, fun i hi => ?_, (Nat.find_spec hex).2⟩
    by_contra hne
    exact Nat.find_min hex hi ⟨hi.trans (Nat.find_spec hex).1, hne⟩
  · refine .inl fun i hi => ?_
    by_contra hne
    exact hex ⟨i, hi, hne⟩

/-- **Is `==` equality of the contents?**  For every memory, piece and C string: the comparison gives equality
of the contents and reads no byte behind the piece, exactly if the two are of one size or differ at a place
where both have a byte. -/
theorem equality_is_content (mem : ℕ → UInt8) (p : StringPiece) (s : CString) :
    EqualsContent mem p s ↔ p.size = s.bytes.length ∨ p.DiffersInside mem s := by
  have hcontent := p.content_eq_iff mem s.bytes
  rcases first_difference mem s.bytes p.data with hsame | ⟨k, hk, hsame, hdiff⟩
  · -- no difference: the loop reads as many bytes as the string has
    have hrun : p.equals mem s = (true, List.range' p.data s.bytes.length) := equalsLoop_same s.noNul hsame
    unfold EqualsContent
    rw [hrun, hcontent]
    constructor
    · intro h
      exact .inl (h.1.mp rfl).1
    · intro h
      obtain hsize | ⟨i, -, c, hc, hne⟩ := h
      · refine ⟨⟨fun _ => ⟨hsize, hsame⟩, fun _ => rfl⟩, fun b hb => ?_⟩
        rw [List.mem_range'_1] at hb
        omega
      · have hi : i < s.bytes.length := (List.getElem?_eq_some_iff.mp hc).1
        rw [Option.mem_def, hsame i hi, Option.some.injEq] at hc
        exact absurd hc.symm hne
  · have hrun : p.equals mem s = (false, List.range' p.data (k + 1)) := equalsLoop_differs s.noNul hk hsame hdiff
    unfold EqualsContent
    rw [hrun, hcontent]
    have hnever : ¬ (p.size = s.bytes.length ∧ ∀ i < s.bytes.length, s.bytes[i]? = some (mem (p.data + i))) :=
      fun h => hdiff (h.2 k hk)
    constructor
    · intro h
      -- the byte that differs has been read, so it lies inside the piece
      have hlast := h.2 (p.data + k) (List.mem_range'_1.mpr ⟨Nat.le_add_right _ _, by omega⟩)
      refine .inr ⟨k, by omega, s.bytes[k], List.getElem?_eq_getElem hk, fun heq => hdiff ?_⟩
      rw [List.getElem?_eq_getElem hk, heq]
    · intro h
      refine ⟨⟨fun hfalse => absurd hfalse Bool.false_ne_true, fun heq => absurd heq hnever⟩, fun b hb => ?_⟩
      rw [List.mem_range'_1] at hb
      have hinside : k < p.size := by
        obtain hsize | ⟨i, hi, c, hc, hne⟩ := h
        · omega
        · -- the first difference is no later than this one
          by_contra hnot
          rw [Option.mem_def, hsame i (by omega), Option.some.injEq] at hc
          exact hne hc.symm
      omega

/-- `"quit\n!"`, against `"quit\n"` as in the echo test. -/
def longerMessage : ℕ → UInt8 := fun i => [113, 117, 105, 116, 10, 33].getD i 0

def quitString : CString := ⟨[113, 117, 105, 116, 10], by decide⟩

/-- `"quit\n!" == "quit\n"` is true. -/
theorem prefix_is_equal :
    ¬ ∀ (mem : ℕ → UInt8) (p : StringPiece) (s : CString), EqualsContent mem p s := by
  intro hall
  have hequal := ((hall longerMessage ⟨0, 6⟩ quitString).1.mp (by decide)).1
  exact absurd hequal (by decide)

/-! ### Length through `int` -/

/-- `static_cast<int>` of a `size_t`, passed on as a `size_t`. -/
def throughInt (n : ℕ) : ℕ := (BitVec.ofInt 64 (BitVec.ofNat 32 n).toInt).toNat

/-- Which lengths come back: those an `int` can hold, and those that are its negative values. -/
theorem throughInt_eq_iff {n : ℕ} (hn : n < 2 ^ 64) : throughInt n = n ↔ n < 2 ^ 31 ∨ 2 ^ 64 - 2 ^ 31 ≤ n := by
  rw [throughInt, BitVec.toNat_ofInt, BitVec.toInt_eq_toNat_bmod, BitVec.toNat_ofNat, Int.bmod]
  omega

namespace Buffer

variable {b : Buffer}

/-- `toStringPiece()`: an address in the vector. -/
def toStringPiece (b : Buffer) : StringPiece := ⟨b.readIdx, throughInt b.readableBytes⟩

/-- `append(const stringPiece&)`, of a piece of `storage`. -/
def appendPiece (b : Buffer) (storage : List UInt8) (p : StringPiece) : Option Buffer :=
  if p.data + p.size ≤ storage.length then b.append (window storage p.data (p.data + p.size)) else none

/-- `shrink(reserve)`. -/
def shrink (b : Buffer) (reserve : ℕ) : Option Buffer :=
  ((ctor initialSize).ensureWritableBytes ((b.readableBytes + reserve) % 2 ^ 64)).bind fun other =>
    (other.appendPiece b.buf b.toStringPiece).map fun other => (b.swap other).1

/-- Appending to a buffer that has the room uses that room up. -/
theorem append_room (h : b.Valid) {bytes : List UInt8} (hroom : bytes.length ≤ b.writableBytes) :
    ∃ b', b.append bytes = some b' ∧ b'.Valid ∧ b'.readable = b.readable ++ bytes ∧
      b'.writableBytes + bytes.length = b.writableBytes := by
  have hsame : b.ensureWritableBytes bytes.length = some b := by
    rw [ensureWritableBytes, if_neg (Nat.not_lt.mpr hroom), if_pos hroom]
  obtain ⟨hvalid, hread⟩ := stored h hroom
  refine ⟨{ b.store bytes with writeIdx := b.writeIdx + bytes.length }, ?_, hvalid, hread, ?_⟩
  · rw [append, hsame]
    rfl
  · have hfit : b.writeIdx + bytes.length ≤ b.buf.length := by
      rw [← h.add_writable]
      omega
    have hlen : (splice b.buf b.writeIdx bytes).length = b.buf.length := length_splice hfit
    show (splice b.buf b.writeIdx bytes).length - (b.writeIdx + bytes.length) + bytes.length = b.buf.length - b.writeIdx
    omega

/-- What `shrink` leaves, when it comes to its end. -/
theorem shrink_readable {reserve : ℕ} {b' : Buffer} (hs : b.shrink reserve = some b') :
    b'.readable.length = throughInt b.readableBytes := by
  obtain ⟨other, hother, hs⟩ := Option.bind_eq_some_iff.mp hs
  obtain ⟨filled, hfilled, rfl⟩ := Option.map_eq_some_iff.mp hs
  obtain ⟨other', hother', hvalid, hempty, -⟩ := ensureWritableBytes_spec (ctor_valid initialSize)
    ((b.readableBytes + reserve) % 2 ^ 64)
  obtain rfl : other = other' := Option.some.inj (hother.symm.trans hother')
  unfold appendPiece at hfilled
  split at hfilled
  · next hin =>
    obtain ⟨filled', hfilled', -, hread⟩ := append_spec hvalid
      (window b.buf b.toStringPiece.data (b.toStringPiece.data + b.toStringPiece.size))
    obtain rfl : filled = filled' := Option.some.inj (hfilled.symm.trans hfilled')
    show filled.readable.length = _
    rw [hread, hempty, readable_ctor, List.nil_append, length_window hin, Nat.add_sub_cancel_left]
    rfl
  · cases hfilled

/-- `shrink`, with a length that comes back. -/
theorem shrink_spec (h : b.Valid) {reserve : ℕ} (hsize : b.readableBytes + reserve < 2 ^ 64)
    (hback : throughInt b.readableBytes = b.readableBytes) :
    ∃ b', b.shrink reserve = some b' ∧ b'.readable = b.readable ∧ reserve ≤ b'.writableBytes := by
  obtain ⟨other, hother, hvalid, hempty, hroom⟩ := ensureWritableBytes_spec (ctor_valid initialSize)
    (b.readableBytes + reserve)
  have hpiece : b.toStringPiece = ⟨b.readIdx, b.readableBytes⟩ := by rw [toStringPiece, hback]
  have hend : b.readIdx + b.readableBytes = b.writeIdx := Nat.add_sub_cancel' h.read
  have hbytes : window b.buf b.readIdx (b.readIdx + b.readableBytes) = b.readable := by rw [hend, readable_eq]
  have hfit : b.readable.length ≤ other.writableBytes := by
    rw [h.length_readable]
    omega
  obtain ⟨filled, hfilled, -, hread, hleft⟩ := append_room hvalid hfit
  refine ⟨filled, ?_, ?_, ?_⟩
  · rw [shrink, Nat.mod_eq_of_lt hsize, hother, Option.bind_some, hpiece, appendPiece, hbytes]
    rw [if_pos (show b.readIdx + b.readableBytes ≤ b.buf.length from hend ▸ h.write), hfilled]
    rfl
  · rw [hread, hempty, readable_ctor, List.nil_append]
  · rw [h.length_readable] at hleft
    omega

/-- `shrink` keeps the readable bytes and leaves the room asked for. -/
def ShrinkKeeps (b : Buffer) (reserve : ℕ) : Prop :=
  ∃ b', b.shrink reserve = some b' ∧ b'.readable = b.readable ∧ reserve ≤ b'.writableBytes

/-- `toStringPiece` denotes the readable bytes. -/
def PieceExact (b : Buffer) : Prop := b.toStringPiece = ⟨b.readIdx, b.readableBytes⟩

theorem shrinkKeeps_iff (h : b.Valid) {reserve : ℕ} (hsize : b.readableBytes + reserve < 2 ^ 64) :
    b.ShrinkKeeps reserve ↔ throughInt b.readableBytes = b.readableBytes := by
  constructor
  · intro hkeeps
    obtain ⟨b', hb', hread, -⟩ := hkeeps
    rw [← shrink_readable hb', hread, h.length_readable]
  · exact shrink_spec h hsize

theorem pieceExact_iff : b.PieceExact ↔ throughInt b.readableBytes = b.readableBytes := by
  rw [PieceExact, toStringPiece, StringPiece.mk.injEq]
  exact and_iff_right rfl

/-- **When `shrink` keeps the content.**  For every buffer and every `reserve`, the sum of the two lengths being
a `size_t`: the readable bytes and the room are as promised, and `toStringPiece` denotes the readable bytes,
exactly if there are fewer than `2 ^ 31` of them (or at least `2 ^ 64 - 2 ^ 31`, which no vector holds). -/
theorem shrink_keeps_content (b : Buffer) (h : b.Valid) (reserve : ℕ)
    (hsize : b.readableBytes + reserve < 2 ^ 64) :
    (b.ShrinkKeeps reserve ↔ b.readableBytes < 2 ^ 31 ∨ 2 ^ 64 - 2 ^ 31 ≤ b.readableBytes) ∧
      (b.PieceExact ↔ b.readableBytes < 2 ^ 31 ∨ 2 ^ 64 - 2 ^ 31 ≤ b.readableBytes) := by
  rw [shrinkKeeps_iff h hsize, pieceExact_iff, throughInt_eq_iff (by omega)]
  exact ⟨Iff.rfl, Iff.rfl⟩

/-- Two bytes, and room for ten more. -/
theorem shrink_keeps_content_two :
    (⟨[1, 2, 3], 1, 3⟩ : Buffer).ShrinkKeeps 10 ∧ (⟨[1, 2, 3], 1, 3⟩ : Buffer).PieceExact :=
  have h := shrink_keeps_content ⟨[1, 2, 3], 1, 3⟩ ⟨by decide, by decide⟩ 10 (by decide)
  ⟨h.1.mpr (.inl (by decide)), h.2.mpr (.inl (by decide))⟩

/-- `2 ^ 31` bytes do not pass. -/
theorem shrink_loses :
    ¬ ∀ b : Buffer, b.Valid → ∀ reserve, b.readableBytes + reserve < 2 ^ 64 → b.ShrinkKeeps reserve ∧ b.PieceExact := by
  intro hall
  have hvalid : (⟨List.replicate (2 ^ 31) 0, 0, 2 ^ 31⟩ : Buffer).Valid :=
    ⟨Nat.zero_le _, Nat.le_of_eq List.length_replicate.symm⟩
  have hsize : (⟨List.replicate (2 ^ 31) 0, 0, 2 ^ 31⟩ : Buffer).readableBytes = 2 ^ 31 := rfl
  have hexact := pieceExact_iff.mp (hall _ hvalid 0 (by rw [hsize]; norm_num)).2
  rw [hsize, throughInt_eq_iff (by norm_num)] at hexact
  norm_num at hexact

end Buffer

end KwNet.Memory
