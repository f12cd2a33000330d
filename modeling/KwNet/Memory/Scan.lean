import KwNet.Lib.Search
import KwNet.Memory.Fifo

/-!
# Looking for the end of a line

`Buffer::findEOL` and `Buffer::findCRLF` search the readable bytes from `readBegin()` or from a pointer on; a
caller that takes line after line starts again just past each hit.  `findCRLF(start)` asserts that `start` is
not before `readBegin()`, `findEOL(start)` that it is not behind it.

* `Buffer.findEOLFrom`, `Buffer.findCRLFFrom` — the searches, pointers being indices into the vector;
* **`lines_found`** — a search from `start` is right exactly at `readBegin()`, and restarting finds every
  terminator exactly if there is no `'\n'` to restart behind.
-/

namespace KwNet.Memory

open KwNet.Lib

/-- `'\n'`. -/
def eol : List UInt8 := [10]

/-- `Buffer::CRLF`. -/
def crlf : List UInt8 := [13, 10]

namespace Buffer

/-- `memmem` on the vector; `memchr` is the same with a single byte. -/
def memmem (b : Buffer) (start n : ℕ) (needle : List UInt8) : Option ℕ := findIn needle b.buf start (start + n)

/-- `crlf == writeBegin() ? nullptr : crlf`. -/
def unlessEnd (b : Buffer) (hit : Option ℕ) : Option ℕ := if hit = some b.writeIdx then none else hit

/-- `findCRLF()`. -/
def findCRLF (b : Buffer) : Option ℕ := b.unlessEnd (b.memmem b.readIdx b.readableBytes crlf)

/-- `findCRLF(start)`, with its assertions. -/
def findCRLFFrom (b : Buffer) (start : ℕ) : Option (Option ℕ) :=
  if b.readIdx ≤ start then
    if start ≤ b.writeIdx then
      some (b.unlessEnd (b.memmem start (b.readableBytes - (start - b.readIdx)) crlf))
    else none
  else none

/-- `findEOL()`. -/
def findEOL (b : Buffer) : Option ℕ := b.memmem b.readIdx b.readableBytes eol

/-- `findEOL(start)`, with its assertions. -/
def findEOLFrom (b : Buffer) (start : ℕ) : Option (Option ℕ) :=
  if start ≤ b.readIdx then
    if start ≤ b.writeIdx then some (b.memmem start (b.writeIdx - start) eol) else none
  else none

/-- Every line end from `readBegin()` on, and the same for `"\r\n"`. -/
def scanEOL (b : Buffer) : Option (List ℕ) := scan b.findEOLFrom 1 (b.readableBytes + 1) b.readIdx

def scanCRLF (b : Buffer) : Option (List ℕ) := scan b.findCRLFFrom 2 (b.readableBytes + 1) b.readIdx

/-- Both searches from `start` meet their assertions and return the first terminator that lies wholly in
`[start, writeBegin())`. -/
structure FindsFirst (b : Buffer) (start : ℕ) : Prop where
  eol : ∃ hit, b.findEOLFrom start = some hit ∧ FirstIn eol b.buf start b.writeIdx hit
  crlf : ∃ hit, b.findCRLFFrom start = some hit ∧ FirstIn crlf b.buf start b.writeIdx hit

/-- Restarting just past each hit enumerates the terminators of the readable bytes. -/
structure FindsAll (b : Buffer) : Prop where
  eol : b.scanEOL = some (occurrences eol b.buf b.readIdx b.writeIdx)
  crlf : b.scanCRLF = some (occurrences crlf b.buf b.readIdx b.writeIdx)

variable {b : Buffer} {start : ℕ}

theorem eol_ne_nil : eol ≠ [] := List.cons_ne_nil _ _

theorem crlf_ne_nil : crlf ≠ [] := List.cons_ne_nil _ _

/-- A pattern of length 2 with different letters does not overlap itself. -/
theorem crlf_apart (l : List UInt8) : Apart crlf l := by
  intro i j hi hj hlt
  have hfirst : l[j]? = some 13 := by
    have h := congrArg (fun xs : List UInt8 => xs[0]?) hj
    simpa [crlf] using h
  have hsecond : l[i + 1]? = some 10 := by
    have h := congrArg (fun xs : List UInt8 => xs[1]?) hi
    simpa [crlf] using h
  have hne : j ≠ i + 1 := by
    intro heq
    rw [heq, hsecond, Option.some.injEq] at hfirst
    exact absurd hfirst (by decide)
  have hlen : crlf.length = 2 := rfl
  omega

theorem eol_apart (l : List UInt8) : Apart eol l := fun _ _ _ _ hlt => hlt

/-- A hit of `memmem` is never `writeBegin()`. -/
theorem findCRLFFrom_eq (hstart : b.readIdx ≤ start) (hend : start ≤ b.writeIdx) :
    b.findCRLFFrom start = some (findIn crlf b.buf start b.writeIdx) := by
  have hlength : start + (b.readableBytes - (start - b.readIdx)) = b.writeIdx := by
    unfold readableBytes
    omega
  rw [findCRLFFrom, if_pos hstart, if_pos hend, memmem, hlength, unlessEnd]
  have hfirst := findIn_first crlf_ne_nil b.buf start b.writeIdx
  cases hhit : findIn crlf b.buf start b.writeIdx with
  | none => rfl
  | some i =>
    rw [hhit] at hfirst
    have hinside : i + 2 ≤ b.writeIdx := hfirst.2.1
    rw [if_neg (fun heq => by
      rw [Option.some.injEq] at heq
      omega)]

/-- The assertion of `findEOL(start)` holds at `readBegin()` only. -/
theorem findEOLFrom_eq (h : b.Valid) (hstart : b.readIdx ≤ start) :
    b.findEOLFrom start =
      if start = b.readIdx then some (findIn eol b.buf b.readIdx b.writeIdx) else none := by
  by_cases heq : start = b.readIdx
  · have hlength : b.readIdx + (b.writeIdx - b.readIdx) = b.writeIdx := Nat.add_sub_cancel' h.read
    rw [if_pos heq, heq, findEOLFrom, if_pos (Nat.le_refl _), if_pos h.read, memmem, hlength]
  · rw [if_neg heq, findEOLFrom, if_neg (by omega)]

/-- The overloads without an argument. -/
theorem find_begin (h : b.Valid) :
    b.findCRLFFrom b.readIdx = some b.findCRLF ∧ b.findEOLFrom b.readIdx = some b.findEOL := by
  constructor
  · rw [findCRLFFrom, if_pos (Nat.le_refl _), if_pos h.read, Nat.sub_self, Nat.sub_zero, findCRLF]
  · rw [findEOLFrom, if_pos (Nat.le_refl _), if_pos h.read, findEOL, readableBytes]

/-- One search. -/
theorem findsFirst_iff (h : b.Valid) (hstart : b.readIdx ≤ start) (hend : start ≤ b.writeIdx) :
    b.FindsFirst start ↔ start = b.readIdx := by
  constructor
  · intro hfinds
    obtain ⟨hit, hhit, -⟩ := hfinds.eol
    by_contra hne
    rw [findEOLFrom_eq h hstart, if_neg hne] at hhit
    cases hhit
  · intro heq
    refine ⟨⟨_, ?_, findIn_first eol_ne_nil b.buf start b.writeIdx⟩,
      ⟨_, findCRLFFrom_eq hstart hend, findIn_first crlf_ne_nil b.buf start b.writeIdx⟩⟩
    rw [findEOLFrom_eq h hstart, if_pos heq, heq]

/-- A `'\n'` among the readable bytes is an occurrence in the window. -/
theorem eol_mem_readable (h : b.Valid) : 10 ∈ b.readable ↔ occurrences eol b.buf b.readIdx b.writeIdx ≠ [] := by
  have hoccurs : ∀ i, OccursAt eol b.buf i ↔ b.buf[i]? = some 10 := by
    intro i
    show (b.buf.drop i).take 1 = [10] ↔ _
    rw [List.take_one, List.head?_drop]
    cases b.buf[i]? with
    | none => simp
    | some c => simp
  constructor
  · intro hmem
    obtain ⟨k, hk, hget⟩ := List.mem_iff_getElem.mp hmem
    rw [h.length_readable, readableBytes] at hk
    have hat : b.buf[b.readIdx + k]? = some 10 := by
      rw [← hget, ← List.getElem?_eq_getElem, readable,
        List.getElem?_take_of_lt (show k < b.readableBytes from hk), List.getElem?_drop]
    refine List.ne_nil_of_mem (a := b.readIdx + k)
      ((mem_occurrences eol_ne_nil).mpr ⟨⟨Nat.le_add_right _ _, ?_⟩, (hoccurs _).mpr hat⟩)
    show b.readIdx + k + 1 ≤ b.writeIdx
    omega
  · intro hne
    obtain ⟨i, hi⟩ := List.exists_mem_of_ne_nil _ hne
    obtain ⟨⟨hlo, hhi⟩, hocc⟩ := (mem_occurrences eol_ne_nil).mp hi
    have hlt : i + 1 ≤ b.writeIdx := hhi
    have hat : b.readable[i - b.readIdx]? = some 10 := by
      rw [readable, List.getElem?_take_of_lt (by unfold readableBytes; omega), List.getElem?_drop,
        Nat.add_sub_cancel' hlo]
      exact (hoccurs i).mp hocc
    exact List.mem_of_getElem? hat

/-- Restarting `findCRLF`. -/
theorem scanCRLF_eq (h : b.Valid) : b.scanCRLF = some (occurrences crlf b.buf b.readIdx b.writeIdx) :=
  scan_occurrences crlf_ne_nil (crlf_apart b.buf) (fun _ hlo hhi => findCRLFFrom_eq hlo hhi) h.read
    (Nat.lt_succ_self _)

/-- Restarting `findEOL`: the search behind the first hit fails its assertion. -/
theorem scanEOL_iff (h : b.Valid) :
    b.scanEOL = some (occurrences eol b.buf b.readIdx b.writeIdx) ↔
      occurrences eol b.buf b.readIdx b.writeIdx = [] := by
  have hfirst := findIn_first eol_ne_nil b.buf b.readIdx b.writeIdx
  rw [scanEOL, scan, findEOLFrom_eq h (Nat.le_refl _), if_pos rfl, Option.bind_some]
  cases hhit : findIn eol b.buf b.readIdx b.writeIdx with
  | none =>
    rw [hhit] at hfirst
    rw [occurrences_eq_nil eol_ne_nil hfirst]
    exact iff_of_true rfl rfl
  | some i =>
    rw [hhit] at hfirst
    have hlo : b.readIdx ≤ i := hfirst.1
    have hlt : i + 1 ≤ b.writeIdx := hfirst.2.1
    have hfail : scan b.findEOLFrom 1 b.readableBytes (i + 1) = none := by
      have hmore : b.readableBytes = b.readableBytes - 1 + 1 := by
        unfold readableBytes
        omega
      rw [hmore, scan, findEOLFrom_eq h (by omega), if_neg (by omega), Option.bind_none]
    rw [occurrences_eq_cons eol_ne_nil (eol_apart _) hfirst]
    show (scan b.findEOLFrom 1 b.readableBytes (i + 1)).map (fun hits => i :: hits) = _ ↔ _
    rw [hfail, Option.map_none]
    exact iff_of_false (fun heq => by cases heq) (List.cons_ne_nil _ _)

/-- **Which searches are right.**  For every buffer: from a pointer between `readBegin()` and `writeBegin()`
both searches meet their assertions and return the first terminator exactly if the pointer is `readBegin()`;
and restarting them just past each hit enumerates the terminators of the readable bytes exactly if there is no
`'\n'` among these. -/
theorem lines_found (b : Buffer) (h : b.Valid) :
    (∀ start, b.readIdx ≤ start → start ≤ b.writeIdx → (b.FindsFirst start ↔ start = b.readIdx)) ∧
      (b.FindsAll ↔ 10 ∉ b.readable) := by
  refine ⟨fun start hstart hend => findsFirst_iff h hstart hend, ?_⟩
  rw [eol_mem_readable h, not_not]
  constructor
  · intro hall
    exact (scanEOL_iff h).mp hall.eol
  · intro hnone
    exact ⟨(scanEOL_iff h).mpr hnone, scanCRLF_eq h⟩

/-- `"ab"`: there is no line end. -/
theorem lines_found_none : (⟨[97, 98], 0, 2⟩ : Buffer).FindsFirst 0 ∧ (⟨[97, 98], 0, 2⟩ : Buffer).FindsAll :=
  have h := lines_found ⟨[97, 98], 0, 2⟩ ⟨by decide, by decide⟩
  ⟨(h.1 0 (by decide) (by decide)).mpr rfl, h.2.mpr (by decide)⟩

/-- `"a\nb\n"`: the search behind the first line end fails its assertion. -/
theorem second_line_asserts :
    ¬ ∀ b : Buffer, b.Valid → (∀ start, b.readIdx ≤ start → start ≤ b.writeIdx → b.FindsFirst start) ∧ b.FindsAll := by
  intro hall
  have hfinds := (hall ⟨[97, 10, 98, 10], 0, 4⟩ ⟨by decide, by decide⟩).1 2 (by decide) (by decide)
  obtain ⟨hit, hhit, -⟩ := hfinds.eol
  cases hhit

end Buffer

end KwNet.Memory
