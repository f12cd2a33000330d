import KwNet.Log.Convert

/-!
# `LogStream` and its fixed buffer

`Loggers/LogStream.h`.  A `FixedBuffer` is an array and a cursor into it; both stay in bounds by construction, so an
operation that would write outside the array, or move the cursor out of it, comes to `none`.  It also does where a
copy would read outside its source or be of a negative length.

`Insert` lists the insertions.  A `double` is given by the text that `snprintf` makes of it; a `float` is cast to
`double`, an `unsigned char` string to a `char` string.

* `Insert.text`, `Insert.Fits` — what an insertion is to add, and when it does;
* `record` — what the insertions come to without array and cursor: a text that grows by whole pieces;
* **`insert_holds`** — one insertion follows `record`;
* **`insertions_recorded`** — so does any sequence of insertions.
-/

namespace KwNet.LogStream

open KwNet.Lib

/-- `FixedBuffer<SIZE>`. -/
structure FixedBuffer (SIZE : ℕ) where
  data : Text
  /-- `cur - data`. -/
  cur : ℕ
  size : data.length = SIZE
  inside : cur ≤ SIZE

namespace FixedBuffer

variable {SIZE : ℕ}

/-- The constructor, on whatever the array holds. -/
def new (data : Text) (size : data.length = SIZE) : FixedBuffer SIZE := ⟨data, 0, size, Nat.zero_le _⟩

/-- `avail`. -/
def avail (b : FixedBuffer SIZE) : ℕ := SIZE - b.cur

/-- `toString`. -/
def toString (b : FixedBuffer SIZE) : Text := b.data.take b.cur

/-- `add`, when the stores before it have made `mem` of the array. -/
def add (b : FixedBuffer SIZE) (mem : Text) (off : ℕ) : Option (FixedBuffer SIZE) :=
  if h : mem.length = SIZE ∧ b.cur + off ≤ SIZE then some ⟨mem, b.cur + off, h.1, h.2⟩ else none

/-- `append`. -/
def append (b : FixedBuffer SIZE) (str : Text) (len : ℤ) : Option (FixedBuffer SIZE) :=
  if len ≤ b.avail then
    -- `memcpy` takes the length for a `size_t`
    if 0 ≤ len ∧ len ≤ str.length then
      (storeAll b.data b.cur (str.take len.toNat)).bind fun mem => b.add mem len.toNat
    else none
  else some b

end FixedBuffer

/-- A `size_t` that is passed for an `int`. -/
def toInt (n : ℕ) : ℤ := (n : ℤ).bmod (2 ^ 32)

def strlen (s : Text) : ℕ := (s.takeWhile fun c => c ≠ nul).length

/-- `LogStream::Buffer`. -/
abbrev Buffer := FixedBuffer 4096

/-- `MaxNumericSize`. -/
def maxNumericSize : ℕ := 48

/-- The insertions. -/
inductive Insert where
  | bool (is : Bool)
  | char (c : Char)
  | int (t : IntType) (v : t.Value)
  /-- A pointer, as a `uintptr_t`. -/
  | pointer (v : UInt64)
  /-- A `double` of which `snprintf` makes `text`. -/
  | double (text : Text)
  /-- A `const char*`, which may be null. -/
  | cString (str : Option Text)
  | string (str : Text)
  | buffer (buf : Buffer)
  /-- `LogStream::append`. -/
  | piece (data : Text) (len : ℤ)

/-- `formatedInt`. -/
def formatedInt (b : Buffer) (v : ℤ) : Option Buffer :=
  if maxNumericSize ≤ b.avail then (convert b.data b.cur v).bind fun r => b.add r.1 r.2 else some b

/-- `operator<<(double)`: `snprintf` cuts the text off after 47 characters and returns its length. -/
def formatedDouble (b : Buffer) (text : Text) : Option Buffer :=
  if maxNumericSize ≤ b.avail then
    (storeAll b.data b.cur (text.take (maxNumericSize - 1) ++ [nul])).bind fun mem => b.add mem text.length
  else some b

/-- `operator<<(const void*)`. -/
def formatedPointer (b : Buffer) (v : ℕ) : Option Buffer :=
  if maxNumericSize ≤ b.avail then
    (store b.data b.cur '0').bind fun mem =>
      (store mem (b.cur + 1) 'x').bind fun mem =>
        (convertHex mem (b.cur + 2) v).bind fun r => b.add r.1 (r.2 + 2)
  else some b

/-- `operator<<`. -/
def insert (b : Buffer) : Insert → Option Buffer
  | .bool is => b.append (if is then ['1'] else ['0']) 1
  | .char c => b.append [c] 1
  | .int _ v => formatedInt b v.val
  | .pointer v => formatedPointer b v.toNat
  | .double text => formatedDouble b text
  | .cString (some str) => b.append str (toInt (strlen str))
  | .cString none => b.append "(null)".toList 6
  | .string str => b.append str (toInt str.length)
  | .buffer buf => b.append buf.toString (toInt buf.toString.length)
  | .piece data len => b.append data len

/-- Insertions one after another. -/
def insertAll (b : Buffer) (is : List Insert) : Option Buffer := is.foldlM insert b

/-! ### What the insertions come to -/

/-- The text of an insertion. -/
def Insert.text : Insert → Text
  | .bool is => if is then ['1'] else ['0']
  | .char c => [c]
  | .int _ v => decimal v.val
  | .pointer v => '0' :: 'x' :: hex v.toNat
  | .double text => text
  | .cString (some str) => str.take (strlen str)
  | .cString none => "(null)".toList
  | .string str => str
  | .buffer buf => buf.toString
  | .piece data len => data.take len.toNat

def Insert.numeric : Insert → Bool
  | .int _ _ | .pointer _ | .double _ => true
  | _ => false

/-- An insertion fits into `avail` free cells. -/
def Insert.Fits (i : Insert) (avail : ℕ) : Prop :=
  if i.numeric then maxNumericSize ≤ avail else i.text.length ≤ avail

instance (i : Insert) (avail : ℕ) : Decidable (i.Fits avail) := inferInstanceAs (Decidable (ite _ _ _))

/-- Texts of doubles are short, strings shorter than `2 ^ 31`, and pieces part of their data. -/
def Insert.Ok : Insert → Prop
  | .double text => text.length < maxNumericSize
  | .cString (some str) => strlen str < 2 ^ 31
  | .string str => str.length < 2 ^ 31
  | .piece data len => 0 ≤ len ∧ len ≤ data.length
  | _ => True

/-- A text in 4096 cells grows by whole pieces. -/
def record (s : Text) (i : Insert) : Text := if i.Fits (4096 - s.length) then s ++ i.text else s

/-! ### One insertion -/

/-- The buffer holds `s`, and `room` behind it. -/
def Holds (b : Buffer) (s room : Text) : Prop := b.data = s ++ room ∧ b.cur = s.length

variable {b b' : Buffer} {s room : Text} {i : Insert}

theorem Holds.toString (h : Holds b s room) : b.toString = s := by
  rw [FixedBuffer.toString, h.1, h.2, List.take_left]

theorem holds_self (b : Buffer) : Holds b b.toString (b.data.drop b.cur) := by
  refine ⟨(List.take_append_drop _ _).symm, ?_⟩
  rw [FixedBuffer.toString, List.length_take, b.size, Nat.min_eq_left b.inside]

theorem Holds.avail (h : Holds b s room) : b.avail = room.length := by
  have hsize := b.size
  rw [h.1, List.length_append] at hsize
  rw [FixedBuffer.avail, h.2]
  omega

theorem Holds.avail_eq (h : Holds b s room) : b.avail = 4096 - s.length := by rw [FixedBuffer.avail, h.2]

/-- What was stored behind the cursor is taken in. -/
theorem Holds.add (h : Holds b s room) {text rest mem : Text} (hmem : mem = s ++ text ++ rest)
    (hlen : text.length + rest.length = room.length) :
    ∃ b', b.add mem text.length = some b' ∧ Holds b' (s ++ text) rest := by
  have hsize := b.size
  rw [h.1, List.length_append] at hsize
  have hin : mem.length = 4096 ∧ b.cur + text.length ≤ 4096 := by
    rw [hmem, h.2, List.length_append, List.length_append]
    omega
  refine ⟨⟨mem, b.cur + text.length, hin.1, hin.2⟩, dif_pos hin, hmem, ?_⟩
  show b.cur + text.length = (s ++ text).length
  rw [h.2, List.length_append]

/-- `len` characters of `str` are appended, if there is room for them. -/
theorem append_holds (h : Holds b s room) {str : Text} {len : ℕ} (hlen : len ≤ str.length) :
    (¬ len ≤ b.avail → b.append str len = some b) ∧
      (len ≤ b.avail → ∃ b' room', b.append str len = some b' ∧ Holds b' (s ++ str.take len) room') := by
  constructor
  · intro hfull
    exact if_neg fun hle => hfull (Int.ofNat_le.mp hle)
  · intro hfits
    have htext : (str.take len).length = len := by rw [List.length_take, Nat.min_eq_left hlen]
    have hroom : len ≤ room.length := h.avail ▸ hfits
    have hcopy : (0 : ℤ) ≤ (len : ℤ) ∧ (len : ℤ) ≤ (str.length : ℤ) := by omega
    have hrest : (str.take len).length + (room.drop len).length = room.length := by
      rw [htext, List.length_drop]
      omega
    obtain ⟨b', hadd, hb'⟩ := h.add rfl hrest
    refine ⟨b', room.drop len, ?_, hb'⟩
    rw [FixedBuffer.append, if_pos (Int.ofNat_le.mpr hfits), if_pos hcopy, Int.toNat_natCast, h.1, h.2,
      storeAll_room _ _ _ (by rw [htext]; exact hroom), Option.bind_some, htext, ← hadd, htext]

/-- **`formatedInt`** leaves the numeral; its terminator is behind the cursor. -/
theorem formatedInt_holds (h : Holds b s room) {t : IntType} (v : t.Value) (hfits : maxNumericSize ≤ b.avail) :
    ∃ b' room', formatedInt b v.val = some b' ∧ Holds b' (s ++ decimal v.val) room' := by
  have hroom : 48 ≤ room.length := h.avail ▸ hfits
  have hlen := decimal_length_le v
  have hrest : (decimal v.val).length + (nul :: room.drop ((decimal v.val).length + 1)).length = room.length := by
    rw [List.length_cons, List.length_drop]
    omega
  obtain ⟨b', hadd, hb'⟩ := h.add rfl hrest
  refine ⟨b', _, ?_, hb'⟩
  rw [formatedInt, if_pos hfits, h.1, h.2, convert_room _ _ _ (by omega), Option.bind_some, hadd]

theorem formatedDouble_holds (h : Holds b s room) {text : Text} (htext : text.length < maxNumericSize)
    (hfits : maxNumericSize ≤ b.avail) :
    ∃ b' room', formatedDouble b text = some b' ∧ Holds b' (s ++ text) room' := by
  have hroom : 48 ≤ room.length := h.avail ▸ hfits
  have hwhole : text.take (maxNumericSize - 1) = text := List.take_of_length_le (Nat.le_sub_one_of_lt htext)
  have hstored : (text ++ [nul]).length ≤ room.length := by
    rw [List.length_append, List.length_singleton]
    exact Nat.le_trans htext hroom
  have hrest : text.length + ([nul] ++ room.drop (text ++ [nul]).length).length = room.length := by
    rw [List.length_append, List.length_drop, List.length_append, List.length_singleton] at *
    omega
  obtain ⟨b', hadd, hb'⟩ := h.add rfl hrest
  refine ⟨b', _, ?_, hb'⟩
  rw [formatedDouble, if_pos hfits, hwhole, h.1, h.2, storeAll_room _ _ _ hstored, Option.bind_some, ← hadd]
  simp only [List.append_assoc]

theorem formatedPointer_holds (h : Holds b s room) (v : UInt64) (hfits : maxNumericSize ≤ b.avail) :
    ∃ b' room', formatedPointer b v.toNat = some b' ∧ Holds b' (s ++ '0' :: 'x' :: hex v.toNat) room' := by
  have hroom : 48 ≤ room.length := h.avail ▸ hfits
  have hlen := hex_length_le v.toNat_lt
  -- the two cells in front of the numeral
  obtain ⟨r₀, r₁, rest, rfl⟩ : ∃ r₀ r₁ rest, room = r₀ :: r₁ :: rest := by
    rcases room with _ | ⟨r₀, _ | ⟨r₁, rest⟩⟩
    · cases hroom
    · rw [List.length_singleton] at hroom
      omega
    · exact ⟨r₀, r₁, rest, rfl⟩
  rw [List.length_cons, List.length_cons] at hroom
  have hfirst : store b.data b.cur '0' = some ((s ++ ['0']) ++ r₁ :: rest) := by
    rw [h.1, h.2, store_room, List.append_assoc, List.singleton_append]
  have hsecond : store ((s ++ ['0']) ++ r₁ :: rest) (b.cur + 1) 'x' = some ((s ++ ['0', 'x']) ++ rest) := by
    have hcur : b.cur + 1 = (s ++ ['0']).length := by rw [List.length_append, h.2, List.length_singleton]
    rw [hcur, store_room]
    simp only [List.append_assoc, List.cons_append, List.nil_append]
  have hthird : convertHex ((s ++ ['0', 'x']) ++ rest) (b.cur + 2) v.toNat =
      some ((s ++ ['0', 'x']) ++ hex v.toNat ++ nul :: rest.drop ((hex v.toNat).length + 1),
        (hex v.toNat).length) := by
    have hcur : b.cur + 2 = (s ++ ['0', 'x']).length := by rw [List.length_append, h.2]; rfl
    rw [hcur, convertHex_room _ _ _ (by omega)]
  have hrest : ('0' :: 'x' :: hex v.toNat).length + (nul :: rest.drop ((hex v.toNat).length + 1)).length =
      (r₀ :: r₁ :: rest).length := by
    simp only [List.length_cons, List.length_drop]
    omega
  obtain ⟨b', hadd, hb'⟩ := h.add rfl hrest
  refine ⟨b', _, ?_, hb'⟩
  rw [formatedPointer, if_pos hfits, hfirst, Option.bind_some, hsecond, Option.bind_some, hthird, Option.bind_some,
    ← hadd]
  simp only [List.append_assoc, List.cons_append, List.nil_append, List.length_cons]

theorem toInt_eq {n : ℕ} (h : n < 2 ^ 31) : toInt n = n := by
  exact Int.bmod_eq_of_le (by norm_num) (by norm_num; exact h)

/-- **One insertion.**  It stays inside the array; what fits is added behind the text, and what does not fit leaves
the buffer as it was. -/
theorem insert_holds (h : Holds b s room) (hok : i.Ok) :
    (¬ i.Fits b.avail → insert b i = some b) ∧
      (i.Fits b.avail → ∃ b' room', insert b i = some b' ∧ Holds b' (s ++ i.text) room') := by
  cases i with
  | bool is => cases is <;> exact append_holds h (Nat.le_refl 1)
  | char c => exact append_holds h (Nat.le_refl 1)
  | int t v => exact ⟨fun hfull => if_neg hfull, formatedInt_holds h v⟩
  | pointer v => exact ⟨fun hfull => if_neg hfull, formatedPointer_holds h v⟩
  | double text => exact ⟨fun hfull => if_neg hfull, formatedDouble_holds h hok⟩
  | cString str =>
    cases str with
    | none => exact append_holds h (Nat.le_refl 6)
    | some str =>
      have hlen : strlen str ≤ str.length := (List.takeWhile_sublist _).length_le
      have happend := append_holds h hlen
      rw [insert, toInt_eq hok, Insert.Fits, Insert.text, List.length_take, Nat.min_eq_left hlen]
      exact happend
  | string str =>
    have happend := append_holds h (Nat.le_refl str.length)
    rw [List.take_length] at happend
    rw [insert, toInt_eq hok]
    exact happend
  | buffer buf =>
    have happend := append_holds h (Nat.le_refl buf.toString.length)
    have hlen : buf.toString.length ≤ 4096 := (List.length_take_le _ _).trans buf.inside
    rw [List.take_length] at happend
    rw [insert, toInt_eq (by omega)]
    exact happend
  | piece data len =>
    obtain ⟨hnonneg, hlen⟩ := hok
    obtain ⟨n, rfl⟩ := Int.eq_ofNat_of_zero_le hnonneg
    have hlen' : n ≤ data.length := Int.ofNat_le.mp hlen
    have happend := append_holds h hlen'
    rw [Insert.Fits, Insert.text, Int.toNat_natCast, List.length_take, Nat.min_eq_left hlen']
    exact happend

/-- It follows `record`. -/
theorem insert_record (h : Holds b s room) (hok : i.Ok) :
    ∃ b' room', insert b i = some b' ∧ Holds b' (record s i) room' := by
  obtain ⟨hfull, hfits⟩ := insert_holds h hok
  rw [h.avail_eq] at hfull hfits
  unfold record
  by_cases hfit : i.Fits (4096 - s.length)
  · rw [if_pos hfit]
    exact hfits hfit
  · rw [if_neg hfit]
    exact ⟨b, room, hfull hfit, h⟩

/-! ### All insertions -/

theorem insertAll_record (h : Holds b s room) {is : List Insert} (hok : ∀ i ∈ is, i.Ok) :
    ∃ b' room', insertAll b is = some b' ∧ Holds b' (is.foldl record s) room' := by
  induction is generalizing b s room with
  | nil => exact ⟨b, room, rfl, h⟩
  | cons i is ih =>
    obtain ⟨b₁, room₁, hone, h₁⟩ := insert_record h (hok i List.mem_cons_self)
    obtain ⟨b₂, room₂, hrest, h₂⟩ := ih h₁ fun j hj => hok j (List.mem_cons_of_mem _ hj)
    refine ⟨b₂, room₂, ?_, h₂⟩
    rw [insertAll, List.foldlM_cons, hone]
    exact hrest

/-- **No overrun, and only whole pieces are dropped.**  Any insertions into a new buffer stay inside its array, and
leave the texts of those that fitted when they were made, in order; one that does not fit leaves the buffer as it
was. -/
theorem insertions_recorded (data : Text) (size : data.length = 4096) (is : List Insert) (hok : ∀ i ∈ is, i.Ok) :
    (∃ b, insertAll (.new data size) is = some b ∧ b.toString = is.foldl record []) ∧
      ∀ (b : Buffer) (i : Insert), i.Ok → ¬ i.Fits b.avail → insert b i = some b := by
  constructor
  · obtain ⟨b, room, hb, h⟩ := insertAll_record (holds_self (.new data size)) hok
    exact ⟨b, hb, h.toString⟩
  · intro b i hi hfull
    exact (insert_holds (holds_self b) hi).1 hfull

/-- A flag, a number and a null string. -/
theorem insertions_recorded_three :
    ∃ b, insertAll (.new (List.replicate 4096 nul) List.length_replicate)
        [.bool true, .int .short ⟨-7, by decide⟩, .cString none] = some b ∧ b.toString = "1-7(null)".toList :=
  (insertions_recorded _ List.length_replicate [.bool true, .int .short ⟨-7, by decide⟩, .cString none]
    (by simp [Insert.Ok])).1

end KwNet.LogStream
