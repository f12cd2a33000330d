import KwNet.Lib.Numeral
import KwNet.Lib.Cells

/-!
# `convert` and `convertHex`

The integer conversions of `Loggers/LogStream.h` and `LogStream.cpp`.  They write into an array from a given cell
on, through checked stores: a store outside the array, or an index outside the digit table, makes the result
`none`.

`convert` is a template; its argument is an integer of one of the types of `IntType` (`short` and `unsigned short`
are cast to `int` and `unsigned int` first, which keeps their values).  `%` and `/` truncate, and the quotient
never leaves the type, so the arithmetic is that of `ℤ`.

* `decimal`, `hex` — the numerals: a sign and the digits of `Canonical`;
* **`convertLoop_eq`**, **`convertHexLoop_eq`** — the loops store the digits, the last one first;
* **`convert_room`**, **`convertHex_room`** — what the functions leave in the array;
* **`convert_canonical`** — every value of every type, in 48 cells.
-/

namespace KwNet.LogStream

open KwNet.Lib

abbrev Text := List Char

/-- `'\0'`. -/
def nul : Char := Char.ofNat 0

/-- `digits`, without its terminator. -/
def digits : Text := "9876543210123456789".toList

/-- `zero[lsd]`, where `zero` is `digits + 9`. -/
def zero (lsd : ℤ) : Option Char := if 0 ≤ 9 + lsd then digits[(9 + lsd).toNat]? else none

/-- `digitsHex`. -/
def digitsHex : Text := "0123456789ABCDEF".toList

/-- The loop of `convert`: the array and `p` after it. -/
def convertLoop (mem : Text) (p : ℕ) (i : ℤ) : Option (Text × ℕ) :=
  (zero (i.tmod 10)).bind fun c =>
    (store mem p c).bind fun mem =>
      if _h : i.tdiv 10 ≠ 0 then convertLoop mem (p + 1) (i.tdiv 10) else some (mem, p + 1)
termination_by i.natAbs
decreasing_by
  have hpos : 0 < i.natAbs := by
    refine Int.natAbs_pos.mpr fun hi => ?_
    subst hi
    exact _h rfl
  rw [Int.natAbs_tdiv]
  exact Nat.div_lt_self hpos (by decide)

/-- `*p++ = '-'`, for a negative value. -/
def putSign (mem : Text) (p : ℕ) (value : ℤ) : Option (Text × ℕ) :=
  if value < 0 then (store mem p '-').map fun mem => (mem, p + 1) else some (mem, p)

/-- `convert`: the array after it, and what it returns. -/
def convert (mem : Text) (buf : ℕ) (value : ℤ) : Option (Text × ℕ) := do
  let r ← convertLoop mem buf value
  let r ← putSign r.1 r.2 value
  let mem ← store r.1 r.2 nul
  let mem ← reverseRange mem buf r.2
  some (mem, r.2 - buf)

/-- The loop of `convertHex`. -/
def convertHexLoop (mem : Text) (p i : ℕ) : Option (Text × ℕ) :=
  (digitsHex[i % 16]?).bind fun c =>
    (store mem p c).bind fun mem =>
      if _h : i / 16 ≠ 0 then convertHexLoop mem (p + 1) (i / 16) else some (mem, p + 1)
termination_by i
decreasing_by exact Nat.div_lt_self (Nat.pos_of_ne_zero fun hi => _h (by rw [hi])) (by decide)

/-- `convertHex`. -/
def convertHex (mem : Text) (buf value : ℕ) : Option (Text × ℕ) := do
  let r ← convertHexLoop mem buf value
  let mem ← store r.1 r.2 nul
  let mem ← reverseRange mem buf r.2
  some (mem, r.2 - buf)

/-- The integer types for which `LogStream` has an `operator<<`. -/
inductive IntType where
  | short
  | ushort
  | int
  | uint
  | long
  | ulong
  | longLong
  | ulongLong
  deriving DecidableEq

def IntType.signed : IntType → Bool
  | short | int | long | longLong => true
  | ushort | uint | ulong | ulongLong => false

def IntType.bits : IntType → ℕ
  | short | ushort => 16
  | int | uint => 32
  | long | ulong | longLong | ulongLong => 64

def IntType.low (t : IntType) : ℤ := if t.signed then -2 ^ (t.bits - 1) else 0

def IntType.high (t : IntType) : ℤ := if t.signed then 2 ^ (t.bits - 1) - 1 else 2 ^ t.bits - 1

/-- The values of an integer type. -/
abbrev IntType.Value (t : IntType) := { v : ℤ // t.low ≤ v ∧ v ≤ t.high }

/-! ### Numerals as texts -/

/-- The character of a digit, in upper case. -/
def upperDigit (d : ℕ) : Char := if d < 10 then Char.ofNat ('0'.toNat + d) else Char.ofNat ('A'.toNat + (d - 10))

/-- The characters of a numeral. -/
def numeral (b n : ℕ) : Text := (lsdFirst b n).reverse.map upperDigit

def sign (v : ℤ) : Text := if v < 0 then ['-'] else []

/-- The decimal numeral of an integer. -/
def decimal (v : ℤ) : Text := sign v ++ numeral 10 v.natAbs

/-- The hexadecimal numeral of a number. -/
def hex (n : ℕ) : Text := numeral 16 n

example : decimal (-128) = "-128".toList := by decide

theorem numeral_length_le {b n k : ℕ} (hb : 1 < b) (hk : 0 < k) (h : n < b ^ k) : (numeral b n).length ≤ k := by
  rw [numeral, List.length_map, List.length_reverse]
  exact lsdFirst_length_le hb hk h

theorem IntType.Value.natAbs_lt {t : IntType} (v : t.Value) : v.val.natAbs < 10 ^ 20 := by
  obtain ⟨v, hlow, hhigh⟩ := v
  cases t <;> simp only [IntType.low, IntType.high, IntType.signed, IntType.bits] at hlow hhigh <;> norm_num at hlow hhigh ⊢ <;> omega

theorem decimal_length_le {t : IntType} (v : t.Value) : (decimal v.val).length ≤ 21 := by
  have hnum := numeral_length_le (by decide) (by decide) v.natAbs_lt
  have hsign : (sign v.val).length ≤ 1 := by
    unfold sign
    split
    · exact Nat.le_refl _
    · exact Nat.zero_le _
  rw [decimal, List.length_append]
  omega

theorem hex_length_le {n : ℕ} (h : n < 2 ^ 64) : (hex n).length ≤ 16 :=
  numeral_length_le (by decide) (by decide) (by norm_num at h ⊢; omega)

/-! ### The digit tables -/

/-- **The table is symmetric**: its middle is `'0'`. -/
theorem zero_eq {lsd : ℤ} (h : lsd.natAbs < 10) : zero lsd = some (upperDigit lsd.natAbs) := by
  have htable : ∀ k : ℕ, k < 19 → digits[k]? = some (upperDigit ((k : ℤ) - 9).natAbs) := by decide
  have hentry := htable (9 + lsd).toNat (by omega)
  have hindex : (((9 + lsd).toNat : ℕ) : ℤ) - 9 = lsd := by omega
  rw [zero, if_pos (by omega), hentry, hindex]

theorem digitsHex_eq {d : ℕ} (h : d < 16) : digitsHex[d]? = some (upperDigit d) := by
  have htable : ∀ k : ℕ, k < 16 → digitsHex[k]? = some (upperDigit k) := by decide
  exact htable d h

/-! ### The loops -/

/-- **The loop of `convert`** stores the digits of `i`, the last one first. -/
theorem convertLoop_eq (mem : Text) (p : ℕ) (i : ℤ) :
    convertLoop mem p i =
      (storeAll mem p ((lsdFirst 10 i.natAbs).map upperDigit)).map fun mem =>
        (mem, p + (lsdFirst 10 i.natAbs).length) := by
  induction mem, p, i using convertLoop.induct with
  | case1 mem p i ih =>
    have hdigit : zero (i.tmod 10) = some (upperDigit (i.natAbs % 10)) := by
      rw [zero_eq, Int.natAbs_tmod]
      · rfl
      · rw [Int.natAbs_tmod]
        exact Nat.mod_lt _ (by decide)
    have hquot : (i.tdiv 10).natAbs = i.natAbs / 10 := Int.natAbs_tdiv i 10
    have hzero : i.tdiv 10 = 0 ↔ i.natAbs / 10 = 0 := by rw [← hquot, Int.natAbs_eq_zero]
    rw [convertLoop, hdigit, Option.bind_some, lsdFirst_eq (by decide), List.map_cons, storeAll, Option.map_bind]
    refine Option.bind_congr fun mem' _ => ?_
    by_cases hlast : i.tdiv 10 = 0
    · rw [dif_neg (by rw [hlast]; exact fun h => h rfl), if_pos (hzero.mp hlast)]
      rfl
    · have hmore : ¬ i.natAbs / 10 = 0 := fun h => hlast (hzero.mpr h)
      rw [dif_pos hlast, ih mem' hlast, if_neg hmore, hquot]
      simp only [Function.comp_apply, List.length_cons, Nat.add_comm, Nat.add_assoc]

/-- **The loop of `convertHex`.** -/
theorem convertHexLoop_eq (mem : Text) (p i : ℕ) :
    convertHexLoop mem p i =
      (storeAll mem p ((lsdFirst 16 i).map upperDigit)).map fun mem => (mem, p + (lsdFirst 16 i).length) := by
  induction mem, p, i using convertHexLoop.induct with
  | case1 mem p i ih =>
    rw [convertHexLoop, digitsHex_eq (Nat.mod_lt _ (by decide)), Option.bind_some, lsdFirst_eq (by decide),
      List.map_cons, storeAll, Option.map_bind]
    refine Option.bind_congr fun mem' _ => ?_
    by_cases hlast : i / 16 = 0
    · rw [dif_neg (by rw [hlast]; exact fun h => h rfl), if_pos hlast]
      rfl
    · rw [dif_pos hlast, ih mem' hlast, if_neg hlast]
      simp only [Function.comp_apply, List.length_cons, Nat.add_comm, Nat.add_assoc]

theorem putSign_eq (mem : Text) (p : ℕ) (v : ℤ) :
    putSign mem p v = (storeAll mem p (sign v)).map fun mem => (mem, p + (sign v).length) := by
  unfold putSign sign
  split
  · rw [storeAll_singleton, List.length_singleton]
  · rw [storeAll, Option.map_some, List.length_nil, Nat.add_zero]

/-! ### What the functions leave in the array -/

theorem decimal_reverse (v : ℤ) :
    decimal v = ((lsdFirst 10 v.natAbs).map upperDigit ++ sign v).reverse := by
  have hsign : (sign v).reverse = sign v := by
    unfold sign
    split <;> rfl
  rw [List.reverse_append, hsign, decimal, numeral, List.map_reverse]

/-- The end of both functions: a terminator is stored, and the characters `out` before it are reversed. -/
theorem terminate_room (before out room : Text) (h : out.length < room.length) :
    ((storeAll (before ++ room) before.length out).bind fun mem =>
      (store mem (before.length + out.length) nul).bind fun mem =>
        (reverseRange mem before.length (before.length + out.length)).bind fun mem =>
          some (mem, before.length + out.length - before.length)) =
      some (before ++ out.reverse ++ nul :: room.drop (out.length + 1), out.length) := by
  have hdrop : room.drop out.length = room[out.length] :: room.drop (out.length + 1) :=
    List.drop_eq_getElem_cons h
  have hlen : before.length + out.length = (before ++ out).length := (List.length_append).symm
  rw [storeAll_room _ _ _ (Nat.le_of_lt h), Option.bind_some, hdrop, hlen, store_room, Option.bind_some, ← hlen,
    reverseRange_room, Option.bind_some, Nat.add_sub_cancel_left]

/-- **`convert` leaves the numeral and a terminator.** -/
theorem convert_room (before room : Text) (v : ℤ) (h : (decimal v).length < room.length) :
    convert (before ++ room) before.length v =
      some (before ++ decimal v ++ nul :: room.drop ((decimal v).length + 1), (decimal v).length) := by
  have hrev := decimal_reverse v
  have hlen : (decimal v).length = ((lsdFirst 10 v.natAbs).map upperDigit ++ sign v).length := by
    rw [hrev, List.length_reverse]
  have htotal : before.length + ((lsdFirst 10 v.natAbs).map upperDigit ++ sign v).length =
      before.length + (lsdFirst 10 v.natAbs).length + (sign v).length := by
    rw [List.length_append, List.length_map, Nat.add_assoc]
  have hend := terminate_room before ((lsdFirst 10 v.natAbs).map upperDigit ++ sign v) room (hlen ▸ h)
  rw [storeAll_append, Option.bind_assoc, List.length_map, htotal, ← hrev, ← hlen] at hend
  rw [← hend, convert, convertLoop_eq]
  simp only [Option.bind_eq_bind, Option.bind_map, Function.comp_def, putSign_eq]

/-- **`convertHex` leaves the numeral and a terminator.** -/
theorem convertHex_room (before room : Text) (n : ℕ) (h : (hex n).length < room.length) :
    convertHex (before ++ room) before.length n =
      some (before ++ hex n ++ nul :: room.drop ((hex n).length + 1), (hex n).length) := by
  have hrev : hex n = ((lsdFirst 16 n).map upperDigit).reverse := by rw [hex, numeral, List.map_reverse]
  have hlen : (hex n).length = ((lsdFirst 16 n).map upperDigit).length := by rw [hrev, List.length_reverse]
  have hend := terminate_room before ((lsdFirst 16 n).map upperDigit) room (hlen ▸ h)
  rw [← hrev, ← hlen] at hend
  rw [← hend, convertHex, convertHexLoop_eq]
  simp only [Option.bind_eq_bind, Option.bind_map, Function.comp_def, hlen, List.length_map]

/-- **Integer formatting is canonical.**  Where 48 cells are left, `convert` writes the numeral of any value of any
integer type, and `convertHex` that of any address: a sign for the negative ones and digits without leading zeros.
They return its length, and it fits into the 48 cells with its terminator. -/
theorem convert_canonical (before room : Text) (hroom : 48 ≤ room.length) :
    (∀ (t : IntType) (v : t.Value), ∃ ds : List ℕ, Canonical 10 ds v.val.natAbs ∧
        ∃ text, text = (if v.val < 0 then ['-'] else []) ++ ds.map upperDigit ∧ text.length + 1 ≤ 48 ∧
          convert (before ++ room) before.length v.val =
            some (before ++ text ++ nul :: room.drop (text.length + 1), text.length)) ∧
      ∀ n < 2 ^ 64, ∃ ds : List ℕ, Canonical 16 ds n ∧
        ∃ text, text = ds.map upperDigit ∧ text.length + 1 ≤ 48 ∧
          convertHex (before ++ room) before.length n =
            some (before ++ text ++ nul :: room.drop (text.length + 1), text.length) := by
  constructor
  · intro t v
    have hlen := decimal_length_le v
    exact ⟨_, canonical_lsdFirst (by decide) _, decimal v.val, rfl, by omega, convert_room _ _ _ (by omega)⟩
  · intro n hn
    have hlen := hex_length_le hn
    exact ⟨_, canonical_lsdFirst (by decide) _, hex n, rfl, by omega, convertHex_room _ _ _ (by omega)⟩

/-- The smallest `long`, in an array of 48 cells. -/
theorem convert_canonical_min : ∃ ds : List ℕ, Canonical 10 ds (2 ^ 63) ∧
    ∃ text, text = ['-'] ++ ds.map upperDigit ∧ text.length + 1 ≤ 48 ∧
      convert (List.replicate 48 nul) 0 (-2 ^ 63) =
        some (text ++ nul :: (List.replicate 48 nul).drop (text.length + 1), text.length) := by
  have h := (convert_canonical [] (List.replicate 48 nul) (by decide)).1 .long ⟨-2 ^ 63, by decide⟩
  rw [if_pos (by decide)] at h
  exact h

end KwNet.LogStream
