import Mathlib

/-!
# Byte order

The bytes of a word of `k` bytes in memory, on a host of either byte order, and the conversions
between host and network (big-endian) order.  On a little-endian host these swap the bytes, on a
big-endian host they do nothing; either way the word they produce lies in memory in network order.

* **`toMemory_htobe`** — a converted word lies in memory in big-endian order;
* **`betoh_ofMemory`** — big-endian bytes, loaded and converted back, give their value;
* **`littleEndian_toInt`** — read through its signed value, a word in big-endian order is the
  two's-complement encoding of that value.
-/

namespace KwNet.Lib

/-- The `k` low bytes of `n`, least significant first. -/
def littleEndian : ℕ → ℕ → List UInt8
  | 0, _ => []
  | k + 1, n => UInt8.ofNat n :: littleEndian k (n / 256)

def ofLittleEndian : List UInt8 → ℕ
  | [] => 0
  | b :: bs => b.toNat + 256 * ofLittleEndian bs

theorem length_littleEndian (k n : ℕ) : (littleEndian k n).length = k := by
  induction k generalizing n with
  | zero => rfl
  | succ k ih => rw [littleEndian, List.length_cons, ih]

theorem ofLittleEndian_littleEndian (k n : ℕ) : ofLittleEndian (littleEndian k n) = n % 256 ^ k := by
  induction k generalizing n with
  | zero => rw [Nat.pow_zero, Nat.mod_one]; rfl
  | succ k ih =>
    have hbyte : (UInt8.ofNat n).toNat = n % 256 := UInt8.toNat_ofNat'
    rw [littleEndian, ofLittleEndian, ih, hbyte, Nat.pow_succ', Nat.mod_mul]

theorem littleEndian_ofLittleEndian (bs : List UInt8) :
    littleEndian bs.length (ofLittleEndian bs) = bs := by
  induction bs with
  | nil => rfl
  | cons b bs ih =>
    have hb : b.toNat < 256 := b.toNat_lt
    have hdiv : (b.toNat + 256 * ofLittleEndian bs) / 256 = ofLittleEndian bs := by omega
    have hlow : UInt8.ofNat (b.toNat + 256 * ofLittleEndian bs) = b := by
      apply UInt8.toNat_inj.mp
      rw [UInt8.toNat_ofNat']
      omega
    rw [List.length_cons, littleEndian, ofLittleEndian, hdiv, ih, hlow]

theorem littleEndian_eq_map (k n : ℕ) :
    littleEndian k n = (List.range k).map fun i => UInt8.ofNat (n / 256 ^ i) := by
  induction k generalizing n with
  | zero => rfl
  | succ k ih =>
    rw [littleEndian, ih, List.range_succ_eq_map, List.map_cons, List.map_map, Nat.pow_zero,
      Nat.div_one]
    congr 2
    funext i
    rw [Function.comp_apply, Nat.pow_succ', Nat.div_div_eq_div_mul]

/-! ### Hosts -/

inductive ByteOrder where
  | little
  | big
  deriving DecidableEq, Repr

/-- The bytes of the word `n` at increasing addresses. -/
def ByteOrder.toMemory (k n : ℕ) : ByteOrder → List UInt8
  | .little => littleEndian k n
  | .big => (littleEndian k n).reverse

def ByteOrder.ofMemory (bytes : List UInt8) : ByteOrder → ℕ
  | .little => ofLittleEndian bytes
  | .big => ofLittleEndian bytes.reverse

def byteSwap (k n : ℕ) : ℕ := ofLittleEndian (littleEndian k n).reverse

/-- `htobe16`, `htobe32`, `htobe64`. -/
def ByteOrder.htobe (k n : ℕ) : ByteOrder → ℕ
  | .little => byteSwap k n
  | .big => n

/-- `be16toh`, `be32toh`, `be64toh`. -/
def ByteOrder.betoh (k n : ℕ) : ByteOrder → ℕ
  | .little => byteSwap k n
  | .big => n

theorem toMemory_htobe (o : ByteOrder) (k n : ℕ) :
    o.toMemory k (o.htobe k n) = (littleEndian k n).reverse := by
  cases o with
  | big => rfl
  | little =>
    have hlen : (littleEndian k n).reverse.length = k := by
      rw [List.length_reverse, length_littleEndian]
    have h := littleEndian_ofLittleEndian (littleEndian k n).reverse
    rw [hlen] at h
    exact h

theorem betoh_ofMemory (o : ByteOrder) {k : ℕ} {bytes : List UInt8} (h : bytes.length = k) :
    o.betoh k (o.ofMemory bytes) = ofLittleEndian bytes.reverse := by
  cases o with
  | big => rfl
  | little =>
    show ofLittleEndian (littleEndian k (ofLittleEndian bytes)).reverse = _
    rw [← h, littleEndian_ofLittleEndian]

/-- Converting and converting back. -/
theorem betoh_htobe (o : ByteOrder) {k n : ℕ} (h : n < 256 ^ k) : o.betoh k (o.htobe k n) = n := by
  cases o with
  | big => rfl
  | little =>
    have hlen : (littleEndian k n).reverse.length = k := by rw [List.length_reverse, length_littleEndian]
    have hswap := littleEndian_ofLittleEndian (littleEndian k n).reverse
    rw [hlen] at hswap
    show ofLittleEndian (littleEndian k (ofLittleEndian (littleEndian k n).reverse)).reverse = n
    rw [hswap, List.reverse_reverse, ofLittleEndian_littleEndian, Nat.mod_eq_of_lt h]

/-! ### Signed values -/

/-- The two's-complement encoding of `v` in `k` bytes, most significant first. -/
def twosComplement (k : ℕ) (v : ℤ) : List UInt8 :=
  (List.range k).reverse.map fun i => UInt8.ofNat (v / 256 ^ i % 256).toNat

theorem length_twosComplement (k : ℕ) (v : ℤ) : (twosComplement k v).length = k := by
  rw [twosComplement, List.length_map, List.length_reverse, List.length_range]

/-- Byte `i` of a number does not change when a multiple of `256 ^ k` is added, `i < k`. -/
theorem byte_add_mul {i k : ℕ} (hi : i < k) (v c : ℤ) :
    (v + 256 ^ k * c) / 256 ^ i % 256 = v / 256 ^ i % 256 := by
  obtain ⟨d, rfl⟩ : ∃ d, k = i + (d + 1) := ⟨k - i - 1, by omega⟩
  have hsplit : (256 : ℤ) ^ (i + (d + 1)) * c = 256 ^ i * (256 * (256 ^ d * c)) := by ring
  rw [hsplit, Int.add_mul_ediv_left _ _ (by positivity), Int.add_mul_emod_self_left]

theorem littleEndian_toInt {k : ℕ} (x : BitVec (8 * k)) :
    (littleEndian k x.toNat).reverse = twosComplement k x.toInt := by
  have hpow : ((2 ^ (8 * k) : ℕ) : ℤ) = 256 ^ k := by
    rw [pow_mul]
    norm_num
  obtain ⟨c, hc⟩ : ∃ c : ℤ, (x.toNat : ℤ) = x.toInt + 256 ^ k * c := by
    have h := Int.bmod_add_bdiv (x.toNat : ℤ) (2 ^ (8 * k))
    rw [hpow] at h
    exact ⟨_, by rw [BitVec.toInt_eq_toNat_bmod]; exact h.symm⟩
  rw [littleEndian_eq_map, ← List.map_reverse, twosComplement]
  refine List.map_congr_left fun i hi => ?_
  have hik : i < k := List.mem_range.mp (List.mem_reverse.mp hi)
  have hbyte : (x.toInt / 256 ^ i % 256).toNat = x.toNat / 256 ^ i % 256 := by
    rw [← byte_add_mul hik x.toInt c, ← hc]
    norm_cast
  rw [hbyte]
  apply UInt8.toNat_inj.mp
  rw [UInt8.toNat_ofNat', UInt8.toNat_ofNat']
  omega

end KwNet.Lib
