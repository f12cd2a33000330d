import KwNet.Tcp.Model

/-!
# The bytes of a message

`Job.bytes` reads the message of a `send` through its pointer, or its copy.  Here are the laws it obeys:
every byte is read by itself, so what is read from an offset on is a part of what is read from the start,
and a copy of the whole message holds what it was made of.
-/

namespace KwNet.Tcp

variable (job : Job) (copy : Option (List UInt8)) (mem : ℤ → UInt8)

/-- The byte at `data + at_`. -/
def Job.byteAt (at_ : ℤ) : UInt8 :=
  match copy with
  | some bytes =>
    if 0 ≤ at_ ∧ at_ < bytes.length then bytes.getD at_.toNat 0 else mem (job.data + at_)
  | none => mem (job.data + at_)

theorem Job.bytes_eq_map (offset : ℤ) (n : ℕ) :
    job.bytes copy mem offset n = (List.range n).map fun i : ℕ => job.byteAt copy mem (offset + i) := by
  rw [Job.bytes, List.bind_eq_flatMap]
  show (List.flatMap (fun a : ℕ => [(a : ℤ)]) (List.range n)).map
    (fun i : ℤ => job.byteAt copy mem (offset + i)) = _
  rw [List.map_flatMap]
  exact List.flatMap_pure_eq_map _ _

@[simp] theorem Job.length_bytes (offset : ℤ) (n : ℕ) : (job.bytes copy mem offset n).length = n := by
  rw [Job.bytes_eq_map, List.length_map, List.length_range]

theorem Job.getElem?_bytes (offset : ℤ) {n i : ℕ} (h : i < n) :
    (job.bytes copy mem offset n)[i]? = some (job.byteAt copy mem (offset + i)) := by
  rw [Job.bytes_eq_map, List.getElem?_map, List.getElem?_range h, Option.map_some]

/-- A copy of the whole message holds what it was made of. -/
theorem Job.bytes_copy {bytes : List UInt8} (hlen : bytes.length = job.size) :
    job.bytes (some bytes) mem 0 job.size = bytes := by
  refine List.ext_getElem? fun i => ?_
  by_cases hi : i < job.size
  · have hin : (0 : ℤ) ≤ 0 + (i : ℤ) ∧ (0 : ℤ) + (i : ℤ) < (bytes.length : ℤ) := by omega
    rw [Job.getElem?_bytes job (some bytes) mem 0 hi, Job.byteAt, if_pos hin, zero_add, Int.toNat_natCast,
      List.getD_eq_getElem?_getD, List.getElem?_eq_getElem (by omega), Option.getD_some]
  · rw [List.getElem?_eq_none (by rw [Job.length_bytes]; omega), List.getElem?_eq_none (by omega)]

end KwNet.Tcp
