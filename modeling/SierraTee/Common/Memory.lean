import Mathlib.Data.List.Range
import SierraTee.Lib.Copies

/-!
# Memory helpers of the secure side (`sw_mem_functions.c`)

* `swMemcpy_eq`           a copy between two places that are apart;
* `swMemcmp_eq_zero_iff`  it is zero exactly on equal ranges, if the length is not zero.
-/

namespace SierraTee
open Copies

/-! ## Copies -/

/-- `sw_memcpy`; words are copied as long as a whole one is left -/
def swMemcpy (m : Nat → UInt8) (dst src count : Nat) : Nat → UInt8 :=
  if src % 4 = 0 ∧ dst % 4 = 0 then
    let words := count / 4
    copyLoop 1 (count - 4 * words) (copyLoop 4 words m dst src) (dst + 4 * words) (src + 4 * words)
  else copyLoop 1 count m dst src

section
variable {m : Nat → UInt8} {dst src count : Nat}

theorem swMemcpy_eq (h : src + count ≤ dst ∨ dst + count ≤ src) :
    swMemcpy m dst src count = copyAt m dst src count := by
  unfold swMemcpy
  split
  · have hcount : 4 * (count / 4) + (count - 4 * (count / 4)) = count := by omega
    dsimp only
    rw [copyLoop_eq (by omega), copyLoop_eq (by omega), copyAt_add (by omega), Nat.one_mul, hcount]
  · rw [copyLoop_eq (by omega), Nat.one_mul]

end

/-! ## Comparisons

The memory behind a pointer is a function of the index, which may be negative. -/

/-- where the loop of `sw_memcmp` stops: the first index with a difference, or the length -/
def memcmpStop (src dest : Int → UInt8) (length : Nat) : Nat :=
  ((List.range length).find? fun i : Nat => src i ≠ dest i).getD length

def swMemcmp (src dest : Int → UInt8) (length : Nat) : Int :=
  let counter := memcmpStop src dest length
  if counter = length then
    (src (counter - 1)).toNat - (dest (counter - 1)).toNat
  else (src counter).toNat - (dest counter).toNat

variable {src dest : Int → UInt8} {length : Nat}

theorem memcmpStop_eq (h : ∀ i < length, src i = dest i) : memcmpStop src dest length = length := by
  have hf : (List.range length).find? (fun i : Nat => src i ≠ dest i) = none := by
    rw [List.find?_eq_none]
    intro i hi
    simpa using h i (List.mem_range.mp hi)
  unfold memcmpStop
  rw [hf]
  rfl

theorem memcmpStop_ne (h : ¬ ∀ i < length, src i = dest i) :
    memcmpStop src dest length < length ∧
      src (memcmpStop src dest length) ≠ dest (memcmpStop src dest length) := by
  unfold memcmpStop
  cases hf : (List.range length).find? fun i : Nat => src i ≠ dest i with
  | none =>
    rw [List.find?_eq_none] at hf
    refine absurd (fun i hi => ?_) h
    simpa using hf i (List.mem_range.mpr hi)
  | some i =>
    have hne := List.find?_some hf
    exact ⟨List.mem_range.mp (List.mem_of_find?_eq_some hf), by simpa using hne⟩

theorem byte_sub_eq_zero_iff (a b : UInt8) : ((a.toNat : Int) - b.toNat = 0) ↔ a = b := by
  rw [← UInt8.toNat_inj]
  omega

theorem swMemcmp_eq_zero_iff (hlen : 0 < length) :
    swMemcmp src dest length = 0 ↔ ∀ i < length, src i = dest i := by
  unfold swMemcmp
  by_cases h : ∀ i < length, src i = dest i
  · rw [memcmpStop_eq h, if_pos rfl, byte_sub_eq_zero_iff]
    have hlast := h (length - 1) (by omega)
    rw [Int.ofNat_sub hlen] at hlast
    exact ⟨fun _ => h, fun _ => hlast⟩
  · obtain ⟨hlt, hne⟩ := memcmpStop_ne h
    rw [if_neg hlt.ne, byte_sub_eq_zero_iff]
    exact ⟨fun he => absurd he hne, fun he => absurd he h⟩

end SierraTee
