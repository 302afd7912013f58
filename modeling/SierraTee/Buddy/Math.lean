import SierraTee.Lib.Word

/-!
# Powers of two (`sw_math.c`)

* `isPowOf2_iff`     the bit test accepts exactly the powers of two;
* `logOf2_two_pow`   the de Bruijn table gives the exponent of every 32-bit power of two;
* `nextPowOf2_spec`  the rounded size is a power of two that is at least the size.
-/

namespace SierraTee
open Word

def isPowOf2 (x : Nat) : Bool := x != 0 && x &&& (x - 1) == 0

def nextPowOf2 (x : Nat) : Nat :=
  if isPowOf2 x then x
  else
    let a := x ||| x >>> 1
    let b := a ||| a >>> 2
    let c := b ||| b >>> 4
    let d := c ||| c >>> 8
    let e := d ||| d >>> 16
    u32 (e + 1)

def multiplyDeBruijnBitPosition2 : List Nat :=
  [0, 1, 28, 2, 29, 14, 24, 3, 30, 22, 20, 15, 25, 17, 4, 8,
   31, 27, 13, 23, 21, 19, 16, 7, 26, 12, 18, 6, 11, 5, 10, 9]

def logOf2 (number : Nat) : Nat :=
  multiplyDeBruijnBitPosition2.getD (u32 (number * 0x077CB531) >>> 27) 0

theorem isPowOf2_iff (x : Nat) : isPowOf2 x = true ↔ ∃ k, x = 2 ^ k := by
  rw [isPowOf2, Bool.and_eq_true, bne_iff_ne, beq_iff_eq,
    Nat.ne_zero_and_sub_one_eq_zero_iff_isPowerOfTwo]
  rfl

theorem isPowOf2_two_pow (k : Nat) : isPowOf2 (2 ^ k) = true := (isPowOf2_iff _).2 ⟨k, rfl⟩

theorem logOf2_two_pow {k : Nat} (hk : k < 32) : logOf2 (2 ^ k) = k := by
  revert k
  decide

theorem logOf2_zero : logOf2 0 = 0 := by decide

theorem lt_32_of_two_pow_lt {k : Nat} (h : 2 ^ k < 2 ^ 32) : k < 32 :=
  (Nat.pow_lt_pow_iff_right (by omega)).1 h

theorem nextPowOf2_spec {x : Nat} (hx : x ≤ 2 ^ 31) :
    ∃ k, k < 32 ∧ nextPowOf2 x = 2 ^ k ∧ x ≤ 2 ^ k := by
  by_cases hp : isPowOf2 x = true
  · obtain ⟨k, rfl⟩ := (isPowOf2_iff x).1 hp
    have hk : k < 32 := lt_32_of_two_pow_lt (by omega)
    exact ⟨k, hk, by rw [nextPowOf2, if_pos hp], le_refl _⟩
  · have hne : x ≠ 2 ^ 31 := fun h => hp (h ▸ isPowOf2_two_pow 31)
    have hsz : x.size ≤ 31 := Nat.size_le.2 (by omega)
    have hlt : 2 ^ x.size < 2 ^ 32 := Nat.pow_lt_pow_right (by omega) (by omega)
    have hpos : 0 < 2 ^ x.size := Nat.two_pow_pos _
    have e : nextPowOf2 x = 2 ^ x.size := by
      have hs := smear_eq (x := x) (by omega) _ _ _ _ _ rfl rfl rfl rfl rfl
      rw [nextPowOf2, if_neg hp]
      show u32 (_ + 1) = _
      rw [hs, Nat.sub_add_cancel hpos, u32_of_lt hlt]
    exact ⟨x.size, by omega, e, Nat.le_of_lt (Nat.lt_size_self x)⟩

end SierraTee
