import Mathlib.Data.Nat.Bitwise
import Mathlib.Data.Nat.Size
import Mathlib.Tactic.IntervalCases

/-!
# 32-bit words as natural numbers

* `u32`, `sub32`  the value of an unsigned sum, product or difference;
* `toInt32`       the value of a word read as a signed `int`;
* `smear_eq`      or-ing a word with its right shifts fills all the bits below the top one.
-/

namespace Word

/-- the value of an unsigned 32-bit expression -/
def u32 (x : Nat) : Nat := x % 2 ^ 32

/-- an unsigned 32-bit difference -/
def sub32 (x y : Nat) : Nat := if y ≤ x then x - y else x + 2 ^ 32 - y

/-- a 32-bit word read as a signed number -/
def toInt32 (x : Nat) : Int := if x < 2 ^ 31 then (x : Int) else (x : Int) - 2 ^ 32

@[simp] theorem u32_of_lt {x : Nat} (h : x < 2 ^ 32) : u32 x = x := Nat.mod_eq_of_lt h

theorem sub32_of_le {x y : Nat} (h : y ≤ x) : sub32 x y = x - y := if_pos h

/-! ## filling the bits below the top one -/

/-- `y` has the bits of `x` and all the bits less than `w` places below one of them -/
def Filled (x y w : Nat) : Prop :=
  ∀ i, y.testBit i = true ↔ ∃ j, j < w ∧ x.testBit (i + j) = true

theorem filled_one (x : Nat) : Filled x x 1 := by
  intro i
  constructor
  · intro h
    exact ⟨0, by omega, h⟩
  · rintro ⟨j, hj, h⟩
    obtain rfl : j = 0 := by omega
    exact h

theorem Filled.double {x y w : Nat} (h : Filled x y w) : Filled x (y ||| y >>> w) (w + w) := by
  intro i
  rw [Nat.testBit_or, Bool.or_eq_true, Nat.testBit_shiftRight, h i, h (w + i)]
  constructor
  · rintro (⟨j, hj, hx⟩ | ⟨j, hj, hx⟩)
    · exact ⟨j, by omega, hx⟩
    · refine ⟨w + j, by omega, ?_⟩
      have e : i + (w + j) = w + i + j := by omega
      rw [e]
      exact hx
  · rintro ⟨j, hj, hx⟩
    by_cases hw : j < w
    · exact Or.inl ⟨j, hw, hx⟩
    · refine Or.inr ⟨j - w, by omega, ?_⟩
      have e : w + i + (j - w) = i + j := by omega
      rw [e]
      exact hx

theorem Filled.eq_size {x y : Nat} (h : Filled x y 32) (hx : x < 2 ^ 32) :
    y = 2 ^ x.size - 1 := by
  apply Nat.eq_of_testBit_eq
  intro i
  rw [Nat.testBit_two_pow_sub_one]
  rw [Bool.eq_iff_iff, h i, decide_eq_true_iff, Nat.lt_size]
  constructor
  · rintro ⟨j, _, hj⟩
    exact (Nat.pow_le_pow_right (by omega) (by omega)).trans (Nat.ge_two_pow_of_testBit hj)
  · intro hle
    obtain ⟨k, hk, hb⟩ := Nat.exists_ge_and_testBit_of_ge_two_pow hle
    have hk32 : k < 32 := by
      by_contra hc
      have h1 := Nat.ge_two_pow_of_testBit hb
      have h2 : 2 ^ 32 ≤ 2 ^ k := Nat.pow_le_pow_right (by omega) (by omega)
      omega
    refine ⟨k - i, by omega, ?_⟩
    have e : i + (k - i) = k := by omega
    rw [e]
    exact hb

/-- **Smearing**: five shift-and-or steps give all ones up to the size of the word. -/
theorem smear_eq {x : Nat} (hx : x < 2 ^ 32) (a b c d e : Nat) (ha : a = x ||| x >>> 1)
    (hb : b = a ||| a >>> 2) (hc : c = b ||| b >>> 4) (hd : d = c ||| c >>> 8)
    (he : e = d ||| d >>> 16) : e = 2 ^ x.size - 1 := by
  have h1 : Filled x a 2 := ha ▸ (filled_one x).double
  have h2 : Filled x b 4 := hb ▸ h1.double
  have h3 : Filled x c 8 := hc ▸ h2.double
  have h4 : Filled x d 16 := hd ▸ h3.double
  have h5 : Filled x e 32 := he ▸ h4.double
  exact h5.eq_size hx

end Word
