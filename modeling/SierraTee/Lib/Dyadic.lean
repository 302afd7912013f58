import SierraTee.Lib.Intervals
import Mathlib.Data.Finset.Max
import Mathlib.Tactic.Linarith
import Mathlib.Tactic.Ring

/-!
# Dyadic blocks

Block `p` of level `k` is `[p * 2 ^ k, (p + 1) * 2 ^ k)`; it is one half of block `p / 2` of the
next level.

* `nested`         a block and a smaller one do not meet, or one is in the other;
* `exists_halves`  blocks that fill `[0, 2 ^ n)` have two halves of one block among them, if none of
                   them is all of it.
-/

namespace Dyadic
open Intervals

theorem pow_split {j k : Nat} (h : j ≤ k) : 2 ^ k = 2 ^ (k - j) * 2 ^ j := by
  rw [← Nat.pow_add, Nat.sub_add_cancel h]

theorem nested {j k : Nat} (h : j ≤ k) (p q : Nat) :
    Apart (p * 2 ^ j) (2 ^ j) (q * 2 ^ k) (2 ^ k) ∨
      (q * 2 ^ k ≤ p * 2 ^ j ∧ (p + 1) * 2 ^ j ≤ (q + 1) * 2 ^ k) := by
  have hq : q * 2 ^ k = q * 2 ^ (k - j) * 2 ^ j := by rw [pow_split h, Nat.mul_assoc]
  have hq' : (q + 1) * 2 ^ k = (q + 1) * 2 ^ (k - j) * 2 ^ j := by rw [pow_split h, Nat.mul_assoc]
  have hend : q * 2 ^ k + 2 ^ k = (q + 1) * 2 ^ k := by ring
  have hp : p * 2 ^ j + 2 ^ j = (p + 1) * 2 ^ j := by ring
  unfold Apart
  rw [hend, hp]
  by_cases h1 : p < q * 2 ^ (k - j)
  · refine Or.inl (Or.inl ?_)
    rw [hq]
    exact Nat.mul_le_mul_right _ h1
  · by_cases h2 : p < (q + 1) * 2 ^ (k - j)
    · refine Or.inr ⟨?_, ?_⟩
      · rw [hq]
        exact Nat.mul_le_mul_right _ (Nat.le_of_not_lt h1)
      · rw [hq']
        exact Nat.mul_le_mul_right _ h2
    · refine Or.inl (Or.inr ?_)
      rw [hq']
      exact Nat.mul_le_mul_right _ (Nat.le_of_not_lt h2)

theorem half_in (k p : Nat) :
    p / 2 * 2 ^ (k + 1) ≤ p * 2 ^ k ∧ (p + 1) * 2 ^ k ≤ (p / 2 + 1) * 2 ^ (k + 1) := by
  have h1 : p / 2 * 2 ^ (k + 1) = 2 * (p / 2) * 2 ^ k := by ring
  have h2 : (p / 2 + 1) * 2 ^ (k + 1) = (2 * (p / 2) + 2) * 2 ^ k := by ring
  rw [h1, h2]
  exact ⟨Nat.mul_le_mul_right _ (by omega), Nat.mul_le_mul_right _ (by omega)⟩

section
variable {ι : Type*} [DecidableEq ι] {s : Finset ι} {pos level : ι → Nat} {n : Nat}

/-- **Blocks that fill everything** and are all smaller have two halves of one block among them. -/
theorem exists_halves (hin : ∀ i ∈ s, level i < n ∧ (pos i + 1) * 2 ^ level i ≤ 2 ^ n)
    (hapart : ∀ i ∈ s, ∀ j ∈ s, i ≠ j →
      Apart (pos i * 2 ^ level i) (2 ^ level i) (pos j * 2 ^ level j) (2 ^ level j))
    (htotal : ∑ i ∈ s, 2 ^ level i = 2 ^ n) :
    ∃ i ∈ s, ∃ j ∈ s, i ≠ j ∧ level i = level j ∧ pos i / 2 = pos j / 2 := by
  by_contra hno
  have hne : s.Nonempty := by
    by_contra h
    rw [Finset.not_nonempty_iff_eq_empty.mp h, Finset.sum_empty] at htotal
    exact absurd htotal.symm (Nat.two_pow_pos n).ne'
  obtain ⟨i, hi, hmin⟩ := s.exists_min_image level hne
  obtain ⟨hlt, hend⟩ := hin i hi
  have hother (j : ι) (hj : j ∈ s) (hij : i ≠ j) :
      Apart (pos i / 2 * 2 ^ (level i + 1)) (2 ^ (level i + 1)) (pos j * 2 ^ level j)
        (2 ^ level j) := by
    have hlevel := hmin j hj
    have hij' := hapart i hi j hj hij
    have hhalf := half_in (level i) (pos i)
    have hpos := Nat.two_pow_pos (level i)
    have he (k p : Nat) : p * 2 ^ k + 2 ^ k = (p + 1) * 2 ^ k := by ring
    by_cases heq : level j = level i
    · obtain h | ⟨h1, h2⟩ := nested (show level j ≤ level i + 1 by omega) (pos j) (pos i / 2)
      · exact h.symm
      · refine absurd ⟨i, hi, j, hj, hij, heq.symm, ?_⟩ hno
        rw [heq, Nat.pow_succ, ← Nat.mul_assoc, ← Nat.mul_right_comm] at h1 h2
        have h3 := Nat.le_of_mul_le_mul_right h1 hpos
        have h4 := Nat.le_of_mul_le_mul_right h2 hpos
        omega
    · obtain h | ⟨h1, h2⟩ := nested (show level i + 1 ≤ level j by omega) (pos i / 2) (pos j)
      · exact h
      · unfold Apart at hij'
        rw [he, he] at hij'
        have h3 : pos i * 2 ^ level i < (pos i + 1) * 2 ^ level i :=
          Nat.mul_lt_mul_of_pos_right (Nat.lt_succ_self _) hpos
        omega
  have hroom : (pos i / 2 + 1) * 2 ^ (level i + 1) ≤ 2 ^ n := by
    rw [pow_split (show level i + 1 ≤ n by omega)]
    refine Nat.mul_le_mul_right _ ?_
    rw [pow_split (show level i ≤ n by omega), show n - level i = n - (level i + 1) + 1 by omega] at hend
    have h1 := Nat.le_of_mul_le_mul_right hend (Nat.two_pow_pos _)
    rw [Nat.pow_succ] at h1
    omega
  have hsum := sum_length_le s
    (fun j => if j = i then pos i / 2 * 2 ^ (level i + 1) else pos j * 2 ^ level j)
    (fun j => if j = i then 2 ^ (level i + 1) else 2 ^ level j) 0 (2 ^ n)
    (fun j hj => by
      refine ⟨Nat.zero_le _, ?_⟩
      split_ifs with h
      · linarith
      · linarith [(hin j hj).2])
    fun j hj l hl hjl => by
      split_ifs with h1 h2 h2
      · exact absurd (h1.trans h2.symm) hjl
      · exact hother l hl fun h => h2 h.symm
      · exact (hother j hj fun h => h1 h.symm).symm
      · exact hapart j hj l hl hjl
  have hmore : ∑ j ∈ s, (if j = i then 2 ^ (level i + 1) else 2 ^ level j)
      = ∑ j ∈ s, 2 ^ level j + 2 ^ level i := by
    rw [← Finset.add_sum_erase s _ hi, ← Finset.add_sum_erase s (fun j => 2 ^ level j) hi, if_pos rfl,
      Finset.sum_congr rfl fun j hj => if_neg (Finset.ne_of_mem_erase hj), Nat.pow_succ]
    ring
  have hpos := Nat.two_pow_pos (level i)
  rw [hmore, htotal] at hsum
  omega

end

end Dyadic
