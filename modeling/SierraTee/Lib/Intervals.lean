import Mathlib.Algebra.Order.BigOperators.Group.Finset
import Mathlib.Order.Interval.Finset.Nat
import Mathlib.Data.Nat.Bits

/-!
# Disjoint ranges of addresses

`Apart a m b n` says that the ranges `[a, a + m)` and `[b, b + n)` do not meet.

* `Apart.split`, `Apart.join`  a range cut in two, and two neighbours taken together;
* `sum_length_le`              ranges that do not meet inside `[lo, hi)` have a total length of at
                               most `hi - lo`.
-/

namespace Intervals

def Apart (a m b n : Nat) : Prop := a + m ≤ b ∨ b + n ≤ a

instance (a m b n : Nat) : Decidable (Apart a m b n) := inferInstanceAs (Decidable (_ ∨ _))

theorem Apart.symm {a m b n : Nat} (h : Apart a m b n) : Apart b n a m := Or.symm h

theorem Apart.split {a m m' b n : Nat} (h : Apart a (m + m') b n) :
    Apart a m b n ∧ Apart (a + m) m' b n := by
  unfold Apart at *
  omega

theorem Apart.join {a m m' b n : Nat} (hn : 0 < n) (h1 : Apart a m b n)
    (h2 : Apart (a + m) m' b n) : Apart a (m + m') b n := by
  unfold Apart at *
  omega

theorem Apart.ne {a m b n : Nat} (hm : 0 < m) (hn : 0 < n) (h : Apart a m b n) : a ≠ b := by
  unfold Apart at h
  omega

theorem Apart.disjoint_Ico {a m b n : Nat} (h : Apart a m b n) :
    Disjoint (Finset.Ico a (a + m)) (Finset.Ico b (b + n)) := by
  rw [Finset.disjoint_left]
  intro x hx hy
  rw [Finset.mem_Ico] at hx hy
  unfold Apart at h
  omega

/-- **Total length**: pairwise disjoint ranges inside `[lo, hi)` are together no longer. -/
theorem sum_length_le {ι : Type*} [DecidableEq ι] (s : Finset ι) (start len : ι → Nat)
    (lo hi : Nat) (hin : ∀ i ∈ s, lo ≤ start i ∧ start i + len i ≤ hi)
    (hd : ∀ i ∈ s, ∀ j ∈ s, i ≠ j → Apart (start i) (len i) (start j) (len j)) :
    ∑ i ∈ s, len i ≤ hi - lo := by
  have hcard : (s.biUnion fun i => Finset.Ico (start i) (start i + len i)).card
      = ∑ i ∈ s, len i := by
    rw [Finset.card_biUnion fun i hi j hj hij => (hd i hi j hj hij).disjoint_Ico]
    refine Finset.sum_congr rfl fun i _ => ?_
    rw [Nat.card_Ico, Nat.add_sub_cancel_left]
  have hsub : (s.biUnion fun i => Finset.Ico (start i) (start i + len i)) ⊆ Finset.Ico lo hi := by
    intro x hx
    obtain ⟨i, hi, hxi⟩ := Finset.mem_biUnion.mp hx
    rw [Finset.mem_Ico] at hxi ⊢
    have := hin i hi
    omega
  calc ∑ i ∈ s, len i = _ := hcard.symm
    _ ≤ (Finset.Ico lo hi).card := Finset.card_le_card hsub
    _ = hi - lo := Nat.card_Ico lo hi

end Intervals
