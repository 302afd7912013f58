import Mathlib.Data.Fintype.Card

/-!
# How many entries of a table have a property

* `holds`         the number of entries;
* `holds_update`  what an update of one entry changes.
-/

namespace Counting
open Function

section
variable {S α : Type*} [Fintype S] [DecidableEq S] (p : α → Bool) (f : S → α)

/-- the number of entries with `p` -/
def holds : Nat := (Finset.univ.filter fun x => p (f x)).card

variable (x : S) (v : α)

theorem holds_update : holds p (update f x v) + (p (f x)).toNat
    = holds p f + (p v).toNat := by
  have hrest : (Finset.univ.filter fun y => p (update f x v y)).erase x
      = (Finset.univ.filter fun y => p (f y)).erase x := by
    ext y
    by_cases hy : y = x
    · simp [hy]
    · simp [hy]
  have hcard (g : S → α) : holds p g
      = ((Finset.univ.filter fun y => p (g y)).erase x).card + (p (g x)).toNat := by
    unfold holds
    cases hg : p (g x) with
    | false =>
      have hx : x ∉ Finset.univ.filter fun y => p (g y) := by simp [hg]
      rw [Finset.erase_eq_of_notMem hx]
      rfl
    | true =>
      have hx : x ∈ Finset.univ.filter fun y => p (g y) := by simp [hg]
      exact (Finset.card_erase_add_one hx).symm
  rw [hcard (update f x v), hcard f, hrest, update_self]
  omega

variable {f}

omit [DecidableEq S] in
theorem eq_of_holds_eq_one (h : holds p f = 1) {y z : S} (hy : p (f y) = true) (hz : p (f z) = true) :
    y = z := by
  obtain ⟨w, hw⟩ := Finset.card_eq_one.mp h
  have hmem (v : S) (hv : p (f v) = true) : v = w := by
    have hin : v ∈ Finset.univ.filter fun x => p (f x) :=
      Finset.mem_filter.mpr ⟨Finset.mem_univ v, hv⟩
    rw [hw] at hin
    exact Finset.mem_singleton.mp hin
  exact (hmem y hy).trans (hmem z hz).symm

variable (f)

omit [DecidableEq S] in
theorem holds_congr {g : S → α} (h : ∀ y, p (g y) = p (f y)) : holds p g = holds p f := by
  unfold holds
  simp only [h]

omit [DecidableEq S] in
theorem holds_eq_zero_iff : holds p f = 0 ↔ ∀ x, p (f x) = false := by
  unfold holds
  rw [Finset.card_eq_zero, Finset.filter_eq_empty_iff]
  simp

end

end Counting
