import Mathlib.Data.BitVec
import Mathlib.Tactic.Abel

/-!
# Copying memory

`Copies` is about a memory with a value at each number, and copies in pieces; `WrappedCopies` about
one with a value at each word of `w` bits, where addresses wrap around.

* `copyAt`              a number of cells are copied at once;
* `copyLoop`            a loop that copies one piece after another;
* `copyAt_add`          two copies behind each other, if the places are apart;
* `copyLoop_eq`         the loop copies all of its pieces;
* `moveCells`           a number of cells are copied at once;
* `Copied`              what such a copy leaves;
* `moveCells_forward`   a copy, and a second one behind it;
* `moveCells_backward`  a copy, and a second one before it.
-/

namespace Copies

variable {B : Type*}

/-- `n` cells from `src` on are copied to `dst`; all of them are read first -/
def copyAt (m : Nat → B) (dst src n : Nat) : Nat → B := fun a =>
  if dst ≤ a ∧ a < dst + n then m (src + (a - dst)) else m a

/-- a loop that copies `k` pieces of the width `w` -/
def copyLoop (w : Nat) : Nat → (Nat → B) → Nat → Nat → Nat → B
  | 0, m, _, _ => m
  | k + 1, m, dst, src => copyLoop w k (copyAt m dst src w) (dst + w) (src + w)

section
variable {m : Nat → B} {dst src n k w i a : Nat}

theorem copyAt_zero : copyAt m dst src 0 = m := by
  funext a
  exact if_neg (by omega)

theorem copyAt_inside (hi : i < n) : copyAt m dst src n (dst + i) = m (src + i) := by
  unfold copyAt
  rw [if_pos (by omega), Nat.add_sub_cancel_left]

theorem copyAt_outside (ha : a < dst ∨ dst + n ≤ a) : copyAt m dst src n a = m a :=
  if_neg (by omega)

theorem copyAt_add (h : src + (k + n) ≤ dst ∨ dst + k ≤ src) :
    copyAt (copyAt m dst src k) (dst + k) (src + k) n = copyAt m dst src (k + n) := by
  funext a
  by_cases h1 : a < dst ∨ dst + (k + n) ≤ a
  · rw [copyAt_outside h1, copyAt_outside (by omega), copyAt_outside (by omega)]
  · obtain ⟨i, rfl⟩ := Nat.exists_eq_add_of_le (show dst ≤ a by omega)
    rw [copyAt_inside (show i < k + n by omega)]
    by_cases h2 : i < k
    · rw [copyAt_outside (by omega), copyAt_inside h2]
    · obtain ⟨j, rfl⟩ := Nat.exists_eq_add_of_le (show k ≤ i by omega)
      rw [← Nat.add_assoc, copyAt_inside (by omega), copyAt_outside (by omega), Nat.add_assoc]

theorem copyLoop_eq (h : src + w * k ≤ dst ∨ dst + w * k ≤ src) :
    copyLoop w k m dst src = copyAt m dst src (w * k) := by
  induction k generalizing m dst src with
  | zero => exact copyAt_zero.symm
  | succ k ih =>
    have hw : w * (k + 1) = w + w * k := by rw [Nat.mul_succ, Nat.add_comm]
    rw [hw] at h ⊢
    unfold copyLoop
    rw [ih (by omega), copyAt_add (by omega)]

end

end Copies

/-! ## Copies where addresses wrap around -/

namespace WrappedCopies

variable {w : Nat} {B : Type*}

/-- `n` cells from `src` on are copied to `dst`; all of them are read first -/
def moveCells (m : BitVec w → B) (dst src : BitVec w) (n : Nat) : BitVec w → B := fun a =>
  if (a - dst).toNat < n then m (src + (a - dst)) else m a

/-- the `n` cells from `dst` on have become those from `src` on, and the others are as they were -/
structure Copied (m m' : BitVec w → B) (dst src : BitVec w) (n : Nat) : Prop where
  inside : ∀ i < n, m' (dst + BitVec.ofNat w i) = m (src + BitVec.ofNat w i)
  outside : ∀ a, n ≤ (a - dst).toNat → m' a = m a

/-- two ranges of `n` cells without a common one -/
def Disjoint (a b : BitVec w) (n : Nat) : Prop :=
  ∀ i < n, ∀ j < n, a + BitVec.ofNat w i ≠ b + BitVec.ofNat w j

instance (a b : BitVec w) (n : Nat) : Decidable (Disjoint a b n) :=
  inferInstanceAs (Decidable (∀ i < n, ∀ j < n, _ ≠ _))

section
variable {m : BitVec w → B} {dst src a : BitVec w} {n k : Nat}

theorem moveCells_zero : moveCells m dst src 0 = m := by
  funext a
  exact if_neg (Nat.not_lt_zero _)

theorem moveCells_inside (h : (a - dst).toNat < n) :
    moveCells m dst src n a = m (src + (a - dst)) := if_pos h

theorem moveCells_outside (h : n ≤ (a - dst).toNat) : moveCells m dst src n a = m a :=
  if_neg (Nat.not_lt.mpr h)

theorem moveCells_one : moveCells m dst src 1 = Function.update m dst (m src) := by
  funext a
  by_cases h : a = dst
  · rw [h, Function.update_self, moveCells_inside (by simp), BitVec.sub_self, BitVec.add_zero]
  · have hne : (a - dst).toNat ≠ 0 := fun h0 => h (sub_eq_zero.mp (BitVec.eq_of_toNat_eq h0))
    rw [Function.update_of_ne h, moveCells_outside (by omega)]

variable (a dst) in
theorem toNat_sub_add (hk : k < 2 ^ w) : (a - (dst + BitVec.ofNat w k)).toNat =
    if k ≤ (a - dst).toNat then (a - dst).toNat - k else 2 ^ w - k + (a - dst).toNat := by
  have hlt := (a - dst).isLt
  have hkw : (BitVec.ofNat w k).toNat = k := by
    rw [BitVec.toNat_ofNat, Nat.mod_eq_of_lt hk]
  rw [sub_add_eq_sub_sub, BitVec.toNat_sub, hkw]
  split_ifs with h
  · rw [show 2 ^ w - k + (a - dst).toNat = (a - dst).toNat - k + 2 ^ w by omega,
      Nat.add_mod_right, Nat.mod_eq_of_lt (by omega)]
  · rw [Nat.mod_eq_of_lt (by omega)]

theorem moveCells_forward (hn : k + n ≤ 2 ^ w) (hk : k < 2 ^ w)
    (h : ∀ j, k ≤ j → j < k + n → k ≤ (src + BitVec.ofNat w j - dst).toNat) :
    moveCells (moveCells m dst src k) (dst + BitVec.ofNat w k) (src + BitVec.ofNat w k) n
      = moveCells m dst src (k + n) := by
  funext a
  have hd := toNat_sub_add dst a hk
  have hread : src + BitVec.ofNat w k + (a - (dst + BitVec.ofNat w k)) = src + (a - dst) := by
    abel
  by_cases h1 : (a - dst).toNat < k
  · rw [if_neg (by omega)] at hd
    rw [moveCells_outside (by omega), moveCells_inside h1, moveCells_inside (by omega)]
  · rw [if_pos (by omega)] at hd
    by_cases h2 : (a - dst).toNat < k + n
    · have hfar := h _ (Nat.not_lt.mp h1) h2
      rw [BitVec.ofNat_toNat, BitVec.setWidth_eq] at hfar
      rw [moveCells_inside (by omega), moveCells_inside h2, hread, moveCells_outside hfar]
    · rw [moveCells_outside (by omega), moveCells_outside (by omega), moveCells_outside (by omega)]

theorem moveCells_backward (hk : k < 2 ^ w)
    (h : ∀ j < k, n ≤ (src + BitVec.ofNat w j - (dst + BitVec.ofNat w k)).toNat) :
    moveCells (moveCells m (dst + BitVec.ofNat w k) (src + BitVec.ofNat w k) n) dst src k
      = moveCells m dst src (k + n) := by
  funext a
  have hd := toNat_sub_add dst a hk
  have hread : src + BitVec.ofNat w k + (a - (dst + BitVec.ofNat w k)) = src + (a - dst) := by
    abel
  by_cases h1 : (a - dst).toNat < k
  · have hfar := h _ h1
    rw [BitVec.ofNat_toNat, BitVec.setWidth_eq] at hfar
    rw [moveCells_inside h1, moveCells_outside hfar, moveCells_inside (by omega)]
  · rw [if_pos (by omega)] at hd
    rw [moveCells_outside (by omega)]
    by_cases h2 : (a - dst).toNat < k + n
    · rw [moveCells_inside (by omega), moveCells_inside h2, hread]
    · rw [moveCells_outside (by omega), moveCells_outside (by omega)]

variable (m dst src) in
theorem moveCells_copied (hn : n ≤ 2 ^ w) : Copied m (moveCells m dst src n) dst src n := by
  refine ⟨fun i hi => ?_, fun a ha => moveCells_outside ha⟩
  have e : dst + BitVec.ofNat w i - dst = BitVec.ofNat w i := add_sub_cancel_left ..
  have hlt : (BitVec.ofNat w i).toNat = i := by
    rw [BitVec.toNat_ofNat, Nat.mod_eq_of_lt (by omega)]
  rw [moveCells_inside (by rw [e, hlt]; exact hi), e]

end

end WrappedCopies
