import SierraTee.Arith.BigInt

/-!
# Sums that lose a carry

What the sum of two rows of words makes when the comparison of a word with the operands misses the
carry.

* `sumWords_le`         the sum is never too great;
* `sumWords_right_iff`  it is right exactly if no word behind the first loses its carry.
-/

namespace SierraTee

open BigEndian

def sumWords (l : List (BigWord × BigWord)) : List BigWord × BigWord := ripple addWord addCarry 0 l

/-- at the word of weight `2 ^ (32 * j)` the sum of two numbers loses a carry -/
def LosesCarryAt (x y j : Nat) : Prop :=
  x / (2 ^ 32) ^ j % 2 ^ 32 = 2 ^ 32 - 1 ∧ y / (2 ^ 32) ^ j % 2 ^ 32 = 2 ^ 32 - 1 ∧
    (2 ^ 32) ^ j ≤ x % (2 ^ 32) ^ j + y % (2 ^ 32) ^ j

instance (x y j : Nat) : Decidable (LosesCarryAt x y j) := inferInstanceAs (Decidable (_ ∧ _))

section
variable {l : List (BigWord × BigWord)}

theorem addCarry_le_one (x y c : BigWord) : (addCarry x y c).toNat ≤ 1 := by
  rw [addCarry, toNat_ite_one]
  split <;> omega

theorem addCarry_le (x y : BigWord) {c : BigWord} (hc : c.toNat ≤ 1) :
    (addCarry x y c).toNat ≤ (addOut x y c).toNat := by
  by_cases h : addCarry x y c = addOut x y c
  · rw [h]
  · have hlost := (addCarry_eq_iff hc).not.mp h
    rw [not_not, eq_allOnes_iff, eq_allOnes_iff] at hlost
    rw [toNat_addOut (by omega), if_pos (by omega)]
    exact addCarry_le_one x y c

theorem sumWords_carry_le (l : List (BigWord × BigWord)) : (sumWords l).2.toNat ≤ 1 := by
  cases l with
  | nil => exact Nat.zero_le _
  | cons p l => exact addCarry_le_one _ _ _

theorem sumWords_le (l : List (BigWord × BigWord)) :
    value (sumWords l).1 + (sumWords l).2.toNat * (2 ^ 32) ^ l.length ≤
      value (l.map Prod.fst) + value (l.map Prod.snd) := by
  induction l with
  | nil => exact Nat.le_refl 0
  | cons p l ih =>
    have hc := sumWords_carry_le l
    have hle := addCarry_le p.1 p.2 hc
    have hw := addWord_value (by omega) p.1 p.2 hc
    have hlen : (sumWords l).1.length = l.length := length_ripple
    change value (addWord p.1 p.2 (sumWords l).2 :: (sumWords l).1) +
        (addCarry p.1 p.2 (sumWords l).2).toNat * (2 ^ 32) ^ (l.length + 1) ≤
      value ((p :: l).map Prod.fst) + value ((p :: l).map Prod.snd)
    rw [List.map_cons, List.map_cons, value_cons, value_cons, value_cons, hlen, List.length_map,
      List.length_map]
    generalize (sumWords l).2 = c at hc hle hw ih ⊢
    have hword : (addWord p.1 p.2 c).toNat + (addCarry p.1 p.2 c).toNat * 2 ^ 32 ≤
        p.1.toNat + p.2.toNat + c.toNat := by
      rw [← hw]
      exact Nat.add_le_add_left (Nat.mul_le_mul_right _ hle) _
    calc _ ≤ (p.1.toNat + p.2.toNat) * (2 ^ 32) ^ l.length +
          (value (l.map Prod.fst) + value (l.map Prod.snd)) := digits_le hword ih
      _ = _ := by ring

theorem addCarry_agree_iff (i : Nat) (hi : i < l.length) :
    addCarry l[i].1 l[i].2 (ripple addWord addOut 0 (l.drop (i + 1))).2 =
      addOut l[i].1 l[i].2 (ripple addWord addOut 0 (l.drop (i + 1))).2 ↔
      ¬LosesCarryAt (value (l.map Prod.fst)) (value (l.map Prod.snd)) (l.length - (i + 1)) := by
  have h1 : i < (l.map Prod.fst).length := by rwa [List.length_map]
  have h2 : i < (l.map Prod.snd).length := by rwa [List.length_map]
  have hx := toNat_getElem (l.map Prod.fst) i h1
  have hy := toNat_getElem (l.map Prod.snd) i h2
  simp only [List.getElem_map, List.length_map] at hx hy
  rw [addCarry_eq_iff (add_value (by omega) _).1, addOut_eq (by omega), LosesCarryAt,
    eq_allOnes_iff, eq_allOnes_iff, List.map_drop, List.map_drop, value_drop, value_drop,
    List.length_map, List.length_map, List.length_drop, hx, hy]

/-- **A sum** is right exactly if no word behind the first loses its carry. -/
theorem sumWords_eq_iff : (sumWords l).1 = (ripple addWord addOut 0 l).1 ↔
    ∀ j < l.length - 1, ¬LosesCarryAt (value (l.map Prod.fst)) (value (l.map Prod.snd)) j := by
  rw [sumWords, ripple_words_eq_iff addWord_injective]
  constructor
  · intro h j hj
    have hl : l.length - 1 - j < l.length := by omega
    have h' := (addCarry_agree_iff _ hl).mp (h (l.length - 1 - j) (by omega) hl)
    have e : l.length - (l.length - 1 - j + 1) = j := by omega
    rwa [e] at h'
  · intro h i hi hl
    exact (addCarry_agree_iff i hl).mpr (h _ (by omega))

theorem sumWords_right_iff
    (hfit : value (l.map Prod.fst) + value (l.map Prod.snd) < (2 ^ 32) ^ l.length) :
    value (sumWords l).1 = value (l.map Prod.fst) + value (l.map Prod.snd) ↔
      ∀ j < l.length - 1, ¬LosesCarryAt (value (l.map Prod.fst)) (value (l.map Prod.snd)) j := by
  have hsum := add_words (b := 32) (by omega) l
  rw [Nat.mod_eq_of_lt hfit] at hsum
  rw [← sumWords_eq_iff, ← hsum]
  constructor
  · intro h
    exact value_inj (length_ripple.trans length_ripple.symm) h
  · intro h
    rw [h]

end

theorem number_bigIntAdd_of_keeps {a b : BigInt} (hfit : a.number + b.number < 2 ^ (32 * bigIntWords))
    (h : ∀ j < bigIntWords - 1, ¬LosesCarryAt a.number b.number j) :
    (bigIntAdd a b).number = a.number + b.number := by
  have hiff := sumWords_right_iff (l := a.words.zip b.words)
  rw [map_fst_zip_words, map_snd_zip_words, length_zip_words, ← Nat.pow_mul] at hiff
  exact (hiff hfit).2 h

end SierraTee
