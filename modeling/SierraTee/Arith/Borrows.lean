import SierraTee.Arith.BigInt

/-!
# Differences that lose a borrow

What `TEE_BigIntSub` makes when the comparison of a word with the minuend misses the borrow.

* `le_subWords`          the difference is never too small;
* `subWords_lt`          it is less than the minuend, if the subtrahend does not begin with a word
                         of all ones;
* `subWords_borrow`      and then a subtrahend of twice the minuend or more leaves a borrow;
* `firstWord_bigIntSub`  so that the first word of the difference is all ones.
-/

namespace SierraTee

open BigEndian

section borrows

theorem subCarry_le (x y : BigWord) {c : BigWord} (hc : c.toNat ≤ 1) :
    (subCarry x y c).toNat ≤ (subOut x y c).toNat := by
  have hle : (subCarry x y c).toNat ≤ 1 := by
    rw [subCarry, toNat_ite_one]
    split <;> omega
  by_cases h : subCarry x y c = subOut x y c
  · rw [h]
  · have hlost := (subCarry_eq_iff hc).not.mp h
    rw [not_not, eq_allOnes_iff] at hlost
    have hx := x.isLt
    rw [toNat_subOut (by omega), if_pos (by omega)]
    exact hle

def subWords (l : List (BigWord × BigWord)) : List BigWord × BigWord := ripple subWord subCarry 0 l

variable {l : List (BigWord × BigWord)} {p : BigWord × BigWord}

theorem subWords_borrow_le (l : List (BigWord × BigWord)) : (subWords l).2.toNat ≤ 1 := by
  cases l with
  | nil => exact Nat.zero_le _
  | cons p l =>
    change (subCarry p.1 p.2 (subWords l).2).toNat ≤ 1
    rw [subCarry, toNat_ite_one]
    split <;> omega

theorem le_subWords (l : List (BigWord × BigWord)) :
    value (l.map Prod.fst) + (subWords l).2.toNat * (2 ^ 32) ^ l.length ≤
      value (subWords l).1 + value (l.map Prod.snd) := by
  induction l with
  | nil => exact Nat.le_refl 0
  | cons p l ih =>
    have hc := subWords_borrow_le l
    have hle := subCarry_le p.1 p.2 hc
    have hw := subWord_value (by omega) p.1 p.2 hc
    have hlen : (subWords l).1.length = l.length := length_ripple
    change value ((p :: l).map Prod.fst) +
        (subCarry p.1 p.2 (subWords l).2).toNat * (2 ^ 32) ^ (l.length + 1) ≤
      value (subWord p.1 p.2 (subWords l).2 :: (subWords l).1) + value ((p :: l).map Prod.snd)
    rw [List.map_cons, List.map_cons, value_cons, value_cons, value_cons, hlen, List.length_map,
      List.length_map]
    generalize (subWords l).2 = c at hc hle hw ih ⊢
    have hword : p.1.toNat + (subCarry p.1 p.2 c).toNat * 2 ^ 32 ≤
        (subWord p.1 p.2 c).toNat + p.2.toNat + c.toNat := by
      rw [hw]
      exact Nat.add_le_add_left (Nat.mul_le_mul_right _ hle) _
    calc _ ≤ ((subWord p.1 p.2 c).toNat + p.2.toNat) * (2 ^ 32) ^ l.length +
          (value (subWords l).1 + value (l.map Prod.snd)) := digits_le hword ih
      _ = _ := by ring

def TopNotFull : List BigWord → Prop
  | [] => False
  | y :: l => if y = 0 then TopNotFull l else y ≠ BitVec.allOnes 32

theorem subCarry_of_ne {x y c : BigWord} (hc : c.toNat ≤ 1) (hy : y ≠ BitVec.allOnes 32) :
    subCarry x y c = subOut x y c := (subCarry_eq_iff hc).mpr fun h => hy h.1

theorem subWords_lt (h : TopNotFull (l.map Prod.snd)) :
    value (subWords l).1 < value (l.map Prod.fst) + (subWords l).2.toNat * (2 ^ 32) ^ l.length := by
  induction l with
  | nil => exact h.elim
  | cons p l ih =>
    have hc := subWords_borrow_le l
    have hw := subWord_value (by omega) p.1 p.2 hc
    have hlen : (subWords l).1.length = l.length := length_ripple
    have hlt := value_lt (subWords l).1
    rw [List.map_cons, TopNotFull] at h
    change value (subWord p.1 p.2 (subWords l).2 :: (subWords l).1) <
      value ((p :: l).map Prod.fst) +
        (subCarry p.1 p.2 (subWords l).2).toNat * (2 ^ 32) ^ (l.length + 1)
    have hy : p.2 ≠ BitVec.allOnes 32 := by
      intro e
      rw [if_neg (by rw [e]; decide)] at h
      exact h e
    rw [subCarry_of_ne hc hy, List.map_cons, value_cons, value_cons, hlen, List.length_map]
    rw [hlen] at hlt
    generalize (subWords l).2 = c at hc hw ih ⊢
    have hword : (subWord p.1 p.2 c).toNat * (2 ^ 32) ^ l.length +
        (p.2.toNat + c.toNat) * (2 ^ 32) ^ l.length =
          p.1.toNat * (2 ^ 32) ^ l.length +
            (subOut p.1 p.2 c).toNat * (2 ^ 32) ^ (l.length + 1) := by
      rw [← Nat.add_mul, ← Nat.add_assoc, hw]
      ring
    by_cases h0 : p.2 = 0
    · rw [if_pos h0] at h
      have hi := ih h
      have hz : p.2.toNat = 0 := by rw [h0]; rfl
      rw [hz, Nat.zero_add] at hword
      omega
    · have hpos : 1 ≤ p.2.toNat + c.toNat := by
        have : p.2.toNat ≠ 0 := fun e => h0 (BitVec.eq_of_toNat_eq e)
        omega
      have hmul := Nat.mul_le_mul_right ((2 ^ 32) ^ l.length) hpos
      omega

theorem subWords_borrow (h : TopNotFull (l.map Prod.snd))
    (hhalf : 2 * value (l.map Prod.fst) ≤ value (l.map Prod.snd)) : (subWords l).2.toNat = 1 := by
  induction l with
  | nil => exact h.elim
  | cons p l ih =>
    have hc := subWords_borrow_le l
    have hlt := value_lt (l.map Prod.snd)
    rw [List.map_cons, TopNotFull] at h
    rw [List.map_cons, List.map_cons, value_cons, value_cons, List.length_map,
      List.length_map] at hhalf
    rw [List.length_map] at hlt
    change (subCarry p.1 p.2 (subWords l).2).toNat = 1
    have hy : p.2 ≠ BitVec.allOnes 32 := by
      intro e
      rw [if_neg (by rw [e]; decide)] at h
      exact h e
    rw [subCarry_of_ne hc hy, toNat_subOut (by omega)]
    have hword : 2 * p.1.toNat ≤ p.2.toNat := by
      by_contra hcon
      have h1 : (p.2.toNat + 1) * (2 ^ 32) ^ l.length ≤ 2 * p.1.toNat * (2 ^ 32) ^ l.length :=
        Nat.mul_le_mul_right _ (by omega)
      rw [Nat.add_mul, Nat.mul_assoc] at h1
      omega
    by_cases h0 : p.2 = 0
    · rw [if_pos h0] at h
      have hz : p.2.toNat = 0 := by rw [h0]; rfl
      have hx : p.1.toNat = 0 := by omega
      rw [hz, hx] at hhalf
      rw [ih h (by omega), hz, hx]
      rfl
    · have hpos : p.2.toNat ≠ 0 := fun e => h0 (BitVec.eq_of_toNat_eq e)
      rw [if_pos (by omega)]

theorem topNotFull_of_lead {l : List BigWord} (h0 : value l ≠ 0)
    (h : value l * 2 ^ 31 < (2 ^ 32 - 1) * 2 ^ (value l).log2) : TopNotFull l := by
  induction l with
  | nil => exact h0 rfl
  | cons y l ih =>
    rw [TopNotFull]
    split
    next hy =>
      have e : value (y :: l) = value l := by
        rw [value_cons, hy]
        simp
      rw [e] at h0 h
      exact ih h0 h
    next hy =>
      intro hones
      have hlt := value_lt (y :: l)
      have hlog : (value (y :: l)).log2 < 32 * l.length + 32 := by
        rw [Nat.log2_lt h0]
        rw [List.length_cons, ← Nat.pow_mul] at hlt
        exact hlt
      have hpow : 2 ^ (value (y :: l)).log2 ≤ 2 ^ (32 * l.length) * 2 ^ 31 := by
        rw [← Nat.pow_add]
        exact Nat.pow_le_pow_right (by omega) (by omega)
      rw [eq_allOnes_iff] at hones
      have hge : (2 ^ 32 - 1) * 2 ^ (32 * l.length) ≤ value (y :: l) := by
        rw [value_cons, hones, ← Nat.pow_mul]
        exact Nat.le_add_right _ _
      have h1 := Nat.mul_le_mul_left (2 ^ 32 - 1) hpow
      have h2 := Nat.mul_le_mul_right (2 ^ 31) hge
      rw [Nat.mul_assoc] at h2
      omega

end borrows

section bigInt
variable {a b : BigInt}

theorem le_number_bigIntSub (a b : BigInt) : a.number ≤ (bigIntSub a b).number + b.number := by
  have h := le_subWords (a.words.zip b.words)
  rw [map_fst_zip_words, map_snd_zip_words] at h
  exact (Nat.le_add_right _ _).trans h

theorem number_bigIntSub_iff (hle : b.number ≤ a.number) :
    (bigIntSub a b).number = a.number - b.number ↔
      ∀ j < bigIntWords - 1, ¬ LosesBorrowAt a.number b.number j := by
  constructor
  · intro h
    rw [← bigIntSub_eq_iff]
    have hsub := sub_words (b := 32) (by omega) (a.words.zip b.words)
    have hlt := a.number_lt
    have e : ((value a.words : Nat) : Int) - (value b.words : Nat) =
        ((a.number - b.number : Nat) : Int) := (Nat.cast_sub hle).symm
    rw [map_fst_zip_words, map_snd_zip_words, length_zip_words, ← Nat.pow_mul, e,
      ← Int.natCast_mod, Nat.mod_eq_of_lt (by omega)] at hsub
    apply value_inj
    · rw [words_bigIntSub, length_ripple, length_ripple]
    · rw [Nat.cast_inj.mp hsub]
      exact h
  · intro h
    exact number_bigIntSub h hle

theorem number_bigIntSub_lt (hle : b.number ≤ a.number) (h0 : b.number ≠ 0)
    (hlead : b.number * 2 ^ 31 < (2 ^ 32 - 1) * 2 ^ b.number.log2) :
    (bigIntSub a b).number < a.number := by
  have hlow := le_subWords (a.words.zip b.words)
  have hhigh := subWords_lt (l := a.words.zip b.words)
    (by rw [map_snd_zip_words]; exact topNotFull_of_lead h0 hlead)
  have hlt := (bigIntSub a b).number_lt
  have hc := subWords_borrow_le (a.words.zip b.words)
  rw [map_fst_zip_words, length_zip_words] at hlow hhigh
  rw [map_snd_zip_words] at hlow
  rw [← Nat.pow_mul] at hlow hhigh
  change value a.words + _ ≤ (bigIntSub a b).number + value b.words at hlow
  change (bigIntSub a b).number < value a.words + _ at hhigh
  have hle' : value b.words ≤ value a.words := hle
  obtain hz | hone : (subWords (a.words.zip b.words)).2.toNat = 0 ∨
    (subWords (a.words.zip b.words)).2.toNat = 1 := by omega
  · rw [hz, Nat.zero_mul, Nat.add_zero] at hhigh
    exact hhigh
  · rw [hone, Nat.one_mul] at hlow
    omega

theorem firstWord_bigIntSub (hhalf : 2 * a.number ≤ b.number) (h0 : b.number ≠ 0)
    (hlead : b.number * 2 ^ 31 < (2 ^ 32 - 1) * 2 ^ b.number.log2)
    (hb : b.number < (2 ^ 32) ^ (bigIntWords - 1)) :
    firstWord (bigIntSub a b).number = 2 ^ 32 - 1 := by
  have hlow := le_subWords (a.words.zip b.words)
  have hone := subWords_borrow (l := a.words.zip b.words)
    (by rw [map_snd_zip_words]; exact topNotFull_of_lead h0 hlead)
    (by rw [map_fst_zip_words, map_snd_zip_words]; exact hhalf)
  have hlt := (bigIntSub a b).number_lt
  have hsucc : bigIntWords = bigIntWords - 1 + 1 := rfl
  rw [map_fst_zip_words, map_snd_zip_words, length_zip_words, hone, Nat.one_mul, hsucc,
    Nat.pow_succ] at hlow
  change value a.words + _ ≤ (bigIntSub a b).number + b.number at hlow
  rw [Nat.pow_mul, hsucc, Nat.pow_succ] at hlt
  rw [firstWord]
  generalize (2 ^ 32) ^ (bigIntWords - 1) = F at hb hlow hlt ⊢
  apply Nat.div_eq_of_lt_le
  · omega
  · omega

end bigInt

end SierraTee
