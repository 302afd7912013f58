import SierraTee.Lib.BigEndian

/-!
# Sums and differences of big integers (`otz_tee_arith_api.c`)

A big integer is a row of `bigIntWords` words of 32 bits, the highest first.  Memory is a function
from word indices to words and a pointer is an index.

* `wordsAt_wordLoop`  the words of the result, also when the destination is an operand;
* `wordLoop_outside`  nothing else is written;
* `addCarry_eq_iff`, `subCarry_eq_iff`   where comparing words finds the carry.
-/

namespace SierraTee
open Function

open BigEndian

/-- `TEE_BigInt` -/
abbrev BigWord := BitVec 32

/-- `TEE_BigIntSizeInU32` -/
def bigIntSizeInU32 (n : Nat) : Nat := (n + 31) / 32 + 2

/-- `TEE_BigIntNumberOfBits` -/
def bigIntNumberOfBits : Nat := 2048

/-- the words of a big integer -/
def bigIntWords : Nat := bigIntSizeInU32 bigIntNumberOfBits

abbrev WordMemory := Nat → BigWord

def wordsAt (m : WordMemory) (p k : Nat) : List BigWord := (List.range k).map fun i => m (p + i)

/-- the number in the `k` words at a pointer -/
def numberAt (m : WordMemory) (p k : Nat) : Nat := value (wordsAt m p k)

/-- the loop of `TEE_BigIntAdd` and `TEE_BigIntSub` over the words below `i`, from the last one on:
each word of the destination and the next carry are made from the two words and the carry -/
def wordLoop (word carry : BigWord → BigWord → BigWord → BigWord) (dest op1 op2 : Nat) :
    Nat → BigWord → WordMemory → WordMemory
  | 0, _, m => m
  | i + 1, c, m =>
    wordLoop word carry dest op1 op2 i (carry (m (op1 + i)) (m (op2 + i)) c)
      (update m (dest + i) (word (m (op1 + i)) (m (op2 + i)) c))

/-- the test for the next carry in `TEE_BigIntAdd`; `addWord` is the sum -/
def addCarry (x y c : BigWord) : BigWord :=
  let sum := addWord x y c
  if sum < x ∨ sum < y then 1 else 0

/-- the test for the next carry in `TEE_BigIntSub`; `subWord` is the difference -/
def subCarry (x y c : BigWord) : BigWord :=
  let diff := subWord x y c
  if x < diff then 1 else 0

def teeBigIntAdd (m : WordMemory) (dest op1 op2 : Nat) : WordMemory :=
  wordLoop addWord addCarry dest op1 op2 bigIntWords 0 m

def teeBigIntSub (m : WordMemory) (dest op1 op2 : Nat) : WordMemory :=
  wordLoop subWord subCarry dest op1 op2 bigIntWords 0 m

section wordsAt
variable {m m' : WordMemory} {p q k i : Nat}

@[simp] theorem length_wordsAt : (wordsAt m p k).length = k := by simp [wordsAt]

theorem wordsAt_succ : wordsAt m p (k + 1) = wordsAt m p k ++ [m (p + k)] := by
  rw [wordsAt, List.range_succ, List.map_append]
  rfl

theorem wordsAt_cons : wordsAt m p (k + 1) = m p :: wordsAt m (p + 1) k := by
  rw [wordsAt, List.range_succ_eq_map, List.map_cons, List.map_map, wordsAt]
  congr 1
  apply List.map_congr_left
  intro i _
  exact congrArg m (Nat.succ_add_eq_add_succ p i).symm

theorem drop_wordsAt : (wordsAt m p k).drop i = wordsAt m (p + i) (k - i) := by
  induction i generalizing p k with
  | zero => rfl
  | succ i ih =>
    cases k with
    | zero => simp [wordsAt]
    | succ k =>
      rw [wordsAt_cons, List.drop_succ_cons, ih, Nat.add_sub_add_right]
      congr 1
      omega

theorem wordsAt_congr (h : ∀ i < k, m (p + i) = m' (p + i)) : wordsAt m p k = wordsAt m' p k :=
  List.map_congr_left fun i hi => h i (List.mem_range.mp hi)

theorem map_fst_zip_wordsAt : ((wordsAt m p k).zip (wordsAt m q k)).map Prod.fst = wordsAt m p k :=
  List.map_fst_zip (by simp)

theorem map_snd_zip_wordsAt : ((wordsAt m p k).zip (wordsAt m q k)).map Prod.snd = wordsAt m q k :=
  List.map_snd_zip (by simp)

theorem zip_wordsAt_succ : (wordsAt m p (k + 1)).zip (wordsAt m q (k + 1)) =
    (wordsAt m p k).zip (wordsAt m q k) ++ [(m (p + k), m (q + k))] := by
  rw [wordsAt_succ, wordsAt_succ, List.zip_append (by simp)]
  rfl

end wordsAt

section loop
variable {word carry : BigWord → BigWord → BigWord → BigWord} {dest op1 op2 p i : Nat}
  {c : BigWord} {m : WordMemory}

theorem wordLoop_outside (h : p < dest ∨ dest + i ≤ p) :
    wordLoop word carry dest op1 op2 i c m p = m p := by
  induction i generalizing c m with
  | zero => rfl
  | succ i ih => rw [wordLoop, ih (by omega), update_of_ne (by omega)]

theorem wordsAt_update (op k : Nat) (w : BigWord) (h : op ≤ dest ∨ dest + (k + 1) ≤ op) :
    wordsAt (update m (dest + k) w) op k = wordsAt m op k := by
  apply wordsAt_congr
  intro i hi
  rw [update_of_ne (by omega)]

theorem wordsAt_wordLoop (h1 : op1 ≤ dest ∨ dest + i ≤ op1) (h2 : op2 ≤ dest ∨ dest + i ≤ op2) :
    wordsAt (wordLoop word carry dest op1 op2 i c m) dest i =
      (ripple word carry c ((wordsAt m op1 i).zip (wordsAt m op2 i))).1 := by
  induction i generalizing c m with
  | zero => rfl
  | succ i ih =>
    rw [zip_wordsAt_succ, ripple_concat, wordLoop, wordsAt_succ, ih (by omega) (by omega),
      wordsAt_update op1 i _ h1, wordsAt_update op2 i _ h2, wordLoop_outside (by omega),
      update_self]

end loop

section carries
variable {x y c : BigWord}

theorem toNat_addWord (x y c : BigWord) :
    (addWord x y c).toNat = (x.toNat + y.toNat + c.toNat) % 2 ^ 32 := by
  rw [addWord, BitVec.toNat_add, BitVec.toNat_add, Nat.mod_add_mod]

theorem eq_allOnes_iff (x : BigWord) : x = BitVec.allOnes 32 ↔ x.toNat = 2 ^ 32 - 1 := by
  rw [← BitVec.toNat_inj, BitVec.toNat_allOnes]

theorem toNat_ite_one (p : Prop) [Decidable p] :
    (if p then (1 : BigWord) else 0).toNat = if p then 1 else 0 := by
  split <;> rfl

theorem addCarry_eq_iff (hc : c.toNat ≤ 1) : addCarry x y c = addOut x y c ↔
    ¬ (x = BitVec.allOnes 32 ∧ y = BitVec.allOnes 32 ∧ c.toNat = 1) := by
  have hx := x.isLt
  have hy := y.isLt
  rw [eq_allOnes_iff, eq_allOnes_iff, ← BitVec.toNat_inj, toNat_addOut (by omega), addCarry,
    toNat_ite_one]
  simp only [BitVec.lt_def, toNat_addWord]
  by_cases h : 2 ^ 32 ≤ x.toNat + y.toNat + c.toNat
  · rw [Nat.mod_eq_sub_mod h, Nat.mod_eq_of_lt (by omega), if_pos h]
    split <;> omega
  · rw [Nat.mod_eq_of_lt (by omega), if_neg h]
    split <;> omega

theorem subCarry_eq_iff (hc : c.toNat ≤ 1) : subCarry x y c = subOut x y c ↔
    ¬ (y = BitVec.allOnes 32 ∧ c.toNat = 1) := by
  have hx := x.isLt
  have hy := y.isLt
  have hd := (subWord x y c).isLt
  have h := subWord_value (by omega) x y hc
  rw [toNat_subOut (by omega)] at h
  rw [eq_allOnes_iff, ← BitVec.toNat_inj, toNat_subOut (by omega), subCarry, toNat_ite_one]
  simp only [BitVec.lt_def]
  by_cases hb : x.toNat < y.toNat + c.toNat
  · rw [if_pos hb] at h ⊢
    split <;> omega
  · rw [if_neg hb] at h ⊢
    split <;> omega

end carries

/-- at word `i` the sum loses a carry: both words are all ones and one is carried in -/
def LosesCarry (m : WordMemory) (op1 op2 i : Nat) : Prop :=
  m (op1 + i) = BitVec.allOnes 32 ∧ m (op2 + i) = BitVec.allOnes 32 ∧
    (2 ^ 32) ^ (bigIntWords - (i + 1)) ≤
      numberAt m (op1 + (i + 1)) (bigIntWords - (i + 1)) +
        numberAt m (op2 + (i + 1)) (bigIntWords - (i + 1))

/-- at word `i` the difference loses a borrow: the subtrahend is all ones and one is borrowed -/
def LosesBorrow (m : WordMemory) (op1 op2 i : Nat) : Prop :=
  m (op2 + i) = BitVec.allOnes 32 ∧
    numberAt m (op1 + (i + 1)) (bigIntWords - (i + 1)) <
      numberAt m (op2 + (i + 1)) (bigIntWords - (i + 1))

section words
variable {word carry carry' : BigWord → BigWord → BigWord → BigWord} {m : WordMemory}
  {dest op1 op2 : Nat}

def pairsAt (m : WordMemory) (op1 op2 k : Nat) : List (BigWord × BigWord) :=
  (wordsAt m op1 k).zip (wordsAt m op2 k)

@[simp] theorem length_pairsAt (m : WordMemory) (op1 op2 k : Nat) :
    (pairsAt m op1 op2 k).length = k := by
  simp [pairsAt]

theorem number_eq_iff (hword : ∀ x y, Injective (word x y))
    (h1 : op1 ≤ dest ∨ dest + bigIntWords ≤ op1) (h2 : op2 ≤ dest ∨ dest + bigIntWords ≤ op2) :
    numberAt (wordLoop word carry dest op1 op2 bigIntWords 0 m) dest bigIntWords =
        value (ripple word carry' 0 (pairsAt m op1 op2 bigIntWords)).1 ↔
      ∀ i, 1 ≤ i → i < bigIntWords →
        carry (m (op1 + i)) (m (op2 + i)) (ripple word carry' 0
            (pairsAt m (op1 + (i + 1)) (op2 + (i + 1)) (bigIntWords - (i + 1)))).2 =
          carry' (m (op1 + i)) (m (op2 + i)) (ripple word carry' 0
            (pairsAt m (op1 + (i + 1)) (op2 + (i + 1)) (bigIntWords - (i + 1)))).2 := by
  have hvalue (l l' : List BigWord) (hl : l.length = l'.length) : value l = value l' ↔ l = l' :=
    ⟨value_inj hl, congrArg value⟩
  have hget (i : Nat) (h : i < (pairsAt m op1 op2 bigIntWords).length) :
      (pairsAt m op1 op2 bigIntWords)[i] = (m (op1 + i), m (op2 + i)) := by
    simp only [pairsAt, List.getElem_zip, wordsAt, List.getElem_map, List.getElem_range]
  have hdrop (i : Nat) : (pairsAt m op1 op2 bigIntWords).drop i =
      pairsAt m (op1 + i) (op2 + i) (bigIntWords - i) := by
    rw [pairsAt, List.zip, List.drop_zipWith, drop_wordsAt, drop_wordsAt, ← List.zip, ← pairsAt]
  rw [numberAt, wordsAt_wordLoop h1 h2, ← pairsAt,
    hvalue _ _ (length_ripple.trans length_ripple.symm), ripple_words_eq_iff hword]
  constructor
  · intro h i hi hn
    have h' := h i hi (by rw [length_pairsAt]; exact hn)
    rw [hget, hdrop] at h'
    exact h'
  · intro h i hi hn
    rw [length_pairsAt] at hn
    rw [hget, hdrop]
    exact h i hi hn

end words

/-- **Sums and differences of big integers** are right, also in place, exactly if no word behind
the first loses its carry or borrow. -/
theorem teeBigIntAdd_teeBigIntSub_iff (m : WordMemory) (dest op1 op2 : Nat)
    (h1 : op1 ≤ dest ∨ dest + bigIntWords ≤ op1) (h2 : op2 ≤ dest ∨ dest + bigIntWords ≤ op2) :
    (numberAt (teeBigIntAdd m dest op1 op2) dest bigIntWords =
        (numberAt m op1 bigIntWords + numberAt m op2 bigIntWords) % 2 ^ (32 * bigIntWords) ↔
      ∀ i, 1 ≤ i → i < bigIntWords → ¬ LosesCarry m op1 op2 i) ∧
    ((numberAt (teeBigIntSub m dest op1 op2) dest bigIntWords : Int) =
        ((numberAt m op1 bigIntWords : Int) - numberAt m op2 bigIntWords) %
          2 ^ (32 * bigIntWords) ↔
      ∀ i, 1 ≤ i → i < bigIntWords → ¬ LosesBorrow m op1 op2 i) := by
  have hfst (p q k : Nat) : value ((pairsAt m p q k).map Prod.fst) = numberAt m p k :=
    congrArg value map_fst_zip_wordsAt
  have hsnd (p q k : Nat) : value ((pairsAt m p q k).map Prod.snd) = numberAt m q k :=
    congrArg value map_snd_zip_wordsAt
  constructor
  · have hw := add_words (b := 32) (by omega) (pairsAt m op1 op2 bigIntWords)
    rw [hfst, hsnd, length_pairsAt, ← Nat.pow_mul] at hw
    rw [← hw, teeBigIntAdd, number_eq_iff addWord_injective h1 h2]
    refine forall_congr' fun i => forall_congr' fun _ => forall_congr' fun _ => ?_
    rw [addCarry_eq_iff (add_value (by omega) _).1, addOut_eq (by omega), hfst, hsnd,
      length_pairsAt]
    rfl
  · have hw := sub_words (b := 32) (by omega) (pairsAt m op1 op2 bigIntWords)
    rw [hfst, hsnd, length_pairsAt, ← Nat.pow_mul, Nat.cast_pow] at hw
    rw [Nat.cast_ofNat] at hw
    rw [← hw, Nat.cast_inj, teeBigIntSub, number_eq_iff subWord_injective h1 h2]
    refine forall_congr' fun i => forall_congr' fun _ => forall_congr' fun _ => ?_
    rw [subCarry_eq_iff (sub_value (by omega) _).1, subOut_eq (by omega), hfst, hsnd]
    rfl

/-- two words of all ones at 0, and `2 ^ 64 - 2 ^ 32 + 1` behind it -/
def fullWords (i : Nat) : BigWord :=
  if i = 64 ∨ i = 65 ∨ i = 66 + 64 then BitVec.allOnes 32 else if i = 66 + 65 then 1 else 0

theorem teeBigIntAdd_teeBigIntSub_fullWords :
    (numberAt (teeBigIntAdd fullWords 0 0 66) 0 bigIntWords =
        (numberAt fullWords 0 bigIntWords + numberAt fullWords 66 bigIntWords) %
          2 ^ (32 * bigIntWords) ↔
      ∀ i, 1 ≤ i → i < bigIntWords → ¬ LosesCarry fullWords 0 66 i) ∧
    ((numberAt (teeBigIntSub fullWords 0 0 66) 0 bigIntWords : Int) =
        ((numberAt fullWords 0 bigIntWords : Int) - numberAt fullWords 66 bigIntWords) %
          2 ^ (32 * bigIntWords) ↔
      ∀ i, 1 ≤ i → i < bigIntWords → ¬ LosesBorrow fullWords 0 66 i) :=
  teeBigIntAdd_teeBigIntSub_iff fullWords 0 0 66 (by decide) (by decide)

/-- the carry out of word 64 is lost, and so is the borrow when a number is taken from zero -/
theorem fullWords_wrong :
    numberAt (teeBigIntAdd fullWords 0 0 66) 0 bigIntWords ≠
        (numberAt fullWords 0 bigIntWords + numberAt fullWords 66 bigIntWords) %
          2 ^ (32 * bigIntWords) ∧
      (numberAt (teeBigIntSub fullWords 132 132 66) 132 bigIntWords : Int) ≠
        ((numberAt fullWords 132 bigIntWords : Int) - numberAt fullWords 66 bigIntWords) %
          2 ^ (32 * bigIntWords) := by
  have hadd : numberAt (teeBigIntAdd fullWords 0 0 66) 0 bigIntWords = 2 ^ 64 - 2 ^ 32 := by
    decide +kernel
  have hsub : numberAt (teeBigIntSub fullWords 132 132 66) 132 bigIntWords = 2 ^ 32 - 1 := by
    decide +kernel
  have h0 : numberAt fullWords 0 bigIntWords = 2 ^ 64 - 1 := by decide +kernel
  have h1 : numberAt fullWords 66 bigIntWords = 2 ^ 64 - 2 ^ 32 + 1 := by decide +kernel
  have h2 : numberAt fullWords 132 bigIntWords = 0 := by decide +kernel
  rw [hadd, hsub, h0, h1, h2]
  decide +kernel

end SierraTee
