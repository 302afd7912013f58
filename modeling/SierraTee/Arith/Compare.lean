import SierraTee.Arith.BigInt

/-!
# Comparing big integers (`otz_tee_arith_api.c`)

* `bigIntCmp_sign_iff`     `TEE_BigIntCmp` is wrong by the parity of the first word;
* `bigIntCmpS32_sign_iff`  `TEE_BigIntCmpS32` compares the last word last, whatever is in front.
-/

namespace SierraTee

open BigEndian

/-- `TEE_BigIntConvertFromS32` -/
def bigIntConvertFromS32 (shortVal : BigWord) : BigInt :=
  BigInt.zero.setWord (bigIntWords - 1) shortVal

/-- the loop of `TEE_BigIntCmpS32`, which does not stop -/
def cmpS32Loop : List BigWord → Int → Int
  | [], retVal => retVal
  | x :: l, retVal => cmpS32Loop l (if x ≠ 0 then 1 else retVal)

/-- `TEE_BigIntCmpS32`; the loop ends with `i` at its bound, and `++i` skips a word -/
def bigIntCmpS32 (op1 : BigInt) (shortVal : BigWord) : Int :=
  let bound := bigIntWords - 1 - 4 / 4
  let retVal := cmpS32Loop (op1.words.take bound) 0
  let i := bound + 1
  let retVal := if op1.word i < shortVal then -1 else retVal
  if shortVal < op1.word i then 1 else retVal

/-! ## `TEE_BigIntCmp` -/

def signOf (x y : Nat) : Int := Int.sign ((x : Int) - y)

section
variable {x y : Nat}

theorem signOf_of_lt (h : x < y) : signOf x y = -1 := Int.sign_eq_neg_one_of_neg (by omega)

theorem signOf_of_gt (h : y < x) : signOf x y = 1 := Int.sign_eq_one_of_pos (by omega)

@[simp] theorem signOf_self (x : Nat) : signOf x x = 0 := by
  rw [signOf, Int.sub_self, Int.sign_zero]

end

theorem wordsCmp_eq {a b : List BigWord} (h : a.length = b.length) :
    wordsCmp a b = signOf (value a) (value b) := by
  induction a generalizing b with
  | nil =>
    rw [List.length_eq_zero_iff.mp h.symm, signOf_self]
    rfl
  | cons x a ih =>
    cases b with
    | nil => exact absurd h (Nat.succ_ne_zero _)
    | cons y b =>
      have hl : a.length = b.length := Nat.succ.inj h
      rw [wordsCmp]
      simp only [BitVec.lt_def]
      rcases Nat.lt_trichotomy x.toNat y.toNat with hlt | heq | hgt
      · rw [if_pos hlt, signOf_of_lt (value_cons_lt_cons hl hlt)]
      · rw [if_neg (by omega), if_neg (by omega), ih hl, value_cons, value_cons, hl, heq, signOf,
          signOf]
        congr 1
        omega
      · rw [if_neg (by omega), if_pos hgt, signOf_of_gt (value_cons_lt_cons hl.symm hgt)]

theorem word_zero_eq_iff (a b : BigInt) :
    a.word 0 = b.word 0 ↔ firstWord a.number = firstWord b.number := by
  rw [← toNat_word_zero, ← toNat_word_zero, BitVec.toNat_inj]

theorem word_zero_and_one (a : BigInt) : a.word 0 &&& 1 = 0 ↔ firstWord a.number % 2 = 0 := by
  rw [← toNat_word_zero, ← BitVec.toNat_inj, BitVec.toNat_and]
  exact Nat.and_one_is_mod _ ▸ Iff.rfl

theorem bigIntCmp_eq (a b : BigInt) : bigIntCmp a b =
    if firstWord a.number = firstWord b.number then signOf a.number b.number
    else if firstWord a.number % 2 = 1 then -1 else 1 := by
  have hcmp := wordsCmp_eq (a.length_words.trans b.length_words.symm)
  change (if a.word 0 = b.word 0 then wordsCmp a.words b.words
      else if a.word 0 &&& 1 ≠ 0 then -1 else 1) = _
  rw [hcmp]
  refine if_congr (word_zero_eq_iff a b) rfl (if_congr ?_ rfl rfl)
  rw [Ne, word_zero_and_one]
  omega

theorem firstWord_lt_of_ne (hne : firstWord x ≠ firstWord y) :
    x < y ↔ firstWord x < firstWord y := by
  have hmono (u v : Nat) (huv : u ≤ v) : firstWord u ≤ firstWord v := Nat.div_le_div_right huv
  constructor
  · intro h
    exact lt_of_le_of_ne (hmono x y (Nat.le_of_lt h)) hne
  · intro h
    by_contra hc
    have := hmono y x (Nat.le_of_not_lt hc)
    omega

theorem bigIntCmp_sign_iff (a b : BigInt) : bigIntCmp a b = signOf a.number b.number ↔
    firstWord a.number = firstWord b.number ∨
      (firstWord a.number % 2 = 1 ↔ a.number < b.number) := by
  rw [bigIntCmp_eq]
  by_cases heq : firstWord a.number = firstWord b.number
  · rw [if_pos heq]
    exact iff_of_true rfl (Or.inl heq)
  · have hne : a.number ≠ b.number := fun h => heq (congrArg firstWord h)
    rw [if_neg heq, or_iff_right heq]
    rcases Nat.lt_or_gt_of_ne hne with hlt | hgt
    · rw [signOf_of_lt hlt]
      split_ifs with hodd
      · exact iff_of_true rfl (iff_of_true hodd hlt)
      · exact iff_of_false (by decide) fun h => hodd (h.2 hlt)
    · rw [signOf_of_gt hgt]
      split_ifs with hodd
      · exact iff_of_false (by decide) fun h => absurd (h.1 hodd) (Nat.not_lt_of_gt hgt)
      · exact iff_of_true rfl (iff_of_false hodd (Nat.not_lt_of_gt hgt))

/-! ## `TEE_BigIntCmpS32` -/

theorem number_convertFromS32 (s : BigWord) : (bigIntConvertFromS32 s).number = s.toNat := by
  rw [bigIntConvertFromS32, number_setWord_zero s (by decide), Nat.sub_self, Nat.pow_zero,
    Nat.mul_one]

theorem cmpS32Loop_eq (l : List BigWord) (retVal : Int) :
    cmpS32Loop l retVal = if value l = 0 then retVal else 1 := by
  induction l generalizing retVal with
  | nil => rfl
  | cons x l ih =>
    have hpow : 0 < (2 ^ 32) ^ l.length := Nat.pow_pos (Nat.two_pow_pos 32)
    have hx : x = 0 ↔ x.toNat = 0 := by
      rw [← BitVec.toNat_inj]
      rfl
    rw [cmpS32Loop, ih, value_cons]
    by_cases h0 : x.toNat = 0
    · rw [if_neg (not_not.2 (hx.2 h0)), h0, Nat.zero_mul, Nat.zero_add]
    · have hpos : 0 < x.toNat * (2 ^ 32) ^ l.length := Nat.mul_pos (Nat.pos_of_ne_zero h0) hpow
      rw [if_pos (mt hx.1 h0), ite_self, if_neg (by omega)]

theorem toNat_lastWord (a : BigInt) : (a.word (bigIntWords - 1)).toNat = a.number % 2 ^ 32 := by
  have hn : bigIntWords - 1 < a.words.length := by
    rw [a.length_words]
    decide
  have h := toNat_getElem a.words (bigIntWords - 1) hn
  rw [a.length_words, Nat.sub_add_cancel (by decide), Nat.sub_self, Nat.pow_zero, Nat.div_one] at h
  rw [BigInt.word, List.getD_eq_getElem?_getD, List.getElem?_eq_getElem hn, Option.getD_some, h]
  rfl

theorem bigIntCmpS32_eq (a : BigInt) (s : BigWord) : bigIntCmpS32 a s =
    if s.toNat < a.number % 2 ^ 32 then 1
    else if a.number % 2 ^ 32 < s.toNat then -1
    else if a.number / 2 ^ 64 = 0 then 0 else 1 := by
  have hfront : value (a.words.take (bigIntWords - 2)) = a.number / 2 ^ 64 := by
    rw [value_take, a.length_words, Nat.sub_sub_self (by decide), ← Nat.pow_mul]
    rfl
  change (if s < a.word (bigIntWords - 1) then 1
    else if a.word (bigIntWords - 1) < s then -1
    else cmpS32Loop (a.words.take (bigIntWords - 2)) 0) = _
  rw [cmpS32Loop_eq, hfront]
  simp only [BitVec.lt_def, toNat_lastWord]

theorem bigIntCmpS32_sign_iff (a : BigInt) (s : BigWord) :
    bigIntCmpS32 a s = signOf a.number s.toNat ↔
      a.number < 2 ^ 32 ∨ s.toNat < a.number % 2 ^ 32 ∨
        (s.toNat = a.number % 2 ^ 32 ∧ 2 ^ 64 ≤ a.number) := by
  have hs := s.isLt
  rw [bigIntCmpS32_eq]
  by_cases hsmall : a.number < 2 ^ 32
  · refine iff_of_true ?_ (Or.inl hsmall)
    rw [Nat.mod_eq_of_lt hsmall]
    rcases Nat.lt_trichotomy s.toNat a.number with hlt | heq | hgt
    · rw [if_pos hlt, signOf_of_gt hlt]
    · rw [if_neg (by omega), if_neg (by omega), if_pos (by omega), heq, signOf_self]
    · rw [if_neg (by omega), if_pos hgt, signOf_of_lt hgt]
  · rw [signOf_of_gt (by omega), or_iff_right hsmall]
    rcases Nat.lt_trichotomy s.toNat (a.number % 2 ^ 32) with hlt | heq | hgt
    · rw [if_pos hlt]
      exact iff_of_true rfl (Or.inl hlt)
    · rw [if_neg (by omega), if_neg (by omega)]
      split_ifs with h0
      · exact iff_of_false (by decide) (by omega)
      · exact iff_of_true rfl (by omega)
    · rw [if_neg (by omega), if_pos hgt]
      exact iff_of_false (by decide) (by omega)

/-- **Both comparisons**, for numbers without a sign: `TEE_BigIntCmp` gives the sign of the
difference exactly if the first words are equal or their parity fits; `TEE_BigIntCmpS32` does, and
agrees with `TEE_BigIntCmp`, exactly if the words in front of the last one do not matter and the
first word is even. -/
theorem bigIntCmp_bigIntCmpS32_iff (a b : BigInt) (s : BigWord) :
    (bigIntCmp a b = Int.sign ((a.number : Int) - b.number) ↔
      firstWord a.number = firstWord b.number ∨
        (firstWord a.number % 2 = 1 ↔ a.number < b.number)) ∧
    (bigIntCmpS32 a s = Int.sign ((a.number : Int) - s.toNat) ∧
        bigIntCmpS32 a s = bigIntCmp a (bigIntConvertFromS32 s) ↔
      (a.number < 2 ^ 32 ∨ s.toNat < a.number % 2 ^ 32 ∨
        (s.toNat = a.number % 2 ^ 32 ∧ 2 ^ 64 ≤ a.number)) ∧ firstWord a.number % 2 = 0) := by
  refine ⟨bigIntCmp_sign_iff a b, ?_⟩
  have hfirst : firstWord s.toNat = 0 := by
    have hs := s.isLt
    refine Nat.div_eq_of_lt (hs.trans_le ?_)
    rw [← Nat.pow_mul]
    exact Nat.pow_le_pow_right (by omega) (by decide)
  have hcmp := bigIntCmp_sign_iff a (bigIntConvertFromS32 s)
  rw [number_convertFromS32, hfirst] at hcmp
  have hfit : firstWord a.number = 0 ∨ (firstWord a.number % 2 = 1 ↔ a.number < s.toNat) ↔
      firstWord a.number % 2 = 0 := by
    by_cases h0 : firstWord a.number = 0
    · refine iff_of_true (Or.inl h0) ?_
      rw [h0]
    · have hlt := (firstWord_lt_of_ne (x := a.number) (y := s.toNat) (by rw [hfirst]; exact h0)).not
      rw [hfirst] at hlt
      rw [or_iff_right h0, iff_false_right (hlt.2 (Nat.not_lt_zero _))]
      omega
  rw [← bigIntCmpS32_sign_iff, ← hfit, ← hcmp]
  refine and_congr_right fun hs32 => ?_
  rw [hs32]
  exact eq_comm

/-- a first word of one compares as less than zero, and a word in front of the last is skipped -/
theorem bigIntCmp_bigIntCmpS32_can_fail :
    bigIntCmp (BigInt.zero.setWord 0 1) BigInt.zero ≠
        Int.sign (((BigInt.zero.setWord 0 1).number : Int) - BigInt.zero.number) ∧
      bigIntCmpS32 (BigInt.zero.setWord 64 1) 0 ≠
        Int.sign (((BigInt.zero.setWord 64 1).number : Int) - (0 : BigWord).toNat) := by
  rw [number_setWord_zero _ (by decide), number_setWord_zero _ (by decide)]
  decide +kernel

end SierraTee
