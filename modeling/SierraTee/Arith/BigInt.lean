import SierraTee.Arith.Sums

/-!
# Big integers as objects (`otz_tee_arith_api.c`)

* `bigIntAdd`, `bigIntSub`  what `TEE_BigIntAdd` and `TEE_BigIntSub` leave in the destination.
-/

namespace SierraTee

open BigEndian

/-- the contents of a big integer -/
@[ext] structure BigInt where
  words : List BigWord
  length_words : words.length = bigIntWords

namespace BigInt

/-- the number of a big integer -/
def number (a : BigInt) : Nat := value a.words

def word (a : BigInt) (i : Nat) : BigWord := a.words.getD i 0

def zero : BigInt := ⟨List.replicate bigIntWords 0, List.length_replicate⟩

/-- a big integer after its word at index `i` is assigned -/
def setWord (a : BigInt) (i : Nat) (w : BigWord) : BigInt :=
  ⟨a.words.set i w, by rw [List.length_set, a.length_words]⟩

theorem number_lt (a : BigInt) : a.number < 2 ^ (32 * bigIntWords) := by
  have h := value_lt a.words
  rw [a.length_words, ← Nat.pow_mul] at h
  exact h

@[simp] theorem number_zero : zero.number = 0 := value_replicate_zero _

end BigInt

/-! ## sums and differences -/

/-- the destination of `TEE_BigIntAdd` -/
def bigIntAdd (a b : BigInt) : BigInt :=
  ⟨(ripple addWord addCarry 0 (a.words.zip b.words)).1, by
    simp [length_ripple, a.length_words, b.length_words]⟩

/-- the destination of `TEE_BigIntSub` -/
def bigIntSub (a b : BigInt) : BigInt :=
  ⟨(ripple subWord subCarry 0 (a.words.zip b.words)).1, by
    simp [length_ripple, a.length_words, b.length_words]⟩

theorem words_bigIntAdd (a b : BigInt) :
    (bigIntAdd a b).words = (ripple addWord addCarry 0 (a.words.zip b.words)).1 := rfl

theorem words_bigIntSub (a b : BigInt) :
    (bigIntSub a b).words = (ripple subWord subCarry 0 (a.words.zip b.words)).1 := rfl

section sums
variable {a b : BigInt}

theorem length_zip_words (a b : BigInt) : (a.words.zip b.words).length = bigIntWords := by
  simp [a.length_words, b.length_words]

theorem map_fst_zip_words (a b : BigInt) : (a.words.zip b.words).map Prod.fst = a.words :=
  List.map_fst_zip (by rw [a.length_words, b.length_words])

theorem map_snd_zip_words (a b : BigInt) : (a.words.zip b.words).map Prod.snd = b.words :=
  List.map_snd_zip (by rw [a.length_words, b.length_words])

theorem number_bigIntAdd (hb : ∀ w ∈ b.words, w ≠ BitVec.allOnes 32) :
    (bigIntAdd a b).number = (a.number + b.number) % 2 ^ (32 * bigIntWords) := by
  have hagree : CarriesAgree addWord addCarry addOut 0 (a.words.zip b.words) := by
    rw [carriesAgree_iff_getElem]
    intro i hi
    rw [addCarry_eq_iff (add_value (by omega) _).1]
    rintro ⟨-, h, -⟩
    rw [List.getElem_zip] at h
    exact hb _ (List.getElem_mem _) h
  have hsum := add_words (b := 32) (by omega) (a.words.zip b.words)
  rw [map_fst_zip_words, map_snd_zip_words, length_zip_words, ← Nat.pow_mul] at hsum
  rw [BigInt.number, words_bigIntAdd, (ripple_eq_iff addWord_injective).mpr hagree, hsum]
  rfl

/-- at the word of weight `2 ^ (32 * j)` the difference of two numbers loses a borrow -/
def LosesBorrowAt (x y j : Nat) : Prop :=
  y / (2 ^ 32) ^ j % 2 ^ 32 = 2 ^ 32 - 1 ∧ x % (2 ^ 32) ^ j < y % (2 ^ 32) ^ j

instance (x y j : Nat) : Decidable (LosesBorrowAt x y j) := inferInstanceAs (Decidable (_ ∧ _))

theorem subCarry_agree_iff (i : Nat) (hi : i < (a.words.zip b.words).length) :
    subCarry (a.words.zip b.words)[i].1 (a.words.zip b.words)[i].2
        (ripple subWord subOut 0 ((a.words.zip b.words).drop (i + 1))).2 =
      subOut (a.words.zip b.words)[i].1 (a.words.zip b.words)[i].2
        (ripple subWord subOut 0 ((a.words.zip b.words).drop (i + 1))).2 ↔
      ¬ LosesBorrowAt a.number b.number (bigIntWords - (i + 1)) := by
  have hib : i < b.words.length := by
    rw [length_zip_words] at hi
    rw [b.length_words]
    exact hi
  rw [subCarry_eq_iff (sub_value (by omega) _).1, subOut_eq (by omega), LosesBorrowAt,
    eq_allOnes_iff, List.map_drop, List.map_drop, map_fst_zip_words, map_snd_zip_words,
    value_drop, value_drop, a.length_words, b.length_words, List.getElem_zip,
    toNat_getElem _ _ hib, b.length_words]
  rfl

/-- **A difference** is right exactly if no word behind the first loses its borrow. -/
theorem bigIntSub_eq_iff :
    (bigIntSub a b).words = (ripple subWord subOut 0 (a.words.zip b.words)).1 ↔
      ∀ j < bigIntWords - 1, ¬ LosesBorrowAt a.number b.number j := by
  rw [words_bigIntSub, ripple_words_eq_iff subWord_injective]
  constructor
  · intro h j hj
    have hl : bigIntWords - 1 - j < (a.words.zip b.words).length := by
      rw [length_zip_words]
      omega
    have h' := (subCarry_agree_iff _ hl).mp (h (bigIntWords - 1 - j) (by omega) hl)
    have e : bigIntWords - (bigIntWords - 1 - j + 1) = j := by omega
    rw [e] at h'
    exact h'
  · intro h i hi hl
    have hl' := hl
    rw [length_zip_words] at hl'
    exact (subCarry_agree_iff i hl).mpr (h _ (by omega))

theorem number_bigIntSub (h : ∀ j < bigIntWords - 1, ¬ LosesBorrowAt a.number b.number j)
    (hle : b.number ≤ a.number) : (bigIntSub a b).number = a.number - b.number := by
  have hsub := sub_words (b := 32) (by omega) (a.words.zip b.words)
  rw [map_fst_zip_words, map_snd_zip_words, length_zip_words, ← Nat.pow_mul,
    ← bigIntSub_eq_iff.mpr h] at hsub
  have hlt := a.number_lt
  have e : ((value a.words : Nat) : Int) - (value b.words : Nat) =
      ((a.number - b.number : Nat) : Int) := (Nat.cast_sub hle).symm
  rw [e, ← Int.natCast_mod, Nat.mod_eq_of_lt (by omega)] at hsub
  exact_mod_cast hsub

end sums

/-! ## comparing -/

def wordsCmp : List BigWord → List BigWord → Int
  | x :: a, y :: b => if x < y then -1 else if y < x then 1 else wordsCmp a b
  | _, _ => 0

/-- `TEE_BigIntCmp`; the mask is the value of a comparison -/
def bigIntCmp (a b : BigInt) : Int :=
  let mask : BigWord := if (1 : BigWord) <<< 31 ≠ 0 then 1 else 0
  if a.word 0 = b.word 0 then wordsCmp a.words b.words
  else if a.word 0 &&& mask ≠ 0 then -1
  else 1

/-- the first word of a number -/
def firstWord (x : Nat) : Nat := x / (2 ^ 32) ^ (bigIntWords - 1)

/-- `TEE_BigIntCmp` finds out which of two numbers is less: they have the same first word, or the
first word of the first one is even if it is the greater and odd if it is the lesser -/
def CmpRight (x y : Nat) : Prop := firstWord x = firstWord y ∨ (y ≤ x ↔ firstWord x % 2 = 0)

instance (x y : Nat) : Decidable (CmpRight x y) := inferInstanceAs (Decidable (_ ∨ _))

theorem value_cons_lt_cons {x y : BigWord} {a b : List BigWord} (h : a.length = b.length)
    (hxy : x.toNat < y.toNat) : value (x :: a) < value (y :: b) := by
  have ha := value_lt a
  have hstep : x.toNat * (2 ^ 32) ^ b.length + (2 ^ 32) ^ b.length
      ≤ y.toNat * (2 ^ 32) ^ b.length := by
    rw [← Nat.succ_mul]
    exact Nat.mul_le_mul_right _ hxy
  rw [h] at ha
  rw [value_cons, value_cons, h]
  omega

theorem wordsCmp_nonneg_iff {a b : List BigWord} (h : a.length = b.length) :
    0 ≤ wordsCmp a b ↔ value b ≤ value a := by
  induction a generalizing b with
  | nil =>
    rw [List.length_eq_zero_iff.mp h.symm]
    simp [wordsCmp]
  | cons x a ih =>
    cases b with
    | nil => exact absurd h (Nat.succ_ne_zero _)
    | cons y b =>
      have hl : a.length = b.length := Nat.succ.inj h
      rw [wordsCmp]
      by_cases hxy : x < y
      · have hlt := value_cons_lt_cons hl (BitVec.lt_def.mp hxy)
        rw [if_pos hxy]
        omega
      · by_cases hyx : y < x
        · have hlt := value_cons_lt_cons hl.symm (BitVec.lt_def.mp hyx)
          rw [if_neg hxy, if_pos hyx]
          omega
        · rw [BitVec.lt_def] at hxy hyx
          have e : x.toNat = y.toNat := by omega
          rw [if_neg (by rwa [BitVec.lt_def]), if_neg (by rwa [BitVec.lt_def]), ih hl, value_cons,
            value_cons, hl, e]
          omega

theorem toNat_word_zero (a : BigInt) : (a.word 0).toNat = firstWord a.number := by
  have hn : 0 < a.words.length := by
    rw [a.length_words]
    decide
  have h := toNat_getElem a.words 0 hn
  have hlt := a.number_lt
  rw [a.length_words] at h
  rw [BigInt.word, List.getD_eq_getElem?_getD, List.getElem?_eq_getElem hn, Option.getD_some, h,
    firstWord, BigInt.number]
  have hsucc : (bigIntWords - (0 + 1)).succ = bigIntWords := rfl
  apply Nat.mod_eq_of_lt
  rw [Nat.div_lt_iff_lt_mul (by positivity), ← Nat.pow_succ', hsucc, ← Nat.pow_mul]
  exact hlt

/-- **Comparing** is right exactly if the first words are equal or the parity fits. -/
theorem bigIntCmp_right_iff (a b : BigInt) :
    (0 ≤ bigIntCmp a b ↔ b.number ≤ a.number) ↔ CmpRight a.number b.number := by
  have hcmp := wordsCmp_nonneg_iff (a.length_words.trans b.length_words.symm)
  have hpar : a.word 0 &&& 1 = 0 ↔ firstWord a.number % 2 = 0 := by
    rw [← toNat_word_zero, ← BitVec.toNat_inj, BitVec.toNat_and]
    exact Nat.and_one_is_mod _ ▸ Iff.rfl
  have hword : a.word 0 = b.word 0 ↔ firstWord a.number = firstWord b.number := by
    rw [← toNat_word_zero, ← toNat_word_zero, BitVec.toNat_inj]
  have hmask : bigIntCmp a b = if a.word 0 = b.word 0 then wordsCmp a.words b.words
      else if a.word 0 &&& 1 ≠ 0 then -1 else 1 := rfl
  rw [hmask, CmpRight, ← hword, ← hpar]
  by_cases h : a.word 0 = b.word 0
  · rw [if_pos h, hcmp]
    exact ⟨fun _ => Or.inl h, fun _ => Iff.rfl⟩
  · rw [if_neg h]
    by_cases hp : a.word 0 &&& 1 = 0
    · have h1 : (0 : Int) ≤ 1 := by decide
      rw [if_neg (not_not.mpr hp)]
      tauto
    · have h1 : ¬ (0 : Int) ≤ -1 := by decide
      rw [if_pos hp]
      tauto

/-! ## the highest bit -/

/-- the inner loop of `MaxBitPos` over the bits below `j`, from the highest one on -/
def topBit (val : BigWord) : Nat → Option Nat
  | 0 => none
  | j + 1 => if val.getLsbD j then some j else topBit val j

def topBitOf : List BigWord → Nat
  | [] => 0
  | val :: l =>
    match topBit val 32 with
    | some j => l.length * 32 + j
    | none => topBitOf l

def maxBitPos (src : BigInt) : Nat := topBitOf src.words

theorem mod_two_pow_of_testBit {x n : Nat} {v : Bool} (h : x.testBit n = v) :
    x % 2 ^ (n + 1) = x % 2 ^ n + 2 ^ n * v.toNat := by
  rw [Nat.mod_pow_succ, ← h, Nat.toNat_testBit]

theorem topBit_none {val : BigWord} {n : Nat} (h : topBit val n = none) :
    val.toNat % 2 ^ n = 0 := by
  induction n with
  | zero => rw [Nat.pow_zero, Nat.mod_one]
  | succ n ih =>
    rw [topBit] at h
    split at h
    · cases h
    next hb =>
      have hb' : val.toNat.testBit n = false := by simpa [BitVec.getLsbD] using hb
      rw [mod_two_pow_of_testBit hb', ih h]
      rfl

theorem topBit_some {val : BigWord} {n j : Nat} (h : topBit val n = some j) :
    2 ^ j ≤ val.toNat % 2 ^ n ∧ val.toNat % 2 ^ n < 2 ^ (j + 1) := by
  induction n with
  | zero => cases h
  | succ n ih =>
    rw [topBit] at h
    split at h
    next hb =>
      obtain rfl : n = j := by simpa using h
      have hb' : val.toNat.testBit n = true := by simpa [BitVec.getLsbD] using hb
      have hlt := Nat.mod_lt val.toNat (Nat.two_pow_pos n)
      rw [mod_two_pow_of_testBit hb', Bool.toNat_true, Nat.pow_succ]
      omega
    next hb =>
      have hb' : val.toNat.testBit n = false := by simpa [BitVec.getLsbD] using hb
      rw [mod_two_pow_of_testBit hb']
      simpa using ih h

theorem topBitOf_eq (l : List BigWord) : topBitOf l = Nat.log2 (value l) := by
  induction l with
  | nil => rfl
  | cons val l ih =>
    have hval : val.toNat % 2 ^ 32 = val.toNat := Nat.mod_eq_of_lt val.isLt
    have hl := value_lt l
    rw [topBitOf, value_cons]
    cases ht : topBit val 32 with
    | none =>
      have h0 := topBit_none ht
      rw [hval] at h0
      rw [h0, Nat.zero_mul, Nat.zero_add]
      exact ih
    | some j =>
      obtain ⟨hlo, hhi⟩ := topBit_some ht
      rw [hval] at hlo hhi
      rw [← Nat.pow_mul] at hl ⊢
      have hpow : 2 ^ (l.length * 32 + j) = 2 ^ j * 2 ^ (32 * l.length) := by
        rw [← Nat.pow_add]
        congr 1
        omega
      have hne : val.toNat * 2 ^ (32 * l.length) + value l ≠ 0 := by
        have h1 := Nat.two_pow_pos j
        have h2 := Nat.mul_pos (Nat.lt_of_lt_of_le h1 hlo) (Nat.two_pow_pos (32 * l.length))
        omega
      symm
      rw [Nat.log2_eq_iff hne, Nat.pow_succ, hpow]
      constructor
      · exact (Nat.mul_le_mul_right _ hlo).trans (Nat.le_add_right _ _)
      · have h3 : (val.toNat + 1) * 2 ^ (32 * l.length) ≤ 2 ^ (j + 1) * 2 ^ (32 * l.length) :=
          Nat.mul_le_mul_right _ hhi
        rw [Nat.add_mul, Nat.one_mul, Nat.pow_succ, Nat.mul_right_comm] at h3
        omega

theorem maxBitPos_eq (src : BigInt) : maxBitPos src = Nat.log2 src.number := topBitOf_eq _

theorem log2_lt_bits (a : BigInt) : a.number.log2 < 32 * bigIntWords := by
  by_cases h : a.number = 0
  · rw [h]
    decide
  · exact (Nat.log2_lt h).mpr a.number_lt

/-! ## shifting, adding one, a single word -/

/-- the inner loop of `TEE_BigIntLeftShift`: the `j` highest bits of a word -/
def getBits (value : BigWord) : Nat → BigWord
  | 0 => 0
  | j + 1 => (getBits value j <<< 1) ||| ((value >>> (32 - j - 1)) &&& 1)

/-- the outer loop of `TEE_BigIntLeftShift` from the last word on, with `putBit` -/
def shiftWords (bits : Nat) : List BigWord → List BigWord × BigWord
  | [] => ([], 0)
  | value :: l =>
    let r := shiftWords bits l
    (((value <<< bits) ||| r.2) :: r.1, getBits value bits)

/-- the words after the copy of `TEE_BigIntLeftShift`, which it makes for 32 bits or more -/
def moveWords (words : List BigWord) (bits : Nat) : List BigWord :=
  if 32 ≤ bits then words.drop (bits / 32) ++ List.replicate (bits / 32) 0 else words

theorem length_shiftWords (bits : Nat) (l : List BigWord) :
    (shiftWords bits l).1.length = l.length := by
  induction l with
  | nil => rfl
  | cons value l ih => exact congrArg (· + 1) ih

theorem length_moveWords {words : List BigWord} {bits : Nat} (h : bits / 32 ≤ words.length) :
    (moveWords words bits).length = words.length := by
  unfold moveWords
  split
  · rw [List.length_append, List.length_drop, List.length_replicate]
    omega
  · rfl

/-- `TEE_BigIntLeftShift` with the destination as the source; behind the end of the object nothing
can be copied -/
def bigIntShift (src : BigInt) (bits : Nat) : Option BigInt :=
  if h : bits / 32 ≤ bigIntWords then
    some ⟨(shiftWords (bits % 32) (moveWords src.words bits)).1, by
      rw [length_shiftWords, length_moveWords, src.length_words]
      rw [src.length_words]
      exact h⟩
  else none

/-- the loop of `incrementBigInt` from the last word on, as long as there is a carry -/
def incrementWords : List BigWord → List BigWord × BigWord
  | [] => ([], 1)
  | x :: l =>
    let r := incrementWords l
    if r.2 = 1 then ((x + r.2) :: r.1, if x + r.2 < x then 1 else 0) else (x :: r.1, r.2)

theorem length_incrementWords (l : List BigWord) : (incrementWords l).1.length = l.length := by
  induction l with
  | nil => rfl
  | cons x l ih =>
    rw [incrementWords]
    split <;> exact congrArg (· + 1) ih

def incrementBigInt (dest : BigInt) : BigInt :=
  ⟨(incrementWords dest.words).1, by rw [length_incrementWords, dest.length_words]⟩

def powerLoop (x : BigWord) : Nat → BigWord → BigWord
  | 0, result => result
  | y + 1, result => powerLoop x y (result * x)

/-- `XPowerY`; a negative exponent is counted down through all of the integers -/
def xPowerY (x y : BigWord) : BigWord := powerLoop x y.toNat 1

section shift

theorem toNat_getBits (v : BigWord) {j : Nat} (hj : j ≤ 32) :
    (getBits v j).toNat = v.toNat / 2 ^ (32 - j) := by
  induction j with
  | zero => exact (Nat.div_eq_of_lt v.isLt).symm
  | succ j ih =>
    have hv := v.isLt
    have hlt : v.toNat / 2 ^ (32 - j) < 2 ^ j := by
      rw [Nat.div_lt_iff_lt_mul (Nat.two_pow_pos _), ← Nat.pow_add]
      exact hv.trans_le (Nat.pow_le_pow_right (by omega) (by omega))
    have hj' : 2 ^ j ≤ 2 ^ 31 := Nat.pow_le_pow_right (by omega) (by omega)
    have hbit : v.toNat / 2 ^ (32 - j - 1) % 2 < 2 ^ 1 := by omega
    have hstep : v.toNat / 2 ^ (32 - j) = v.toNat / 2 ^ (32 - j - 1) / 2 := by
      rw [Nat.div_div_eq_div_mul, ← Nat.pow_succ]
      congr 2
      omega
    rw [getBits, BitVec.toNat_or, BitVec.toNat_and, BitVec.toNat_shiftLeft,
      BitVec.toNat_ushiftRight, ih (by omega), Nat.shiftLeft_eq, Nat.shiftRight_eq_div_pow,
      Nat.mod_eq_of_lt (by omega)]
    have hone : v.toNat / 2 ^ (32 - j - 1) &&& (1 : BigWord).toNat =
        v.toNat / 2 ^ (32 - j - 1) % 2 := Nat.and_one_is_mod _
    rw [hone, Nat.mul_comm, ← Nat.two_pow_add_eq_or_of_lt hbit, hstep]
    have e : 32 - (j + 1) = 32 - j - 1 := by omega
    rw [e]
    omega

theorem toNat_shift_or (v p : BigWord) {bits : Nat} (hbits : bits ≤ 32)
    (hp : p.toNat < 2 ^ bits) :
    ((v <<< bits) ||| p).toNat + v.toNat / 2 ^ (32 - bits) * 2 ^ 32 =
      v.toNat * 2 ^ bits + p.toNat := by
  have hpow : 2 ^ 32 = 2 ^ bits * 2 ^ (32 - bits) := by
    rw [← Nat.pow_add]
    congr 1
    omega
  have hmod : v.toNat * 2 ^ bits % 2 ^ 32 = 2 ^ bits * (v.toNat % 2 ^ (32 - bits)) := by
    rw [Nat.mul_comm, hpow, Nat.mul_mod_mul_left]
  rw [BitVec.toNat_or, BitVec.toNat_shiftLeft, Nat.shiftLeft_eq, hmod,
    ← Nat.two_pow_add_eq_or_of_lt hp, hpow]
  have hdm := Nat.div_add_mod v.toNat (2 ^ (32 - bits))
  calc _ = 2 ^ bits * (2 ^ (32 - bits) * (v.toNat / 2 ^ (32 - bits)) +
          v.toNat % 2 ^ (32 - bits)) + p.toNat := by ring
    _ = _ := by rw [hdm, Nat.mul_comm]

theorem value_shiftWords {bits : Nat} (hbits : bits ≤ 32) (l : List BigWord) :
    (shiftWords bits l).2.toNat < 2 ^ bits ∧
      value (shiftWords bits l).1 + (shiftWords bits l).2.toNat * (2 ^ 32) ^ l.length =
        value l * 2 ^ bits := by
  induction l with
  | nil => exact ⟨Nat.two_pow_pos bits, by simp [shiftWords]⟩
  | cons v l ih =>
    obtain ⟨hlt, ih⟩ := ih
    have hw := toNat_shift_or v (shiftWords bits l).2 hbits hlt
    simp only [shiftWords, value_cons, List.length_cons, length_shiftWords]
    rw [toNat_getBits v hbits]
    constructor
    · rw [Nat.div_lt_iff_lt_mul (Nat.two_pow_pos _), ← Nat.pow_add]
      exact v.isLt.trans_le (Nat.pow_le_pow_right (by omega) (by omega))
    · generalize (shiftWords bits l).2 = p at hw ih ⊢
      calc _ = (((v <<< bits) ||| p).toNat + v.toNat / 2 ^ (32 - bits) * 2 ^ 32) *
              (2 ^ 32) ^ l.length + value (shiftWords bits l).1 := by ring
        _ = v.toNat * 2 ^ bits * (2 ^ 32) ^ l.length +
              (value (shiftWords bits l).1 + p.toNat * (2 ^ 32) ^ l.length) := by
            rw [hw]
            ring
        _ = _ := by
            rw [ih]
            ring

theorem value_moveWords {words : List BigWord} {bits : Nat} (h : bits / 32 ≤ words.length) :
    value (moveWords words bits) =
      value words * (2 ^ 32) ^ (bits / 32) % (2 ^ 32) ^ words.length := by
  have hlt := value_lt words
  unfold moveWords
  split
  · have hpow : (2 ^ 32) ^ words.length =
        (2 ^ 32) ^ (words.length - bits / 32) * (2 ^ 32) ^ (bits / 32) := by
      rw [← Nat.pow_add]
      congr 1
      omega
    rw [value_append, value_replicate_zero, List.length_replicate, value_drop, hpow,
      Nat.mul_mod_mul_right, Nat.add_zero]
  · have hz : bits / 32 = 0 := by omega
    rw [hz, Nat.pow_zero, Nat.mul_one, Nat.mod_eq_of_lt hlt]

/-- **Shifting** multiplies by a power of two and drops what does not fit. -/
theorem number_bigIntShift {src dest : BigInt} {bits : Nat} (h : bigIntShift src bits = some dest) :
    dest.number = src.number * 2 ^ bits % 2 ^ (32 * bigIntWords) := by
  unfold bigIntShift at h
  split at h
  next hk =>
    obtain rfl := Option.some.inj h
    have hk' : bits / 32 ≤ src.words.length := src.length_words ▸ hk
    have hbits : bits % 32 ≤ 32 := by omega
    obtain ⟨-, hs⟩ := value_shiftWords hbits (moveWords src.words bits)
    have hlt := value_lt (shiftWords (bits % 32) (moveWords src.words bits)).1
    rw [length_shiftWords] at hlt
    rw [length_moveWords hk', src.length_words] at hlt hs
    have hm := value_moveWords hk'
    rw [src.length_words] at hm
    have hbits : 2 ^ bits = (2 ^ 32) ^ (bits / 32) * 2 ^ (bits % 32) := by
      rw [← Nat.pow_mul, ← Nat.pow_add, Nat.div_add_mod]
    calc value (shiftWords (bits % 32) (moveWords src.words bits)).1
        = value (shiftWords (bits % 32) (moveWords src.words bits)).1 %
            (2 ^ 32) ^ bigIntWords := (Nat.mod_eq_of_lt hlt).symm
      _ = value (moveWords src.words bits) * 2 ^ (bits % 32) % (2 ^ 32) ^ bigIntWords := by
          rw [← hs, Nat.add_mul_mod_self_right]
      _ = src.number * 2 ^ bits % (2 ^ 32) ^ bigIntWords := by
          rw [hm, Nat.mod_mul_mod, Nat.mul_assoc, ← hbits]
          rfl
      _ = _ := by rw [← Nat.pow_mul]
  next => cases h

theorem bigIntShift_isSome_iff (src : BigInt) (bits : Nat) :
    (bigIntShift src bits).isSome ↔ bits / 32 ≤ bigIntWords := by
  unfold bigIntShift
  split
  next h => simp [h]
  next h => simp [h]

end shift

section increment

theorem value_incrementWords (l : List BigWord) :
    ((incrementWords l).2 = 0 ∨ (incrementWords l).2 = 1) ∧
      value (incrementWords l).1 + (incrementWords l).2.toNat * (2 ^ 32) ^ l.length =
        value l + 1 := by
  induction l with
  | nil => exact ⟨Or.inr rfl, rfl⟩
  | cons x l ih =>
    obtain ⟨hc, ih⟩ := ih
    have hx := x.isLt
    rw [incrementWords]
    by_cases h1 : (incrementWords l).2 = 1
    · rw [if_pos h1]
      rw [h1] at ih ⊢
      have hone : (1 : BigWord).toNat = 1 := rfl
      have hsum : (x + 1).toNat + (if x + 1 < x then (1 : BigWord) else 0).toNat * 2 ^ 32 =
          x.toNat + 1 := by
        rw [toNat_ite_one]
        simp only [BitVec.lt_def, BitVec.toNat_add, hone]
        split <;> omega
      rw [hone] at ih
      simp only [value_cons, List.length_cons, length_incrementWords]
      constructor
      · split
        · exact Or.inr rfl
        · exact Or.inl rfl
      · generalize (if x + 1 < x then (1 : BigWord) else 0) = c at hsum ⊢
        calc _ = ((x + 1).toNat + c.toNat * 2 ^ 32) * (2 ^ 32) ^ l.length +
              value (incrementWords l).1 := by ring
          _ = x.toNat * (2 ^ 32) ^ l.length +
              (value (incrementWords l).1 + 1 * (2 ^ 32) ^ l.length) := by
            rw [hsum]
            ring
          _ = _ := by
            rw [ih]
            ring
    · have h0 : (incrementWords l).2 = 0 := hc.resolve_right h1
      rw [if_neg h1]
      rw [h0] at ih ⊢
      refine ⟨Or.inl rfl, ?_⟩
      have hz : (0 : BigWord).toNat = 0 := rfl
      rw [hz] at ih ⊢
      simp only [value_cons, length_incrementWords]
      omega

theorem number_incrementBigInt (dest : BigInt) :
    (incrementBigInt dest).number = (dest.number + 1) % 2 ^ (32 * bigIntWords) := by
  obtain ⟨-, h⟩ := value_incrementWords dest.words
  have hlt := (incrementBigInt dest).number_lt
  rw [dest.length_words, ← Nat.pow_mul] at h
  calc (incrementBigInt dest).number
      = (incrementBigInt dest).number % 2 ^ (32 * bigIntWords) := (Nat.mod_eq_of_lt hlt).symm
    _ = (value dest.words + 1) % 2 ^ (32 * bigIntWords) := by
        rw [← h, Nat.add_mul_mod_self_right]
        rfl

end increment

section single

theorem powerLoop_eq (x : BigWord) (y : Nat) (result : BigWord) :
    powerLoop x y result = result * x ^ y := by
  induction y generalizing result with
  | zero => rw [powerLoop, pow_zero, mul_one]
  | succ y ih => rw [powerLoop, ih, pow_succ', mul_assoc]

theorem toNat_xPowerY {k : Nat} (hk : k < 32) :
    (xPowerY 2 (BitVec.ofNat 32 k)).toNat = 2 ^ k := by
  have h2 : (2 : BigWord) ^ k = BitVec.ofNat 32 (2 ^ k) := by
    have h : ((2 ^ k : Nat) : BigWord) = ((2 : Nat) : BigWord) ^ k := Nat.cast_pow 2 k
    exact h.symm
  have hk' : (BitVec.ofNat 32 k).toNat = k := by
    rw [BitVec.toNat_ofNat]
    omega
  rw [xPowerY, powerLoop_eq, one_mul, hk', h2, BitVec.toNat_ofNat]
  exact Nat.mod_eq_of_lt (Nat.pow_lt_pow_right (by omega) hk)

theorem value_set_replicate (n i : Nat) (w : BigWord) (hi : i < n) :
    value ((List.replicate n (0 : BigWord)).set i w) = w.toNat * (2 ^ 32) ^ (n - 1 - i) := by
  induction n generalizing i with
  | zero => omega
  | succ n ih =>
    rw [List.replicate_succ]
    cases i with
    | zero =>
      rw [List.set_cons_zero, value_cons, value_replicate_zero, List.length_replicate]
      rfl
    | succ i =>
      have e : n + 1 - 1 - (i + 1) = n - 1 - i := by omega
      rw [List.set_cons_succ, value_cons, ih i (by omega), e]
      simp

theorem number_setWord_zero {i : Nat} (w : BigWord) (hi : i < bigIntWords) :
    (BigInt.zero.setWord i w).number = w.toNat * (2 ^ 32) ^ (bigIntWords - 1 - i) :=
  value_set_replicate _ _ w hi

theorem mem_setWord_zero {i : Nat} {w w' : BigWord} (h : w' ∈ (BigInt.zero.setWord i w).words) :
    w' = w ∨ w' = 0 := by
  obtain h | h := List.mem_or_eq_of_mem_set h
  · exact Or.inr (List.eq_of_mem_replicate h)
  · exact Or.inl h

end single

end SierraTee
