import SierraTee.Arith.Carries
import Mathlib.Data.Nat.Bitwise

/-!
# The multiplication (`TEE_BigIntMult`)

One operand is doubled again and again in a temporary of twice the length, and added to the
destination for every bit of the other one.

* `multLoop_eq`           the loop on objects that are long enough;
* `potential_step`        what a turn can still add up to never grows, and shrinks with every lost
                          carry;
* `bigIntMult_right_iff`  the product is right exactly if no carry is lost.
-/

namespace SierraTee

open BigEndian

/-- the words of a product -/
def doubleWords : Nat := bigIntWords * 2

/-- `TEE_BigIntAddMult` -/
def bigIntAddMult (dest op1 op2 : List BigWord) : Option (List BigWord) :=
  if doubleWords ≤ dest.length ∧ doubleWords ≤ op1.length ∧ doubleWords ≤ op2.length then
    some ((sumWords ((op1.take doubleWords).zip (op2.take doubleWords))).1 ++ dest.drop doubleWords)
  else none

/-- `TEE_BigIntGetBit` -/
def bigIntGetBit (src : BigInt) (bitIndex : Nat) : Bool :=
  ((1 : BigWord) <<< (bitIndex % 32)) &&& src.word (bigIntWords - 1 - bitIndex / 32) != 0

structure MultObjects where
  temp : List BigWord
  dest : List BigWord

def multStep (op2 : BigInt) (s : MultObjects) (x : Nat) : Option MultObjects :=
  (if x ≠ 0 then bigIntAddMult s.temp s.temp s.temp else some s.temp).bind fun temp =>
    (if bigIntGetBit op2 x then bigIntAddMult s.dest s.dest temp else some s.dest).map fun dest =>
      ⟨temp, dest⟩

def multLoop (op2 : BigInt) (s : MultObjects) : Nat → Option MultObjects
  | 0 => some s
  | x + 1 => (multLoop op2 s x).bind fun s => multStep op2 s x

/-- `TEE_BigIntMult`, with a temporary that is zero from `TEE_Malloc` -/
def bigIntMult (dest : List BigWord) (op1 op2 : BigInt) : Option (List BigWord) :=
  (multLoop op2 ⟨List.replicate bigIntWords 0 ++ op1.words, dest⟩ (maxBitPos op2 + 1)).map
    MultObjects.dest

/-! ## the bits -/

theorem toNat_word (a : BigInt) {i : Nat} (hi : i < bigIntWords) :
    (a.word i).toNat = a.number / (2 ^ 32) ^ (bigIntWords - (i + 1)) % 2 ^ 32 := by
  have hl : i < a.words.length := by rwa [a.length_words]
  have h := toNat_getElem a.words i hl
  rw [a.length_words] at h
  rw [BigInt.word, List.getD_eq_getElem?_getD, List.getElem?_eq_getElem hl, Option.getD_some, h]
  rfl

theorem bigIntGetBit_eq (a : BigInt) {x : Nat} (hx : x < 32 * bigIntWords) :
    bigIntGetBit a x = a.number.testBit x := by
  have hw := toNat_word a (i := bigIntWords - 1 - x / 32) (by omega)
  have e : bigIntWords - (bigIntWords - 1 - x / 32 + 1) = x / 32 := by omega
  rw [e, ← Nat.pow_mul] at hw
  have hbit : ((a.word (bigIntWords - 1 - x / 32)).toNat).testBit (x % 32) = a.number.testBit x := by
    rw [hw, Nat.testBit_mod_two_pow, Nat.testBit_div_two_pow, decide_eq_true (by omega),
      Bool.true_and, Nat.add_comm, Nat.div_add_mod]
  have hone : ((1 : BigWord) <<< (x % 32)).toNat = 2 ^ (x % 32) := by
    have hlt : 2 ^ (x % 32) < 2 ^ 32 := Nat.pow_lt_pow_right (by omega) (by omega)
    rw [BitVec.toNat_shiftLeft]
    show 1 <<< (x % 32) % 2 ^ 32 = _
    rw [Nat.one_shiftLeft, Nat.mod_eq_of_lt hlt]
  rw [bigIntGetBit, Bool.eq_iff_iff, bne_iff_ne, Ne, ← BitVec.toNat_inj, BitVec.toNat_and, hone,
    Nat.and_comm, Nat.and_two_pow, hbit]
  have hpos := Nat.two_pow_pos (x % 32)
  cases a.number.testBit x with
  | false => simp
  | true =>
    rw [Bool.toNat_true, Nat.one_mul]
    exact iff_of_true hpos.ne' rfl

/-! ## the loop on objects of the right length -/

def addRows (x y : List BigWord) : List BigWord := (sumWords (x.zip y)).1

structure DoubleLength (s : MultObjects) : Prop where
  temp : s.temp.length = doubleWords
  dest : s.dest.length = doubleWords

def nextObjects (b : Nat) (s : MultObjects) (x : Nat) : MultObjects :=
  let temp := if x ≠ 0 then addRows s.temp s.temp else s.temp
  ⟨temp, if b.testBit x then addRows s.dest temp else s.dest⟩

def objectsAfter (b : Nat) (s : MultObjects) : Nat → MultObjects
  | 0 => s
  | x + 1 => nextObjects b (objectsAfter b s x) x

section
variable {x y : List BigWord} {s : MultObjects} {b : Nat} {op2 : BigInt}

theorem length_addRows (hx : x.length = doubleWords) (hy : y.length = doubleWords) :
    (addRows x y).length = doubleWords := by
  rw [addRows, sumWords, length_ripple, List.length_zip, hx, hy, Nat.min_self]

theorem bigIntAddMult_eq {d : List BigWord} (hd : d.length = doubleWords)
    (hx : x.length = doubleWords) (hy : y.length = doubleWords) :
    bigIntAddMult d x y = some (addRows x y) := by
  rw [bigIntAddMult, if_pos ⟨hd.ge, hx.ge, hy.ge⟩, List.take_of_length_le hx.le,
    List.take_of_length_le hy.le, List.drop_of_length_le hd.le, List.append_nil]
  rfl

theorem DoubleLength.next (h : DoubleLength s) (b n : Nat) : DoubleLength (nextObjects b s n) := by
  have htemp : (nextObjects b s n).temp.length = doubleWords := by
    unfold nextObjects
    dsimp only
    split_ifs
    · exact length_addRows h.temp h.temp
    · exact h.temp
  refine ⟨htemp, ?_⟩
  change (if b.testBit n then addRows s.dest (nextObjects b s n).temp else s.dest).length = _
  split_ifs
  · exact length_addRows h.dest htemp
  · exact h.dest

theorem DoubleLength.after (h : DoubleLength s) (b n : Nat) :
    DoubleLength (objectsAfter b s n) := by
  induction n with
  | zero => exact h
  | succ n ih => exact ih.next b n

theorem multStep_eq (h : DoubleLength s) {n : Nat} (hn : n < 32 * bigIntWords) :
    multStep op2 s n = some (nextObjects op2.number s n) := by
  have htemp := (h.next op2.number n).temp
  have hfirst : (if n ≠ 0 then bigIntAddMult s.temp s.temp s.temp else some s.temp) =
      some (nextObjects op2.number s n).temp := by
    change _ = some (if n ≠ 0 then addRows s.temp s.temp else s.temp)
    split_ifs
    · exact bigIntAddMult_eq h.temp h.temp h.temp
    · rfl
  have hsecond : (if bigIntGetBit op2 n then
      bigIntAddMult s.dest s.dest (nextObjects op2.number s n).temp else some s.dest) =
      some (nextObjects op2.number s n).dest := by
    rw [bigIntGetBit_eq op2 hn]
    change _ = some (if op2.number.testBit n then addRows s.dest (nextObjects op2.number s n).temp
      else s.dest)
    split_ifs
    · exact bigIntAddMult_eq h.dest h.dest htemp
    · rfl
  rw [multStep, hfirst, Option.bind_some, hsecond]
  rfl

theorem multLoop_eq (h : DoubleLength s) {n : Nat} (hn : n ≤ 32 * bigIntWords) :
    multLoop op2 s n = some (objectsAfter op2.number s n) := by
  induction n with
  | zero => rfl
  | succ n ih =>
    rw [multLoop, ih (by omega), Option.bind_some, multStep_eq (h.after op2.number n) (by omega)]
    rfl

end

/-! ## the numbers -/

def SumLoses (x y : Nat) : Prop := ∃ j, j < doubleWords - 1 ∧ LosesCarryAt x y j

section
variable {x y : List BigWord}

theorem map_fst_zip_rows (h : x.length = y.length) : (x.zip y).map Prod.fst = x :=
  List.map_fst_zip h.le

theorem map_snd_zip_rows (h : x.length = y.length) : (x.zip y).map Prod.snd = y :=
  List.map_snd_zip h.ge

theorem value_addRows_le (h : x.length = y.length) :
    value (addRows x y) ≤ value x + value y := by
  have hle := sumWords_le (x.zip y)
  rw [map_fst_zip_rows h, map_snd_zip_rows h] at hle
  exact (Nat.le_add_right _ _).trans hle

theorem value_addRows_iff (hx : x.length = doubleWords) (hy : y.length = doubleWords)
    (hfit : value x + value y < 2 ^ (32 * doubleWords)) :
    value (addRows x y) = value x + value y ↔ ¬SumLoses (value x) (value y) := by
  have hlen : (x.zip y).length = doubleWords := by rw [List.length_zip, hx, hy, Nat.min_self]
  have h := sumWords_right_iff (l := x.zip y)
  rw [map_fst_zip_rows (hx.trans hy.symm), map_snd_zip_rows (hx.trans hy.symm), hlen, ← Nat.pow_mul]
    at h
  rw [addRows, h hfit, SumLoses, not_exists]
  exact forall_congr' fun j => not_and.symm

end

def tempAfter (b : Nat) (s : MultObjects) (n : Nat) : Nat := value (objectsAfter b s n).temp

def destAfter (b : Nat) (s : MultObjects) (n : Nat) : Nat := value (objectsAfter b s n).dest

section
variable {b : Nat} {s : MultObjects}

theorem tempAfter_succ (b : Nat) (s : MultObjects) (n : Nat) :
    tempAfter b s (n + 2) ≤ 2 * tempAfter b s (n + 1) := by
  rw [Nat.two_mul]
  exact value_addRows_le rfl

theorem destAfter_succ (h : DoubleLength s) (n : Nat) :
    destAfter b s (n + 1) ≤ destAfter b s n + (b.testBit n).toNat * tempAfter b s (n + 1) := by
  have hlen := ((h.after b n).dest).trans ((h.after b (n + 1)).temp).symm
  change value (if b.testBit n then addRows (objectsAfter b s n).dest (objectsAfter b s (n + 1)).temp
    else (objectsAfter b s n).dest) ≤ _
  cases b.testBit n with
  | false =>
    rw [Bool.toNat_false, Nat.zero_mul]
    exact Nat.le_refl _
  | true =>
    rw [Bool.toNat_true, Nat.one_mul]
    exact value_addRows_le hlen

/-- what can be in the destination at the end: what is there, and the temporary for each bit to come -/
def potential (b : Nat) (s : MultObjects) (n : Nat) : Nat :=
  destAfter b s n + 2 * tempAfter b s n * (b / 2 ^ n)

theorem div_two_pow_succ (b n : Nat) : b / 2 ^ n = 2 * (b / 2 ^ (n + 1)) + (b.testBit n).toNat := by
  rw [Nat.pow_succ, ← Nat.div_div_eq_div_mul, Nat.toNat_testBit]
  omega

theorem potential_step (h : DoubleLength s) (n : Nat) :
    potential b s (n + 2) ≤ potential b s (n + 1) ∧
      (potential b s (n + 2) = potential b s (n + 1) → 0 < b / 2 ^ (n + 1) →
        tempAfter b s (n + 2) = 2 * tempAfter b s (n + 1) ∧
          destAfter b s (n + 2) = destAfter b s (n + 1) +
            (b.testBit (n + 1)).toNat * tempAfter b s (n + 2)) := by
  have htemp := tempAfter_succ b s n
  have hdest : destAfter b s (n + 2) ≤ destAfter b s (n + 1) +
      (b.testBit (n + 1)).toNat * tempAfter b s (n + 2) := destAfter_succ h (n + 1)
  have hbits := div_two_pow_succ b (n + 1)
  unfold potential
  rw [hbits]
  generalize b / 2 ^ (n + 1 + 1) = q at *
  generalize (b.testBit (n + 1)).toNat = v at *
  generalize tempAfter b s (n + 2) = t' at *
  generalize tempAfter b s (n + 1) = t at *
  have hmul : t' * (2 * q + v) ≤ 2 * t * (2 * q + v) := Nat.mul_le_mul_right _ htemp
  have hsplit : t' * (2 * q + v) = 2 * t' * q + v * t' := by ring
  constructor
  · omega
  · intro he hpos
    have heq : t' * (2 * q + v) = 2 * t * (2 * q + v) := by omega
    exact ⟨Nat.eq_of_mul_eq_mul_right hpos heq, by omega⟩

theorem potential_mono (h : DoubleLength s) {n k : Nat} (hnk : n ≤ k) :
    potential b s (k + 1) ≤ potential b s (n + 1) := by
  induction k, hnk using Nat.le_induction with
  | base => exact Nat.le_refl _
  | succ k _ ih => exact (potential_step h k).1.trans ih

end

/-! ## the product -/

def startObjects (a : BigInt) : MultObjects :=
  ⟨List.replicate bigIntWords 0 ++ a.words, List.replicate doubleWords 0⟩

theorem doubleLength_start (a : BigInt) : DoubleLength (startObjects a) where
  temp := by
    rw [startObjects, List.length_append, List.length_replicate, a.length_words]
    rfl
  dest := List.length_replicate

section
variable {a : BigInt} {b n : Nat}

theorem value_startTemp (a : BigInt) : value (startObjects a).temp = a.number := by
  rw [startObjects, value_append, value_replicate_zero, Nat.zero_mul, Nat.zero_add]
  rfl

theorem not_sumLoses_zero (y : Nat) : ¬SumLoses 0 y := by
  rintro ⟨j, -, h, -⟩
  rw [Nat.zero_div, Nat.zero_mod] at h
  exact absurd h (by decide)

theorem number_fits (a : BigInt) {k : Nat} (hk : k ≤ 32 * bigIntWords) :
    a.number * 2 ^ k < 2 ^ (32 * doubleWords) := by
  calc a.number * 2 ^ k < 2 ^ (32 * bigIntWords) * 2 ^ k :=
        Nat.mul_lt_mul_of_pos_right a.number_lt (Nat.two_pow_pos k)
    _ = 2 ^ (32 * bigIntWords + k) := (Nat.pow_add ..).symm
    _ ≤ 2 ^ (32 * doubleWords) := by
        refine Nat.pow_le_pow_right (by omega) ?_
        unfold doubleWords
        omega

theorem destAfter_one (a : BigInt) (b : Nat) :
    destAfter b (startObjects a) 1 = a.number * (b % 2) := by
  have hbit : b % 2 = (b.testBit 0).toNat := by
    rw [Nat.toNat_testBit, Nat.pow_zero, Nat.div_one]
  change value (if b.testBit 0 then addRows (List.replicate doubleWords 0) (startObjects a).temp
    else List.replicate doubleWords 0) = _
  rw [hbit]
  cases b.testBit 0 with
  | false => exact value_replicate_zero doubleWords
  | true =>
    have hfit : value (List.replicate doubleWords (0 : BigWord)) + value (startObjects a).temp <
        2 ^ (32 * doubleWords) := by
      rw [value_replicate_zero, value_startTemp, Nat.zero_add]
      exact (number_fits a (Nat.zero_le _)).trans_le' (by omega)
    have hiff := value_addRows_iff List.length_replicate (doubleLength_start a).temp hfit
    rw [value_replicate_zero, value_startTemp, Nat.zero_add] at hiff
    rw [if_pos rfl, hiff.2 (not_sumLoses_zero _), Bool.toNat_true, Nat.mul_one]

/-- the temporary is `a * 2 ^ n` and the destination has the product with the first bits -/
structure ExactAfter (a : BigInt) (b n : Nat) : Prop where
  temp : tempAfter b (startObjects a) (n + 1) = a.number * 2 ^ n
  dest : destAfter b (startObjects a) (n + 1) = a.number * (b % 2 ^ (n + 1))

theorem exactAfter_zero (a : BigInt) (b : Nat) : ExactAfter a b 0 where
  temp := by
    rw [Nat.pow_zero, Nat.mul_one]
    exact value_startTemp a
  dest := destAfter_one a b

/-- no carry is lost in turn `n + 1` -/
def TurnKeeps (a b n : Nat) : Prop :=
  ¬SumLoses (a * 2 ^ n) (a * 2 ^ n) ∧
    (b.testBit (n + 1) = true → ¬SumLoses (a * (b % 2 ^ (n + 1))) (a * 2 ^ (n + 1)))

theorem ExactAfter.temp_iff (h : ExactAfter a b n) (hn : n + 1 < 32 * bigIntWords) :
    tempAfter b (startObjects a) (n + 2) = 2 * tempAfter b (startObjects a) (n + 1) ↔
      ¬SumLoses (a.number * 2 ^ n) (a.number * 2 ^ n) := by
  have hlen := ((doubleLength_start a).after b (n + 1)).temp
  have hfit := number_fits a (Nat.le_of_lt hn)
  rw [Nat.pow_succ, ← Nat.mul_assoc, Nat.mul_two] at hfit
  have hiff := value_addRows_iff hlen hlen (by
    change tempAfter b (startObjects a) (n + 1) + tempAfter b (startObjects a) (n + 1) < _
    rw [h.temp]
    exact hfit)
  change value (addRows _ _) = tempAfter b (startObjects a) (n + 1) +
    tempAfter b (startObjects a) (n + 1) ↔ ¬SumLoses (tempAfter b (startObjects a) (n + 1))
      (tempAfter b (startObjects a) (n + 1)) at hiff
  rw [h.temp] at hiff
  rw [h.temp, Nat.two_mul]
  exact hiff

theorem ExactAfter.dest_iff (h : ExactAfter a b n) (hn : n + 1 < 32 * bigIntWords)
    (htemp : tempAfter b (startObjects a) (n + 2) = a.number * 2 ^ (n + 1)) :
    destAfter b (startObjects a) (n + 2) = destAfter b (startObjects a) (n + 1) +
        (b.testBit (n + 1)).toNat * tempAfter b (startObjects a) (n + 2) ↔
      (b.testBit (n + 1) = true →
        ¬SumLoses (a.number * (b % 2 ^ (n + 1))) (a.number * 2 ^ (n + 1))) := by
  have hdef : destAfter b (startObjects a) (n + 2) = value (if b.testBit (n + 1) then
      addRows (objectsAfter b (startObjects a) (n + 1)).dest
        (objectsAfter b (startObjects a) (n + 2)).temp
      else (objectsAfter b (startObjects a) (n + 1)).dest) := rfl
  rw [hdef]
  cases b.testBit (n + 1) with
  | false =>
    rw [Bool.toNat_false, Nat.zero_mul, Nat.add_zero]
    exact iff_of_true rfl fun hc => absurd hc Bool.false_ne_true
  | true =>
    have hmod : b % 2 ^ (n + 1) < 2 ^ (n + 1) := Nat.mod_lt _ (Nat.two_pow_pos _)
    have hsum : a.number * (b % 2 ^ (n + 1)) + a.number * 2 ^ (n + 1) < 2 ^ (32 * doubleWords) := by
      refine (number_fits a hn).trans_le' ?_
      rw [← Nat.mul_add, Nat.pow_succ 2 (n + 1)]
      exact Nat.mul_le_mul_left _ (by omega)
    have hiff := value_addRows_iff ((doubleLength_start a).after b (n + 1)).dest
      ((doubleLength_start a).after b (n + 2)).temp (by
        change destAfter b (startObjects a) (n + 1) + tempAfter b (startObjects a) (n + 2) < _
        rw [h.dest, htemp]
        exact hsum)
    change value (addRows _ _) = destAfter b (startObjects a) (n + 1) +
      tempAfter b (startObjects a) (n + 2) ↔ ¬SumLoses (destAfter b (startObjects a) (n + 1))
        (tempAfter b (startObjects a) (n + 2)) at hiff
    rw [h.dest, htemp] at hiff
    rw [if_pos rfl, Bool.toNat_true, Nat.one_mul, h.dest, htemp, hiff]
    exact ⟨fun hs _ => hs, fun hs => hs rfl⟩

theorem ExactAfter.step_iff (h : ExactAfter a b n) (hn : n + 1 < 32 * bigIntWords) :
    tempAfter b (startObjects a) (n + 2) = 2 * tempAfter b (startObjects a) (n + 1) ∧
        destAfter b (startObjects a) (n + 2) = destAfter b (startObjects a) (n + 1) +
          (b.testBit (n + 1)).toNat * tempAfter b (startObjects a) (n + 2) ↔
      TurnKeeps a.number b n := by
  rw [TurnKeeps, ← h.temp_iff hn]
  refine and_congr_right fun htemp => h.dest_iff hn ?_
  rw [htemp, h.temp, Nat.pow_succ]
  ring

theorem ExactAfter.succ (h : ExactAfter a b n) (hn : n + 1 < 32 * bigIntWords)
    (hkeep : TurnKeeps a.number b n) : ExactAfter a b (n + 1) := by
  obtain ⟨htemp, hdest⟩ := (h.step_iff hn).2 hkeep
  have ht : tempAfter b (startObjects a) (n + 2) = a.number * 2 ^ (n + 1) := by
    rw [htemp, h.temp, Nat.pow_succ]
    ring
  refine ⟨ht, ?_⟩
  rw [hdest, h.dest, ht, mod_two_pow_of_testBit (n := n + 1) rfl]
  ring

theorem exactAfter_of_keeps {k : Nat} (hk : k < 32 * bigIntWords)
    (hkeep : ∀ n < k, TurnKeeps a.number b n) : ExactAfter a b k := by
  induction k with
  | zero => exact exactAfter_zero a b
  | succ k ih =>
    have h := ih (by omega) fun n hn => hkeep n (by omega)
    exact h.succ hk (hkeep k (Nat.lt_succ_self k))

theorem potential_one (a : BigInt) (b : Nat) : potential b (startObjects a) 1 = a.number * b := by
  have h := exactAfter_zero a b
  rw [potential, h.dest, h.temp, Nat.pow_zero, Nat.mul_one, Nat.pow_one]
  calc a.number * (b % 2) + 2 * a.number * (b / 2) = a.number * (2 * (b / 2) + b % 2) := by ring
    _ = a.number * b := by rw [Nat.div_add_mod]

theorem keeps_of_product {k : Nat} (hk : k = b.log2) (hbits : k < 32 * bigIntWords)
    (h : destAfter b (startObjects a) (k + 1) = a.number * b) :
    ∀ n ≤ k, ExactAfter a b n ∧ ∀ i < n, TurnKeeps a.number b i := by
  have hdouble := doubleLength_start a
  have hlast : a.number * b ≤ potential b (startObjects a) (k + 1) := by
    rw [← h]
    exact Nat.le_add_right _ _
  have hall (n : Nat) (hn : n ≤ k) : potential b (startObjects a) (n + 1) = a.number * b := by
    have h1 := potential_mono (b := b) hdouble hn
    have h2 := potential_mono (b := b) hdouble (Nat.zero_le n)
    rw [potential_one] at h2
    omega
  intro n
  induction n with
  | zero => exact fun _ => ⟨exactAfter_zero a b, fun i hi => absurd hi (Nat.not_lt_zero i)⟩
  | succ n ih =>
    intro hn
    obtain ⟨hexact, hkeeps⟩ := ih (by omega)
    have hb : b ≠ 0 := by
      rintro rfl
      rw [Nat.log2_zero] at hk
      omega
    have hpos : 0 < b / 2 ^ (n + 1) := by
      refine Nat.div_pos ?_ (Nat.two_pow_pos _)
      exact (Nat.pow_le_pow_right (by omega) (by omega)).trans (Nat.log2_self_le hb)
    have hkeep : TurnKeeps a.number b n := by
      rw [← hexact.step_iff (by omega)]
      refine (potential_step hdouble n).2 ?_ hpos
      rw [hall n (by omega)]
      exact hall (n + 1) hn
    refine ⟨hexact.succ (by omega) hkeep, fun i hi => ?_⟩
    rcases Nat.lt_or_eq_of_le (Nat.le_of_lt_succ hi) with hlt | rfl
    · exact hkeeps i hlt
    · exact hkeep

end

theorem bigIntMult_eq (a b : BigInt) : bigIntMult (List.replicate doubleWords 0) a b =
    some (objectsAfter b.number (startObjects a) (b.number.log2 + 1)).dest := by
  rw [bigIntMult, maxBitPos_eq]
  change (multLoop b (startObjects a) (b.number.log2 + 1)).map _ = _
  rw [multLoop_eq (doubleLength_start a) (log2_lt_bits b)]
  rfl

/-- **The product** of two big integers in a zeroed destination of twice the length is right exactly
if no carry is lost, neither in doubling `a * 2 ^ n` nor in adding it to the product with the bits of
`b` before it. -/
theorem bigIntMult_right_iff (a b : BigInt) :
    (∃ words, bigIntMult (List.replicate doubleWords 0) a b = some words ∧
      value words = a.number * b.number) ↔
      ∀ n < b.number.log2, TurnKeeps a.number b.number n := by
  have hbits := log2_lt_bits b
  rw [bigIntMult_eq]
  constructor
  · rintro ⟨words, hw, hv⟩
    obtain rfl := Option.some.inj hw
    exact (keeps_of_product rfl hbits hv _ (Nat.le_refl _)).2
  · intro h
    refine ⟨_, rfl, ?_⟩
    have hlt : b.number < 2 ^ (b.number.log2 + 1) := Nat.lt_log2_self
    have hdest := (exactAfter_of_keeps hbits h).dest
    rw [Nat.mod_eq_of_lt hlt] at hdest
    exact hdest

/-- `2 ^ 64 - 2 ^ 31` is not doubled -/
theorem bigIntMult_can_fail :
    (bigIntMult (List.replicate doubleWords 0)
      ((BigInt.zero.setWord 64 (BitVec.allOnes 32)).setWord 65 (BitVec.ofNat 32 (2 ^ 31)))
      (BigInt.zero.setWord 65 2)).map value = some (2 ^ 64 - 2 ^ 32) ∧
      ((BigInt.zero.setWord 64 (BitVec.allOnes 32)).setWord 65 (BitVec.ofNat 32 (2 ^ 31))).number *
        (BigInt.zero.setWord 65 2).number = 2 ^ 65 - 2 ^ 32 := by
  decide +kernel

end SierraTee
