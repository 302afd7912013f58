import SierraTee.Arith.BigInt

/-!
# The division (`TEE_BigIntDivide`)

The objects of a call are big integers at pointers; distinct pointers are distinct objects.

* `divideBody_right`  a turn of the loop whose comparisons and subtraction are right.
-/

namespace SierraTee
open Function

/-- the big integer at a pointer -/
abbrev BigIntMemory := Nat → BigInt

/-- how `TEE_BigIntDivide` fails: without memory it gives up, and an access outside an object faults -/
inductive DivideStop
  | noMemory
  | fault

/-- the arguments of `TEE_BigIntDivide`, with what its calls of `TEE_Malloc` return one after the
other: the destinations are separate objects and `TEE_Malloc` returns objects that are not in use -/
structure DivideCall where
  destQ : Nat
  destR : Nat
  op1 : Nat
  op2 : Nat
  malloc : Nat → Option Nat
  destQ_ne_destR : destQ ≠ destR
  destQ_ne_op1 : destQ ≠ op1
  destQ_ne_op2 : destQ ≠ op2
  destR_ne_op1 : destR ≠ op1
  destR_ne_op2 : destR ≠ op2
  malloc_fresh : ∀ n p, malloc n = some p → p ≠ destQ ∧ p ≠ destR ∧ p ≠ op1 ∧ p ≠ op2
  malloc_once : ∀ i j p, malloc i = some p → malloc j = some p → i = j

/-- `TEE_BigIntLeftShift(p, p, bits)`, where `bits` becomes a `size_t` -/
def shiftAt (m : BigIntMemory) (p : Nat) (bits : Int) : Except DivideStop BigIntMemory :=
  match bigIntShift (m p) (BitVec.ofInt 32 bits).toNat with
  | some a => .ok (update m p a)
  | none => .error .fault

/-- an assignment to the word `k` words in front of the last one -/
def assignAt (m : BigIntMemory) (p : Nat) (k : Int) (w : BigWord) :
    Except DivideStop BigIntMemory :=
  if 0 ≤ k ∧ k < bigIntWords then
    .ok (update m p ((m p).setWord (bigIntWords - 1 - k.toNat) w))
  else .error .fault

section divide
variable (c : DivideCall) (tmp1 shifted : Nat)

/-- the adder gets its word, and with it `dest_q` and `tmp1` are changed -/
def takeShifted (m : BigIntMemory) (adder : Nat) (k : Int) (w : BigWord) :
    Except DivideStop BigIntMemory := do
  let m ← assignAt m adder k w
  let m := update m c.destQ (bigIntAdd (m c.destQ) (m adder))
  return update m tmp1 (bigIntSub (m tmp1) (m shifted))

def takeDivisor (m : BigIntMemory) : BigIntMemory :=
  let m := update m tmp1 (bigIntSub (m tmp1) (m c.op2))
  update m c.destQ (incrementBigInt (m c.destQ))

/-- the body of the loop for a shift that is not zero, with the adder that `TEE_Malloc` returns -/
def divideAdder (m : BigIntMemory) (adder : Nat) (diffBit : Int) :
    Except DivideStop BigIntMemory := do
  let m := update m adder BigInt.zero
  if 0 ≤ bigIntCmp (m tmp1) (m shifted) then
    takeShifted c tmp1 shifted m adder (diffBit.tdiv 32)
      (xPowerY 2 (BitVec.ofInt 32 (diffBit.tmod 32)))
  else if diffBit - 1 ≠ 0 then
    let m ← shiftAt m shifted (diffBit - 1)
    takeShifted c tmp1 shifted m adder (diffBit.tdiv 31)
      (xPowerY 2 (BitVec.ofInt 32 (diffBit.tmod 31 - 1)))
  else return takeDivisor c tmp1 m

/-- the body of the loop; `n` counts the calls of `TEE_Malloc` -/
def divideBody (m : BigIntMemory) (n : Nat) : Except DivideStop (BigIntMemory × Nat) := do
  let diffBit : Int := (maxBitPos (m tmp1) : Int) - maxBitPos (m c.op2)
  let m := update m shifted (m c.op2)
  if diffBit ≠ 0 then
    let m ← shiftAt m shifted diffBit
    match c.malloc n with
    | none => .error .noMemory
    | some adder => return (← divideAdder c tmp1 shifted m adder diffBit, n + 1)
  else return (takeDivisor c tmp1 m, n)

def divideLoop : Nat → BigIntMemory → Nat → Option (Except DivideStop BigIntMemory)
  | 0, _, _ => none
  | fuel + 1, m, n =>
    if 0 ≤ bigIntCmp (m tmp1) (m c.op2) then
      match divideBody c tmp1 shifted m n with
      | .ok r => divideLoop fuel r.1 r.2
      | .error e => some (.error e)
    else some (.ok m)

end divide

/-- `TEE_BigIntDivide`; nothing if the loop has not ended after `fuel` turns -/
def teeBigIntDivide (c : DivideCall) (m : BigIntMemory) (fuel : Nat) :
    Option (Except DivideStop BigIntMemory) :=
  match c.malloc 0, c.malloc 1 with
  | some tmp1, some shifted =>
    let m := update (update m tmp1 BigInt.zero) shifted BigInt.zero
    let m := update m tmp1 (m c.op1)
    (divideLoop c tmp1 shifted fuel m 2).map fun r =>
      r.map fun m => update m c.destR (m tmp1)
  | _, _ => some (.error .noMemory)

def diffBits (t d : Nat) : Nat := t.log2 - d.log2

def subtrahend (t d : Nat) : Nat := if d * 2 ^ diffBits t d ≤ t then d * 2 ^ diffBits t d else d

def quotientPart (t d : Nat) : Nat := if d * 2 ^ diffBits t d ≤ t then 2 ^ diffBits t d else 1

/-- a turn of the loop is right: the comparisons are, the shifted divisor is not too great if it is
shifted by two or more, and the subtraction loses no borrow -/
def StepRight (t d : Nat) : Prop :=
  CmpRight t d ∧ (d ≤ t → CmpRight t (d * 2 ^ diffBits t d) ∧
    (d * 2 ^ diffBits t d ≤ t ∨ diffBits t d ≤ 1) ∧
      ∀ j < bigIntWords - 1, ¬ LosesBorrowAt t (subtrahend t d) j)

instance (t d : Nat) : Decidable (StepRight t d) := inferInstanceAs (Decidable (_ ∧ _))

theorem subtrahend_eq (t d : Nat) : subtrahend t d = d * quotientPart t d := by
  unfold subtrahend quotientPart
  split
  · rfl
  · rw [Nat.mul_one]

theorem subtrahend_le {t d : Nat} (h : d ≤ t) : subtrahend t d ≤ t := by
  unfold subtrahend
  split
  next h' => exact h'
  next => exact h

theorem log2_mono {x y : Nat} (h : x ≤ y) : x.log2 ≤ y.log2 := by
  by_cases hx : x = 0
  · rw [hx]
    exact Nat.zero_le _
  · exact (Nat.le_log2 (by omega)).mpr ((Nat.log2_self_le hx).trans h)

theorem shifted_bounds {t d : Nat} (hd : d ≠ 0) (hle : d ≤ t) :
    2 ^ t.log2 ≤ d * 2 ^ diffBits t d ∧ d * 2 ^ diffBits t d < 2 ^ (t.log2 + 1) := by
  have hlog := log2_mono hle
  have h1 := Nat.log2_self_le hd
  have h2 := Nat.lt_log2_self (n := d)
  have e1 : 2 ^ t.log2 = 2 ^ d.log2 * 2 ^ diffBits t d := by
    rw [← Nat.pow_add, diffBits, Nat.add_sub_cancel' hlog]
  have e2 : 2 ^ (t.log2 + 1) = 2 ^ (d.log2 + 1) * 2 ^ diffBits t d := by
    rw [Nat.pow_succ, Nat.pow_succ, e1, Nat.mul_right_comm]
  rw [e1, e2]
  exact ⟨Nat.mul_le_mul_right _ h1, Nat.mul_lt_mul_of_pos_right h2 (Nat.two_pow_pos _)⟩

theorem ofInt_natCast (k : Nat) : BitVec.ofInt 32 (k : Int) = BitVec.ofNat 32 k :=
  BitVec.ofInt_natCast 32 k

theorem exists_bigIntShift (a : BigInt) {k : Nat} (hk : k < 32 * bigIntWords) :
    ∃ s, bigIntShift a (BitVec.ofInt 32 k).toNat = some s ∧
      s.number = a.number * 2 ^ k % 2 ^ (32 * bigIntWords) := by
  have hb : bigIntWords = 66 := rfl
  have e : (BitVec.ofInt 32 k).toNat = k := by
    rw [ofInt_natCast, BitVec.toNat_ofNat]
    omega
  have hsome := (bigIntShift_isSome_iff a k).mpr (by omega)
  obtain ⟨s, hs⟩ := Option.isSome_iff_exists.mp hsome
  rw [e]
  exact ⟨s, hs, number_bigIntShift hs⟩

def adderOf (k : Nat) : BigInt :=
  BigInt.zero.setWord (bigIntWords - 1 - k / 32) (xPowerY 2 (BitVec.ofNat 32 (k % 32)))

theorem number_adderOf {k : Nat} (hk : k < 32 * bigIntWords) : (adderOf k).number = 2 ^ k := by
  have hb : bigIntWords = 66 := rfl
  have e : bigIntWords - 1 - (bigIntWords - 1 - k / 32) = k / 32 := by omega
  rw [adderOf, number_setWord_zero _ (by omega), toNat_xPowerY (by omega), e, ← Nat.pow_mul,
    ← Nat.pow_add, Nat.mod_add_div]

theorem adderOf_ne_allOnes (k : Nat) : ∀ w ∈ (adderOf k).words, w ≠ BitVec.allOnes 32 := by
  intro w hw he
  rw [eq_allOnes_iff] at he
  obtain rfl | rfl := mem_setWord_zero hw
  · have hlt : 2 ^ (k % 32) ≤ 2 ^ 31 := Nat.pow_le_pow_right (by omega) (by omega)
    rw [toNat_xPowerY (by omega)] at he
    omega
  · exact absurd he (by decide)

theorem assignAt_natCast (m : BigIntMemory) (p : Nat) {k : Nat} (hk : k < bigIntWords)
    (w : BigWord) : assignAt m p k w =
      .ok (update m p ((m p).setWord (bigIntWords - 1 - k) w)) := by
  rw [assignAt, if_pos ⟨Int.natCast_nonneg k, by exact_mod_cast hk⟩, Int.toNat_natCast]

section turn
variable {c : DivideCall} {tmp1 shifted adder : Nat} {m : BigIntMemory} {n : Nat}

structure TemporariesApart (c : DivideCall) (tmp1 shifted adder : Nat) : Prop where
  tmp1_shifted : tmp1 ≠ shifted
  adder_tmp1 : adder ≠ tmp1
  adder_shifted : adder ≠ shifted
  tmp1_fresh : tmp1 ≠ c.destQ ∧ tmp1 ≠ c.destR ∧ tmp1 ≠ c.op1 ∧ tmp1 ≠ c.op2
  shifted_fresh : shifted ≠ c.destQ ∧ shifted ≠ c.destR ∧ shifted ≠ c.op1 ∧ shifted ≠ c.op2
  adder_fresh : adder ≠ c.destQ ∧ adder ≠ c.destR ∧ adder ≠ c.op1 ∧ adder ≠ c.op2

theorem separate_of_malloc (h0 : c.malloc 0 = some tmp1) (h1 : c.malloc 1 = some shifted)
    (hn : 2 ≤ n) (ha : c.malloc n = some adder) : TemporariesApart c tmp1 shifted adder where
  tmp1_shifted := by
    rintro rfl
    exact absurd (c.malloc_once 0 1 _ h0 h1) (by omega)
  adder_tmp1 := by
    rintro rfl
    exact absurd (c.malloc_once n 0 _ ha h0) (by omega)
  adder_shifted := by
    rintro rfl
    exact absurd (c.malloc_once n 1 _ ha h1) (by omega)
  tmp1_fresh := c.malloc_fresh 0 tmp1 h0
  shifted_fresh := c.malloc_fresh 1 shifted h1
  adder_fresh := c.malloc_fresh n adder ha

structure TurnTo (c : DivideCall) (tmp1 : Nat) (m m' : BigIntMemory) (rest quotient : BigInt) :
    Prop where
  rest : m' tmp1 = rest
  quotient : m' c.destQ = quotient
  op1 : m' c.op1 = m c.op1
  op2 : m' c.op2 = m c.op2

theorem TemporariesApart.takeDivisor (hs : TemporariesApart c tmp1 shifted adder) :
    TurnTo c tmp1 m (takeDivisor c tmp1 m) (bigIntSub (m tmp1) (m c.op2))
      (incrementBigInt (m c.destQ)) := by
  obtain ⟨htq, -, ht1, ht2⟩ := hs.tmp1_fresh
  have hq1 := c.destQ_ne_op1
  have hq2 := c.destQ_ne_op2
  unfold SierraTee.takeDivisor
  constructor
  · rw [update_of_ne htq, update_self]
  · rw [update_self, update_of_ne htq.symm]
  · rw [update_of_ne hq1.symm, update_of_ne ht1.symm]
  · rw [update_of_ne hq2.symm, update_of_ne ht2.symm]

theorem TemporariesApart.takeShifted (hs : TemporariesApart c tmp1 shifted adder) {k : Nat} (hk : k < bigIntWords)
    (w : BigWord) :
    ∃ m', takeShifted c tmp1 shifted m adder k w = .ok m' ∧
      TurnTo c tmp1 m m' (bigIntSub (m tmp1) (m shifted))
        (bigIntAdd (m c.destQ) ((m adder).setWord (bigIntWords - 1 - k) w)) := by
  obtain ⟨htq, -, ht1, ht2⟩ := hs.tmp1_fresh
  obtain ⟨hsq, -, -, -⟩ := hs.shifted_fresh
  obtain ⟨haq, -, ha1, ha2⟩ := hs.adder_fresh
  have hat := hs.adder_tmp1
  have has := hs.adder_shifted
  have hq1 := c.destQ_ne_op1
  have hq2 := c.destQ_ne_op2
  unfold SierraTee.takeShifted
  rw [assignAt_natCast _ _ hk]
  refine ⟨_, rfl, ?_, ?_, ?_, ?_⟩
  · rw [update_self, update_of_ne htq, update_of_ne hat.symm,
      update_of_ne hsq, update_of_ne has.symm]
  · rw [update_of_ne htq.symm, update_self, update_self,
      update_of_ne haq.symm]
  · rw [update_of_ne ht1.symm, update_of_ne hq1.symm,
      update_of_ne ha1.symm]
  · rw [update_of_ne ht2.symm, update_of_ne hq2.symm,
      update_of_ne ha2.symm]

theorem TurnTo.congr {m₀ m' : BigIntMemory} {rest quotient : BigInt}
    (h : TurnTo c tmp1 m m' rest quotient) (h1 : m c.op1 = m₀ c.op1) (h2 : m c.op2 = m₀ c.op2) :
    TurnTo c tmp1 m₀ m' rest quotient :=
  ⟨h.rest, h.quotient, h.op1.trans h1, h.op2.trans h2⟩

theorem diffBit_eq (hle : (m c.op2).number ≤ (m tmp1).number) :
    (maxBitPos (m tmp1) : Int) - maxBitPos (m c.op2) =
      (diffBits (m tmp1).number (m c.op2).number : Nat) := by
  rw [maxBitPos_eq, maxBitPos_eq, diffBits, Nat.cast_sub (log2_mono hle)]

theorem divideBody_same (hs : TemporariesApart c tmp1 shifted adder)
    (hle : (m c.op2).number ≤ (m tmp1).number)
    (hk : diffBits (m tmp1).number (m c.op2).number = 0) :
    ∃ m', divideBody c tmp1 shifted m n = .ok (m', n) ∧
      TurnTo c tmp1 m m' (bigIntSub (m tmp1) (m c.op2)) (incrementBigInt (m c.destQ)) := by
  obtain ⟨hsq, -, hs1, hs2⟩ := hs.shifted_fresh
  have hd := diffBit_eq hle
  rw [hk] at hd
  have hturn := hs.takeDivisor (m := update m shifted (m c.op2))
  rw [update_of_ne hs.tmp1_shifted, update_of_ne hs2.symm,
    update_of_ne hsq.symm] at hturn
  refine ⟨_, ?_, hturn.congr ?_ ?_⟩
  · simp only [divideBody, hd]
    rfl
  · rw [update_of_ne hs1.symm]
  · rw [update_of_ne hs2.symm]

def shiftedMemory (c : DivideCall) (shifted : Nat) (m : BigIntMemory) (a : BigInt) : BigIntMemory :=
  update (update m shifted (m c.op2)) shifted a

theorem divideBody_adder {k : Nat} {a : BigInt} {m' : BigIntMemory}
    (ha : c.malloc n = some adder) (hd : (maxBitPos (m tmp1) : Int) - maxBitPos (m c.op2) = k)
    (hk : k ≠ 0) (hshift : bigIntShift (m c.op2) (BitVec.ofInt 32 k).toNat = some a)
    (h : divideAdder c tmp1 shifted (shiftedMemory c shifted m a) adder k = .ok m') :
    divideBody c tmp1 shifted m n = .ok (m', n + 1) := by
  have hk0 : (k : Int) ≠ 0 := by exact_mod_cast hk
  have hshiftAt : shiftAt (update m shifted (m c.op2)) shifted k =
      .ok (shiftedMemory c shifted m a) := by
    rw [shiftAt, update_self, hshift]
    rfl
  simp only [divideBody, hd]
  rw [if_pos hk0, hshiftAt]
  show (match c.malloc n with
    | none => _
    | some adder => _) = _
  rw [ha]
  show (divideAdder c tmp1 shifted (shiftedMemory c shifted m a) adder k).bind _ = _
  rw [h]
  rfl

theorem TemporariesApart.update_adder (hs : TemporariesApart c tmp1 shifted adder) (a : BigInt) :
    update m adder a tmp1 = m tmp1 ∧ update m adder a shifted = m shifted ∧
      update m adder a c.destQ = m c.destQ ∧
      update m adder a c.op1 = m c.op1 ∧ update m adder a c.op2 = m c.op2 := by
  obtain ⟨haq, -, ha1, ha2⟩ := hs.adder_fresh
  exact ⟨update_of_ne hs.adder_tmp1.symm _ _,
    update_of_ne hs.adder_shifted.symm _ _, update_of_ne haq.symm _ _,
    update_of_ne ha1.symm _ _, update_of_ne ha2.symm _ _⟩

theorem divideAdder_shifted (hs : TemporariesApart c tmp1 shifted adder) {k : Nat}
    (hk : k < 32 * bigIntWords) (hcmp : 0 ≤ bigIntCmp (m tmp1) (m shifted)) :
    ∃ m', divideAdder c tmp1 shifted m adder k = .ok m' ∧
      TurnTo c tmp1 m m' (bigIntSub (m tmp1) (m shifted))
        (bigIntAdd (m c.destQ) (adderOf k)) := by
  obtain ⟨ht, hsh, hq, h1, h2⟩ := hs.update_adder (m := m) BigInt.zero
  have hdiv : (k : Int).tdiv 32 = (k / 32 : Nat) := rfl
  have hmod : (k : Int).tmod 32 = (k % 32 : Nat) := rfl
  obtain ⟨m', hm', hturn⟩ := hs.takeShifted (m := update m adder BigInt.zero)
    (k := k / 32) (by omega) (xPowerY 2 (BitVec.ofNat 32 (k % 32)))
  rw [ht, hsh, hq, update_self] at hturn
  refine ⟨m', ?_, hturn.congr h1 h2⟩
  unfold divideAdder
  simp only [ht, hsh, if_pos hcmp, hdiv, hmod, ofInt_natCast]
  exact hm'

theorem divideAdder_divisor (hs : TemporariesApart c tmp1 shifted adder)
    (hcmp : ¬ 0 ≤ bigIntCmp (m tmp1) (m shifted)) :
    ∃ m', divideAdder c tmp1 shifted m adder (1 : Nat) = .ok m' ∧
      TurnTo c tmp1 m m' (bigIntSub (m tmp1) (m c.op2)) (incrementBigInt (m c.destQ)) := by
  obtain ⟨ht, hsh, hq, h1, h2⟩ := hs.update_adder (m := m) BigInt.zero
  have hturn := hs.takeDivisor (m := update m adder BigInt.zero)
  rw [ht, hq, h2] at hturn
  refine ⟨_, ?_, hturn.congr h1 h2⟩
  unfold divideAdder
  simp only [ht, hsh, if_neg hcmp]
  rfl

theorem TemporariesApart.shiftedMemory (hs : TemporariesApart c tmp1 shifted adder) (a : BigInt) :
    shiftedMemory c shifted m a tmp1 = m tmp1 ∧ shiftedMemory c shifted m a shifted = a ∧
      shiftedMemory c shifted m a c.destQ = m c.destQ ∧
      shiftedMemory c shifted m a c.op1 = m c.op1 ∧
      shiftedMemory c shifted m a c.op2 = m c.op2 := by
  obtain ⟨hsq, -, hs1, hs2⟩ := hs.shifted_fresh
  have hother (p : Nat) (hp : p ≠ shifted) : SierraTee.shiftedMemory c shifted m a p = m p := by
    rw [SierraTee.shiftedMemory, update_of_ne hp, update_of_ne hp]
  exact ⟨hother _ hs.tmp1_shifted, update_self .., hother _ hsq.symm, hother _ hs1.symm,
    hother _ hs2.symm⟩

/-- **A turn** subtracts the shifted divisor, or the divisor, and adds its bit to the quotient, if
the comparison with the shifted divisor is right and it is not too great. -/
theorem divideBody_turn (hs : TemporariesApart c tmp1 shifted adder) (ha : c.malloc n = some adder)
    (hd : (m c.op2).number ≠ 0) (hle : (m c.op2).number ≤ (m tmp1).number)
    (hcmp : CmpRight (m tmp1).number
      ((m c.op2).number * 2 ^ diffBits (m tmp1).number (m c.op2).number))
    (hk : (m c.op2).number * 2 ^ diffBits (m tmp1).number (m c.op2).number ≤ (m tmp1).number ∨
      diffBits (m tmp1).number (m c.op2).number ≤ 1) :
    ∃ m' n' a, divideBody c tmp1 shifted m n = .ok (m', n') ∧ n ≤ n' ∧
      a.number = subtrahend (m tmp1).number (m c.op2).number ∧
      m' tmp1 = bigIntSub (m tmp1) a ∧
      (m' c.destQ).number = ((m c.destQ).number +
        quotientPart (m tmp1).number (m c.op2).number) % 2 ^ (32 * bigIntWords) ∧
      m' c.op1 = m c.op1 ∧ m' c.op2 = m c.op2 := by
  have hdiff := diffBit_eq hle
  have hbits : diffBits (m tmp1).number (m c.op2).number < 32 * bigIntWords :=
    (Nat.sub_le _ _).trans_lt (log2_lt_bits _)
  obtain ⟨-, hfit⟩ := shifted_bounds hd hle
  have hfits := hfit.trans_le (Nat.pow_le_pow_right (by omega)
    (Nat.succ_le_of_lt (log2_lt_bits (m tmp1))))
  by_cases hk0 : diffBits (m tmp1).number (m c.op2).number = 0
  · have hsub : (m c.op2).number = subtrahend (m tmp1).number (m c.op2).number := by
      unfold subtrahend
      rw [hk0]
      simp
    have hpart : quotientPart (m tmp1).number (m c.op2).number = 1 := by
      unfold quotientPart
      rw [hk0]
      simp
    obtain ⟨m', hm', hturn⟩ := divideBody_same (n := n) hs hle hk0
    refine ⟨m', n, m c.op2, hm', Nat.le_refl n, hsub, hturn.rest, ?_, hturn.op1, hturn.op2⟩
    rw [hturn.quotient, hpart, number_incrementBigInt]
  · obtain ⟨a, hshift, hnum⟩ := exists_bigIntShift (m c.op2) hbits
    rw [Nat.mod_eq_of_lt hfits] at hnum
    obtain ⟨ht, hsh, hq, h1, h2⟩ := hs.shiftedMemory (m := m) a
    have hcmp' := (bigIntCmp_right_iff (m tmp1) a).mpr (hnum ▸ hcmp)
    rw [hnum] at hcmp'
    by_cases hge : (m c.op2).number * 2 ^ diffBits (m tmp1).number (m c.op2).number ≤
        (m tmp1).number
    · have hsub : a.number = subtrahend (m tmp1).number (m c.op2).number :=
        hnum.trans (if_pos hge).symm
      have hpart : quotientPart (m tmp1).number (m c.op2).number =
          2 ^ diffBits (m tmp1).number (m c.op2).number := if_pos hge
      obtain ⟨m', hm', hturn⟩ := divideAdder_shifted (m := shiftedMemory c shifted m a) hs hbits
        (by rw [ht, hsh]; exact hcmp'.mpr hge)
      rw [ht, hsh, hq] at hturn
      replace hturn := hturn.congr h1 h2
      refine ⟨m', n + 1, a, divideBody_adder ha hdiff hk0 hshift hm', Nat.le_succ n, hsub,
        hturn.rest, ?_, hturn.op1, hturn.op2⟩
      rw [hturn.quotient, hpart, number_bigIntAdd (adderOf_ne_allOnes _), number_adderOf hbits]
    · have hsub : (m c.op2).number = subtrahend (m tmp1).number (m c.op2).number :=
        (if_neg hge).symm
      have hpart : quotientPart (m tmp1).number (m c.op2).number = 1 := if_neg hge
      have hk1 : diffBits (m tmp1).number (m c.op2).number = 1 := by omega
      obtain ⟨m', hm', hturn⟩ := divideAdder_divisor (m := shiftedMemory c shifted m a) hs
        (by rw [ht, hsh]; exact fun h => hge (hcmp'.mp h))
      rw [ht, h2, hq] at hturn
      replace hturn := hturn.congr h1 h2
      refine ⟨m', n + 1, m c.op2, divideBody_adder ha hdiff hk0 hshift (hk1 ▸ hm'), Nat.le_succ n,
        hsub, hturn.rest, ?_, hturn.op1, hturn.op2⟩
      rw [hturn.quotient, hpart, number_incrementBigInt]

theorem divideBody_right (hs : TemporariesApart c tmp1 shifted adder) (ha : c.malloc n = some adder)
    (hd : (m c.op2).number ≠ 0) (hle : (m c.op2).number ≤ (m tmp1).number)
    (hr : StepRight (m tmp1).number (m c.op2).number) :
    ∃ m' n', divideBody c tmp1 shifted m n = .ok (m', n') ∧ n ≤ n' ∧
      (m' tmp1).number =
        (m tmp1).number - subtrahend (m tmp1).number (m c.op2).number ∧
      (m' c.destQ).number = ((m c.destQ).number +
        quotientPart (m tmp1).number (m c.op2).number) % 2 ^ (32 * bigIntWords) ∧
      m' c.op1 = m c.op1 ∧ m' c.op2 = m c.op2 := by
  obtain ⟨hcmp, hk, hlost⟩ := hr.2 hle
  obtain ⟨m', n', a, hbody, hn, ha, hrest, hquot, hop⟩ := divideBody_turn hs ha hd hle hcmp hk
  refine ⟨m', n', hbody, hn, ?_, hquot, hop⟩
  rw [← ha] at hlost
  rw [hrest, ← ha]
  exact number_bigIntSub hlost (ha ▸ subtrahend_le hle)

end turn

/-- a division that is half done: the quotient has no bits below the ones that are still to come -/
def Dividing (a d q t : Nat) : Prop := ∃ i, 2 ^ i ∣ q ∧ q * d + t = a ∧ t < d * 2 ^ i

section dividing
variable {a d q t : Nat}

theorem dividing_start (hd : d ≠ 0) : Dividing a d 0 a := by
  refine ⟨a, Nat.dvd_zero _, by omega, ?_⟩
  calc a < 2 ^ a := Nat.lt_two_pow_self
    _ ≤ d * 2 ^ a := Nat.le_mul_of_pos_left _ (Nat.pos_of_ne_zero hd)

theorem mod_shift_eq {j : Nat} (hdvd : 2 ^ j ∣ q) (hsum : q * d + t = a) (hlt : t < d * 2 ^ j) :
    a % (d * 2 ^ j) = t := by
  obtain ⟨e, rfl⟩ := hdvd
  have hmul : a = t + d * 2 ^ j * e := by
    rw [← hsum]
    ring
  rw [hmul, Nat.add_mul_mod_self_left, Nat.mod_eq_of_lt hlt]

theorem Dividing.mod_eq (h : Dividing a d q t) : ∃ i, t = a % (d * 2 ^ i) := by
  obtain ⟨i, hdvd, hsum, hlt⟩ := h
  exact ⟨i, (mod_shift_eq hdvd hsum hlt).symm⟩

theorem subtrahend_pos (hd : d ≠ 0) (t : Nat) : 0 < subtrahend t d := by
  unfold subtrahend
  split
  · exact Nat.mul_pos (Nat.pos_of_ne_zero hd) (Nat.two_pow_pos _)
  · exact Nat.pos_of_ne_zero hd

theorem next_index {i : Nat} (hd : d ≠ 0) (hle : d ≤ t)
    (hk : d * 2 ^ diffBits t d ≤ t ∨ diffBits t d ≤ 1) (hdvd : 2 ^ i ∣ q) (hlt : t < d * 2 ^ i) :
    ∃ i' ≤ i, 2 ^ i' ∣ q + quotientPart t d ∧ t - subtrahend t d < d * 2 ^ i' ∧
      ∀ j, i' < j → t < d * 2 ^ j := by
  have hmono {k j : Nat} (h : k ≤ j) : d * 2 ^ k ≤ d * 2 ^ j :=
    Nat.mul_le_mul_left d (Nat.pow_le_pow_right (by omega) h)
  by_cases hge : d * 2 ^ diffBits t d ≤ t
  · have hki : diffBits t d ≤ i := by
      by_contra hc
      have hp := hmono (show i ≤ diffBits t d by omega)
      omega
    have hpart : quotientPart t d = 2 ^ diffBits t d := if_pos hge
    have hrest : subtrahend t d = d * 2 ^ diffBits t d := if_pos hge
    obtain ⟨hlo, -⟩ := shifted_bounds hd hle
    have hlog := Nat.lt_log2_self (n := t)
    rw [Nat.pow_succ] at hlog
    refine ⟨diffBits t d, hki, ?_, by omega, fun j hj => ?_⟩
    · rw [hpart]
      exact Nat.dvd_add ((Nat.pow_dvd_pow 2 hki).trans hdvd) (Nat.dvd_refl _)
    · have hp := hmono (Nat.succ_le_of_lt hj)
      rw [Nat.pow_succ, ← Nat.mul_assoc] at hp
      omega
  · have hrest : subtrahend t d = d := if_neg hge
    have hk0 : diffBits t d ≠ 0 := by
      intro hz
      rw [hz] at hge
      omega
    have hk1 : diffBits t d = 1 := by omega
    rw [hk1] at hge
    refine ⟨0, Nat.zero_le i, by rw [Nat.pow_zero]; exact Nat.one_dvd _, by omega, fun j hj => ?_⟩
    have hp := hmono (show 1 ≤ j from hj)
    omega

theorem Dividing.turn (h : Dividing a d q t) (hd : d ≠ 0) (hle : d ≤ t)
    (hk : d * 2 ^ diffBits t d ≤ t ∨ diffBits t d ≤ 1) :
    Dividing a d (q + quotientPart t d) (t - subtrahend t d) ∧ t - subtrahend t d < t := by
  obtain ⟨i, hdvd, hsum, hlt⟩ := h
  have hsub := subtrahend_le hle
  have hpos := subtrahend_pos hd t
  obtain ⟨i', -, hdvd', hlt', -⟩ := next_index hd hle hk hdvd hlt
  refine ⟨⟨i', hdvd', ?_, hlt'⟩, by omega⟩
  rw [Nat.add_mul, Nat.mul_comm (quotientPart t d), ← subtrahend_eq]
  omega

theorem Dividing.quotient_le (h : Dividing a d q t) (hd : d ≠ 0) : q ≤ a := by
  obtain ⟨i, -, hsum, -⟩ := h
  have := Nat.le_mul_of_pos_right q (Nat.pos_of_ne_zero hd)
  omega

end dividing

section run
variable {c : DivideCall} {tmp1 shifted : Nat} {a d : Nat}

/-- **The loop** divides if every turn is right: it ends, and what is left is less than the
divisor. -/
theorem divideLoop_right (h0 : c.malloc 0 = some tmp1) (h1 : c.malloc 1 = some shifted)
    (hmem : ∀ n, (c.malloc n).isSome) (hd : d ≠ 0) (ha : a < 2 ^ (32 * bigIntWords))
    (hright : ∀ i, StepRight (a % (d * 2 ^ i)) d) {m : BigIntMemory} {n t : Nat} (hn : 2 ≤ n)
    (ht : (m tmp1).number = t) (hd2 : (m c.op2).number = d)
    (hdiv : Dividing a d (m c.destQ).number t) :
    ∃ fuel m', divideLoop c tmp1 shifted fuel m n = some (.ok m') ∧
      (m' c.destQ).number * d + (m' tmp1).number = a ∧ (m' tmp1).number < d ∧
      m' c.op1 = m c.op1 ∧ m' c.op2 = m c.op2 := by
  induction t using Nat.strong_induction_on generalizing m n with
  | _ t ih =>
    obtain ⟨i, hi⟩ := hdiv.mod_eq
    have hr := hright i
    rw [← hi] at hr
    have hcmp := (bigIntCmp_right_iff (m tmp1) (m c.op2)).mpr (by rw [ht, hd2]; exact hr.1)
    rw [ht, hd2] at hcmp
    by_cases hle : d ≤ t
    · obtain ⟨adder, hadder⟩ := Option.isSome_iff_exists.mp (hmem n)
      obtain ⟨m', n', hbody, hn', hrest, hquot, hop1, hop2⟩ :=
        divideBody_right (separate_of_malloc h0 h1 hn hadder) hadder (hd2 ▸ hd)
          (by rw [ht, hd2]; exact hle) (by rw [ht, hd2]; exact hr)
      rw [ht, hd2] at hrest hquot
      obtain ⟨hturn, hless⟩ := hdiv.turn hd hle (hr.2 hle).2.1
      rw [Nat.mod_eq_of_lt ((hturn.quotient_le hd).trans_lt ha)] at hquot
      rw [← hquot] at hturn
      obtain ⟨fuel, m'', hrun, hsum, hlt, hop1', hop2'⟩ :=
        ih _ hless (n := n') (by omega) hrest (by rw [hop2, hd2]) hturn
      refine ⟨fuel + 1, m'', ?_, hsum, hlt, hop1'.trans hop1, hop2'.trans hop2⟩
      rw [divideLoop, if_pos (hcmp.mpr hle), hbody]
      exact hrun
    · obtain ⟨-, -, hsum, -⟩ := hdiv
      refine ⟨1, m, ?_, by rw [ht]; exact hsum, by omega, rfl, rfl⟩
      rw [divideLoop, if_neg fun h => hle (hcmp.mp h)]

/-- the division ends with the quotient and the remainder and leaves the operands alone -/
def Divides (c : DivideCall) (m : BigIntMemory) : Prop :=
  ∃ fuel m', teeBigIntDivide c m fuel = some (.ok m') ∧
    (m' c.destQ).number * (m c.op2).number + (m' c.destR).number = (m c.op1).number ∧
    (m' c.destR).number < (m c.op2).number ∧ m' c.op1 = m c.op1 ∧ m' c.op2 = m c.op2

def startMemory (c : DivideCall) (tmp1 shifted : Nat) (m : BigIntMemory) : BigIntMemory :=
  update (update (update m tmp1 BigInt.zero) shifted BigInt.zero) tmp1
    (update (update m tmp1 BigInt.zero) shifted BigInt.zero c.op1)

theorem teeBigIntDivide_eq (h0 : c.malloc 0 = some tmp1) (h1 : c.malloc 1 = some shifted)
    (m : BigIntMemory) (fuel : Nat) : teeBigIntDivide c m fuel =
      (divideLoop c tmp1 shifted fuel (startMemory c tmp1 shifted m) 2).map fun r =>
        r.map fun m => update m c.destR (m tmp1) := by
  unfold teeBigIntDivide
  rw [h0, h1]
  rfl

theorem TemporariesApart.start {adder : Nat} (hs : TemporariesApart c tmp1 shifted adder) (m : BigIntMemory) :
    startMemory c tmp1 shifted m tmp1 = m c.op1 ∧
      startMemory c tmp1 shifted m c.destQ = m c.destQ ∧
      startMemory c tmp1 shifted m c.op1 = m c.op1 ∧
      startMemory c tmp1 shifted m c.op2 = m c.op2 := by
  obtain ⟨htq, -, ht1, ht2⟩ := hs.tmp1_fresh
  obtain ⟨hsq, -, hs1, hs2⟩ := hs.shifted_fresh
  unfold startMemory
  refine ⟨?_, ?_, ?_, ?_⟩
  · rw [update_self, update_of_ne hs1.symm, update_of_ne ht1.symm]
  · rw [update_of_ne htq.symm, update_of_ne hsq.symm,
      update_of_ne htq.symm]
  · rw [update_of_ne ht1.symm, update_of_ne hs1.symm,
      update_of_ne ht1.symm]
  · rw [update_of_ne ht2.symm, update_of_ne hs2.symm,
      update_of_ne ht2.symm]

theorem divides_of_right {m : BigIntMemory} (hmem : ∀ n, (c.malloc n).isSome)
    (hq : (m c.destQ).number = 0) (hd : (m c.op2).number ≠ 0)
    (hright : ∀ i, StepRight ((m c.op1).number % ((m c.op2).number * 2 ^ i)) (m c.op2).number) :
    Divides c m := by
  obtain ⟨tmp1, h0⟩ := Option.isSome_iff_exists.mp (hmem 0)
  obtain ⟨shifted, h1⟩ := Option.isSome_iff_exists.mp (hmem 1)
  obtain ⟨adder, ha⟩ := Option.isSome_iff_exists.mp (hmem 2)
  have hs := separate_of_malloc h0 h1 (Nat.le_refl 2) ha
  obtain ⟨hst, hsq, hs1, hs2⟩ := hs.start m
  obtain ⟨htq, htr, -, -⟩ := hs.tmp1_fresh
  have hstart : Dividing (m c.op1).number (m c.op2).number
      (startMemory c tmp1 shifted m c.destQ).number (m c.op1).number := by
    rw [hsq, hq]
    exact dividing_start hd
  obtain ⟨fuel, m', hrun, hsum, hlt, hop1, hop2⟩ := divideLoop_right h0 h1 hmem hd
    (m c.op1).number_lt hright (Nat.le_refl 2) (by rw [hst]) (by rw [hs2]) hstart
  refine ⟨fuel, update m' c.destR (m' tmp1), ?_, ?_, ?_, ?_, ?_⟩
  · rw [teeBigIntDivide_eq h0 h1, hrun]
    rfl
  · rw [update_of_ne c.destQ_ne_destR, update_self]
    exact hsum
  · rw [update_self]
    exact hlt
  · rw [update_of_ne c.destR_ne_op1.symm, hop1, hs1]
  · rw [update_of_ne c.destR_ne_op2.symm, hop2, hs2]

end run

end SierraTee
