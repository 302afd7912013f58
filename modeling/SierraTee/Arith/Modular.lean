import SierraTee.Arith.Astray
import SierraTee.Arith.Compare
import SierraTee.Arith.Multiply

/-!
# Modular operations (`otz_tee_arith_api.c`)

Each operation makes its result in a temporary of the length of a big integer and divides that in
place: the temporary is the first operand of the division and takes its quotient.

* `divideLoop_frame`  what a division writes;
* `bigIntMult_short`  a product in a temporary of this length faults, unless nothing is added;
* `modOps_iff`        when all three are right.
-/

namespace SierraTee
open Function

open BigEndian

/-- the arguments of a modular operation, with what its calls of `TEE_Malloc` return one after the
other, the one for the temporary first: the destination is not the modulus and `TEE_Malloc` returns
objects that are not in use -/
structure ModCall where
  dest : Nat
  op1 : Nat
  op2 : Nat
  n : Nat
  malloc : Nat → Option Nat
  dest_ne_n : dest ≠ n
  malloc_fresh : ∀ k p, malloc k = some p → p ≠ dest ∧ p ≠ op1 ∧ p ≠ op2 ∧ p ≠ n
  malloc_once : ∀ i j p, malloc i = some p → malloc j = some p → i = j

/-- the call of `TEE_BigIntDivide` by a modular operation, after `k + 1` calls of `TEE_Malloc`; its
first operand is `dest_q`, so `op1` stands for no object of its own -/
def ModCall.division (c : ModCall) (k : Nat) (temp : Nat) (h : c.malloc 0 = some temp) :
    DivideCall where
  destQ := temp
  destR := c.dest
  op1 := c.n
  op2 := c.n
  malloc i := c.malloc (i + (k + 1))
  destQ_ne_destR := (c.malloc_fresh 0 temp h).1
  destQ_ne_op1 := (c.malloc_fresh 0 temp h).2.2.2
  destQ_ne_op2 := (c.malloc_fresh 0 temp h).2.2.2
  destR_ne_op1 := c.dest_ne_n
  destR_ne_op2 := c.dest_ne_n
  malloc_fresh i p hp := by
    obtain ⟨h1, -, -, h4⟩ := c.malloc_fresh _ p hp
    refine ⟨?_, h1, h4, h4⟩
    rintro rfl
    exact absurd (c.malloc_once _ _ _ hp h) (by omega)
  malloc_once i j p hi hj := by
    have := c.malloc_once _ _ _ hi hj
    omega

/-- `TEE_BigIntDivide` with `dest_q` as the first operand, which is read before it is written -/
def divideInPlace (c : DivideCall) (m : BigIntMemory) (fuel : Nat) :
    Option (Except DivideStop BigIntMemory) :=
  match c.malloc 0, c.malloc 1 with
  | some tmp1, some shifted =>
    let m := update (update m tmp1 BigInt.zero) shifted BigInt.zero
    let m := update m tmp1 (m c.destQ)
    (divideLoop c tmp1 shifted fuel m 2).map fun r =>
      r.map fun m => update m c.destR (m tmp1)
  | _, _ => some (.error .noMemory)

section operations
variable (c : ModCall) (m : BigIntMemory) (fuel : Nat)

/-- `TEE_BigIntAddMod`; without memory it writes to `NULL` -/
def teeBigIntAddMod : Option (Except DivideStop BigIntMemory) :=
  match h : c.malloc 0 with
  | none => some (.error .fault)
  | some temp =>
    let m := update m temp BigInt.zero
    let m := update m temp (bigIntAdd (m c.op1) (m c.op2))
    divideInPlace (c.division 0 temp h) m fuel

def teeBigIntSubMod : Option (Except DivideStop BigIntMemory) :=
  match h : c.malloc 0 with
  | none => some (.error .fault)
  | some temp =>
    let m := update m temp BigInt.zero
    let m := update m temp (bigIntSub (m c.op1) (m c.op2))
    divideInPlace (c.division 0 temp h) m fuel

def BigInt.ofWords? (words : List BigWord) : Option BigInt :=
  if h : words.length = bigIntWords then some ⟨words, h⟩ else none

/-- `TEE_BigIntMultMod`; `TEE_BigIntMult` has a temporary of its own and may leave the one it writes
to -/
def teeBigIntMultMod : Option (Except DivideStop BigIntMemory) :=
  match h : c.malloc 0, c.malloc 1 with
  | some temp, some _ =>
    let m := update m temp BigInt.zero
    match (bigIntMult (m temp).words (m c.op1) (m c.op2)).bind BigInt.ofWords? with
    | some product => divideInPlace (c.division 1 temp h) (update m temp product) fuel
    | none => some (.error .fault)
  | _, _ => some (.error .fault)

end operations

/-- an operation ends with its result in the destination and writes nothing but the destination and
its temporaries -/
def ModRight (c : ModCall) (m : BigIntMemory)
    (run : Nat → Option (Except DivideStop BigIntMemory)) (result : Int) : Prop :=
  ∃ fuel m', run fuel = some (.ok m') ∧ ((m' c.dest).number : Int) = result ∧
    ∀ p, p ≠ c.dest → (∀ k, c.malloc k ≠ some p) → m' p = m p

/-! ## what a division writes -/

section frame
variable {c : DivideCall} {tmp1 shifted adder p : Nat} {m m' : BigIntMemory} {n n' : Nat}

theorem shiftAt_frame {bits : Int} (h : shiftAt m shifted bits = .ok m') (hp : p ≠ shifted) :
    m' p = m p := by
  unfold shiftAt at h
  split at h
  · cases h
    exact update_of_ne hp _ _
  · cases h

theorem takeShifted_frame {k : Int} {w : BigWord} (h : takeShifted c tmp1 shifted m adder k w = .ok m')
    (hq : p ≠ c.destQ) (ht : p ≠ tmp1) (ha : p ≠ adder) : m' p = m p := by
  unfold takeShifted assignAt at h
  split at h
  · cases h
    rw [update_of_ne ht, update_of_ne hq, update_of_ne ha]
  · cases h

theorem takeDivisor_frame (hq : p ≠ c.destQ) (ht : p ≠ tmp1) : takeDivisor c tmp1 m p = m p := by
  unfold takeDivisor
  rw [update_of_ne hq, update_of_ne ht]

theorem divideAdder_frame {diffBit : Int} (h : divideAdder c tmp1 shifted m adder diffBit = .ok m')
    (hq : p ≠ c.destQ) (ht : p ≠ tmp1) (hs : p ≠ shifted) (ha : p ≠ adder) : m' p = m p := by
  have hzero : update m adder BigInt.zero p = m p := update_of_ne ha _ _
  unfold divideAdder at h
  dsimp only at h
  split_ifs at h with hcmp hbit
  · rw [takeShifted_frame h hq ht ha, hzero]
  · cases hshift : shiftAt (update m adder BigInt.zero) shifted (diffBit - 1) with
    | error e =>
      rw [hshift] at h
      cases h
    | ok m₁ =>
      rw [hshift] at h
      rw [takeShifted_frame h hq ht ha, shiftAt_frame hshift hs, hzero]
  · cases h
    rw [takeDivisor_frame hq ht, hzero]

theorem divideBody_frame (h : divideBody c tmp1 shifted m n = .ok (m', n')) (hq : p ≠ c.destQ)
    (ht : p ≠ tmp1) (hs : p ≠ shifted) (hfree : ∀ k, c.malloc k ≠ some p) : m' p = m p := by
  have hcopy : update m shifted (m c.op2) p = m p := update_of_ne hs _ _
  unfold divideBody at h
  dsimp only at h
  split_ifs at h with hbit
  · cases hshift : shiftAt (update m shifted (m c.op2)) shifted
        ((maxBitPos (m tmp1) : Int) - maxBitPos (m c.op2)) with
    | error e =>
      rw [hshift] at h
      cases h
    | ok m₁ =>
      rw [hshift] at h
      dsimp only [bind, Except.bind] at h
      cases ha : c.malloc n with
      | none =>
        rw [ha] at h
        cases h
      | some adder =>
        rw [ha] at h
        have hne : p ≠ adder := fun e => hfree n (e ▸ ha)
        change (divideAdder c tmp1 shifted m₁ adder _).bind _ = _ at h
        cases hadd : divideAdder c tmp1 shifted m₁ adder
            ((maxBitPos (m tmp1) : Int) - maxBitPos (m c.op2)) with
        | error e =>
          rw [hadd] at h
          cases h
        | ok m₂ =>
          rw [hadd] at h
          cases h
          rw [divideAdder_frame hadd hq ht hs hne, shiftAt_frame hshift hs, hcopy]
  · cases h
    rw [takeDivisor_frame hq ht, hcopy]

theorem divideLoop_frame (hq : p ≠ c.destQ) (ht : p ≠ tmp1) (hs : p ≠ shifted)
    (hfree : ∀ k, c.malloc k ≠ some p) {fuel : Nat}
    (h : divideLoop c tmp1 shifted fuel m n = some (.ok m')) : m' p = m p := by
  induction fuel generalizing m n with
  | zero => cases h
  | succ fuel ih =>
    rw [divideLoop] at h
    split_ifs at h with hcmp
    · cases hbody : divideBody c tmp1 shifted m n with
      | error e =>
        rw [hbody] at h
        cases h
      | ok r =>
        rw [hbody] at h
        rw [ih h, divideBody_frame hbody hq ht hs hfree]
    · cases h
      rfl

end frame

/-! ## a division with the quotient 0 or 1 -/

section numbers
variable {t d : Nat}

theorem diffBits_le_one (hd : d ≠ 0) (ht : t < 2 * d) : diffBits t d ≤ 1 := by
  have h1 := log2_mono (Nat.le_of_lt ht)
  have h2 : (2 * d).log2 = d.log2 + 1 := by
    have h := log2_mul_two_pow hd 1
    rwa [Nat.pow_one, Nat.mul_comm] at h
  unfold diffBits
  omega

theorem subtrahend_of_lt (hd : d ≠ 0) (ht : t < 2 * d) : subtrahend t d = d := by
  have h := diffBits_le_one hd ht
  unfold subtrahend
  split_ifs with hle
  · have h0 : diffBits t d = 0 := by
      by_contra hne
      have h1 : diffBits t d = 1 := by omega
      rw [h1] at hle
      omega
    rw [h0, Nat.pow_zero, Nat.mul_one]
  · rfl

theorem stepRight_of_lt (hd : d ≠ 0) (ht : t < 2 * d) (hF : 4 * d ≤ (2 ^ 32) ^ (bigIntWords - 1))
    (hkeep : ∀ j < bigIntWords - 1, ¬LosesBorrowAt t d j) : StepRight t d := by
  have hpow : 2 ^ diffBits t d ≤ 2 := Nat.pow_le_pow_right (by omega) (diffBits_le_one hd ht)
  have hshift : d * 2 ^ diffBits t d ≤ d * 2 := Nat.mul_le_mul_left d hpow
  refine ⟨cmpRight_of_lt (by omega) (by omega), fun _ => ⟨cmpRight_of_lt (by omega) (by omega),
    Or.inr (diffBits_le_one hd ht), ?_⟩⟩
  rw [subtrahend_of_lt hd ht]
  exact hkeep

end numbers

section inPlace
variable {c : DivideCall} {tmp1 shifted : Nat} {m : BigIntMemory} {t d : Nat}

def placeMemory (c : DivideCall) (tmp1 shifted : Nat) (m : BigIntMemory) : BigIntMemory :=
  update (update (update m tmp1 BigInt.zero) shifted BigInt.zero) tmp1
    (update (update m tmp1 BigInt.zero) shifted BigInt.zero c.destQ)

theorem divideInPlace_eq (h0 : c.malloc 0 = some tmp1) (h1 : c.malloc 1 = some shifted)
    (m : BigIntMemory) (fuel : Nat) : divideInPlace c m fuel =
      (divideLoop c tmp1 shifted fuel (placeMemory c tmp1 shifted m) 2).map fun r =>
        r.map fun m => update m c.destR (m tmp1) := by
  unfold divideInPlace
  rw [h0, h1]
  rfl

theorem placeMemory_tmp1 (h0 : c.malloc 0 = some tmp1) (h1 : c.malloc 1 = some shifted) :
    placeMemory c tmp1 shifted m tmp1 = m c.destQ := by
  rw [placeMemory, update_self, update_of_ne (c.malloc_fresh 1 shifted h1).1.symm,
    update_of_ne (c.malloc_fresh 0 tmp1 h0).1.symm]

theorem placeMemory_of_ne {p : Nat} (ht : p ≠ tmp1) (hs : p ≠ shifted) :
    placeMemory c tmp1 shifted m p = m p := by
  rw [placeMemory, update_of_ne ht, update_of_ne hs, update_of_ne ht]

theorem divideLoop_small (h0 : c.malloc 0 = some tmp1) (h1 : c.malloc 1 = some shifted)
    (hmem : ∀ k, (c.malloc k).isSome) {n : Nat} (hn : 2 ≤ n) (ht : (m tmp1).number = t)
    (hd : (m c.op2).number = d) (hd0 : d ≠ 0) (hlt : t < 2 * d)
    (hF : 4 * d ≤ (2 ^ 32) ^ (bigIntWords - 1))
    (hkeep : d ≤ t → ∀ j < bigIntWords - 1, ¬LosesBorrowAt t d j) :
    ∃ m', divideLoop c tmp1 shifted 2 m n = some (.ok m') ∧ (m' tmp1).number = t % d := by
  have hcmp := cmp_of_small ht hd (by omega) (by omega)
  by_cases hle : d ≤ t
  · obtain ⟨adder, ha⟩ := Option.isSome_iff_exists.mp (hmem n)
    have hs := separate_of_malloc h0 h1 hn ha
    obtain ⟨m', n', hbody, -, hrest, -, -, hop2⟩ := divideBody_right hs ha (by rw [hd]; exact hd0)
      (by rw [ht, hd]; exact hle) (by rw [ht, hd]; exact stepRight_of_lt hd0 hlt hF (hkeep hle))
    rw [ht, hd, subtrahend_of_lt hd0 hlt] at hrest
    have hcmp' := cmp_of_small hrest (hop2 ▸ hd) (by omega) (by omega)
    refine ⟨m', ?_, ?_⟩
    · rw [divideLoop, if_pos (hcmp.2 hle), hbody]
      change divideLoop c tmp1 shifted 1 m' n' = _
      rw [divideLoop, if_neg fun h => absurd (hcmp'.1 h) (by omega)]
    · rw [hrest, Nat.mod_eq_sub_mod hle, Nat.mod_eq_of_lt (by omega)]
  · refine ⟨m, ?_, ?_⟩
    · rw [divideLoop, if_neg fun h => hle (hcmp.1 h)]
    · rw [ht, Nat.mod_eq_of_lt (by omega)]

theorem divideInPlace_small (hmem : ∀ k, (c.malloc k).isSome) (ht : (m c.destQ).number = t)
    (hd : (m c.op2).number = d) (hd0 : d ≠ 0) (hlt : t < 2 * d)
    (hF : 4 * d ≤ (2 ^ 32) ^ (bigIntWords - 1))
    (hkeep : d ≤ t → ∀ j < bigIntWords - 1, ¬LosesBorrowAt t d j) :
    ∃ m', divideInPlace c m 2 = some (.ok m') ∧ (m' c.destR).number = t % d ∧
      ∀ p, p ≠ c.destQ → p ≠ c.destR → (∀ k, c.malloc k ≠ some p) → m' p = m p := by
  obtain ⟨tmp1, h0⟩ := Option.isSome_iff_exists.mp (hmem 0)
  obtain ⟨shifted, h1⟩ := Option.isSome_iff_exists.mp (hmem 1)
  have hop2 : placeMemory c tmp1 shifted m c.op2 = m c.op2 :=
    placeMemory_of_ne (c.malloc_fresh 0 tmp1 h0).2.2.2.symm (c.malloc_fresh 1 shifted h1).2.2.2.symm
  obtain ⟨m', hrun, hnum⟩ := divideLoop_small (m := placeMemory c tmp1 shifted m) h0 h1 hmem
    (Nat.le_refl 2) (by rw [placeMemory_tmp1 h0 h1]; exact ht) (by rw [hop2]; exact hd) hd0 hlt hF
    hkeep
  refine ⟨update m' c.destR (m' tmp1), ?_, ?_, ?_⟩
  · rw [divideInPlace_eq h0 h1, hrun]
    rfl
  · rw [update_self]
    exact hnum
  · intro p hq hr hfree
    have ht : p ≠ tmp1 := fun e => hfree 0 (e ▸ h0)
    have hs : p ≠ shifted := fun e => hfree 1 (e ▸ h1)
    rw [update_of_ne hr, divideLoop_frame hq ht hs hfree hrun, placeMemory_of_ne ht hs]

end inPlace

/-! ## a product in a temporary that is too short -/

section product
variable {op2 : BigInt} {s s' : MultObjects} {x : Nat}

theorem bigIntAddMult_short {dest op1 op2 : List BigWord} (h : dest.length < doubleWords) :
    bigIntAddMult dest op1 op2 = none := if_neg fun hc => absurd hc.1 (Nat.not_le_of_gt h)

theorem multStep_short (hlen : s.dest.length < doubleWords) (hx : x < 32 * bigIntWords)
    (h : multStep op2 s x = some s') : s'.dest = s.dest ∧ op2.number.testBit x = false := by
  rw [multStep, Option.bind_eq_some_iff] at h
  obtain ⟨temp, -, h⟩ := h
  rw [Option.map_eq_some_iff] at h
  obtain ⟨dest, hdest, rfl⟩ := h
  rw [bigIntGetBit_eq op2 hx] at hdest
  split_ifs at hdest with hbit
  · rw [bigIntAddMult_short hlen] at hdest
    cases hdest
  · exact ⟨(Option.some.inj hdest).symm, by simpa using hbit⟩

theorem multLoop_short (hlen : s.dest.length < doubleWords) (hx : x ≤ 32 * bigIntWords)
    (h : multLoop op2 s x = some s') :
    s'.dest = s.dest ∧ ∀ i < x, op2.number.testBit i = false := by
  induction x generalizing s' with
  | zero =>
    cases h
    exact ⟨rfl, fun i hi => absurd hi (Nat.not_lt_zero i)⟩
  | succ x ih =>
    rw [multLoop, Option.bind_eq_some_iff] at h
    obtain ⟨s₁, h₁, hstep⟩ := h
    obtain ⟨hdest, hbits⟩ := ih (by omega) h₁
    obtain ⟨hdest', hbit⟩ := multStep_short (by rw [hdest]; exact hlen) (by omega) hstep
    refine ⟨hdest'.trans hdest, fun i hi => ?_⟩
    rcases Nat.lt_or_eq_of_le (Nat.le_of_lt_succ hi) with hlt | rfl
    · exact hbits i hlt
    · exact hbit

theorem bigIntMult_short {dest : List BigWord} (hlen : dest.length < doubleWords) (a b : BigInt) :
    bigIntMult dest a b = if b.number = 0 then some dest else none := by
  have hbits := log2_lt_bits b
  split_ifs with hb
  · have hbit : bigIntGetBit b 0 = false := by
      rw [bigIntGetBit_eq b (by decide), hb, Nat.zero_testBit]
    rw [bigIntMult, maxBitPos_eq, hb, Nat.log2_zero, multLoop, multLoop, Option.bind_some, multStep,
      hbit]
    rfl
  · rw [bigIntMult, maxBitPos_eq, Option.map_eq_none_iff]
    cases hloop : multLoop b ⟨List.replicate bigIntWords 0 ++ a.words, dest⟩ (b.number.log2 + 1) with
    | none => rfl
    | some s' =>
      have htop := (multLoop_short hlen hbits hloop).2 b.number.log2 (Nat.lt_succ_self _)
      rw [Nat.testBit_log2 hb] at htop
      cases htop

end product

/-! ## the operations -/

theorem first_lt_all : (2 ^ 32) ^ (bigIntWords - 1) < 2 ^ (32 * bigIntWords) := by
  rw [← Nat.pow_mul]
  exact Nat.pow_lt_pow_right (by omega) (by decide)

theorem four_mul_lt {n : Nat} (h : n < 2 ^ bigIntNumberOfBits) :
    4 * n ≤ (2 ^ 32) ^ (bigIntWords - 1) := by
  calc 4 * n ≤ 4 * 2 ^ bigIntNumberOfBits := Nat.mul_le_mul_left 4 (Nat.le_of_lt h)
    _ = 2 ^ (2 + bigIntNumberOfBits) := by rw [Nat.pow_add]
    _ ≤ (2 ^ 32) ^ (bigIntWords - 1) := by
        rw [← Nat.pow_mul]
        exact Nat.pow_le_pow_right (by omega) (by decide)

section operations
variable {c : ModCall} {m : BigIntMemory} {temp fuel : Nat}

theorem teeBigIntAddMod_eq (h0 : c.malloc 0 = some temp) : teeBigIntAddMod c m fuel =
    divideInPlace (c.division 0 temp h0)
      (update m temp (bigIntAdd (m c.op1) (m c.op2))) fuel := by
  obtain ⟨-, h1, h2, -⟩ := c.malloc_fresh 0 temp h0
  unfold teeBigIntAddMod
  split
  next h => cases h0.symm.trans h
  next temp' h =>
    cases h0.symm.trans h
    dsimp only
    rw [update_of_ne h1.symm, update_of_ne h2.symm, update_idem]

theorem teeBigIntSubMod_eq (h0 : c.malloc 0 = some temp) : teeBigIntSubMod c m fuel =
    divideInPlace (c.division 0 temp h0)
      (update m temp (bigIntSub (m c.op1) (m c.op2))) fuel := by
  obtain ⟨-, h1, h2, -⟩ := c.malloc_fresh 0 temp h0
  unfold teeBigIntSubMod
  split
  next h => cases h0.symm.trans h
  next temp' h =>
    cases h0.symm.trans h
    dsimp only
    rw [update_of_ne h1.symm, update_of_ne h2.symm, update_idem]

theorem ofWords?_words (a : BigInt) : BigInt.ofWords? a.words = some a := by
  rw [BigInt.ofWords?, dif_pos a.length_words]

theorem teeBigIntMultMod_eq (h0 : c.malloc 0 = some temp) (h1 : (c.malloc 1).isSome) :
    teeBigIntMultMod c m fuel = if (m c.op2).number = 0 then
      divideInPlace (c.division 1 temp h0) (update m temp BigInt.zero) fuel
      else some (.error .fault) := by
  obtain ⟨-, hop1, hop2, -⟩ := c.malloc_fresh 0 temp h0
  obtain ⟨other, h1⟩ := Option.isSome_iff_exists.mp h1
  have hshort : (update m temp BigInt.zero temp).words.length < doubleWords := by
    rw [BigInt.length_words]
    decide
  unfold teeBigIntMultMod
  split
  next temp' other' h h' =>
    cases h0.symm.trans h
    dsimp only
    rw [bigIntMult_short hshort, update_self, update_of_ne hop2.symm]
    split_ifs with hb
    · rw [Option.bind_some, ofWords?_words]
      dsimp only
      rw [update_idem]
    · rfl
  next hno => exact absurd h1 (hno temp other h0)

theorem modRight_of_temp (h0 : c.malloc 0 = some temp) (k : Nat) {a : BigInt}
    {run : Nat → Option (Except DivideStop BigIntMemory)} {n : Nat}
    (hrun : run 2 = divideInPlace (c.division k temp h0) (update m temp a) 2)
    (hmem : ∀ k, (c.malloc k).isSome) (hn : (m c.n).number = n) (hn0 : n ≠ 0)
    (hlt : a.number < 2 * n) (hF : 4 * n ≤ (2 ^ 32) ^ (bigIntWords - 1))
    (hkeep : n ≤ a.number → ∀ j < bigIntWords - 1, ¬LosesBorrowAt a.number n j) :
    ModRight c m run ((a.number % n : Nat) : Int) := by
  have htemp := c.malloc_fresh 0 temp h0
  obtain ⟨m', hdiv, hnum, hframe⟩ := divideInPlace_small (c := c.division k temp h0)
    (m := update m temp a) (fun i => hmem _)
    (by
      change (update m temp a temp).number = a.number
      rw [update_self])
    (by
      change (update m temp a c.n).number = n
      rw [update_of_ne htemp.2.2.2.symm, hn])
    hn0 hlt hF hkeep
  refine ⟨2, m', hrun.trans hdiv, congrArg Nat.cast hnum, fun p hp hfree => ?_⟩
  have hpt : p ≠ temp := fun e => hfree 0 (e ▸ h0)
  rw [hframe p hpt hp (fun i => hfree _), update_of_ne hpt]

theorem number_bigIntSub_of_lt {a b : BigInt}
    (h : ∀ j < bigIntWords - 1, ¬LosesBorrowAt a.number b.number j) (hlt : a.number < b.number) :
    (bigIntSub a b).number + b.number = a.number + 2 ^ (32 * bigIntWords) := by
  obtain ⟨-, hsub⟩ := sub_value (b := 32) (by omega) (a.words.zip b.words)
  have hb := b.number_lt
  have hone := (subOut_eq (b := 32) (by omega) (a.words.zip b.words)).2 (by
    rw [map_fst_zip_words, map_snd_zip_words]
    exact hlt)
  rw [hone, ← bigIntSub_eq_iff.mpr h, map_fst_zip_words, map_snd_zip_words, length_zip_words,
    ← Nat.pow_mul, Nat.one_mul] at hsub
  exact hsub

theorem divideInPlace_wrapped {c : DivideCall} {m m' : BigIntMemory} {fuel : Nat}
    (hmem : ∀ k, (c.malloc k).isSome) (hfirst : firstWord (m c.destQ).number = 2 ^ 32 - 1)
    (hop2 : firstWord (m c.op2).number = 0) (h : divideInPlace c m fuel = some (.ok m')) :
    m' c.destR = m c.destQ := by
  obtain ⟨tmp1, h0⟩ := Option.isSome_iff_exists.mp (hmem 0)
  obtain ⟨shifted, h1⟩ := Option.isSome_iff_exists.mp (hmem 1)
  have hplace : placeMemory c tmp1 shifted m c.op2 = m c.op2 :=
    placeMemory_of_ne (c.malloc_fresh 0 tmp1 h0).2.2.2.symm (c.malloc_fresh 1 shifted h1).2.2.2.symm
  rw [divideInPlace_eq h0 h1, Option.map_eq_some_iff] at h
  obtain ⟨r, hrun, hr⟩ := h
  cases r with
  | error e => cases hr
  | ok m₁ =>
    cases hr
    have hcmp : ¬0 ≤ bigIntCmp (placeMemory c tmp1 shifted m tmp1)
        (placeMemory c tmp1 shifted m c.op2) := by
      rw [bigIntCmp_eq, placeMemory_tmp1 h0 h1, hplace, hfirst, hop2, if_neg (by decide),
        if_pos (by decide)]
      decide
    rw [divideLoop_stop hcmp hrun]
    change update _ c.destR _ c.destR = _
    rw [update_self, placeMemory_tmp1 h0 h1]

variable {a b n : Nat}

/-- **Sums**: right if no carry is lost, and no borrow if the modulus is subtracted. -/
theorem addModRight (hmem : ∀ k, (c.malloc k).isSome) (ha : (m c.op1).number = a)
    (hb : (m c.op2).number = b) (hn : (m c.n).number = n)
    (hsmall : a < n ∧ b < n ∧ n < 2 ^ bigIntNumberOfBits)
    (hcarry : ∀ j < bigIntWords - 1, ¬LosesCarryAt a b j)
    (hborrow : n ≤ a + b → ∀ j < bigIntWords - 1, ¬LosesBorrowAt (a + b) n j) :
    ModRight c m (teeBigIntAddMod c m) (((a : Int) + b) % n) := by
  obtain ⟨temp, h0⟩ := Option.isSome_iff_exists.mp (hmem 0)
  have hF := four_mul_lt hsmall.2.2
  have hsum : (bigIntAdd (m c.op1) (m c.op2)).number = a + b := by
    rw [number_bigIntAdd_of_keeps, ha, hb]
    · have := first_lt_all
      omega
    · rw [ha, hb]
      exact hcarry
  have h := modRight_of_temp (m := m) h0 0 (teeBigIntAddMod_eq h0) hmem hn (by omega)
    (by omega) hF (by rw [hsum]; exact hborrow)
  rw [hsum, Int.natCast_mod, Nat.cast_add] at h
  exact h

/-- **Differences**: without a lost borrow, right exactly if they are not negative. -/
theorem subModRight_iff (hmem : ∀ k, (c.malloc k).isSome) (ha : (m c.op1).number = a)
    (hb : (m c.op2).number = b) (hn : (m c.n).number = n)
    (hsmall : a < n ∧ b < n ∧ n < 2 ^ bigIntNumberOfBits)
    (hborrow : ∀ j < bigIntWords - 1, ¬LosesBorrowAt a b j) :
    ModRight c m (teeBigIntSubMod c m) (((a : Int) - b) % n) ↔ b ≤ a := by
  obtain ⟨temp, h0⟩ := Option.isSome_iff_exists.mp (hmem 0)
  have hF := four_mul_lt hsmall.2.2
  constructor
  · rintro ⟨fuel, m', hrun, hnum, -⟩
    by_contra hlt
    have hwrap : (bigIntSub (m c.op1) (m c.op2)).number + b = a + 2 ^ (32 * bigIntWords) := by
      have h := number_bigIntSub_of_lt (a := m c.op1) (b := m c.op2) (by rw [ha, hb]; exact hborrow)
        (by omega)
      rwa [ha, hb] at h
    have hall := first_lt_all
    have hfirst : firstWord (bigIntSub (m c.op1) (m c.op2)).number = 2 ^ 32 - 1 := by
      unfold firstWord
      have hsplit : 2 ^ (32 * bigIntWords) = 2 ^ 32 * (2 ^ 32) ^ (bigIntWords - 1) := by
        rw [← Nat.pow_succ', ← Nat.pow_mul]
        congr 1
      rw [hsplit] at hwrap hall
      generalize (2 ^ 32) ^ (bigIntWords - 1) = F at *
      apply Nat.div_eq_of_lt_le
      · omega
      · omega
    rw [teeBigIntSubMod_eq h0] at hrun
    have hdest := divideInPlace_wrapped (c := c.division 0 temp h0) (fun i => hmem _)
      (by
        change firstWord (update m temp _ temp).number = _
        rw [update_self, hfirst])
      (by
        change firstWord (update m temp _ c.n).number = _
        rw [update_of_ne (c.malloc_fresh 0 temp h0).2.2.2.symm, hn, firstWord]
        exact Nat.div_eq_of_lt (by omega))
      hrun
    change m' c.dest = update m temp _ temp at hdest
    rw [update_self] at hdest
    rw [hdest] at hnum
    have hrange := Int.emod_lt_of_pos ((a : Int) - b) (show (0 : Int) < n by omega)
    rw [← hnum] at hrange
    omega
  · intro hle
    have hdiff : (bigIntSub (m c.op1) (m c.op2)).number = a - b := by
      rw [number_bigIntSub, ha, hb]
      · rw [ha, hb]
        exact hborrow
      · rw [ha, hb]
        exact hle
    have h := modRight_of_temp (m := m) h0 0 (teeBigIntSubMod_eq h0) hmem hn (by omega) (by omega) hF
      fun hge => absurd hge (by omega)
    rw [hdiff, Int.natCast_mod, Nat.cast_sub hle] at h
    exact h

/-- **Products**: right only with zero, as the product does not fit the temporary. -/
theorem multModRight_iff (hmem : ∀ k, (c.malloc k).isSome) (hb : (m c.op2).number = b)
    (hn : (m c.n).number = n) (hsmall : b < n ∧ n < 2 ^ bigIntNumberOfBits) (a : Nat) :
    ModRight c m (teeBigIntMultMod c m) (((a : Int) * b) % n) ↔ b = 0 := by
  obtain ⟨temp, h0⟩ := Option.isSome_iff_exists.mp (hmem 0)
  constructor
  · rintro ⟨fuel, m', hrun, -, -⟩
    by_contra hb0
    rw [teeBigIntMultMod_eq h0 (hmem 1), if_neg (by rw [hb]; exact hb0)] at hrun
    cases hrun
  · intro hb0
    have hrun : teeBigIntMultMod c m 2 = _ := teeBigIntMultMod_eq h0 (hmem 1)
    rw [if_pos (hb.trans hb0)] at hrun
    have h := modRight_of_temp (m := m) h0 1 hrun hmem hn (by omega)
      (by rw [BigInt.number_zero]; omega) (four_mul_lt hsmall.2)
      fun hge => absurd hge (by rw [BigInt.number_zero]; omega)
    rw [BigInt.number_zero, Nat.zero_mod] at h
    rw [hb0, Nat.cast_zero, Int.mul_zero, Int.zero_emod]
    exact h

end operations

theorem not_losesCarryAt_zero (x j : Nat) : ¬LosesCarryAt x 0 j := by
  rintro ⟨-, h, -⟩
  rw [Nat.zero_div, Nat.zero_mod] at h
  exact absurd h (by decide)

theorem not_losesBorrowAt_zero (x j : Nat) : ¬LosesBorrowAt x 0 j := by
  rintro ⟨h, -⟩
  rw [Nat.zero_div, Nat.zero_mod] at h
  exact absurd h (by decide)

/-- **The modular operations** are all three right exactly if the second operand is zero: that is when
`TEE_BigIntMultMod` is.  `TEE_BigIntAddMod` is right if it loses no carry and no borrow, and
`TEE_BigIntSubMod`, if it loses no borrow, exactly for a difference that is not negative. -/
theorem modOps_iff (c : ModCall) (m : BigIntMemory) (a b n : Nat) (hmem : ∀ k, (c.malloc k).isSome)
    (ha : (m c.op1).number = a) (hb : (m c.op2).number = b) (hn : (m c.n).number = n)
    (han : a < n) (hbn : b < n) (hfit : n < 2 ^ bigIntNumberOfBits) :
    (ModRight c m (teeBigIntAddMod c m) (((a : Int) + b) % n) ∧
        ModRight c m (teeBigIntSubMod c m) (((a : Int) - b) % n) ∧
        ModRight c m (teeBigIntMultMod c m) (((a : Int) * b) % n) ↔ b = 0) ∧
    (ModRight c m (teeBigIntMultMod c m) (((a : Int) * b) % n) ↔ b = 0) ∧
    ((∀ j < bigIntWords - 1, ¬LosesCarryAt a b j) →
      (n ≤ a + b → ∀ j < bigIntWords - 1, ¬LosesBorrowAt (a + b) n j) →
        ModRight c m (teeBigIntAddMod c m) (((a : Int) + b) % n)) ∧
    ((∀ j < bigIntWords - 1, ¬LosesBorrowAt a b j) →
      (ModRight c m (teeBigIntSubMod c m) (((a : Int) - b) % n) ↔ b ≤ a)) := by
  have hsmall : a < n ∧ b < n ∧ n < 2 ^ bigIntNumberOfBits := ⟨han, hbn, hfit⟩
  have hadd := addModRight hmem ha hb hn hsmall
  have hsub := subModRight_iff hmem ha hb hn hsmall
  have hmult := multModRight_iff hmem hb hn hsmall.2 a
  refine ⟨⟨fun h => hmult.1 h.2.2, fun hb0 => ?_⟩, hmult, hadd, hsub⟩
  refine ⟨?_, ?_, hmult.2 hb0⟩
  · exact hadd (fun j _ => hb0 ▸ not_losesCarryAt_zero a j) fun hge => absurd hge (by omega)
  · exact (hsub fun j _ => hb0 ▸ not_losesBorrowAt_zero a j).2 (by omega)

/-- a call with objects at 1 to 4 and the ones of `TEE_Malloc` behind them -/
def smallModCall : ModCall where
  dest := 1
  op1 := 2
  op2 := 3
  n := 4
  malloc k := some (k + 5)
  dest_ne_n := by decide
  malloc_fresh k p h := by
    obtain rfl := Option.some.inj h
    omega
  malloc_once i j p hi hj := by
    obtain rfl := Option.some.inj hi
    have := Option.some.inj hj
    omega

/-- operands of one word -/
def modMemory (x y z : BigWord) (p : Nat) : BigInt :=
  if p = 2 then BigInt.zero.setWord 65 x
  else if p = 3 then BigInt.zero.setWord 65 y
  else if p = 4 then BigInt.zero.setWord 65 z
  else BigInt.zero

theorem three_fits : 3 < 2 ^ bigIntNumberOfBits :=
  calc 3 < 2 ^ 2 := by decide
    _ ≤ 2 ^ bigIntNumberOfBits := Nat.pow_le_pow_right (by decide) (by decide)

theorem modOps_two_one_three :
    (ModRight smallModCall (modMemory 2 1 3) (teeBigIntAddMod smallModCall (modMemory 2 1 3))
          (((2 : Nat) + (1 : Nat) : Int) % (3 : Nat)) ∧
        ModRight smallModCall (modMemory 2 1 3) (teeBigIntSubMod smallModCall (modMemory 2 1 3))
          (((2 : Nat) - (1 : Nat) : Int) % (3 : Nat)) ∧
        ModRight smallModCall (modMemory 2 1 3) (teeBigIntMultMod smallModCall (modMemory 2 1 3))
          (((2 : Nat) * (1 : Nat) : Int) % (3 : Nat)) ↔ 1 = 0) ∧
      ModRight smallModCall (modMemory 2 1 3) (teeBigIntAddMod smallModCall (modMemory 2 1 3))
        (((2 : Nat) + (1 : Nat) : Int) % (3 : Nat)) := by
  obtain ⟨hall, -, hadd, -⟩ := modOps_iff smallModCall (modMemory 2 1 3) 2 1 3 (fun _ => rfl)
    (by decide +kernel) (by decide +kernel) (by decide +kernel) (by decide) (by decide) three_fits
  exact ⟨hall, hadd (by decide +kernel) fun _ => by decide +kernel⟩

/-- `2 * 1` modulo 3 faults, and `1 - 2` modulo 3 is not 2 -/
theorem modOps_can_fail :
    ¬ModRight smallModCall (modMemory 2 1 3) (teeBigIntMultMod smallModCall (modMemory 2 1 3))
        (((2 : Nat) * (1 : Nat) : Int) % (3 : Nat)) ∧
      ¬ModRight smallModCall (modMemory 1 2 3) (teeBigIntSubMod smallModCall (modMemory 1 2 3))
        (((1 : Nat) - (2 : Nat) : Int) % (3 : Nat)) := by
  constructor
  · rw [multModRight_iff (fun _ => rfl) (b := 1) (n := 3) (by decide +kernel) (by decide +kernel)
      ⟨by decide, three_fits⟩]
    decide
  · rw [subModRight_iff (fun _ => rfl) (a := 1) (b := 2) (n := 3) (by decide +kernel)
      (by decide +kernel) (by decide +kernel) ⟨by decide, by decide, three_fits⟩ (by decide +kernel)]
    decide

end SierraTee
