import SierraTee.Arith.Borrows
import SierraTee.Arith.Divide

/-!
# Where the division goes astray

A turn of the loop that is not right, for numbers of half the length of a big integer and a divisor
whose binary digits do not begin with 32 ones.

* `divideBody_over`            a divisor that is shifted too far is shifted again before it is
                               subtracted;
* `divideLoop_over`            the loop ends with what is left of this;
* `divideLoop_astray`          after a lost borrow the results belong to a greater number;
* `teeBigIntDivide_right_iff`  the division is right exactly if every turn is.
-/

namespace SierraTee
open Function

section tooGreat
variable {c : DivideCall} {tmp1 shifted adder : Nat} {m : BigIntMemory} {n : Nat}

theorem divideAdder_over (hs : TemporariesApart c tmp1 shifted adder) {k : Nat} (hk : 2 ≤ k)
    (hk' : k / 31 < bigIntWords) (hcmp : ¬ 0 ≤ bigIntCmp (m tmp1) (m shifted)) {b : BigInt}
    (hshift : bigIntShift (m shifted) (BitVec.ofInt 32 (k - 1 : Nat)).toNat = some b) :
    ∃ m', divideAdder c tmp1 shifted m adder k = .ok m' ∧ m' tmp1 = bigIntSub (m tmp1) b ∧
      m' c.op1 = m c.op1 ∧ m' c.op2 = m c.op2 := by
  obtain ⟨ht, hsh, -, h1, h2⟩ := hs.update_adder (m := m) BigInt.zero
  obtain ⟨-, -, hs1, hs2⟩ := hs.shifted_fresh
  have hsub : (k : Int) - 1 = (k - 1 : Nat) := by omega
  have hne : (k : Int) - 1 ≠ 0 := by omega
  have hdiv : (k : Int).tdiv 31 = (k / 31 : Nat) := rfl
  have hshiftAt : shiftAt (update m adder BigInt.zero) shifted ((k : Int) - 1) =
      .ok (update (update m adder BigInt.zero) shifted b) := by
    rw [shiftAt, hsh, hsub, hshift]
  obtain ⟨m', hm', hturn⟩ := hs.takeShifted
    (m := update (update m adder BigInt.zero) shifted b) hk'
    (xPowerY 2 (BitVec.ofInt 32 ((k : Int).tmod 31 - 1)))
  refine ⟨m', ?_, ?_, ?_, ?_⟩
  · unfold divideAdder
    simp only [ht, hsh, if_neg hcmp, if_pos hne, hshiftAt, hdiv]
    exact hm'
  · rw [hturn.rest, update_of_ne hs.tmp1_shifted, ht, update_self]
  · rw [hturn.op1, update_of_ne hs1.symm, h1]
  · rw [hturn.op2, update_of_ne hs2.symm, h2]

theorem divideBody_over (hs : TemporariesApart c tmp1 shifted adder) (ha : c.malloc n = some adder)
    (hd : (m c.op2).number ≠ 0) (hle : (m c.op2).number ≤ (m tmp1).number) {k : Nat}
    (hk : diffBits (m tmp1).number (m c.op2).number = k) (hk2 : 2 ≤ k) (hk' : k / 31 < bigIntWords)
    (hcmp : CmpRight (m tmp1).number ((m c.op2).number * 2 ^ k))
    (hover : (m tmp1).number < (m c.op2).number * 2 ^ k)
    (hfit : (m c.op2).number * 2 ^ (2 * k - 1) < 2 ^ (32 * bigIntWords)) :
    ∃ m' b, divideBody c tmp1 shifted m n = .ok (m', n + 1) ∧
      b.number = (m c.op2).number * 2 ^ (2 * k - 1) ∧ m' tmp1 = bigIntSub (m tmp1) b ∧
      m' c.op1 = m c.op1 ∧ m' c.op2 = m c.op2 := by
  have hdiff := diffBit_eq hle
  have hbits : k < 32 * bigIntWords := by
    rw [← hk]
    exact (Nat.sub_le _ _).trans_lt (log2_lt_bits _)
  obtain ⟨-, hfits⟩ := shifted_bounds hd hle
  have hfits' := hfits.trans_le (Nat.pow_le_pow_right (by omega)
    (Nat.succ_le_of_lt (log2_lt_bits (m tmp1))))
  rw [hk] at hdiff hfits'
  obtain ⟨a, hshift, hnum⟩ := exists_bigIntShift (m c.op2) hbits
  rw [Nat.mod_eq_of_lt hfits'] at hnum
  obtain ⟨b, hshift', hnum'⟩ := exists_bigIntShift a (k := k - 1) (by omega)
  have hpow : a.number * 2 ^ (k - 1) = (m c.op2).number * 2 ^ (2 * k - 1) := by
    rw [hnum, Nat.mul_assoc, ← Nat.pow_add]
    congr 2
    omega
  rw [hpow, Nat.mod_eq_of_lt hfit] at hnum'
  obtain ⟨ht, hsh, -, h1, h2⟩ := hs.shiftedMemory (m := m) a
  have hcmp' := (bigIntCmp_right_iff (m tmp1) a).mpr (hnum ▸ hcmp)
  rw [hnum] at hcmp'
  obtain ⟨m', hm', hrest, hop1, hop2⟩ := divideAdder_over (m := shiftedMemory c shifted m a) hs hk2
    hk' (by rw [ht, hsh]; exact fun h => absurd (hcmp'.mp h) (by omega)) (by rw [hsh]; exact hshift')
  refine ⟨m', b, divideBody_adder ha hdiff (by omega) hshift hm', hnum', ?_, hop1.trans h1,
    hop2.trans h2⟩
  rw [hrest, ht]

end tooGreat

/-- the first 32 binary digits of a number are not all ones -/
def NotOnesFirst (d : Nat) : Prop := d * 2 ^ 31 < (2 ^ 32 - 1) * 2 ^ d.log2

instance (d : Nat) : Decidable (NotOnesFirst d) := inferInstanceAs (Decidable (_ < _))

/-- half of the bits of a big integer, but for its first word -/
def halfBits : Nat := 16 * (bigIntWords - 1)

section numbers
variable {t d : Nat}

theorem log2_mul_two_pow (hd : d ≠ 0) (k : Nat) : (d * 2 ^ k).log2 = d.log2 + k := by
  have hpos := Nat.two_pow_pos k
  rw [Nat.log2_eq_iff (Nat.mul_ne_zero hd (by omega)), Nat.add_right_comm, Nat.pow_add, Nat.pow_add]
  exact ⟨Nat.mul_le_mul_right _ (Nat.log2_self_le hd),
    Nat.mul_lt_mul_of_pos_right Nat.lt_log2_self hpos⟩

theorem NotOnesFirst.shift (h : NotOnesFirst d) (hd : d ≠ 0) (k : Nat) :
    NotOnesFirst (d * 2 ^ k) := by
  unfold NotOnesFirst at h ⊢
  rw [log2_mul_two_pow hd, Nat.pow_add, ← Nat.mul_assoc, Nat.mul_right_comm]
  exact Nat.mul_lt_mul_of_pos_right h (Nat.two_pow_pos k)

theorem NotOnesFirst.subtrahend (h : NotOnesFirst d) (hd : d ≠ 0) (t : Nat) :
    NotOnesFirst (subtrahend t d) := by
  unfold SierraTee.subtrahend
  split
  · exact h.shift hd _
  · exact h

theorem two_pow_halfBits : 2 ^ halfBits * 2 ^ halfBits = (2 ^ 32) ^ (bigIntWords - 1) := by
  rw [← Nat.pow_add, ← Nat.pow_mul]
  congr 1

theorem halfBits_lt : 2 ^ halfBits * 2 ^ halfBits < 2 ^ (32 * bigIntWords) := by
  have hw : bigIntWords = 66 := rfl
  rw [two_pow_halfBits, ← Nat.pow_mul]
  exact Nat.pow_lt_pow_right (by omega) (by omega)

theorem cmpRight_of_lt {x y : Nat} (hx : x < (2 ^ 32) ^ (bigIntWords - 1))
    (hy : y < (2 ^ 32) ^ (bigIntWords - 1)) : CmpRight x y := by
  left
  rw [firstWord, firstWord, Nat.div_eq_of_lt hx, Nat.div_eq_of_lt hy]

theorem half_lt_first {x : Nat} (h : x < 2 ^ halfBits) : x < (2 ^ 32) ^ (bigIntWords - 1) := by
  rw [← two_pow_halfBits]
  exact h.trans_le (Nat.le_mul_of_pos_right _ (Nat.two_pow_pos _))

theorem shifted_le_half (hd : d ≠ 0) (hle : d ≤ t) (ht : t < 2 ^ halfBits) :
    d * 2 ^ diffBits t d < 2 ^ halfBits ∧ diffBits t d < halfBits := by
  obtain ⟨-, hhi⟩ := shifted_bounds hd hle
  have hlog : t.log2 < halfBits := (Nat.log2_lt (by omega)).mpr ht
  exact ⟨hhi.trans_le (Nat.pow_le_pow_right (by omega) hlog), (Nat.sub_le _ _).trans_lt hlog⟩

end numbers

section loop
variable {c : DivideCall} {tmp1 shifted adder : Nat} {m m' : BigIntMemory}
  {n fuel a d q t : Nat}

theorem divideLoop_stop (hcmp : ¬ 0 ≤ bigIntCmp (m tmp1) (m c.op2))
    (hrun : divideLoop c tmp1 shifted fuel m n = some (.ok m')) : m' = m := by
  cases fuel with
  | zero => cases hrun
  | succ fuel =>
    rw [divideLoop, if_neg hcmp] at hrun
    cases hrun
    rfl

theorem divideLoop_turn {m₁ : BigIntMemory} {n₁ : Nat} (hcmp : 0 ≤ bigIntCmp (m tmp1) (m c.op2))
    (hbody : divideBody c tmp1 shifted m n = .ok (m₁, n₁))
    (hrun : divideLoop c tmp1 shifted fuel m n = some (.ok m')) :
    ∃ fuel₁, divideLoop c tmp1 shifted fuel₁ m₁ n₁ = some (.ok m') := by
  cases fuel with
  | zero => cases hrun
  | succ fuel =>
    rw [divideLoop, if_pos hcmp, hbody] at hrun
    exact ⟨fuel, hrun⟩

theorem cmp_of_small (ht : (m tmp1).number = t) (hd : (m c.op2).number = d)
    (htF : t < (2 ^ 32) ^ (bigIntWords - 1)) (hdF : d < (2 ^ 32) ^ (bigIntWords - 1)) :
    0 ≤ bigIntCmp (m tmp1) (m c.op2) ↔ d ≤ t := by
  rw [(bigIntCmp_right_iff _ _).mpr (by rw [ht, hd]; exact cmpRight_of_lt htF hdF), ht, hd]

theorem divideLoop_over (h0 : c.malloc 0 = some tmp1) (h1 : c.malloc 1 = some shifted)
    (hmem : ∀ n, (c.malloc n).isSome) (hn : 2 ≤ n) (ht : (m tmp1).number = t)
    (hd : (m c.op2).number = d) (hd0 : d ≠ 0) (hle : d ≤ t) (hhalf : t < 2 ^ halfBits)
    (hones : NotOnesFirst d) (hk : 2 ≤ diffBits t d) (hover : t < d * 2 ^ diffBits t d)
    (hrun : divideLoop c tmp1 shifted fuel m n = some (.ok m')) : d ≤ (m' tmp1).number := by
  obtain ⟨adder, ha⟩ := Option.isSome_iff_exists.mp (hmem n)
  obtain ⟨hshift, hbits⟩ := shifted_le_half hd0 hle hhalf
  have hdF := half_lt_first (hle.trans_lt hhalf)
  have hw : bigIntWords = 66 := rfl
  have hfit : d * 2 ^ (2 * diffBits t d - 1) < (2 ^ 32) ^ (bigIntWords - 1) := by
    have e : d * 2 ^ (2 * diffBits t d - 1) = d * 2 ^ diffBits t d * 2 ^ (diffBits t d - 1) := by
      rw [Nat.mul_assoc, ← Nat.pow_add]
      congr 2
      omega
    rw [e, ← two_pow_halfBits]
    exact Nat.mul_lt_mul_of_lt_of_le hshift (Nat.pow_le_pow_right (by omega) (by omega))
      (Nat.two_pow_pos _)
  have hfit' : d * 2 ^ (2 * diffBits t d - 1) < 2 ^ (32 * bigIntWords) := by
    rw [← two_pow_halfBits] at hfit
    exact hfit.trans halfBits_lt
  obtain ⟨m₁, b, hbody, hb, hrest, -, hop2⟩ := divideBody_over (m := m) (k := diffBits t d)
    (separate_of_malloc h0 h1 hn ha) ha (hd ▸ hd0) (by rw [ht, hd]; exact hle) (by rw [ht, hd]) hk
    (by unfold halfBits at hbits; omega)
    (by rw [ht, hd]; exact cmpRight_of_lt (half_lt_first hhalf) (half_lt_first hshift))
    (by rw [ht, hd]; exact hover) (by rw [hd]; exact hfit')
  rw [hd] at hb
  have hb0 : b.number ≠ 0 := by
    rw [hb]
    exact Nat.mul_ne_zero hd0 (Nat.pos_iff_ne_zero.mp (Nat.two_pow_pos _))
  have htwice : 2 * (m tmp1).number ≤ b.number := by
    have hp : 2 ^ (diffBits t d + 1) ≤ 2 ^ (2 * diffBits t d - 1) :=
      Nat.pow_le_pow_right (by omega) (by omega)
    have h2 := Nat.mul_le_mul_left d hp
    rw [Nat.pow_succ, ← Nat.mul_assoc] at h2
    rw [ht, hb]
    omega
  have hfirst := firstWord_bigIntSub htwice hb0 (by rw [hb]; exact hones.shift hd0 _)
    (by rw [hb]; exact hfit)
  rw [← hrest] at hfirst
  have hge : d ≤ (m₁ tmp1).number := by
    rw [firstWord] at hfirst
    by_contra hc
    rw [Nat.div_eq_of_lt (by omega)] at hfirst
    omega
  have hwrong : ¬ CmpRight (m₁ tmp1).number (m₁ c.op2).number := by
    have hz : firstWord d = 0 := Nat.div_eq_of_lt hdF
    rw [hop2, hd]
    unfold CmpRight
    rw [hfirst, hz]
    omega
  have hstop : ¬ 0 ≤ bigIntCmp (m₁ tmp1) (m₁ c.op2) := by
    intro hc
    refine hwrong ((bigIntCmp_right_iff _ _).mp (iff_of_true hc ?_))
    rw [hop2, hd]
    exact hge
  obtain ⟨fuel₁, hrun₁⟩ := divideLoop_turn
    ((cmp_of_small ht hd (half_lt_first hhalf) hdF).mpr hle) hbody hrun
  rw [divideLoop_stop hstop hrun₁]
  exact hge

theorem divideBody_half (hs : TemporariesApart c tmp1 shifted adder) (ha : c.malloc n = some adder)
    (ht : (m tmp1).number = t) (hd : (m c.op2).number = d) (hq : (m c.destQ).number = q)
    (hd0 : d ≠ 0) (hle : d ≤ t) (hhalf : t < 2 ^ halfBits) (hones : NotOnesFirst d)
    (hk : d * 2 ^ diffBits t d ≤ t ∨ diffBits t d ≤ 1)
    (hbound : q + t * 2 ^ halfBits ≤ 2 ^ halfBits * 2 ^ halfBits) :
    ∃ m₁ n₁, divideBody c tmp1 shifted m n = .ok (m₁, n₁) ∧ n ≤ n₁ ∧
      (m₁ tmp1).number < t ∧ t ≤ (m₁ tmp1).number + subtrahend t d ∧
      ((m₁ tmp1).number = t - subtrahend t d ↔
        ∀ j < bigIntWords - 1, ¬ LosesBorrowAt t (subtrahend t d) j) ∧
      (m₁ c.destQ).number = q + quotientPart t d ∧ m₁ c.op2 = m c.op2 ∧
      q + quotientPart t d + (m₁ tmp1).number * 2 ^ halfBits ≤ q + t * 2 ^ halfBits := by
  obtain ⟨hshift, -⟩ := shifted_le_half hd0 hle hhalf
  have hsub := subtrahend_le hle
  have hpos := subtrahend_pos hd0 t
  obtain ⟨m₁, n₁, a, hbody, hn, hnum, hrest, hquot, -, hop2⟩ := divideBody_turn hs ha (hd ▸ hd0)
    (by rw [ht, hd]; exact hle)
    (by rw [ht, hd]; exact cmpRight_of_lt (half_lt_first hhalf) (half_lt_first hshift))
    (by rw [ht, hd]; exact hk)
  rw [ht, hd] at hnum hquot
  rw [hq] at hquot
  have hlt := number_bigIntSub_lt (a := m tmp1) (b := a) (by rw [ht, hnum]; exact hsub)
    (by rw [hnum]; omega) (by rw [hnum]; exact hones.subtrahend hd0 t)
  have hlow := le_number_bigIntSub (m tmp1) a
  have hiff := number_bigIntSub_iff (a := m tmp1) (b := a) (by rw [ht, hnum]; exact hsub)
  rw [← hrest, ht] at hlt hlow hiff
  rw [hnum] at hlow hiff
  have hpart : quotientPart t d ≤ 2 ^ halfBits := by
    have h1 := Nat.le_mul_of_pos_left (quotientPart t d) (Nat.pos_of_ne_zero hd0)
    rw [← subtrahend_eq] at h1
    omega
  have hstep : q + quotientPart t d + (m₁ tmp1).number * 2 ^ halfBits ≤
      q + t * 2 ^ halfBits := by
    have h1 := Nat.mul_le_mul_right (2 ^ halfBits) (Nat.succ_le_of_lt hlt)
    rw [Nat.succ_mul] at h1
    omega
  have hN := halfBits_lt
  rw [Nat.mod_eq_of_lt (by omega)] at hquot
  exact ⟨m₁, n₁, hbody, hn, hlt, hlow, hiff, hquot, hop2, hstep⟩

theorem divideLoop_astray (h0 : c.malloc 0 = some tmp1) (h1 : c.malloc 1 = some shifted)
    (hmem : ∀ n, (c.malloc n).isSome) (hd0 : d ≠ 0) (hdF : d < (2 ^ 32) ^ (bigIntWords - 1))
    (hones : NotOnesFirst d) (hn : 2 ≤ n) (ht : (m tmp1).number = t)
    (hd : (m c.op2).number = d) (hhalf : t < 2 ^ halfBits)
    (hbound : (m c.destQ).number + t * 2 ^ halfBits ≤ 2 ^ halfBits * 2 ^ halfBits)
    (hmore : a < (m c.destQ).number * d + t)
    (hrun : divideLoop c tmp1 shifted fuel m n = some (.ok m')) :
    ¬ ((m' c.destQ).number * d + (m' tmp1).number = a ∧ (m' tmp1).number < d) := by
  rintro ⟨hsum, hlt⟩
  induction t using Nat.strong_induction_on generalizing m n fuel with
  | _ t ih =>
    have hcmp := cmp_of_small ht hd (half_lt_first hhalf) hdF
    by_cases hle : d ≤ t
    · by_cases hk : d * 2 ^ diffBits t d ≤ t ∨ diffBits t d ≤ 1
      · obtain ⟨adder, ha⟩ := Option.isSome_iff_exists.mp (hmem n)
        obtain ⟨m₁, n₁, hbody, hn₁, hless, hlow, -, hquot, hop2, hstep⟩ :=
          divideBody_half (separate_of_malloc h0 h1 hn ha) ha ht hd rfl hd0 hle hhalf hones hk hbound
        obtain ⟨fuel₁, hrun₁⟩ := divideLoop_turn (hcmp.mpr hle) hbody hrun
        refine ih _ hless (n := n₁) (by omega) rfl (by rw [hop2, hd]) (hless.trans hhalf)
          (by rw [hquot]; exact hstep.trans hbound) ?_ hrun₁
        rw [hquot, Nat.add_mul, Nat.mul_comm (quotientPart t d), ← subtrahend_eq]
        omega
      · have hge := divideLoop_over h0 h1 hmem hn ht hd hd0 hle hhalf hones (by omega) (by omega)
          hrun
        omega
    · rw [divideLoop_stop (fun h => hle (hcmp.mp h)) hrun, ht] at hsum
      omega

theorem divideLoop_stepRight (h0 : c.malloc 0 = some tmp1) (h1 : c.malloc 1 = some shifted)
    (hmem : ∀ n, (c.malloc n).isSome) (hd0 : d ≠ 0) (hdF : d < (2 ^ 32) ^ (bigIntWords - 1))
    (hones : NotOnesFirst d) (ha : a < 2 ^ halfBits) (hn : 2 ≤ n) (ht : (m tmp1).number = t)
    (hd : (m c.op2).number = d) (hq : (m c.destQ).number = q) {i : Nat} (hdvd : 2 ^ i ∣ q)
    (hsum : q * d + t = a) (hlt : t < d * 2 ^ i)
    (hrun : divideLoop c tmp1 shifted fuel m n = some (.ok m'))
    (hsum' : (m' c.destQ).number * d + (m' tmp1).number = a) (hlt' : (m' tmp1).number < d) :
    ∀ j ≤ i, StepRight (a % (d * 2 ^ j)) d := by
  induction t using Nat.strong_induction_on generalizing m n fuel q i with
  | _ t ih =>
    have hhalf : t < 2 ^ halfBits := by omega
    have htF := half_lt_first hhalf
    have hcmp := cmp_of_small ht hd htF hdF
    have hmod (j : Nat) (hj : j ≤ i) (hjt : t < d * 2 ^ j) : a % (d * 2 ^ j) = t :=
      mod_shift_eq ((Nat.pow_dvd_pow 2 hj).trans hdvd) hsum hjt
    by_cases hle : d ≤ t
    · by_cases hk : d * 2 ^ diffBits t d ≤ t ∨ diffBits t d ≤ 1
      · have hbound : q + t * 2 ^ halfBits ≤ 2 ^ halfBits * 2 ^ halfBits := by
          have hqd := Nat.le_mul_of_pos_right q (Nat.pos_of_ne_zero hd0)
          have hqt : q + t ≤ 2 ^ halfBits := by omega
          have hmul := Nat.mul_le_mul_right (2 ^ halfBits) hqt
          rw [Nat.add_mul] at hmul
          have hq2 := Nat.le_mul_of_pos_right q (Nat.two_pow_pos halfBits)
          omega
        obtain ⟨adder, hadder⟩ := Option.isSome_iff_exists.mp (hmem n)
        obtain ⟨m₁, n₁, hbody, hn₁, hless, hlow, hiff, hquot, hop2, hstep⟩ :=
          divideBody_half (separate_of_malloc h0 h1 hn hadder) hadder ht hd hq hd0 hle hhalf hones
            hk hbound
        obtain ⟨fuel₁, hrun₁⟩ := divideLoop_turn (hcmp.mpr hle) hbody hrun
        have hsubt := subtrahend_le hle
        have hqd : (q + quotientPart t d) * d = q * d + subtrahend t d := by
          rw [Nat.add_mul, Nat.mul_comm (quotientPart t d), ← subtrahend_eq]
        by_cases hexact : (m₁ tmp1).number = t - subtrahend t d
        · have hright : StepRight t d :=
            ⟨cmpRight_of_lt htF hdF, fun _ =>
              ⟨cmpRight_of_lt htF (half_lt_first (shifted_le_half hd0 hle hhalf).1), hk,
                hiff.mp hexact⟩⟩
          obtain ⟨i', hi', hdvd', hlt₁, hvisited⟩ := next_index hd0 hle hk hdvd hlt
          intro j hj
          by_cases hji : j ≤ i'
          · exact ih _ hless (n := n₁) (by omega) rfl (by rw [hop2, hd]) hquot hdvd' (by omega)
              (by omega) hrun₁ j hji
          · rw [hmod j hj (hvisited j (by omega))]
            exact hright
        · have hastray := divideLoop_astray (a := a) h0 h1 hmem hd0 hdF hones
            (n := n₁) (by omega) rfl (by rw [hop2, hd]) (hless.trans hhalf)
            (by rw [hquot]; exact hstep.trans hbound) (by rw [hquot, hqd]; omega) hrun₁
          exact absurd ⟨hsum', hlt'⟩ hastray
      · have hge := divideLoop_over h0 h1 hmem hn ht hd hd0 hle hhalf hones (by omega) (by omega)
          hrun
        omega
    · intro j hj
      have hpos := Nat.le_mul_of_pos_right d (Nat.two_pow_pos j)
      rw [hmod j hj (by omega)]
      exact ⟨cmpRight_of_lt htF hdF, fun h => absurd h hle⟩

theorem divideLoop_fault (ht : (m tmp1).number = t) (hd : (m c.op2).number = d)
    (hhalf : t < 2 ^ halfBits) (hdF : (2 ^ 32) ^ (bigIntWords - 1) ≤ d) :
    divideLoop c tmp1 shifted fuel m n ≠ some (.ok m') := by
  intro hrun
  have htF := half_lt_first hhalf
  have hw : bigIntWords = 66 := rfl
  have hfirst : firstWord t = 0 := Nat.div_eq_of_lt htF
  have hfirst' : 0 < firstWord d := Nat.div_pos hdF (by positivity)
  have hwrong : ¬ CmpRight t d := by
    unfold CmpRight
    rw [hfirst]
    omega
  have hcmp : 0 ≤ bigIntCmp (m tmp1) (m c.op2) := by
    by_contra hc
    refine hwrong ?_
    rw [← ht, ← hd]
    exact (bigIntCmp_right_iff _ _).mp (iff_of_false hc (by rw [ht, hd]; omega))
  have hlogt : t.log2 < 32 * (bigIntWords - 1) := by
    by_cases h0 : t = 0
    · rw [h0]
      decide
    · rw [Nat.log2_lt h0, Nat.pow_mul]
      exact htF
  have hlogd : 32 * (bigIntWords - 1) ≤ d.log2 := by
    have hd0 : d ≠ 0 := by
      have := Nat.pow_pos (n := bigIntWords - 1) (show 0 < 2 ^ 32 by omega)
      omega
    rw [Nat.le_log2 hd0, Nat.pow_mul]
    exact hdF
  have hlogd' : d.log2 < 32 * bigIntWords := hd ▸ log2_lt_bits (m c.op2)
  have hne : (t.log2 : Int) - d.log2 ≠ 0 := by omega
  have hshift : shiftAt (update m shifted (m c.op2)) shifted ((t.log2 : Int) - d.log2) =
      .error .fault := by
    have hbits : ¬ (BitVec.ofInt 32 ((t.log2 : Int) - d.log2)).toNat / 32 ≤ bigIntWords := by
      rw [BitVec.toNat_ofInt]
      omega
    rw [shiftAt, bigIntShift, dif_neg hbits]
  have hbody : divideBody c tmp1 shifted m n = .error .fault := by
    simp only [divideBody, maxBitPos_eq, ht, hd]
    rw [if_pos hne, hshift]
    rfl
  cases fuel with
  | zero => cases hrun
  | succ fuel =>
    rw [divideLoop, if_pos hcmp, hbody] at hrun
    cases hrun

end loop

section divide
variable {c : DivideCall} {m : BigIntMemory}

theorem Divides.loop {tmp1 shifted : Nat} (h : Divides c m) (h0 : c.malloc 0 = some tmp1)
    (h1 : c.malloc 1 = some shifted) (hne : c.destR ≠ c.destQ) :
    ∃ fuel m', divideLoop c tmp1 shifted fuel (startMemory c tmp1 shifted m) 2 = some (.ok m') ∧
      (m' c.destQ).number * (m c.op2).number + (m' tmp1).number = (m c.op1).number ∧
      (m' tmp1).number < (m c.op2).number := by
  obtain ⟨fuel, m', hrun, hsum, hlt, -, -⟩ := h
  rw [teeBigIntDivide_eq h0 h1] at hrun
  obtain ⟨r, hr, hmap⟩ := Option.map_eq_some_iff.mp hrun
  cases r with
  | error e => cases hmap
  | ok m₁ =>
    obtain rfl : update m₁ c.destR (m₁ tmp1) = m' := Except.ok.inj hmap
    rw [update_of_ne hne.symm, update_self] at hsum
    rw [update_self] at hlt
    exact ⟨fuel, m₁, hr, hsum, hlt⟩

theorem Divides.stepRight (h : Divides c m) (hmem : ∀ n, (c.malloc n).isSome)
    (hq : (m c.destQ).number = 0) (hd : (m c.op2).number ≠ 0)
    (hhalf : (m c.op1).number < 2 ^ halfBits) (hones : NotOnesFirst (m c.op2).number) (i : Nat) :
    StepRight ((m c.op1).number % ((m c.op2).number * 2 ^ i)) (m c.op2).number := by
  obtain ⟨tmp1, h0⟩ := Option.isSome_iff_exists.mp (hmem 0)
  obtain ⟨shifted, h1⟩ := Option.isSome_iff_exists.mp (hmem 1)
  obtain ⟨adder, ha⟩ := Option.isSome_iff_exists.mp (hmem 2)
  obtain ⟨hst, hsq, -, hs2⟩ := (separate_of_malloc h0 h1 (Nat.le_refl 2) ha).start m
  obtain ⟨fuel, m', hrun, hsum, hlt⟩ := h.loop h0 h1 c.destQ_ne_destR.symm
  by_cases hdF : (m c.op2).number < (2 ^ 32) ^ (bigIntWords - 1)
  · have hbig : (m c.op1).number < (m c.op2).number * 2 ^ max i (m c.op1).number :=
      calc (m c.op1).number < 2 ^ (m c.op1).number := Nat.lt_two_pow_self
        _ ≤ 2 ^ max i (m c.op1).number := Nat.pow_le_pow_right (by omega) (Nat.le_max_right _ _)
        _ ≤ _ := Nat.le_mul_of_pos_left _ (Nat.pos_of_ne_zero hd)
    exact divideLoop_stepRight h0 h1 hmem hd hdF hones hhalf (Nat.le_refl 2) (by rw [hst])
      (by rw [hs2]) (q := 0) (by rw [hsq, hq]) (Nat.dvd_zero _) (by omega) hbig hrun hsum hlt i
      (Nat.le_max_left _ _)
  · exact absurd hrun (divideLoop_fault (t := (m c.op1).number) (d := (m c.op2).number)
      (by rw [hst]) (by rw [hs2]) hhalf (by omega))

end divide

/-- **The division** ends with quotient and remainder if every turn is right; for a dividend of half
the length and a divisor that does not begin with 32 ones it does so only then. -/
theorem teeBigIntDivide_right_iff (c : DivideCall) (m : BigIntMemory)
    (hmem : ∀ n, (c.malloc n).isSome) (hq : (m c.destQ).number = 0) (hd : (m c.op2).number ≠ 0) :
    ((∀ i, StepRight ((m c.op1).number % ((m c.op2).number * 2 ^ i)) (m c.op2).number) →
      Divides c m) ∧
    ((m c.op1).number < 2 ^ halfBits → NotOnesFirst (m c.op2).number →
      (Divides c m ↔
        ∀ i, StepRight ((m c.op1).number % ((m c.op2).number * 2 ^ i)) (m c.op2).number)) :=
  ⟨divides_of_right hmem hq hd, fun hhalf hones =>
    ⟨fun h => h.stepRight hmem hq hd hhalf hones, divides_of_right hmem hq hd⟩⟩

/-- a call with objects at 0 to 3 and the ones of `TEE_Malloc` behind them -/
def smallCall : DivideCall where
  destQ := 0
  destR := 1
  op1 := 2
  op2 := 3
  malloc n := some (n + 4)
  destQ_ne_destR := by decide
  destQ_ne_op1 := by decide
  destQ_ne_op2 := by decide
  destR_ne_op1 := by decide
  destR_ne_op2 := by decide
  malloc_fresh n p h := by
    obtain rfl := Option.some.inj h
    omega
  malloc_once i j p hi hj := by
    obtain rfl := Option.some.inj hi
    have := Option.some.inj hj
    omega

/-- two operands of one word -/
def smallMemory (x y : BigWord) (p : Nat) : BigInt :=
  if p = 2 then BigInt.zero.setWord 65 x
  else if p = 3 then BigInt.zero.setWord 65 y
  else BigInt.zero

theorem six_by_three : Divides smallCall (smallMemory 6 3) ∧
    (Divides smallCall (smallMemory 6 3) ↔ ∀ i, StepRight (6 % (3 * 2 ^ i)) 3) := by
  have h6 : (smallMemory 6 3 smallCall.op1).number = 6 := by decide +kernel
  have h3 : (smallMemory 6 3 smallCall.op2).number = 3 := by decide +kernel
  have h0 : (smallMemory 6 3 smallCall.destQ).number = 0 := by decide +kernel
  obtain ⟨hright, hiff⟩ := teeBigIntDivide_right_iff smallCall (smallMemory 6 3) (fun _ => rfl) h0
    (by rw [h3]; decide)
  rw [h6, h3] at hright hiff
  refine ⟨hright ?_, hiff ?_ (by decide +kernel)⟩
  · intro i
    match i with
    | 0 => decide +kernel
    | 1 => decide +kernel
    | i + 2 =>
      have hpos := Nat.two_pow_pos i
      have e : 6 % (3 * 2 ^ (i + 2)) = 6 := by
        rw [Nat.pow_add]
        exact Nat.mod_eq_of_lt (by omega)
      rw [e]
      decide +kernel
  · calc 6 < 2 ^ 3 := by decide
      _ ≤ 2 ^ halfBits := Nat.pow_le_pow_right (by decide) (by decide)

/-- 8 by 3 gives the quotient 2 and a remainder greater than the divisor -/
theorem eight_by_three :
    ((teeBigIntDivide smallCall (smallMemory 8 3) 2).map fun r => r.toOption.map fun m =>
      ((m smallCall.destQ).number, (m smallCall.destR).number)) =
        some (some (2, 2 ^ (32 * bigIntWords) - 16)) ∧
      ¬ Divides smallCall (smallMemory 8 3) := by
  have h8 : (smallMemory 8 3 smallCall.op1).number = 8 := by decide +kernel
  have h3 : (smallMemory 8 3 smallCall.op2).number = 3 := by decide +kernel
  have h0 : (smallMemory 8 3 smallCall.destQ).number = 0 := by decide +kernel
  refine ⟨by decide +kernel, fun h => ?_⟩
  have hhalf : 8 < 2 ^ halfBits :=
    calc 8 < 2 ^ 4 := by decide
      _ ≤ 2 ^ halfBits := Nat.pow_le_pow_right (by decide) (by decide)
  have hstep := h.stepRight (fun _ => rfl) h0 (by rw [h3]; decide) (by rw [h8]; exact hhalf)
    (by rw [h3]; decide +kernel) 2
  rw [h8, h3] at hstep
  exact absurd hstep.2 (by decide +kernel)

end SierraTee
