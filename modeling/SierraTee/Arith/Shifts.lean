import SierraTee.Arith.Compare

/-!
# Shifts of big integers (`otz_tee_arith_api.c`)

* `leftShift_right_iff`   the product is always right, another source is kept for less than 32 bits
                          or if it is zero;
* `rightShift_right_iff`  the quotient is right where no word loses a bit to the next one.
-/

namespace SierraTee
open BigEndian

structure Shifted where
  dest : BigInt
  src : BigInt

def movedSource (src : BigInt) (bits : Nat) (h : bits / 32 ≤ bigIntWords) : BigInt :=
  ⟨moveWords src.words bits, by
    rw [length_moveWords, src.length_words]
    rw [src.length_words]
    exact h⟩

/-- `TEE_BigIntLeftShift`, `apart` if the destination is another object; the words are moved inside
the source, and the loop reads each of them there before it writes its place in the destination -/
def teeBigIntLeftShift (apart : Bool) (src : BigInt) (bits : Nat) : Option Shifted :=
  if h : bits / 32 ≤ bigIntWords then
    (bigIntShift src bits).map fun dest => ⟨dest, if apart then movedSource src bits h else dest⟩
  else none

def lowBits (value : BigWord) : Nat → BigWord → BigWord
  | 0, getBit => getBit
  | j + 1, getBit => lowBits value j ((getBit <<< 1) ||| ((value >>> (j + 1)) &&& 1))

/-- the loop over the words from the first one on; `value` is only loaded inside the loop over the
bits -/
def rightShiftWords (bits : Nat) : BigWord → BigWord → List BigWord → List BigWord
  | _, _, [] => []
  | value, putBit, word :: l =>
    let loaded := if 1 < bits then word else value
    let shifted := (loaded >>> bits) ||| putBit
    shifted :: rightShiftWords bits shifted (lowBits word (bits - 1) 0 <<< 31) l

theorem length_rightShiftWords (bits : Nat) (value putBit : BigWord) (l : List BigWord) :
    (rightShiftWords bits value putBit l).length = l.length := by
  induction l generalizing value putBit with
  | nil => rfl
  | cons word l ih => exact congrArg (· + 1) (ih _ _)

/-- what `TEE_BigIntRightShift` writes; each word is read before its place is written -/
def quotient (src : BigInt) (bits : Nat) : BigInt :=
  ⟨rightShiftWords bits 0 0 src.words, by rw [length_rightShiftWords, src.length_words]⟩

/-- `TEE_BigIntRightShift`, `apart` if the destination is another object; a word shifted by its width
or more is undefined -/
def teeBigIntRightShift (apart : Bool) (src : BigInt) (bits : Nat) : Option Shifted :=
  if bits < 32 then some ⟨quotient src bits, if apart then src else quotient src bits⟩ else none

/-! ## What is asked of the shifts -/

/-- the product modulo the width, with the source as it was if it is another object -/
def LeftShiftRight (apart : Bool) (x : BigInt) (k : Nat) : Prop :=
  ∃ s, teeBigIntLeftShift apart x k = some s ∧
    s.dest.number = x.number * 2 ^ k % 2 ^ (32 * bigIntWords) ∧ (apart = true → s.src = x)

/-- the quotient, with the source as it was if it is another object -/
def RightShiftRight (apart : Bool) (x : BigInt) (k : Nat) : Prop :=
  ∃ s, teeBigIntRightShift apart x k = some s ∧ s.dest.number = x.number / 2 ^ k ∧
    (apart = true → s.src = x)

/-- nothing that a shift by `k` bits puts into the next word is lost: only bit 1 gets there, as the
highest bit -/
def LowClear (k : Nat) (word : BigWord) : Prop :=
  if k = 2 then word.toNat % 2 = 0 else word.toNat % 2 ^ k = 0

section
variable {x : BigInt} {k n : Nat} {p v w : BigWord} {l : List BigWord} {apart : Bool}

/-! ## To the left -/

theorem eq_zero_of_mul_pow_mod {B m a : Nat} (hm : 1 ≤ m) (h : a = a * B ^ m % B ^ n) : a = 0 := by
  have hall (i : Nat) : a = a * (B ^ m) ^ i % B ^ n := by
    induction i with
    | zero =>
      rw [Nat.pow_zero, Nat.mul_one]
      rw [h, Nat.mod_mod]
    | succ i ih =>
      calc a = a * B ^ m % B ^ n := h
        _ = a * (B ^ m) ^ i % B ^ n * B ^ m % B ^ n := by rw [← ih]
        _ = _ := by rw [Nat.mod_mul_mod, Nat.mul_assoc, ← Nat.pow_succ]
  rw [hall n, ← Nat.pow_mul]
  refine Nat.mod_eq_zero_of_dvd (Dvd.dvd.mul_left (Nat.pow_dvd_pow B ?_) a)
  exact Nat.le_mul_of_pos_left n hm

theorem movedSource_eq_iff (h : k / 32 ≤ bigIntWords) :
    movedSource x k h = x ↔ k < 32 ∨ x.number = 0 := by
  have hlen : k / 32 ≤ x.words.length := x.length_words ▸ h
  have hvalue := value_moveWords hlen
  constructor
  · intro he
    by_contra hne
    obtain ⟨hk, hx⟩ := not_or.mp hne
    have hwords : moveWords x.words k = x.words := congrArg BigInt.words he
    rw [hwords] at hvalue
    exact hx (eq_zero_of_mul_pow_mod (by omega) hvalue)
  · intro hx
    refine BigInt.ext ?_
    obtain hk | hx := hx
    · exact if_neg (by omega)
    · refine value_inj (length_moveWords hlen) ?_
      have hzero : value x.words = 0 := hx
      show value (moveWords x.words k) = value x.words
      rw [hvalue, hzero, Nat.zero_mul, Nat.zero_mod]

theorem leftShift_right_iff (apart : Bool) (x : BigInt) (hk : k < 32 * bigIntWords) :
    LeftShiftRight apart x k ↔ apart = false ∨ k < 32 ∨ x.number = 0 := by
  have hwords : k / 32 ≤ bigIntWords := by omega
  obtain ⟨dest, hdest⟩ := Option.isSome_iff_exists.mp ((bigIntShift_isSome_iff x k).mpr hwords)
  have hshift : teeBigIntLeftShift apart x k
      = some ⟨dest, if apart then movedSource x k hwords else dest⟩ := by
    unfold teeBigIntLeftShift
    rw [dif_pos hwords, hdest]
    rfl
  have hnumber := number_bigIntShift hdest
  cases apart with
  | false => exact iff_of_true ⟨_, hshift, hnumber, fun h => Bool.noConfusion h⟩ (Or.inl rfl)
  | true =>
    rw [← movedSource_eq_iff hwords, or_iff_right (by decide)]
    constructor
    · rintro ⟨s, hs, -, hsrc⟩
      rw [hshift] at hs
      cases hs
      exact hsrc rfl
    · exact fun hsrc => ⟨_, hshift, hnumber, fun _ => hsrc⟩

/-! ## To the right -/

theorem lowBits_mod_two (v g : BigWord) : (lowBits v (n + 1) g).toNat % 2 = v.toNat / 2 % 2 := by
  induction n generalizing g with
  | zero =>
    show ((g <<< 1) ||| ((v >>> 1) &&& 1) : BigWord).toNat % 2 = _
    have hone : ((v >>> 1) &&& 1 : BigWord).toNat = v.toNat / 2 % 2 := by
      rw [BitVec.toNat_and, BitVec.toNat_ushiftRight, Nat.shiftRight_eq_div_pow]
      exact Nat.and_one_is_mod _
    have hg : (g <<< 1 : BigWord).toNat % 2 = 0 := by
      rw [BitVec.toNat_shiftLeft, Nat.shiftLeft_eq]
      omega
    have hor := Nat.or_mod_two_pow (a := (g <<< 1).toNat) (b := v.toNat / 2 % 2) (n := 1)
    rw [Nat.pow_one, hg, Nat.zero_or] at hor
    rw [BitVec.toNat_or, hone, hor, Nat.mod_mod]
  | succ n ih => exact ih _

theorem toNat_putBit (hk : 1 < k) (v : BigWord) :
    (lowBits v (k - 1) 0 <<< 31).toNat = v.toNat / 2 % 2 * 2 ^ 31 := by
  obtain ⟨n, rfl⟩ : ∃ n, k = n + 2 := ⟨k - 2, by omega⟩
  have hlow := lowBits_mod_two (n := n) v 0
  show (lowBits v (n + 1) 0 <<< 31).toNat = _
  rw [BitVec.toNat_shiftLeft, Nat.shiftLeft_eq]
  omega

theorem putBit_eq_iff (hk : 1 < k) (hk' : k < 32) (p : BigWord) :
    lowBits p (k - 1) 0 <<< 31 = p <<< (32 - k) ↔ LowClear k p := by
  have hpow : 2 ^ 31 = 2 ^ (32 - k) * 2 ^ (k - 1) := by
    rw [← Nat.pow_add]
    congr 1
    omega
  have hpos : 0 < 2 ^ (32 - k) := Nat.two_pow_pos _
  rw [← BitVec.toNat_inj, toNat_putBit hk, toNat_shiftLeft_low p (by omega), hpow, Nat.mul_comm,
    Nat.mul_assoc, Nat.mul_right_inj hpos.ne']
  unfold LowClear
  by_cases h2 : k = 2
  · rw [h2, if_pos rfl]
    omega
  · rw [if_neg h2]
    obtain ⟨m, rfl⟩ : ∃ m, k = m + 3 := ⟨k - 3, by omega⟩
    have h4 : 2 ^ (m + 3 - 1) = 4 * 2 ^ m := (Nat.pow_add 2 m 2).trans (Nat.mul_comm _ _)
    have h8 : 2 ^ (m + 3) = 8 * 2 ^ m := (Nat.pow_add 2 m 3).trans (Nat.mul_comm _ _)
    have hdm := Nat.div_add_mod p.toNat (8 * 2 ^ m)
    rw [h4, h8]
    rw [Nat.mul_assoc] at hdm
    generalize 2 ^ m * (p.toNat / (8 * 2 ^ m)) = t at hdm
    generalize p.toNat % (8 * 2 ^ m) = r at hdm ⊢
    have hbit : p.toNat / 2 % 2 = r / 2 % 2 := by omega
    rw [hbit]
    constructor
    · intro h
      obtain hb | hb := Nat.mod_two_eq_zero_or_one (r / 2) <;> rw [hb] at h <;> omega
    · intro h
      rw [h]
      rfl

theorem rightShiftWords_eq_iff (hk : 1 < k) (hk' : k < 32) (p v : BigWord) (l : List BigWord) :
    rightShiftWords k v (lowBits p (k - 1) 0 <<< 31) l = quotWords k p l ↔
      ∀ u ∈ (p :: l).dropLast, LowClear k u := by
  induction l generalizing p v with
  | nil => exact iff_of_true rfl fun u hu => absurd hu List.not_mem_nil
  | cons w l ih =>
    have hpow : 2 ^ 31 = 2 ^ (32 - k) * 2 ^ (k - 1) := by
      rw [← Nat.pow_add]
      congr 1
      omega
    have hput : (lowBits p (k - 1) 0 <<< 31).toNat
        = 2 ^ (32 - k) * (2 ^ (k - 1) * (p.toNat / 2 % 2)) := by
      rw [toNat_putBit hk, hpow, Nat.mul_comm, Nat.mul_assoc]
    have hhead : (w >>> k) ||| (lowBits p (k - 1) 0 <<< 31) = (w >>> k) ||| (p <<< (32 - k)) ↔
        LowClear k p := by
      rw [← putBit_eq_iff hk hk' p, ← BitVec.toNat_inj, ← BitVec.toNat_inj,
        toNat_ushiftRight_or (by omega) hput,
        toNat_ushiftRight_or (by omega) (toNat_shiftLeft_low p (by omega)), Nat.add_right_cancel_iff,
        ← hput, ← toNat_shiftLeft_low p (by omega)]
    unfold rightShiftWords quotWords
    rw [if_pos hk, List.cons_eq_cons, hhead, ih, List.dropLast_cons_cons, List.forall_mem_cons]

theorem rightShiftWords_zero (hk : k ≤ 1) (l : List BigWord) :
    rightShiftWords k 0 0 l = List.replicate l.length 0 := by
  induction l with
  | nil => rfl
  | cons w l ih =>
    have hlow : lowBits w (k - 1) 0 <<< 31 = 0 := by
      rw [show k - 1 = 0 by omega]
      exact BitVec.zero_shiftLeft 31
    have hzero : ((0 : BigWord) >>> k) ||| 0 = 0 :=
      (BitVec.or_zero).trans BitVec.zero_ushiftRight
    unfold rightShiftWords
    rw [if_neg (by omega)]
    dsimp only
    rw [hzero, hlow, List.length_cons, List.replicate_succ, ih]

theorem rightShift_right_iff (apart : Bool) (x : BigInt) (k : Nat) : RightShiftRight apart x k ↔
    (k < 2 ∧ x.number < 2 ^ k) ∨ (2 ≤ k ∧ k < 32 ∧ ∀ w ∈ x.words.dropLast, LowClear k w) := by
  by_cases hk : k < 32
  · have hdest : RightShiftRight apart x k ↔
        value (rightShiftWords k 0 0 x.words) = x.number / 2 ^ k := by
      unfold RightShiftRight teeBigIntRightShift
      rw [if_pos hk]
      refine ⟨?_, fun h => ⟨_, rfl, h, fun ha => if_pos ha⟩⟩
      rintro ⟨s, hs, h, -⟩
      cases hs
      exact h
    rw [hdest]
    by_cases h2 : k < 2
    · rw [rightShiftWords_zero (by omega), value_replicate_zero, eq_comm,
        Nat.div_eq_zero_iff_lt (Nat.two_pow_pos k)]
      exact ⟨fun h => Or.inl ⟨h2, h⟩, fun h => h.elim And.right fun h => absurd h.1 (by omega)⟩
    · have hquot : value (quotWords k 0 x.words) = x.number / 2 ^ k := by
        rw [value_quotWords (by omega)]
        exact congrArg (· / 2 ^ k) (by simp [BigInt.number])
      have hzero : lowBits 0 (k - 1) 0 <<< 31 = 0 := by
        rw [← BitVec.toNat_inj, toNat_putBit (by omega)]
        rfl
      have hclear : LowClear k 0 := by
        unfold LowClear
        split_ifs <;> exact Nat.zero_mod _
      have hwords := rightShiftWords_eq_iff (k := k) (by omega) hk 0 0 x.words
      obtain ⟨u, l, hl⟩ := List.exists_cons_of_ne_nil (l := x.words)
        (List.ne_nil_of_length_pos (x.length_words ▸ by decide))
      have hfirst : (∀ w ∈ (0 :: x.words).dropLast, LowClear k w) ↔
          ∀ w ∈ x.words.dropLast, LowClear k w := by
        rw [hl, List.dropLast_cons_cons, List.forall_mem_cons, and_iff_right hclear]
      rw [hzero, hfirst] at hwords
      rw [← hquot, and_iff_right (Nat.le_of_not_lt h2), and_iff_right hk, ← hwords,
        or_iff_right fun h => h2 h.1]
      refine ⟨value_inj ?_, congrArg value⟩
      rw [length_rightShiftWords, length_quotWords]
  · refine iff_of_false ?_ (by omega)
    rintro ⟨s, hs, -⟩
    unfold teeBigIntRightShift at hs
    rw [if_neg hk] at hs
    cases hs

/-- **Shifts**, into another object or in place. The left shift keeps another source only if no word
is moved in it; the right shift puts only one bit of a word into the next one, loads no word for less
than two bits, and is undefined from 32 bits on. -/
theorem shifts_right_iff (apart : Bool) (x : BigInt) (k : Fin (32 * bigIntWords)) :
    (LeftShiftRight apart x k ↔ apart = false ∨ k.val < 32 ∨ x.number = 0) ∧
    (RightShiftRight apart x k ↔ (k.val < 2 ∧ x.number < 2 ^ k.val) ∨
      (2 ≤ k.val ∧ k.val < 32 ∧ ∀ w ∈ x.words.dropLast, LowClear k w)) :=
  ⟨leftShift_right_iff apart x k.isLt, rightShift_right_iff apart x k⟩

/-- two is not halved -/
theorem two_not_halved : ¬ ∀ (apart : Bool) (x : BigInt) (k : Fin (32 * bigIntWords)),
    LeftShiftRight apart x k ∧ RightShiftRight apart x k := by
  intro h
  have hright := (rightShift_right_iff true (bigIntConvertFromS32 2) 1).mp (h true _ ⟨1, by decide⟩).2
  rw [number_convertFromS32] at hright
  obtain ⟨-, hlt⟩ | ⟨hle, -⟩ := hright
  · exact absurd hlt (by decide)
  · exact absurd hle (by decide)

end

end SierraTee
