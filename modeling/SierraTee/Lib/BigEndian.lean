import Mathlib.Data.Nat.Digits.Lemmas
import Mathlib.Data.BitVec

/-!
# Numbers of several words, the highest word first

* `value`                the number that a list of words stands for;
* `value_cons`, `value_append`, `value_lt`, `value_inj`;
* `quotWords`            the words of a quotient by a power of two;
* `ripple`               words made one after the other from the low end, with a carry;
* `ripple_words_eq_iff`  two ripples with the same word rule, which tells carries apart, give the
                         same words exactly if their carry rules agree at every word but the first;
* `addOut`, `subOut`     the carry of a sum and the borrow of a difference as they should be.
-/

namespace BigEndian
open Function

section value
variable {b : Nat}

/-- the number of a list of words, the highest first -/
def value (l : List (BitVec b)) : Nat := Nat.ofDigits (2 ^ b) (l.reverse.map BitVec.toNat)

variable {x y : BitVec b} {l l' : List (BitVec b)}

@[simp] theorem value_nil : value ([] : List (BitVec b)) = 0 := rfl

theorem value_append : value (l ++ l') = value l * (2 ^ b) ^ l'.length + value l' := by
  rw [value, List.reverse_append, List.map_append, Nat.ofDigits_append, List.length_map,
    List.length_reverse, Nat.mul_comm, Nat.add_comm]
  rfl

theorem value_singleton (x : BitVec b) : value [x] = x.toNat := Nat.ofDigits_singleton

theorem value_cons : value (x :: l) = x.toNat * (2 ^ b) ^ l.length + value l := by
  rw [← List.singleton_append, value_append, value_singleton]

theorem value_lt (l : List (BitVec b)) : value l < (2 ^ b) ^ l.length := by
  induction l with
  | nil => exact Nat.one_pos
  | cons x l ih =>
    have hx := x.isLt
    rw [value_cons, List.length_cons, Nat.pow_succ, Nat.mul_comm _ (2 ^ b)]
    calc x.toNat * (2 ^ b) ^ l.length + value l
        < (x.toNat + 1) * (2 ^ b) ^ l.length := by rw [Nat.add_mul, Nat.one_mul]; omega
      _ ≤ 2 ^ b * (2 ^ b) ^ l.length := Nat.mul_le_mul_right _ hx

theorem value_div (x : BitVec b) (l : List (BitVec b)) :
    value (x :: l) / (2 ^ b) ^ l.length = x.toNat := by
  have hl := value_lt l
  rw [value_cons, Nat.mul_comm, Nat.mul_add_div (by omega), Nat.div_eq_of_lt hl, Nat.add_zero]

theorem value_mod (x : BitVec b) (l : List (BitVec b)) :
    value (x :: l) % (2 ^ b) ^ l.length = value l := by
  rw [value_cons, Nat.mul_comm, Nat.mul_add_mod, Nat.mod_eq_of_lt (value_lt l)]

theorem value_inj (hlen : l.length = l'.length) (h : value l = value l') : l = l' := by
  induction l generalizing l' with
  | nil => exact (List.length_eq_zero_iff.mp hlen.symm).symm
  | cons x l ih =>
    cases l' with
    | nil => exact absurd hlen (Nat.succ_ne_zero _)
    | cons y l' =>
      have hn : l.length = l'.length := Nat.succ.inj hlen
      have hx := value_div x l
      have hl := value_mod x l
      rw [h, hn, value_div] at hx
      rw [h, hn, value_mod] at hl
      rw [BitVec.eq_of_toNat_eq hx, ih hn hl.symm]

theorem value_drop (l : List (BitVec b)) (i : Nat) :
    value (l.drop i) = value l % (2 ^ b) ^ (l.length - i) := by
  have hlt := value_lt (l.drop i)
  have hv : value (l.take i ++ l.drop i) = _ := value_append
  rw [List.take_append_drop] at hv
  rw [List.length_drop] at hlt hv
  rw [hv, Nat.mul_comm, Nat.mul_add_mod, Nat.mod_eq_of_lt hlt]

theorem value_take (l : List (BitVec b)) (i : Nat) :
    value (l.take i) = value l / (2 ^ b) ^ (l.length - i) := by
  have hlt := value_lt (l.drop i)
  have hv : value (l.take i ++ l.drop i) = _ := value_append
  rw [List.take_append_drop] at hv
  rw [List.length_drop] at hlt hv
  rw [hv, Nat.mul_comm, Nat.mul_add_div (by omega), Nat.div_eq_of_lt hlt, Nat.add_zero]

theorem toNat_getElem (l : List (BitVec b)) (i : Nat) (h : i < l.length) :
    l[i].toNat = value l / (2 ^ b) ^ (l.length - (i + 1)) % 2 ^ b := by
  have hdiv := value_div l[i] (l.drop (i + 1))
  rw [List.getElem_cons_drop, value_drop, List.length_drop] at hdiv
  have e : (2 ^ b) ^ (l.length - i) = (2 ^ b) ^ (l.length - (i + 1)) * 2 ^ b := by
    rw [← Nat.pow_succ]
    congr 1
    omega
  rw [← hdiv, e, Nat.mod_mul_right_div_self]

theorem value_replicate_zero (n : Nat) : value (List.replicate n (0 : BitVec b)) = 0 := by
  induction n with
  | zero => rfl
  | succ n ih =>
    rw [List.replicate_succ, value_cons, ih]
    simp

/-! ## Quotients by powers of two -/

/-- the words shifted to the right by `k` bits, behind a word `p` -/
def quotWords (k : Nat) : BitVec b → List (BitVec b) → List (BitVec b)
  | _, [] => []
  | p, w :: l => ((w >>> k) ||| (p <<< (b - k))) :: quotWords k w l

theorem length_quotWords (k : Nat) (p : BitVec b) (l : List (BitVec b)) :
    (quotWords k p l).length = l.length := by
  induction l generalizing p with
  | nil => rfl
  | cons w l ih => exact congrArg (· + 1) (ih w)

theorem toNat_ushiftRight_or {k c : Nat} {w y : BitVec b} (hk : k ≤ b)
    (hy : y.toNat = 2 ^ (b - k) * c) :
    ((w >>> k) ||| y).toNat = 2 ^ (b - k) * c + w.toNat / 2 ^ k := by
  have hw : w.toNat / 2 ^ k < 2 ^ (b - k) := by
    rw [Nat.div_lt_iff_lt_mul (Nat.two_pow_pos k), ← Nat.pow_add, Nat.sub_add_cancel hk]
    exact w.isLt
  rw [BitVec.toNat_or, BitVec.toNat_ushiftRight, Nat.shiftRight_eq_div_pow, hy, Nat.or_comm,
    Nat.two_pow_add_eq_or_of_lt hw]

theorem toNat_shiftLeft_low {k : Nat} (p : BitVec b) (hk : k ≤ b) :
    (p <<< (b - k)).toNat = 2 ^ (b - k) * (p.toNat % 2 ^ k) := by
  have hpow : 2 ^ b = 2 ^ (b - k) * 2 ^ k := by rw [← Nat.pow_add, Nat.sub_add_cancel hk]
  rw [BitVec.toNat_shiftLeft, Nat.shiftLeft_eq, Nat.mul_comm, hpow, Nat.mul_mod_mul_left]

theorem value_quotWords {k : Nat} (hk : k ≤ b) (p : BitVec b) (l : List (BitVec b)) :
    value (quotWords k p l) = (p.toNat % 2 ^ k * (2 ^ b) ^ l.length + value l) / 2 ^ k := by
  induction l generalizing p with
  | nil =>
    have hlt := Nat.mod_lt p.toNat (Nat.two_pow_pos k)
    rw [List.length_nil, Nat.pow_zero, Nat.mul_one, value_nil, Nat.add_zero, Nat.div_eq_of_lt hlt]
    rfl
  | cons w l ih =>
    have hpow : 2 ^ b = 2 ^ k * 2 ^ (b - k) := by rw [← Nat.pow_add, Nat.add_sub_cancel' hk]
    have hsplit : p.toNat % 2 ^ k * (2 ^ b) ^ (l.length + 1) + (w.toNat * (2 ^ b) ^ l.length + value l)
        = 2 ^ k * ((2 ^ (b - k) * (p.toNat % 2 ^ k) + w.toNat / 2 ^ k) * (2 ^ b) ^ l.length)
          + (w.toNat % 2 ^ k * (2 ^ b) ^ l.length + value l) := by
      have hdm := Nat.div_add_mod w.toNat (2 ^ k)
      calc _ = p.toNat % 2 ^ k * (2 ^ k * 2 ^ (b - k)) * (2 ^ b) ^ l.length
              + ((2 ^ k * (w.toNat / 2 ^ k) + w.toNat % 2 ^ k) * (2 ^ b) ^ l.length + value l) := by
            rw [hdm, Nat.pow_succ, ← hpow]
            ring
        _ = _ := by ring
    rw [quotWords, value_cons, length_quotWords, ih, value_cons, List.length_cons, hsplit,
      Nat.mul_add_div (Nat.two_pow_pos k), toNat_ushiftRight_or hk (toNat_shiftLeft_low p hk)]

end value

section ripple
variable {W C : Type*}

/-- the words made from pairs of words, from the low end on; `c` is the first carry -/
def ripple (word : W → W → C → W) (carry : W → W → C → C) (c : C) : List (W × W) → List W × C
  | [] => ([], c)
  | p :: l =>
    let r := ripple word carry c l
    (word p.1 p.2 r.2 :: r.1, carry p.1 p.2 r.2)

/-- the two carry rules agree at every word, where the second one is the rule in use -/
def CarriesAgree (word : W → W → C → W) (carry carry' : W → W → C → C) (c : C) :
    List (W × W) → Prop
  | [] => True
  | p :: l =>
    carry p.1 p.2 (ripple word carry' c l).2 = carry' p.1 p.2 (ripple word carry' c l).2 ∧
      CarriesAgree word carry carry' c l

variable {word : W → W → C → W} {carry carry' : W → W → C → C} {c : C} {p : W × W}
  {l : List (W × W)}

theorem length_ripple : (ripple word carry c l).1.length = l.length := by
  induction l with
  | nil => rfl
  | cons p l ih => exact congrArg (· + 1) ih

theorem ripple_concat : ripple word carry c (l ++ [p]) =
    ((ripple word carry (carry p.1 p.2 c) l).1 ++ [word p.1 p.2 c],
      (ripple word carry (carry p.1 p.2 c) l).2) := by
  induction l with
  | nil => rfl
  | cons q l ih => simp only [List.cons_append, ripple, ih]

theorem carriesAgree_iff_getElem : CarriesAgree word carry carry' c l ↔
    ∀ i, ∀ h : i < l.length, carry l[i].1 l[i].2 (ripple word carry' c (l.drop (i + 1))).2 =
      carry' l[i].1 l[i].2 (ripple word carry' c (l.drop (i + 1))).2 := by
  induction l with
  | nil => exact ⟨fun _ i h => absurd h (Nat.not_lt_zero i), fun _ => trivial⟩
  | cons p l ih =>
    rw [CarriesAgree, ih]
    constructor
    · rintro ⟨h0, hl⟩ i hi
      cases i with
      | zero => exact h0
      | succ i => exact hl i (Nat.lt_of_succ_lt_succ hi)
    · intro h
      exact ⟨h 0 (Nat.succ_pos _), fun i hi => h (i + 1) (Nat.succ_lt_succ hi)⟩

theorem ripple_eq_iff (hword : ∀ x y, Injective (word x y)) :
    ripple word carry c l = ripple word carry' c l ↔ CarriesAgree word carry carry' c l := by
  induction l with
  | nil => exact ⟨fun _ => trivial, fun _ => rfl⟩
  | cons p l ih =>
    rw [CarriesAgree, ← ih]
    constructor
    · intro h
      simp only [ripple, Prod.mk.injEq, List.cons.injEq] at h
      obtain ⟨⟨hw, hl⟩, hc⟩ := h
      have hout := hword _ _ hw
      rw [hout] at hc
      exact ⟨hc, Prod.ext hl hout⟩
    · rintro ⟨hc, hl⟩
      simp only [ripple, hl, hc]

/-- **The words are the same** exactly if the carry rules agree at every word but the first. -/
theorem ripple_words_eq_iff (hword : ∀ x y, Injective (word x y)) :
    (ripple word carry c l).1 = (ripple word carry' c l).1 ↔
      ∀ i, 1 ≤ i → ∀ h : i < l.length,
        carry l[i].1 l[i].2 (ripple word carry' c (l.drop (i + 1))).2 =
          carry' l[i].1 l[i].2 (ripple word carry' c (l.drop (i + 1))).2 := by
  cases l with
  | nil => exact ⟨fun _ i _ h => absurd h (Nat.not_lt_zero i), fun _ => rfl⟩
  | cons p l =>
    have htail : (ripple word carry c (p :: l)).1 = (ripple word carry' c (p :: l)).1 ↔
        CarriesAgree word carry carry' c l := by
      rw [← ripple_eq_iff hword]
      constructor
      · intro h
        simp only [ripple, List.cons.injEq] at h
        exact Prod.ext h.2 (hword _ _ h.1)
      · intro h
        simp only [ripple, h]
    rw [htail, carriesAgree_iff_getElem]
    constructor
    · intro h i hi hl
      obtain ⟨i, rfl⟩ := Nat.exists_eq_add_of_le' hi
      exact h i (Nat.lt_of_succ_lt_succ hl)
    · intro h i hl
      exact h (i + 1) (Nat.succ_pos i) (Nat.succ_lt_succ hl)

end ripple

section sums
variable {b : Nat}

/-- the word of a sum -/
def addWord (x y c : BitVec b) : BitVec b := x + y + c

/-- the carry of a sum -/
def addOut (x y c : BitVec b) : BitVec b := if 2 ^ b ≤ x.toNat + y.toNat + c.toNat then 1 else 0

/-- the word of a difference -/
def subWord (x y c : BitVec b) : BitVec b := x - c - y

/-- the borrow of a difference -/
def subOut (x y c : BitVec b) : BitVec b := if x.toNat < y.toNat + c.toNat then 1 else 0

theorem addWord_injective (x y : BitVec b) : Injective (addWord x y) :=
  fun _ _ h => (BitVec.add_right_inj _).mp h

theorem subWord_injective (x y : BitVec b) : Injective (subWord x y) :=
  fun _ _ h => sub_right_injective ((BitVec.sub_left_inj y).mp h)

theorem toNat_one (hb : 0 < b) : (1 : BitVec b).toNat = 1 := by
  have h := Nat.pow_lt_pow_right Nat.one_lt_two hb
  exact Nat.mod_eq_of_lt h

theorem toNat_addOut (hb : 0 < b) (x y c : BitVec b) :
    (addOut x y c).toNat = if 2 ^ b ≤ x.toNat + y.toNat + c.toNat then 1 else 0 := by
  unfold addOut
  split
  · exact toNat_one hb
  · rfl

theorem toNat_subOut (hb : 0 < b) (x y c : BitVec b) :
    (subOut x y c).toNat = if x.toNat < y.toNat + c.toNat then 1 else 0 := by
  unfold subOut
  split
  · exact toNat_one hb
  · rfl

theorem addWord_value (hb : 0 < b) (x y : BitVec b) {c : BitVec b} (hc : c.toNat ≤ 1) :
    (addWord x y c).toNat + (addOut x y c).toNat * 2 ^ b = x.toNat + y.toNat + c.toNat := by
  have hx := x.isLt
  have hy := y.isLt
  rw [toNat_addOut hb, addWord, BitVec.toNat_add, BitVec.toNat_add, Nat.mod_add_mod]
  split
  next h =>
    rw [Nat.mod_eq_sub_mod h, Nat.mod_eq_of_lt (by omega)]
    omega
  next h =>
    rw [Nat.mod_eq_of_lt (by omega)]
    omega

theorem subWord_value (hb : 0 < b) (x y : BitVec b) {c : BitVec b} (hc : c.toNat ≤ 1) :
    (subWord x y c).toNat + y.toNat + c.toNat = x.toNat + (subOut x y c).toNat * 2 ^ b := by
  have hx := x.isLt
  have hy := y.isLt
  have hB := c.isLt
  rw [toNat_subOut hb, subWord, BitVec.toNat_sub, BitVec.toNat_sub]
  by_cases hxc : c.toNat ≤ x.toNat
  · have e : (2 ^ b - c.toNat + x.toNat) % 2 ^ b = x.toNat - c.toNat := by
      rw [Nat.mod_eq_sub_mod (by omega), Nat.mod_eq_of_lt (by omega)]
      omega
    rw [e]
    split
    next h =>
      rw [Nat.mod_eq_of_lt (by omega)]
      omega
    next h =>
      rw [Nat.mod_eq_sub_mod (by omega), Nat.mod_eq_of_lt (by omega)]
      omega
  · have e : (2 ^ b - c.toNat + x.toNat) % 2 ^ b = 2 ^ b - 1 := by
      rw [Nat.mod_eq_of_lt (by omega)]
      omega
    rw [e, if_pos (by omega)]
    by_cases hy0 : y.toNat = 0
    · rw [Nat.mod_eq_sub_mod (by omega), Nat.mod_eq_of_lt (by omega)]
      omega
    · rw [Nat.mod_eq_sub_mod (by omega), Nat.mod_eq_of_lt (by omega)]
      omega

theorem digits_le {x y c k v w n B : Nat} (hdigit : x + k * B ≤ y + c) (h : v + c * B ^ n ≤ w) :
    x * B ^ n + v + k * B ^ (n + 1) ≤ y * B ^ n + w :=
  calc x * B ^ n + v + k * B ^ (n + 1) = (x + k * B) * B ^ n + v := by ring
    _ ≤ (y + c) * B ^ n + v := Nat.add_le_add_right (Nat.mul_le_mul_right _ hdigit) _
    _ = y * B ^ n + (v + c * B ^ n) := by ring
    _ ≤ y * B ^ n + w := Nat.add_le_add_left h _

/-- **Sums**: with the right carries the words and the last carry make the sum. -/
theorem add_value (hb : 0 < b) (l : List (BitVec b × BitVec b)) :
    (ripple addWord addOut 0 l).2.toNat ≤ 1 ∧
      value (ripple addWord addOut 0 l).1 +
          (ripple addWord addOut 0 l).2.toNat * (2 ^ b) ^ l.length =
        value (l.map Prod.fst) + value (l.map Prod.snd) := by
  induction l with
  | nil => exact ⟨Nat.zero_le _, by simp [ripple]⟩
  | cons p l ih =>
    obtain ⟨hc, ih⟩ := ih
    have hw := addWord_value hb p.1 p.2 hc
    simp only [ripple, List.map_cons, value_cons, List.length_cons, length_ripple, List.length_map]
    constructor
    · rw [toNat_addOut hb]
      split <;> omega
    · generalize (ripple addWord addOut 0 l).2 = c at hw ih ⊢
      calc _ = ((addWord p.1 p.2 c).toNat + (addOut p.1 p.2 c).toNat * 2 ^ b) *
              (2 ^ b) ^ l.length + value (ripple addWord addOut 0 l).1 := by ring
        _ = (p.1.toNat + p.2.toNat) * (2 ^ b) ^ l.length +
              (value (ripple addWord addOut 0 l).1 + c.toNat * (2 ^ b) ^ l.length) := by
            rw [hw]
            ring
        _ = _ := by
            rw [ih]
            ring

/-- **Differences**: with the right borrows the words and the last borrow make the difference. -/
theorem sub_value (hb : 0 < b) (l : List (BitVec b × BitVec b)) :
    (ripple subWord subOut 0 l).2.toNat ≤ 1 ∧
      value (ripple subWord subOut 0 l).1 + value (l.map Prod.snd) =
        value (l.map Prod.fst) +
          (ripple subWord subOut 0 l).2.toNat * (2 ^ b) ^ l.length := by
  induction l with
  | nil => exact ⟨Nat.zero_le _, by simp [ripple]⟩
  | cons p l ih =>
    obtain ⟨hc, ih⟩ := ih
    have hw := subWord_value hb p.1 p.2 hc
    simp only [ripple, List.map_cons, value_cons, List.length_cons, length_ripple, List.length_map]
    constructor
    · rw [toNat_subOut hb]
      split <;> omega
    · generalize (ripple subWord subOut 0 l).2 = c at hw ih ⊢
      calc _ = ((subWord p.1 p.2 c).toNat + p.2.toNat) * (2 ^ b) ^ l.length +
              (value (ripple subWord subOut 0 l).1 + value (l.map Prod.snd)) := by ring
        _ = ((subWord p.1 p.2 c).toNat + p.2.toNat + c.toNat) * (2 ^ b) ^ l.length +
              value (l.map Prod.fst) := by
            rw [ih]
            ring
        _ = _ := by
            rw [hw]
            ring

theorem addOut_eq (hb : 0 < b) (l : List (BitVec b × BitVec b)) :
    (ripple addWord addOut 0 l).2.toNat = 1 ↔
      (2 ^ b) ^ l.length ≤ value (l.map Prod.fst) + value (l.map Prod.snd) := by
  obtain ⟨hc, h⟩ := add_value hb l
  have hlt := value_lt (ripple addWord addOut 0 l).1
  rw [length_ripple] at hlt
  obtain h0 | h1 : (ripple addWord addOut 0 l).2.toNat = 0 ∨
    (ripple addWord addOut 0 l).2.toNat = 1 := by omega
  · rw [h0] at h ⊢
    omega
  · rw [h1] at h ⊢
    omega

theorem subOut_eq (hb : 0 < b) (l : List (BitVec b × BitVec b)) :
    (ripple subWord subOut 0 l).2.toNat = 1 ↔
      value (l.map Prod.fst) < value (l.map Prod.snd) := by
  obtain ⟨hc, h⟩ := sub_value hb l
  have hlt := value_lt (ripple subWord subOut 0 l).1
  have hsnd := value_lt (l.map Prod.snd)
  rw [length_ripple] at hlt
  obtain h0 | h1 : (ripple subWord subOut 0 l).2.toNat = 0 ∨
    (ripple subWord subOut 0 l).2.toNat = 1 := by omega
  · rw [h0] at h ⊢
    omega
  · rw [h1] at h ⊢
    omega

theorem add_words (hb : 0 < b) (l : List (BitVec b × BitVec b)) :
    value (ripple addWord addOut 0 l).1 =
      (value (l.map Prod.fst) + value (l.map Prod.snd)) % (2 ^ b) ^ l.length := by
  obtain ⟨-, h⟩ := add_value hb l
  have hlt := value_lt (ripple addWord addOut 0 l).1
  rw [length_ripple] at hlt
  rw [← h, Nat.add_mul_mod_self_right, Nat.mod_eq_of_lt hlt]

theorem sub_words (hb : 0 < b) (l : List (BitVec b × BitVec b)) :
    (value (ripple subWord subOut 0 l).1 : Int) =
      ((value (l.map Prod.fst) : Int) - value (l.map Prod.snd)) %
        ((2 ^ b) ^ l.length : Nat) := by
  obtain ⟨-, h⟩ := sub_value hb l
  have hlt := value_lt (ripple subWord subOut 0 l).1
  rw [length_ripple] at hlt
  have e : (value (l.map Prod.fst) : Int) - value (l.map Prod.snd) =
      value (ripple subWord subOut 0 l).1 +
        -((ripple subWord subOut 0 l).2.toNat : Int) * ((2 ^ b) ^ l.length : Nat) := by
    have h' := congrArg (Nat.cast (R := Int)) h
    rw [Nat.cast_add, Nat.cast_add, Nat.cast_mul] at h'
    linarith
  rw [e, Int.add_mul_emod_self_right, Int.emod_eq_of_lt (by omega) (by exact_mod_cast hlt)]

end sums

end BigEndian
