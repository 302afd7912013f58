import Mathlib.Order.Interval.Finset.Nat

/-!
# Bitmaps

Bits in an array of 32-bit words, the highest bit of a word first; several bitmaps may lie in one
array, each from a word `base` on.

* `bit`, `setBit`, `clearBit`  one bit, and `setRun`, `clearRun` for consecutive ones;
* `Clear`                      a run of clear bits;
* `firstClear`                 the first run of clear bits, and `firstClear_some`, `firstClear_none`
                               what is found;
* `clearBits`                  the clear bits below a bound, and what a run changes of their number.
-/

namespace Bitmap
open Function

abbrev Words := Nat → BitVec 32

section
variable (m : Words) (base i j s n : Nat)

def bit : Bool := (m (base + i / 32)).getLsbD (31 - i % 32)

def setBit : Words :=
  update m (base + i / 32) (m (base + i / 32) ||| 1#32 <<< (31 - i % 32))

def clearBit : Words :=
  update m (base + i / 32) (m (base + i / 32) &&& ~~~(1#32 <<< (31 - i % 32)))

def setRun (m : Words) (base s : Nat) : Nat → Words
  | 0 => m
  | n + 1 => setRun (setBit m base s) base (s + 1) n

def clearRun (m : Words) (base s : Nat) : Nat → Words
  | 0 => m
  | n + 1 => clearRun (clearBit m base s) base (s + 1) n

/-- all bits of the run are clear -/
def Clear : Prop := ∀ j, s ≤ j → j < s + n → bit m base j = false

/-- the number of clear bits from `i` on, before the first one that is set, and at most `n` -/
def clearLength (m : Words) (base i : Nat) : Nat → Nat
  | 0 => 0
  | n + 1 => if bit m base i then 0 else clearLength m base (i + 1) n + 1

/-- the first of the next `k` starts with a clear run of `n` bits -/
def firstClear (m : Words) (base n s : Nat) : Nat → Option Nat
  | 0 => none
  | k + 1 => if clearLength m base s n = n then some s else firstClear m base n (s + 1) k

/-! ## One bit -/

variable {m base i j s n}
variable {b k : Nat}

theorem place_eq_iff :
    (b + j / 32 = base + i / 32 ∧ 31 - i % 32 = 31 - j % 32) ↔ 32 * b + j = 32 * base + i := by
  omega

theorem getLsbD_one_shiftLeft (p q : Nat) (hq : q < 32) :
    (1#32 <<< p).getLsbD q = decide (p = q) := by
  rw [BitVec.getLsbD_shiftLeft, BitVec.getLsbD_one]
  by_cases e : p = q
  · simp [e, hq]
  · have h : ¬ (p ≤ q ∧ q - p = 0) := by omega
    by_cases h1 : q < p
    · simp [h1, e]
    · have h2 : q - p ≠ 0 := by omega
      simp [h2, e]

theorem bit_setBit :
    bit (setBit m base i) b j = (decide (32 * b + j = 32 * base + i) || bit m b j) := by
  unfold bit setBit
  by_cases hw : b + j / 32 = base + i / 32
  · have he : (31 - i % 32 = 31 - j % 32) ↔ 32 * b + j = 32 * base + i := by
      rw [← place_eq_iff]
      exact ⟨fun h => ⟨hw, h⟩, fun h => h.2⟩
    rw [hw, update_self, BitVec.getLsbD_or, getLsbD_one_shiftLeft _ _ (by omega),
      decide_eq_decide.mpr he, Bool.or_comm]
  · rw [update_of_ne hw]
    have hne : ¬ 32 * b + j = 32 * base + i := fun h => hw (place_eq_iff.mpr h).1
    rw [decide_eq_false hne, Bool.false_or]

theorem bit_clearBit :
    bit (clearBit m base i) b j = (!decide (32 * b + j = 32 * base + i) && bit m b j) := by
  unfold bit clearBit
  by_cases hw : b + j / 32 = base + i / 32
  · have he : (31 - i % 32 = 31 - j % 32) ↔ 32 * b + j = 32 * base + i := by
      rw [← place_eq_iff]
      exact ⟨fun h => ⟨hw, h⟩, fun h => h.2⟩
    have hlt : 31 - j % 32 < 32 := by omega
    rw [hw, update_self, BitVec.getLsbD_and, BitVec.getLsbD_not, decide_eq_true hlt,
      getLsbD_one_shiftLeft _ _ hlt, decide_eq_decide.mpr he, Bool.true_and, Bool.and_comm]
  · rw [update_of_ne hw]
    have hne : ¬ 32 * b + j = 32 * base + i := fun h => hw (place_eq_iff.mpr h).1
    rw [decide_eq_false hne]
    rfl

/-! ## Runs -/

theorem bit_setRun : bit (setRun m base s n) b j =
    (decide (32 * base + s ≤ 32 * b + j ∧ 32 * b + j < 32 * base + s + n) || bit m b j) := by
  induction n generalizing m s with
  | zero =>
    have h : ¬ (32 * base + s ≤ 32 * b + j ∧ 32 * b + j < 32 * base + s + 0) := by omega
    rw [decide_eq_false h, Bool.false_or]
    rfl
  | succ n ih =>
    show bit (setRun (setBit m base s) base (s + 1) n) b j = _
    rw [ih, bit_setBit, ← Bool.or_assoc, ← Bool.decide_or]
    congr 1
    refine decide_eq_decide.mpr ?_
    omega

theorem bit_clearRun : bit (clearRun m base s n) b j =
    (!decide (32 * base + s ≤ 32 * b + j ∧ 32 * b + j < 32 * base + s + n) && bit m b j) := by
  induction n generalizing m s with
  | zero =>
    have h : ¬ (32 * base + s ≤ 32 * b + j ∧ 32 * b + j < 32 * base + s + 0) := by omega
    rw [decide_eq_false h]
    rfl
  | succ n ih =>
    show bit (clearRun (clearBit m base s) base (s + 1) n) b j = _
    rw [ih, bit_clearBit, ← Bool.and_assoc, ← Bool.not_or, ← Bool.decide_or]
    congr 2
    refine decide_eq_decide.mpr ?_
    omega

theorem words_ext {m' : Words} (h : ∀ w i, i < 32 → bit m w i = bit m' w i) : m = m' := by
  funext w
  refine BitVec.eq_of_getLsbD_eq fun i hi => ?_
  have h1 := h w (31 - i) (by omega)
  unfold bit at h1
  have h2 : (31 - i) / 32 = 0 := by omega
  have h3 : 31 - (31 - i) % 32 = i := by omega
  rwa [h2, h3, Nat.add_zero] at h1

theorem clearRun_setRun (h : Clear m base s n) : clearRun (setRun m base s n) base s n = m := by
  refine words_ext fun w i _ => ?_
  rw [bit_clearRun, bit_setRun]
  by_cases hin : 32 * base + s ≤ 32 * w + i ∧ 32 * w + i < 32 * base + s + n
  · have h1 := h (32 * w + i - 32 * base) (by omega) (by omega)
    have h2 : bit m w i = bit m base (32 * w + i - 32 * base) := by
      unfold bit
      have h3 : w + i / 32 = base + (32 * w + i - 32 * base) / 32 := by omega
      have h4 : i % 32 = (32 * w + i - 32 * base) % 32 := by omega
      rw [h3, h4]
    rw [decide_eq_true hin, h2, h1]
    rfl
  · rw [decide_eq_false hin]
    rfl

theorem clear_succ : Clear m base s (n + 1) ↔ bit m base s = false ∧ Clear m base (s + 1) n := by
  constructor
  · intro h
    exact ⟨h s (by omega) (by omega), fun j h1 h2 => h j (by omega) (by omega)⟩
  · rintro ⟨h0, h⟩ j h1 h2
    rcases Nat.eq_or_lt_of_le h1 with rfl | h3
    · exact h0
    · exact h j (by omega) (by omega)

theorem clear_zero : Clear m base s 0 := fun j h1 h2 => absurd h2 (by omega)

theorem clearLength_le (m : Words) (base i n : Nat) : clearLength m base i n ≤ n := by
  induction n generalizing i with
  | zero => exact Nat.le_refl 0
  | succ n ih =>
    show (if bit m base i then 0 else clearLength m base (i + 1) n + 1) ≤ n + 1
    split_ifs
    · exact Nat.zero_le _
    · exact Nat.succ_le_succ (ih (i + 1))

theorem clearLength_eq_iff : clearLength m base i n = n ↔ Clear m base i n := by
  induction n generalizing i with
  | zero => exact iff_of_true rfl clear_zero
  | succ n ih =>
    rw [clear_succ]
    show (if bit m base i then 0 else clearLength m base (i + 1) n + 1) = n + 1 ↔ _
    cases bit m base i with
    | true => simp
    | false => simp [ih]

instance decidableClear : Decidable (Clear m base s n) := decidable_of_iff _ clearLength_eq_iff

theorem firstClear_some {r : Nat} (h : firstClear m base n s k = some r) :
    (s ≤ r ∧ r < s + k) ∧ Clear m base r n ∧ ∀ q, s ≤ q → q < r → ¬ Clear m base q n := by
  induction k generalizing s with
  | zero => cases h
  | succ k ih =>
    change (if clearLength m base s n = n then some s else firstClear m base n (s + 1) k) = some r
      at h
    split_ifs at h with hc
    · cases h
      exact ⟨by omega, clearLength_eq_iff.mp hc, fun q h1 h2 => absurd h2 (by omega)⟩
    · obtain ⟨h1, h2, h3⟩ := ih h
      refine ⟨by omega, h2, fun q hq hqr => ?_⟩
      rcases Nat.eq_or_lt_of_le hq with rfl | hlt
      · exact mt clearLength_eq_iff.mpr hc
      · exact h3 q hlt hqr

theorem firstClear_none (h : firstClear m base n s k = none) {q : Nat} (h1 : s ≤ q)
    (h2 : q < s + k) : ¬ Clear m base q n := by
  induction k generalizing s with
  | zero => omega
  | succ k ih =>
    change (if clearLength m base s n = n then some s else firstClear m base n (s + 1) k) = none
      at h
    split_ifs at h with hc
    rcases Nat.eq_or_lt_of_le h1 with rfl | hlt
    · exact mt clearLength_eq_iff.mpr hc
    · exact ih h hlt (by omega)

end

/-! ## Counting clear bits -/

section
variable {f g : Nat → Bool} {n s k : Nat}

/-- the clear bits below `n` -/
def clearBits (f : Nat → Bool) (n : Nat) : Finset Nat := (Finset.range n).filter fun i => f i = false

theorem mem_clearBits {i : Nat} : i ∈ clearBits f n ↔ i < n ∧ f i = false := by
  rw [clearBits, Finset.mem_filter, Finset.mem_range]

theorem card_clearBits_le (f : Nat → Bool) (n : Nat) : (clearBits f n).card ≤ n := by
  refine (Finset.card_filter_le _ _).trans ?_
  rw [Finset.card_range]

theorem clearBits_congr (h : ∀ i, i < n → f i = g i) : clearBits f n = clearBits g n := by
  ext i
  rw [mem_clearBits, mem_clearBits]
  refine and_congr_right fun hi => ?_
  rw [h i hi]

theorem card_clearBits_set (h : ∀ i, i < n → g i = (decide (s ≤ i ∧ i < s + k) || f i)) :
    (clearBits g n).card + (clearBits f n ∩ Finset.Ico s (s + k)).card = (clearBits f n).card := by
  have e : clearBits g n = clearBits f n \ Finset.Ico s (s + k) := by
    ext i
    rw [Finset.mem_sdiff, mem_clearBits, mem_clearBits, Finset.mem_Ico, and_assoc]
    refine and_congr_right fun hi => ?_
    rw [h i hi, Bool.or_eq_false_iff, decide_eq_false_iff_not, and_comm]
  rw [e, Nat.add_comm, Finset.card_inter_add_card_sdiff]

theorem card_clearBits_clear (h : ∀ i, i < n → g i = (!decide (s ≤ i ∧ i < s + k) && f i)) :
    (clearBits g n).card
      = (clearBits f n).card + ((Finset.Ico s (s + k)).filter fun i => i < n ∧ f i = true).card := by
  have e : clearBits g n
      = clearBits f n ∪ (Finset.Ico s (s + k)).filter fun i => i < n ∧ f i = true := by
    ext i
    rw [Finset.mem_union, mem_clearBits, mem_clearBits, Finset.mem_filter, Finset.mem_Ico]
    by_cases hi : i < n
    · rw [h i hi]
      by_cases hr : s ≤ i ∧ i < s + k
      · cases f i <;> simp [hi, hr]
      · cases f i <;> simp [hi, hr]
    · simp [hi]
  rw [e, Finset.card_union_of_disjoint]
  rw [Finset.disjoint_left]
  intro i h1 h2
  have h3 := (mem_clearBits.mp h1).2
  rw [(Finset.mem_filter.mp h2).2.2] at h3
  cases h3

theorem card_inter_Ico_eq_iff : (clearBits f n ∩ Finset.Ico s (s + k)).card = k ↔
    ∀ i, s ≤ i → i < s + k → i < n ∧ f i = false := by
  have hk : (Finset.Ico s (s + k)).card = k := by
    rw [Nat.card_Ico]
    omega
  constructor
  · intro h i h1 h2
    have e : clearBits f n ∩ Finset.Ico s (s + k) = Finset.Ico s (s + k) :=
      Finset.eq_of_subset_of_card_le Finset.inter_subset_right (by rw [h, hk])
    have hi : i ∈ clearBits f n ∩ Finset.Ico s (s + k) := by
      rw [e, Finset.mem_Ico]
      exact ⟨h1, h2⟩
    exact mem_clearBits.mp (Finset.mem_inter.mp hi).1
  · intro h
    have e : clearBits f n ∩ Finset.Ico s (s + k) = Finset.Ico s (s + k) := by
      refine Finset.inter_eq_right.mpr fun i hi => ?_
      obtain ⟨h1, h2⟩ := Finset.mem_Ico.mp hi
      exact mem_clearBits.mpr (h i h1 h2)
    rw [e, hk]

theorem card_filter_Ico_eq_iff :
    ((Finset.Ico s (s + k)).filter fun i => i < n ∧ f i = true).card = k ↔
      ∀ i, s ≤ i → i < s + k → i < n ∧ f i = true := by
  have hk : (Finset.Ico s (s + k)).card = k := by
    rw [Nat.card_Ico]
    omega
  constructor
  · intro h i h1 h2
    have e : (Finset.Ico s (s + k)).filter (fun i => i < n ∧ f i = true) = Finset.Ico s (s + k) :=
      Finset.eq_of_subset_of_card_le (Finset.filter_subset _ _) (by rw [h, hk])
    have hi : i ∈ (Finset.Ico s (s + k)).filter fun i => i < n ∧ f i = true := by
      rw [e, Finset.mem_Ico]
      exact ⟨h1, h2⟩
    exact (Finset.mem_filter.mp hi).2
  · intro h
    have e : (Finset.Ico s (s + k)).filter (fun i => i < n ∧ f i = true) = Finset.Ico s (s + k) := by
      refine Finset.filter_eq_self.mpr fun i hi => ?_
      obtain ⟨h1, h2⟩ := Finset.mem_Ico.mp hi
      exact h i h1 h2
    rw [e, hk]

theorem card_inter_Ico_le : (clearBits f n ∩ Finset.Ico s (s + k)).card ≤ k := by
  refine (Finset.card_le_card Finset.inter_subset_right).trans ?_
  rw [Nat.card_Ico]
  omega

theorem card_filter_Ico_le :
    ((Finset.Ico s (s + k)).filter fun i => i < n ∧ f i = true).card ≤ k := by
  refine (Finset.card_filter_le _ _).trans ?_
  rw [Nat.card_Ico]
  omega

end

end Bitmap
