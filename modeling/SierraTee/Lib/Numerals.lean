import Mathlib.Data.Nat.Digits.Lemmas

/-!
# Numerals without leading zeros

A loop goes over the digits of a number from the first one and writes a digit once one was not zero,
or from a certain place on.

* `suppress`     the loop;
* `fixedDigits`  a number of digits, the first one of the greatest weight;
* `suppress_eq`  the loop writes the numeral, with zeros before it up to the place;
* `readDigits`   the number that characters stand for, and `readDigits_numeral` that it is the one
                 whose numeral was written.
-/

namespace Numerals

/-- the digits at the places `i`, `i + 1`, …; `keep` is set when one was not zero -/
def suppress (digit : Nat → Nat) (pad : Nat → Bool) : Nat → Nat → Bool → List Nat
  | 0, _, _ => []
  | k + 1, i, keep =>
    let keep' := keep || digit i != 0
    (if keep' || pad i then [digit i] else []) ++ suppress digit pad k (i + 1) keep'

/-- the last `k` digits of `m` -/
def fixedDigits (B : Nat) : Nat → Nat → List Nat
  | 0, _ => []
  | k + 1, m => m / B ^ k % B :: fixedDigits B k m

/-- the numeral of `m`, without digits for zero -/
def numeral (B m : Nat) : List Nat := (B.digits m).reverse

/-- the number that is read behind `m`; `none` if a character is no digit of the base -/
def readDigits {α : Type} (digit? : α → Option Nat) (B : Nat) : Nat → List α → Option Nat
  | m, [] => some m
  | m, c :: cs => (digit? c).bind fun d => if d < B then readDigits digit? B (m * B + d) cs else none

section
variable {B m n k i p : Nat} {digit : Nat → Nat} {pad : Nat → Bool}

theorem fixedDigits_succ (B k m : Nat) :
    fixedDigits B (k + 1) m = fixedDigits B k (m / B) ++ [m % B] := by
  induction k with
  | zero => simp [fixedDigits]
  | succ k ih =>
    rw [fixedDigits, ih, fixedDigits, Nat.div_div_eq_div_mul, ← Nat.pow_succ']
    rfl

theorem fixedDigits_eq (hB : 1 < B) (h : m < B ^ k) : fixedDigits B k m = (numeral B m).leftpad k 0 := by
  induction k generalizing m with
  | zero =>
    have hm : m = 0 := by simpa using h
    rw [hm]
    simp [fixedDigits, numeral, List.leftpad]
  | succ k ih =>
    have hdiv : m / B < B ^ k := Nat.div_lt_of_lt_mul (by rwa [← Nat.pow_succ'])
    rw [fixedDigits_succ, ih hdiv]
    by_cases hm : m = 0
    · rw [hm]
      simp [numeral, List.leftpad, List.replicate_succ']
    · have hdig : numeral B m = numeral B (m / B) ++ [m % B] := by
        unfold numeral
        rw [Nat.digits_def' hB (Nat.pos_of_ne_zero hm), List.reverse_cons]
      rw [hdig]
      simp [List.leftpad]

theorem numeral_length_le_iff (hB : 1 < B) : (numeral B m).length ≤ k ↔ m < B ^ k := by
  unfold numeral
  rw [List.length_reverse]
  exact (Nat.digits_length_le_iff hB m)

theorem leftpad_of_le {l : List Nat} (h : n ≤ l.length) : l.leftpad n 0 = l := by
  unfold List.leftpad
  rw [Nat.sub_eq_zero_of_le h]
  rfl

/-- the digit with `k` places behind it -/
def IsDigit (B m n : Nat) (digit : Nat → Nat) : Prop := ∀ k i, i + k + 1 = n → digit i = m / B ^ k % B

variable (pad) in
theorem suppress_keep (hd : IsDigit B m n digit) (hi : i + k = n) :
    suppress digit pad k i true = fixedDigits B k m := by
  induction k generalizing i with
  | zero => rfl
  | succ k ih =>
    unfold suppress fixedDigits
    rw [hd k i (by omega)]
    exact congrArg _ (ih (by omega))

/-- **The loop**, if only the last `p` places are written in any case -/
theorem suppress_eq (hB : 1 < B) (hd : IsDigit B m n digit)
    (hp : ∀ k i, i + k + 1 = n → (pad i = true ↔ k < p)) (hi : i + k = n) (hm : m < B ^ k) :
    suppress digit pad k i false = (numeral B m).leftpad (min k p) 0 := by
  induction k generalizing i with
  | zero =>
    have h0 : m = 0 := by simpa using hm
    rw [h0]
    simp [suppress, numeral, List.leftpad]
  | succ k ih =>
    have hdig : digit i = m / B ^ k := by
      rw [hd k i (by omega)]
      exact Nat.mod_eq_of_lt (Nat.div_lt_of_lt_mul hm)
    by_cases h0 : digit i = 0
    · have hlt : m < B ^ k := by
        rw [h0] at hdig
        exact (Nat.div_eq_zero_iff_lt (Nat.pow_pos (by omega))).mp hdig.symm
      have hrest := ih (i := i + 1) (by omega) hlt
      have hlen := (numeral_length_le_iff hB).mpr hlt
      unfold suppress
      dsimp only
      rw [h0]
      by_cases hpad : pad i = true
      · have hkp := (hp k i (by omega)).mp hpad
        have hstep : suppress digit pad k (i + 1) false = (numeral B m).leftpad k 0 := by
          rw [hrest, Nat.min_eq_left (by omega)]
        have hpads : (numeral B m).leftpad (k + 1) 0 = 0 :: (numeral B m).leftpad k 0 := by
          unfold List.leftpad
          rw [Nat.succ_sub hlen]
          rfl
        rw [Nat.min_eq_left (by omega), hpads, ← hstep, hpad]
        rfl
      · have hkp := (hp k i (by omega)).not.mp hpad
        rw [Nat.min_eq_right (by omega)] at hrest ⊢
        rw [Bool.not_eq_true] at hpad
        rw [← hrest, hpad]
        rfl
    · have hge : B ^ k ≤ m := by
        by_contra hlt
        rw [hdig, Nat.div_eq_of_lt (Nat.not_le.mp hlt)] at h0
        exact h0 rfl
      have hlen : k + 1 ≤ (numeral B m).length := by
        by_contra hc
        have := (numeral_length_le_iff hB).mp (Nat.le_of_lt_succ (Nat.not_le.mp hc))
        omega
      have hkeep : suppress digit pad (k + 1) i false = fixedDigits B (k + 1) m := by
        unfold suppress fixedDigits
        have hne : (digit i != 0) = true := by simpa using h0
        dsimp only
        rw [hne, ← suppress_keep pad hd (show i + 1 + k = n by omega), ← hd k i (by omega)]
        rfl
      rw [hkeep, fixedDigits_eq hB hm, leftpad_of_le hlen, leftpad_of_le (by omega)]

/-! ## Reading a numeral -/

theorem foldl_numeral (B m : Nat) : (numeral B m).foldl (fun r d => r * B + d) 0 = m := by
  have hdigits := Nat.ofDigits_eq_foldr B (B.digits m)
  rw [Nat.ofDigits_digits] at hdigits
  unfold numeral
  rw [List.foldl_reverse]
  refine Eq.trans ?_ hdigits.symm
  congr 1
  funext d r
  rw [Nat.mul_comm, Nat.add_comm]
  rfl

theorem foldl_replicate_zero (B k : Nat) :
    (List.replicate k 0).foldl (fun r d => r * B + d) 0 = 0 := by
  induction k with
  | zero => rfl
  | succ k ih =>
    rw [List.replicate_succ, List.foldl_cons, Nat.zero_mul]
    exact ih

variable {α : Type} {digit? : α → Option Nat} {char : Nat → α} {ds : List Nat}

theorem readDigits_map (hc : ∀ d < B, digit? (char d) = some d) (hd : ∀ d ∈ ds, d < B) :
    readDigits digit? B m (ds.map char) = some (ds.foldl (fun r d => r * B + d) m) := by
  induction ds generalizing m with
  | nil => rfl
  | cons d ds ih =>
    have hlt := hd d (List.mem_cons_self)
    rw [List.map_cons, List.foldl_cons, ← ih fun e he => hd e (List.mem_cons_of_mem d he)]
    exact (congrArg (Option.bind · _) (hc d hlt)).trans (if_pos hlt)

theorem readDigits_numeral (hB : 1 < B) (hc : ∀ d < B, digit? (char d) = some d) (p m : Nat) :
    readDigits digit? B 0 (((numeral B m).leftpad p 0).map char) = some m := by
  have hd : ∀ d ∈ (numeral B m).leftpad p 0, d < B := by
    intro d hd
    obtain hd | hd := List.mem_append.mp hd
    · rw [List.eq_of_mem_replicate hd]
      omega
    · exact Nat.digits_lt_base hB (List.mem_reverse.mp hd)
  rw [readDigits_map hc hd]
  unfold List.leftpad
  rw [List.foldl_append, foldl_replicate_zero, foldl_numeral]

end

end Numerals
