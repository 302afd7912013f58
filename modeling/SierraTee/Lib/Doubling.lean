import Mathlib.Data.Nat.Log
import Mathlib.Tactic.Linarith
import Mathlib.Tactic.Ring

/-!
# Division by doubling in fixed-width words

A divisor below `2 ^ w` is doubled as long as the double is not above the dividend; the doubled
divisor is taken off the dividend, and what is left is divided again.  The double is a word of `w`
bits: past the largest one it wraps.

* `doubled_spec`    what the loop stops at;
* `normal`          the largest `d * 2 ^ k` that fits a word;
* `divide_exact`    below it no double wraps: every answer is right, and enough fuel gives it;
* `divide_wrapped`  from it on the first answer is put together from a wrapped double.
-/

namespace Doubling

/-- `while (divisor << 1 <= dividend) { divisor = divisor << 1; quotient = quotient << 1; }` in
words below `M` -/
def doubled (M dividend : Nat) : Nat → Nat → Nat → Option (Nat × Nat)
  | 0, _, _ => none
  | fuel + 1, divisor, quotient =>
    if 2 * divisor % M ≤ dividend then
      doubled M dividend fuel (2 * divisor % M) (2 * quotient % M)
    else some (divisor, quotient)

/-- what a division answers: for equal operands, for a dividend below the divisor, for a power of
two, and from the quotient so far and the answer for the rest -/
structure Answers (R : Type*) where
  same : R
  less : Nat → R
  power : Nat → Nat → R
  join : Nat → R → R

section
variable {R : Type*}

/-- the division: the operands that need no loop first; `none` is out of fuel, or no answer for
divisor zero -/
def divide (M : Nat) (isPower : Nat → Bool) (ans : Answers R) : Nat → Nat → Nat → Option R
  | 0, _, _ => none
  | fuel + 1, dividend, divisor =>
    if divisor = 0 then none
    else if divisor = dividend then some ans.same
    else if dividend < divisor then some (ans.less dividend)
    else if isPower divisor then some (ans.power dividend divisor)
    else (doubled M dividend fuel divisor 1).bind fun p =>
      (divide M isPower ans fuel ((dividend + M - p.1) % M) divisor).map (ans.join p.2)

end

/-! ## the loop -/

theorem doubled_succ (M n fuel d q : Nat) : doubled M n (fuel + 1) d q =
    if 2 * d % M ≤ n then doubled M n fuel (2 * d % M) (2 * q % M) else some (d, q) := rfl

theorem mul_pow_succ_mod (d i M : Nat) : 2 * d % M * 2 ^ i % M = d * 2 ^ (i + 1) % M := by
  rw [Nat.mod_mul_mod, Nat.pow_succ]
  congr 1
  ring

/-- **What the loop stops at**: a double that is not above the dividend, as all those before it,
while the next one is. -/
theorem doubled_spec {M n : Nat} : ∀ {fuel d q d' q' : Nat}, d ≤ n → d < M → q < M →
    doubled M n fuel d q = some (d', q') →
    ∃ i, d' = d * 2 ^ i % M ∧ q' = q * 2 ^ i % M ∧ (∀ t, t ≤ i → d * 2 ^ t % M ≤ n) ∧
      n < d * 2 ^ (i + 1) % M := by
  intro fuel
  induction fuel with
  | zero =>
    intro d q d' q' _ _ _ h
    cases h
  | succ fuel ih =>
    intro d q d' q' hd hdM hqM h
    have hM : 0 < M := by omega
    rw [doubled_succ] at h
    split_ifs at h with hle
    · obtain ⟨i, h1, h2, h3, h4⟩ := ih hle (Nat.mod_lt _ hM) (Nat.mod_lt _ hM) h
      rw [mul_pow_succ_mod] at h1 h2 h4
      refine ⟨i + 1, h1, h2, ?_, h4⟩
      intro t ht
      cases t with
      | zero =>
        rw [Nat.pow_zero, Nat.mul_one, Nat.mod_eq_of_lt hdM]
        exact hd
      | succ t =>
        rw [← mul_pow_succ_mod]
        exact h3 t (by omega)
    · simp only [Option.some.injEq, Prod.mk.injEq] at h
      obtain ⟨rfl, rfl⟩ := h
      refine ⟨0, ?_, ?_, ?_, ?_⟩
      · rw [Nat.pow_zero, Nat.mul_one, Nat.mod_eq_of_lt hdM]
      · rw [Nat.pow_zero, Nat.mul_one, Nat.mod_eq_of_lt hqM]
      · intro t ht
        obtain rfl : t = 0 := by omega
        rw [Nat.pow_zero, Nat.mul_one, Nat.mod_eq_of_lt hdM]
        exact hd
      · rw [Nat.mul_comm d]
        exact Nat.lt_of_not_le hle

theorem doubled_isSome {M n : Nat} : ∀ {fuel d q i : Nat}, i < fuel → n < d * 2 ^ (i + 1) % M →
    (doubled M n fuel d q).isSome := by
  intro fuel
  induction fuel with
  | zero =>
    intro d q i hi _
    exact absurd hi (Nat.not_lt_zero i)
  | succ fuel ih =>
    intro d q i hi h
    rw [doubled_succ]
    split_ifs with hle
    · cases i with
      | zero =>
        rw [Nat.mul_comm] at h
        exact absurd hle (Nat.not_le_of_lt h)
      | succ i =>
        rw [← mul_pow_succ_mod] at h
        exact ih (by omega) h
    · rfl

/-! ## the largest double that fits -/

/-- `d` shifted left until its top bit is that of a word of `w` bits -/
def normal (w d : Nat) : Nat := d * 2 ^ (w - 1 - Nat.log2 d)

section
variable {w d : Nat}

theorem log2_lt (hd : 0 < d) (hw : d < 2 ^ w) : Nat.log2 d < w :=
  (Nat.log2_lt (by omega)).2 hw

theorem normal_ge (hd : 0 < d) (hw : d < 2 ^ w) : 2 ^ (w - 1) ≤ normal w d := by
  have hlog := log2_lt hd hw
  have h1 : 2 ^ Nat.log2 d ≤ d := Nat.log2_self_le (by omega)
  calc 2 ^ (w - 1) = 2 ^ Nat.log2 d * 2 ^ (w - 1 - Nat.log2 d) := by
        rw [← Nat.pow_add]
        congr 1
        omega
    _ ≤ normal w d := Nat.mul_le_mul_right _ h1

theorem normal_lt (hd : 0 < d) (hw : d < 2 ^ w) : normal w d < 2 ^ w := by
  have hlog := log2_lt hd hw
  have h1 : d < 2 ^ (Nat.log2 d + 1) := Nat.lt_log2_self
  calc normal w d < 2 ^ (Nat.log2 d + 1) * 2 ^ (w - 1 - Nat.log2 d) :=
        Nat.mul_lt_mul_of_pos_right h1 (Nat.two_pow_pos _)
    _ = 2 ^ w := by
        rw [← Nat.pow_add]
        congr 1
        omega

theorem le_normal (w d : Nat) : d ≤ normal w d := Nat.le_mul_of_pos_right d (Nat.two_pow_pos _)

theorem mul_pow_le_normal {t : Nat} (ht : t ≤ w - 1 - Nat.log2 d) : d * 2 ^ t ≤ normal w d :=
  Nat.mul_le_mul_left d (Nat.pow_le_pow_right (by omega) ht)

end

/-! ## the loop on either side of it -/

section
variable {w d n fuel d' q' : Nat}

theorem le_normal_of_lt {i : Nat} (hd : 0 < d) (hw : d < 2 ^ w) (h : d * 2 ^ i < 2 ^ w) :
    d * 2 ^ i ≤ normal w d := by
  by_contra hc
  have hi : w - 1 - Nat.log2 d < i := by
    by_contra hle
    exact hc (mul_pow_le_normal (Nat.le_of_not_lt hle))
  have h1 : 2 * normal w d ≤ d * 2 ^ i :=
    calc 2 * normal w d = d * 2 ^ (w - 1 - Nat.log2 d + 1) := by
          rw [normal, Nat.pow_succ]
          ring
      _ ≤ d * 2 ^ i := Nat.mul_le_mul_left d (Nat.pow_le_pow_right (by omega) hi)
  have h2 := normal_ge hd hw
  have hM : 2 ^ w = 2 * 2 ^ (w - 1) := by
    rw [← Nat.pow_succ']
    congr 1
    have := log2_lt hd hw
    omega
  omega

theorem doubled_below (hd : 0 < d) (hw : d < 2 ^ w) (hn : n < normal w d) (hdn : d ≤ n)
    (h : doubled (2 ^ w) n fuel d 1 = some (d', q')) :
    ∃ i, d' = d * 2 ^ i ∧ q' = 2 ^ i ∧ d * 2 ^ i ≤ n ∧ i < w := by
  have hfit := normal_lt hd hw
  have h1w : 1 < 2 ^ w := by omega
  obtain ⟨i, h1, h2, h3, _⟩ := doubled_spec hdn hw h1w h
  have hi : i < w - 1 - Nat.log2 d := by
    by_contra hc
    have ht := h3 (w - 1 - Nat.log2 d) (Nat.le_of_not_lt hc)
    change normal w d % 2 ^ w ≤ n at ht
    rw [Nat.mod_eq_of_lt hfit] at ht
    omega
  have hle : d * 2 ^ i ≤ normal w d := mul_pow_le_normal (Nat.le_of_lt hi)
  have hin := h3 i (Nat.le_refl i)
  rw [Nat.mod_eq_of_lt (by omega)] at h1 hin
  rw [Nat.one_mul, Nat.mod_eq_of_lt (Nat.pow_lt_pow_right (by omega) (by omega))] at h2
  exact ⟨i, h1, h2, hin, by omega⟩

theorem doubled_ends (hd : 0 < d) (hw : d < 2 ^ w) (hn : n < normal w d) (hdn : d ≤ n)
    (hfuel : n ≤ fuel) : (doubled (2 ^ w) n fuel d 1).isSome := by
  have hfit := normal_lt hd hw
  have hq : n / d ≠ 0 := (Nat.div_pos hdn hd).ne'
  have hlow : d * 2 ^ Nat.log2 (n / d) ≤ n :=
    (Nat.mul_le_mul_left d (Nat.log2_self_le hq)).trans (Nat.mul_div_le n d)
  have hhigh : n < d * 2 ^ (Nat.log2 (n / d) + 1) := by
    have h1 : n / d < 2 ^ (Nat.log2 (n / d) + 1) := Nat.lt_log2_self
    rw [Nat.mul_comm]
    exact (Nat.div_lt_iff_lt_mul hd).1 h1
  have hstep : d * 2 ^ (Nat.log2 (n / d) + 1) ≤ normal w d := by
    have hlt : Nat.log2 (n / d) < w - 1 - Nat.log2 d := by
      by_contra hc
      have := Nat.mul_le_mul_left d (Nat.pow_le_pow_right (show 0 < 2 by omega) (Nat.le_of_not_lt hc))
      change normal w d ≤ _ at this
      omega
    exact mul_pow_le_normal hlt
  have hcount : Nat.log2 (n / d) < fuel := by
    have h1 : Nat.log2 (n / d) < 2 ^ Nat.log2 (n / d) := Nat.lt_two_pow_self
    have h2 : 2 ^ Nat.log2 (n / d) ≤ d * 2 ^ Nat.log2 (n / d) := Nat.le_mul_of_pos_left _ hd
    omega
  refine doubled_isSome hcount ?_
  rw [Nat.mod_eq_of_lt (by omega)]
  exact hhigh

theorem doubled_wrapped (hd : 0 < d) (hw : d < 2 ^ w) (hn : normal w d ≤ n)
    (h : doubled (2 ^ w) n fuel d 1 = some (d', q')) :
    ∃ i c, d' + c * 2 ^ w = d * 2 ^ i ∧ 0 < c ∧ 0 < d' ∧ q' = 2 ^ i ∧ i < w ∧ d' ≤ n ∧ d' < 2 ^ w ∧
      n < d' + 2 ^ (w - 1) := by
  have hfit := normal_lt hd hw
  have hhalf := normal_ge hd hw
  have hwpos : 0 < w := Nat.zero_lt_of_lt (log2_lt hd hw)
  have hM : 2 ^ w = 2 * 2 ^ (w - 1) := by
    rw [← Nat.pow_succ']
    congr 1
    omega
  have hdn : d ≤ n := (le_normal w d).trans hn
  have h1w : 1 < 2 ^ w := by omega
  obtain ⟨i, h1, h2, h3, h4⟩ := doubled_spec hdn hw h1w h
  have hin := h3 i (Nat.le_refl i)
  rw [← h1] at hin
  have hlast : 2 * d' % 2 ^ w = d * 2 ^ (i + 1) % 2 ^ w := by
    rw [h1, Nat.mul_mod_mod, Nat.pow_succ]
    congr 1
    ring
  rw [← hlast] at h4
  have hd'lt : d' < 2 ^ w := by
    rw [h1]
    exact Nat.mod_lt _ (Nat.two_pow_pos w)
  have hpos : 0 < d' := by
    rcases Nat.eq_zero_or_pos d' with h0 | h0
    · rw [h0, Nat.mul_zero, Nat.zero_mod] at h4
      exact absurd h4 (Nat.not_lt_zero n)
    · exact h0
  have hiw : i < w := by
    by_contra hc
    have hdvd : 2 ^ w ∣ d * 2 ^ i := Dvd.dvd.mul_left (Nat.pow_dvd_pow 2 (Nat.le_of_not_lt hc)) d
    rw [Nat.mod_eq_zero_of_dvd hdvd] at h1
    omega
  have hmod : 2 * d' % 2 ^ w = 2 * d' ∨ 2 * d' % 2 ^ w = 2 * d' - 2 ^ w := by
    rcases Nat.lt_or_ge (2 * d') (2 ^ w) with hlt | hge
    · exact Or.inl (Nat.mod_eq_of_lt hlt)
    · right
      rw [Nat.mod_eq_sub_mod hge, Nat.mod_eq_of_lt (by omega)]
  have hdm := Nat.div_add_mod (d * 2 ^ i) (2 ^ w)
  rw [← h1, Nat.mul_comm, Nat.add_comm] at hdm
  refine ⟨i, d * 2 ^ i / 2 ^ w, hdm, ?_, hpos, ?_, hiw, hin, hd'lt, ?_⟩
  · by_contra hc
    rw [Nat.eq_zero_of_not_pos hc, Nat.zero_mul, Nat.add_zero] at hdm
    have hnext : 2 * d' % 2 ^ w ≤ n := by
      rcases hmod with hm | hm
      · have hlt : d * 2 ^ (i + 1) < 2 ^ w := by
          rw [Nat.pow_succ, ← Nat.mul_assoc, ← hdm, Nat.mul_comm, ← hm]
          exact Nat.mod_lt _ (Nat.two_pow_pos w)
        have hle := le_normal_of_lt hd hw hlt
        rw [hlast, Nat.mod_eq_of_lt hlt]
        omega
      · omega
    omega
  · rw [h2, Nat.one_mul, Nat.mod_eq_of_lt (Nat.pow_lt_pow_right (by omega) hiw)]
  · rcases hmod with hm | hm <;> omega

end

/-! ## the division -/

section
variable {R : Type*} {isPower : Nat → Bool} {ans : Answers R} {M n d : Nat}

theorem divide_succ (fuel : Nat) : divide M isPower ans (fuel + 1) n d =
    if d = 0 then none
    else if d = n then some ans.same
    else if n < d then some (ans.less n)
    else if isPower d then some (ans.power n d)
    else (doubled M n fuel d 1).bind fun p =>
      (divide M isPower ans fuel ((n + M - p.1) % M) d).map (ans.join p.2) := rfl

theorem divide_same (fuel : Nat) (hd : 0 < d) : divide M isPower ans (fuel + 1) d d = some ans.same := by
  rw [divide_succ, if_neg hd.ne', if_pos rfl]

theorem divide_less (fuel : Nat) (h : n < d) :
    divide M isPower ans (fuel + 1) n d = some (ans.less n) := by
  rw [divide_succ, if_neg (by omega), if_neg (by omega), if_pos h]

theorem divide_power (fuel : Nat) (hd : 0 < d) (h : d < n) (hp : isPower d = true) :
    divide M isPower ans (fuel + 1) n d = some (ans.power n d) := by
  rw [divide_succ, if_neg hd.ne', if_neg (by omega), if_neg (by omega), if_pos hp]

theorem divide_loop (fuel : Nat) (hd : 0 < d) (h : d < n) (hp : isPower d = false) :
    divide M isPower ans (fuel + 1) n d = (doubled M n fuel d 1).bind fun p =>
      (divide M isPower ans fuel ((n + M - p.1) % M) d).map (ans.join p.2) := by
  rw [divide_succ, if_neg hd.ne', if_neg (by omega), if_neg (by omega), if_neg (by simp [hp])]

theorem sub_word {e : Nat} (hn : n < M) (he : e ≤ n) : (n + M - e) % M = n - e := by
  rw [show n + M - e = n - e + M by omega, Nat.add_mod_right, Nat.mod_eq_of_lt (by omega)]

/-- what makes the answers right: each of them is right for its own operands, as long as no double
wraps -/
structure Right (ans : Answers R) (w d : Nat) (Good : Nat → R → Prop) : Prop where
  same : Good d ans.same
  less : ∀ n, n < d → Good n (ans.less n)
  join : ∀ n i r, n < 2 ^ w → i < w → d * 2 ^ i ≤ n → Good (n - d * 2 ^ i) r →
    Good n (ans.join (2 ^ i) r)

variable {w : Nat} {Good : Nat → R → Prop}

theorem divide_loop_some {fuel : Nat} {r : R} (hd : 0 < d) (h : d < n) (hp : isPower d = false)
    (hr : divide M isPower ans (fuel + 1) n d = some r) :
    ∃ d' q' r', doubled M n fuel d 1 = some (d', q') ∧
      divide M isPower ans fuel ((n + M - d') % M) d = some r' ∧ r = ans.join q' r' := by
  rw [divide_loop fuel hd h hp, Option.bind_eq_some_iff] at hr
  obtain ⟨⟨d', q'⟩, hloop, hr⟩ := hr
  rw [Option.map_eq_some_iff] at hr
  obtain ⟨r', hr', rfl⟩ := hr
  exact ⟨d', q', r', hloop, hr', rfl⟩

/-- **Below the largest double that fits** every answer is right. -/
theorem divide_exact (hright : Right ans w d Good) (hd : 0 < d) (hw : d < 2 ^ w)
    (hp : isPower d = false) : ∀ {fuel n : Nat} {r : R}, n < normal w d →
    divide (2 ^ w) isPower ans fuel n d = some r → Good n r := by
  intro fuel
  induction fuel with
  | zero =>
    intro n r _ h
    cases h
  | succ fuel ih =>
    intro n r hn h
    have hfit := normal_lt hd hw
    rcases Nat.lt_trichotomy n d with hlt | rfl | hgt
    · rw [divide_less fuel hlt] at h
      cases h
      exact hright.less n hlt
    · rw [divide_same fuel hd] at h
      cases h
      exact hright.same
    · obtain ⟨d', q', r', hloop, hr', rfl⟩ := divide_loop_some hd hgt hp h
      obtain ⟨i, rfl, rfl, hle, hi⟩ := doubled_below hd hw hn (Nat.le_of_lt hgt) hloop
      rw [sub_word (by omega) hle] at hr'
      exact hright.join n i r' (by omega) hi hle (ih (by omega) hr')

theorem divide_ends (ans : Answers R) (hd : 0 < d) (hw : d < 2 ^ w) (hp : isPower d = false) :
    ∀ {fuel n : Nat}, n < fuel → n < normal w d →
    (divide (2 ^ w) isPower ans fuel n d).isSome := by
  intro fuel
  induction fuel with
  | zero =>
    intro n h _
    exact absurd h (Nat.not_lt_zero n)
  | succ fuel ih =>
    intro n hfuel hn
    have hfit := normal_lt hd hw
    rcases Nat.lt_trichotomy n d with hlt | rfl | hgt
    · rw [divide_less fuel hlt]
      rfl
    · rw [divide_same fuel hd]
      rfl
    · have hends := doubled_ends hd hw hn (Nat.le_of_lt hgt) (Nat.le_of_lt_succ hfuel)
      obtain ⟨⟨d', q'⟩, hloop⟩ := Option.isSome_iff_exists.mp hends
      obtain ⟨i, rfl, rfl, hle, hi⟩ := doubled_below hd hw hn (Nat.le_of_lt hgt) hloop
      have hpos : 0 < d * 2 ^ i := Nat.mul_pos hd (Nat.two_pow_pos i)
      rw [divide_loop fuel hd hgt hp, hloop, Option.bind_some, Option.isSome_map,
        sub_word (by omega) hle]
      exact ih (by omega) (by omega)

/-- **From the largest double that fits on** an answer is put together from a double that has
wrapped `c` times, and a right answer for what is left. -/
theorem divide_wrapped (hright : Right ans w d Good) (hd : 0 < d) (hw : d < 2 ^ w)
    (hp : isPower d = false) {fuel : Nat} {r : R} (hne : d ≠ n) (hn : normal w d ≤ n)
    (hnw : n < 2 ^ w) (h : divide (2 ^ w) isPower ans fuel n d = some r) :
    ∃ i c m r', i < w ∧ 0 < c ∧ c * 2 ^ w < d * 2 ^ i ∧ m + d * 2 ^ i = n + c * 2 ^ w ∧
      m < 2 ^ (w - 1) ∧ Good m r' ∧ r = ans.join (2 ^ i) r' := by
  cases fuel with
  | zero => cases h
  | succ fuel =>
    have hgt : d < n := lt_of_le_of_ne ((le_normal w d).trans hn) hne
    obtain ⟨d', q', r', hloop, hr', rfl⟩ := divide_loop_some hd hgt hp h
    obtain ⟨i, c, hsum, hc, hpos, rfl, hi, hle, _, hrest⟩ := doubled_wrapped hd hw hn hloop
    rw [sub_word hnw hle] at hr'
    have hhalf := normal_ge hd hw
    refine ⟨i, c, n - d', r', hi, hc, by omega, by omega, by omega, ?_, rfl⟩
    exact divide_exact hright hd hw hp (by omega) hr'

end

end Doubling
