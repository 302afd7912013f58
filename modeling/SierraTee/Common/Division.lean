import SierraTee.Buddy.Math
import SierraTee.Lib.Doubling

/-!
# Unsigned division (`sw_div.c`)

The library's division by doubling, in 32-bit words for `__aeabi_uidiv` and in 64-bit words for
`__aeabi_uldivmod`.

* `aeabiUidiv_right_iff`     the quotient is right unless a double of the divisor wraps;
* `aeabiUldivmod_right_iff`  the same for 64 bits, where the shortcut for powers of two is wrong
                             from `2 ^ 32` on as well.
-/

namespace SierraTee
open Word Doubling

/-! ## 32 bits -/

def uidivAnswers : Answers Nat where
  same := 1
  less _ := 0
  power dividend divisor := dividend >>> logOf2 divisor
  join quotient rest := u32 (quotient + rest)

/-- `__aeabi_uidiv`; `none` is a division by zero, or a loop that has not ended yet -/
def aeabiUidiv (fuel dividend divisor : Nat) : Option Nat :=
  divide (2 ^ 32) isPowOf2 uidivAnswers fuel dividend divisor

section
variable {n d fuel : Nat}

theorem add_div_of_mul_le {i : Nat} (hd : 0 < d) (h : d * 2 ^ i ≤ n) :
    2 ^ i + (n - d * 2 ^ i) / d = n / d := by
  rw [← Nat.add_mul_div_left (n - d * 2 ^ i) (2 ^ i) hd |>.trans (Nat.add_comm _ _),
    Nat.sub_add_cancel h]

theorem uidiv_right (hd : 0 < d) : Right uidivAnswers 32 d fun n q => q = n / d where
  same := (Nat.div_self hd).symm
  less n h := (Nat.div_eq_of_lt h).symm
  join n i r hn _ hle hr := by
    have hlt : n / d < 2 ^ 32 := (Nat.div_le_self n d).trans_lt hn
    show u32 (2 ^ i + r) = n / d
    rw [hr, add_div_of_mul_le hd hle, u32_of_lt hlt]

theorem not_isPowOf2_of_ne {x : Nat} (h : ¬isPowOf2 x = true) : isPowOf2 x = false := by
  simpa using h

theorem uidiv_power {k : Nat} (hk : k < 32) (hn : 2 ^ k < n) :
    aeabiUidiv 1 n (2 ^ k) = some (n / 2 ^ k) := by
  rw [aeabiUidiv, divide_power 0 (Nat.two_pow_pos k) hn (isPowOf2_two_pow k)]
  show some (n >>> logOf2 (2 ^ k)) = _
  rw [logOf2_two_pow hk, Nat.shiftRight_eq_div_pow]

theorem uidiv_le (hd : 0 < d) (h : n ≤ d) : aeabiUidiv 1 n d = some (n / d) := by
  rcases Nat.lt_or_eq_of_le h with hlt | rfl
  · rw [aeabiUidiv, divide_less 0 hlt, Nat.div_eq_of_lt hlt]
    rfl
  · rw [aeabiUidiv, divide_same 0 hd, Nat.div_self hd]
    rfl

theorem wrapped_quotient {w i c m q : Nat} (hd : 0 < d) (hw : d < 2 ^ w) (hi : i < w) (hc : 0 < c)
    (hlow : c * 2 ^ w < d * 2 ^ i) (hsum : m + d * 2 ^ i = n + c * 2 ^ w) (hq : q = m / d) :
    (2 ^ i + q) % 2 ^ w ≠ n / d % 2 ^ w := by
  have heq : 2 ^ i + q = (n + c * 2 ^ w) / d := by
    rw [hq, ← hsum, Nat.add_mul_div_left m _ hd, Nat.add_comm]
  have hcd : c < d := by
    have h1 : d * 2 ^ i < d * 2 ^ w := Nat.mul_lt_mul_of_pos_left (Nat.pow_lt_pow_right (by omega) hi) hd
    exact Nat.lt_of_mul_lt_mul_right (hlow.trans h1)
  have hmore : n / d + 1 ≤ (n + c * 2 ^ w) / d := by
    rw [← Nat.add_div_right n hd]
    refine Nat.div_le_div_right (Nat.add_le_add_left ?_ n)
    exact (Nat.le_of_lt hw).trans (Nat.le_mul_of_pos_left _ hc)
  have hless : (n + c * 2 ^ w) / d < n / d + 2 ^ w := by
    rw [Nat.div_lt_iff_lt_mul hd]
    have h1 : n < (n / d + 1) * d := by
      rw [Nat.mul_comm]
      exact Nat.lt_mul_div_succ n hd
    have h2 : (c + 1) * 2 ^ w ≤ d * 2 ^ w := Nat.mul_le_mul_right _ hcd
    rw [Nat.add_mul, Nat.one_mul] at h1 h2
    calc n + c * 2 ^ w < n / d * d + d + c * 2 ^ w := by omega
      _ ≤ n / d * d + d * 2 ^ w := by omega
      _ = (n / d + 2 ^ w) * d := by ring
  rw [heq]
  intro h
  have hdiff := Nat.sub_mod_eq_zero_of_mod_eq h
  rw [Nat.mod_eq_of_lt (by omega)] at hdiff
  omega

theorem uidiv_wrapped (hn : n < 2 ^ 32) (hd : 0 < d) (hw : d < 2 ^ 32) (hp : isPowOf2 d = false)
    (hne : d ≠ n) (hnorm : normal 32 d ≤ n) : aeabiUidiv fuel n d ≠ some (n / d) := by
  intro h
  obtain ⟨i, c, m, r, hi, hc, hlow, hsum, _, hr, heq⟩ :=
    divide_wrapped (uidiv_right hd) hd hw hp hne hnorm hn h
  have hbad := wrapped_quotient hd hw hi hc hlow hsum hr
  have hlt : n / d < 2 ^ 32 := (Nat.div_le_self n d).trans_lt hn
  rw [Nat.mod_eq_of_lt hlt] at hbad
  exact hbad heq.symm

/-- **When the 32-bit quotient is right**: `__aeabi_uidiv` ends with it for a power of two, for a
dividend that is not above the divisor, and for one that is below the largest double of the divisor
that fits 32 bits; for no others. -/
theorem aeabiUidiv_right_iff (hn : n < 2 ^ 32) (hd : 0 < d) (hw : d < 2 ^ 32) :
    (∃ fuel, aeabiUidiv fuel n d = some (n / d)) ↔
      isPowOf2 d = true ∨ n ≤ d ∨ n < normal 32 d := by
  constructor
  · rintro ⟨fuel, h⟩
    by_contra hc
    obtain ⟨hp, hle, hnorm⟩ := not_or.mp hc |>.imp id not_or.mp
    exact uidiv_wrapped hn hd hw (not_isPowOf2_of_ne hp) (by omega) (by omega) h
  · intro hcond
    by_cases hle : n ≤ d
    · exact ⟨1, uidiv_le hd hle⟩
    · by_cases hp : isPowOf2 d = true
      · obtain ⟨k, rfl⟩ := (isPowOf2_iff d).1 hp
        exact ⟨1, uidiv_power (lt_32_of_two_pow_lt hw) (by omega)⟩
      · have hnorm : n < normal 32 d := (hcond.resolve_left hp).resolve_left hle
        have hp' := not_isPowOf2_of_ne hp
        obtain ⟨r, hr⟩ := Option.isSome_iff_exists.mp
          (divide_ends uidivAnswers hd hw hp' (Nat.lt_succ_self n) hnorm)
        have hright := divide_exact (uidiv_right hd) hd hw hp' hnorm hr
        exact ⟨n + 1, hright ▸ hr⟩

end

theorem aeabiUidiv_right_half : (∃ fuel, aeabiUidiv fuel 3000000000 7 = some (3000000000 / 7)) ↔
    isPowOf2 7 = true ∨ 3000000000 ≤ 7 ∨ 3000000000 < normal 32 7 :=
  aeabiUidiv_right_iff (by decide) (by decide) (by decide)

theorem aeabiUidiv_allOnes_three (fuel : Nat) : aeabiUidiv fuel (2 ^ 32 - 1) 3 = none := by
  by_contra hne
  obtain ⟨r, hr⟩ := Option.ne_none_iff_exists'.mp hne
  cases fuel with
  | zero => cases hr
  | succ fuel =>
    obtain ⟨d', q', _, hloop, _⟩ := divide_loop_some (by decide) (by decide) (by decide) hr
    obtain ⟨i, _, _, _, hlast⟩ := doubled_spec (by decide) (by decide) (by decide) hloop
    have hlt := Nat.mod_lt (3 * 2 ^ (i + 1)) (show 2 ^ 32 > 0 by decide)
    omega

theorem aeabiUidiv_can_fail :
    ¬∀ n d : Nat, n < 2 ^ 32 → 0 < d → d < 2 ^ 32 → ∃ fuel, aeabiUidiv fuel n d = some (n / d) := by
  intro h
  obtain ⟨fuel, hf⟩ := h (2 ^ 32 - 1) 3 (by decide) (by decide) (by decide)
  rw [aeabiUidiv_allOnes_three] at hf
  cases hf

/-! ## 64 bits -/

structure UldivmodT where
  quot : Nat
  rem : Nat

/-- the answers of `__aeabi_uldivmod`: quotient and remainder; `log_of_2` takes a 32-bit number -/
def uldivmodAnswers : Answers UldivmodT where
  same := ⟨1, 0⟩
  less dividend := ⟨0, dividend⟩
  power dividend divisor :=
    ⟨dividend >>> logOf2 (u32 divisor), dividend &&& (divisor - 1)⟩
  join quot temp := ⟨(quot + temp.quot) % 2 ^ 64, temp.rem⟩

def aeabiUldivmod (fuel dividend divisor : Nat) : Option UldivmodT :=
  divide (2 ^ 64) isPowOf2 uldivmodAnswers fuel dividend divisor

def DividedBy (n d : Nat) (ret : UldivmodT) : Prop := n = ret.quot * d + ret.rem ∧ ret.rem < d

section
variable {n d fuel : Nat}

theorem dividedBy_iff (hd : 0 < d) (ret : UldivmodT) :
    DividedBy n d ret ↔ ret = ⟨n / d, n % d⟩ := by
  constructor
  · rintro ⟨h1, h2⟩
    have hq : n / d = ret.quot := by
      rw [h1, Nat.add_comm, Nat.add_mul_div_right _ _ hd, Nat.div_eq_of_lt h2, Nat.zero_add]
    have hr : n % d = ret.rem := by
      rw [h1, Nat.add_comm, Nat.add_mul_mod_self_right, Nat.mod_eq_of_lt h2]
    rw [hq, hr]
  · rintro rfl
    exact ⟨(Nat.div_add_mod' n d).symm, Nat.mod_lt n hd⟩

theorem uldivmod_right (hd : 0 < d) :
    Right uldivmodAnswers 64 d fun n ret => ret = ⟨n / d, n % d⟩ where
  same := by rw [Nat.div_self hd, Nat.mod_self]; rfl
  less n h := by rw [Nat.div_eq_of_lt h, Nat.mod_eq_of_lt h]; rfl
  join n i r hn _ hle hr := by
    have hlt : n / d < 2 ^ 64 := (Nat.div_le_self n d).trans_lt hn
    have hmod : (n - d * 2 ^ i) % d = n % d := Nat.sub_mul_mod hle
    show UldivmodT.mk ((2 ^ i + r.quot) % 2 ^ 64) r.rem = _
    rw [hr, add_div_of_mul_le hd hle, Nat.mod_eq_of_lt hlt, hmod]

theorem uldivmod_le (hd : 0 < d) (h : n ≤ d) : aeabiUldivmod 1 n d = some ⟨n / d, n % d⟩ := by
  rcases Nat.lt_or_eq_of_le h with hlt | rfl
  · rw [aeabiUldivmod, divide_less 0 hlt, Nat.div_eq_of_lt hlt, Nat.mod_eq_of_lt hlt]
    rfl
  · rw [aeabiUldivmod, divide_same 0 hd, Nat.div_self hd, Nat.mod_self]
    rfl

theorem uldivmod_power {k : Nat} (hn : 2 ^ k < n) :
    aeabiUldivmod (fuel + 1) n (2 ^ k) = some ⟨n >>> logOf2 (u32 (2 ^ k)), n % 2 ^ k⟩ := by
  rw [aeabiUldivmod, divide_power fuel (Nat.two_pow_pos k) hn (isPowOf2_two_pow k)]
  show some (UldivmodT.mk _ (n &&& (2 ^ k - 1))) = _
  rw [Nat.and_two_pow_sub_one_eq_mod]

theorem shift_narrow {k : Nat} (hk : k < 32) : n >>> logOf2 (u32 (2 ^ k)) = n / 2 ^ k := by
  rw [u32_of_lt (Nat.pow_lt_pow_right (by omega) hk), logOf2_two_pow hk, Nat.shiftRight_eq_div_pow]

theorem shift_wide {k : Nat} (hk : 32 ≤ k) : n >>> logOf2 (u32 (2 ^ k)) = n := by
  rw [u32, Nat.mod_eq_zero_of_dvd (Nat.pow_dvd_pow 2 hk), logOf2_zero, Nat.shiftRight_zero]

theorem uldivmod_wrapped (hn : n < 2 ^ 64) (hd : 0 < d) (hw : d < 2 ^ 64) (hp : isPowOf2 d = false)
    (hne : d ≠ n) (hnorm : normal 64 d ≤ n) : aeabiUldivmod fuel n d ≠ some ⟨n / d, n % d⟩ := by
  intro h
  obtain ⟨i, c, m, r, hi, hc, hlow, hsum, _, hr, heq⟩ :=
    divide_wrapped (uldivmod_right hd) hd hw hp hne hnorm hn h
  have hbad := wrapped_quotient hd hw hi hc hlow hsum (congrArg UldivmodT.quot hr)
  have hlt : n / d < 2 ^ 64 := (Nat.div_le_self n d).trans_lt hn
  rw [Nat.mod_eq_of_lt hlt] at hbad
  exact hbad (congrArg UldivmodT.quot heq).symm

theorem uldivmod_wide (hp : isPowOf2 d = true) (hd : 2 ^ 32 ≤ d) (h : d < n) :
    aeabiUldivmod fuel n d ≠ some ⟨n / d, n % d⟩ := by
  obtain ⟨k, rfl⟩ := (isPowOf2_iff d).1 hp
  have hk : 32 ≤ k := (Nat.pow_le_pow_iff_right (by omega)).1 hd
  cases fuel with
  | zero =>
    intro hf
    cases hf
  | succ fuel =>
    rw [uldivmod_power h, shift_wide hk]
    intro hf
    have hq : n = n / 2 ^ k := congrArg UldivmodT.quot (Option.some.inj hf)
    have hlt : n / 2 ^ k < n := Nat.div_lt_self (by omega) (by omega)
    omega

/-- **When the 64-bit division is right**: `__aeabi_uldivmod` ends with quotient and remainder for a
dividend that is not above the divisor, for a power of two that fits 32 bits, and, if the divisor is
no power of two, for a dividend below its largest double that fits 64 bits; for no others. -/
theorem aeabiUldivmod_right_iff (hn : n < 2 ^ 64) (hd : 0 < d) (hw : d < 2 ^ 64) :
    (∃ fuel ret, aeabiUldivmod fuel n d = some ret ∧ n = ret.quot * d + ret.rem ∧ ret.rem < d) ↔
      n ≤ d ∨ (isPowOf2 d = true ∧ d < 2 ^ 32) ∨ (isPowOf2 d = false ∧ n < normal 64 d) := by
  constructor
  · rintro ⟨fuel, ret, h, hdiv⟩
    rw [(dividedBy_iff hd ret).1 hdiv] at h
    by_contra hc
    obtain ⟨hle, hcases⟩ := not_or.mp hc
    obtain ⟨hnarrow, hnorm⟩ := not_or.mp hcases
    by_cases hp : isPowOf2 d = true
    · exact uldivmod_wide hp (Nat.le_of_not_lt fun hlt => hnarrow ⟨hp, hlt⟩) (by omega) h
    · have hp' := not_isPowOf2_of_ne hp
      exact uldivmod_wrapped hn hd hw hp' (by omega)
        (Nat.le_of_not_lt fun hlt => hnorm ⟨hp', hlt⟩) h
  · intro hcond
    suffices hs : ∃ fuel, aeabiUldivmod fuel n d = some ⟨n / d, n % d⟩ by
      obtain ⟨fuel, h⟩ := hs
      exact ⟨fuel, _, h, (dividedBy_iff hd _).2 rfl⟩
    by_cases hle : n ≤ d
    · exact ⟨1, uldivmod_le hd hle⟩
    · rcases hcond.resolve_left hle with ⟨hp, h32⟩ | ⟨hp, hnorm⟩
      · obtain ⟨k, rfl⟩ := (isPowOf2_iff d).1 hp
        refine ⟨1, ?_⟩
        rw [uldivmod_power (by omega), shift_narrow (lt_32_of_two_pow_lt h32)]
      · obtain ⟨r, hr⟩ := Option.isSome_iff_exists.mp
          (divide_ends uldivmodAnswers hd hw hp (Nat.lt_succ_self n) hnorm)
        have hright := divide_exact (uldivmod_right hd) hd hw hp hnorm hr
        exact ⟨n + 1, hright ▸ hr⟩

end

theorem aeabiUldivmod_right_half :
    (∃ fuel ret, aeabiUldivmod fuel (2 ^ 40) (10 ^ 9) = some ret ∧
      2 ^ 40 = ret.quot * 10 ^ 9 + ret.rem ∧ ret.rem < 10 ^ 9) ↔
      2 ^ 40 ≤ 10 ^ 9 ∨ (isPowOf2 (10 ^ 9) = true ∧ 10 ^ 9 < 2 ^ 32) ∨
        (isPowOf2 (10 ^ 9) = false ∧ 2 ^ 40 < normal 64 (10 ^ 9)) :=
  aeabiUldivmod_right_iff (by decide) (by decide) (by decide)

/-- `2 ^ 33` divided by `2 ^ 32` -/
theorem aeabiUldivmod_can_fail :
    ¬∀ n d : Nat, n < 2 ^ 64 → 0 < d → d < 2 ^ 64 →
      ∃ fuel ret, aeabiUldivmod fuel n d = some ret ∧ n = ret.quot * d + ret.rem ∧ ret.rem < d := by
  intro h
  obtain ⟨fuel, ret, hf, hdiv⟩ := h (2 ^ 33) (2 ^ 32) (by decide) (by decide) (by decide)
  rw [(dividedBy_iff (by decide) ret).1 hdiv] at hf
  exact uldivmod_wide (isPowOf2_two_pow 32) (le_refl _) (by decide) hf

end SierraTee
