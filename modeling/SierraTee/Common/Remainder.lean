import SierraTee.Common.Division
import Mathlib.Data.Nat.Factorization.Basic

/-!
# Signed remainder (`sw_div.c`)

`__aeabi_idivmod` takes its operands as unsigned words and tests their signs there, so both tests
are false and what it computes is the unsigned remainder.

* `aeabiIdivmod_eq`         the unsigned remainder by doubling;
* `aeabiIdivmod_right_iff`  for which operands that is the signed remainder as well.
-/

namespace SierraTee
open Word Doubling

/-- `while (udivisor << 1 <= udividend) udivisor = udivisor << 1;` -/
def udivisorLoop (udividend : Nat) : Nat → Nat → Option Nat
  | 0, _ => none
  | fuel + 1, udivisor =>
    if u32 (udivisor <<< 1) ≤ udividend then udivisorLoop udividend fuel (u32 (udivisor <<< 1))
    else some udivisor

def timesSign (x : Nat) (sign : Int) : Nat := (x * sign % 2 ^ 32).toNat

/-- `__aeabi_idivmod`; its parameters are of type `sw_uint` -/
def aeabiIdivmod : Nat → Nat → Nat → Option Nat
  | 0, _, _ => none
  | fuel + 1, dividend, divisor =>
    let udividend := if dividend < 0 then sub32 0 dividend else dividend
    let udivisor := if divisor < 0 then sub32 0 divisor else divisor
    if divisor = 0 then none
    else
      let sign : Int := if (dividend > 0 ∧ divisor < 0) ∨ (dividend < 0 ∧ divisor > 0) then -1 else 1
      if udivisor = udividend then some 0
      else if udividend < udivisor then
        if dividend < 0 then some (timesSign udividend sign) else some udividend
      else if isPowOf2 divisor then some (timesSign (udividend &&& (udivisor - 1)) sign)
      else (udivisorLoop udividend fuel udivisor).bind fun udivisor =>
        if dividend < 0 then aeabiIdivmod fuel (sub32 0 (sub32 udividend udivisor)) divisor
        else aeabiIdivmod fuel (sub32 udividend udivisor) divisor

/-! ## the unsigned remainder -/

def idivmodAnswers : Answers Nat where
  same := 0
  less dividend := dividend
  power dividend divisor := dividend &&& (divisor - 1)
  join _ rest := rest

section
variable {n d fuel : Nat}

theorem timesSign_one {x : Nat} (hx : x < 2 ^ 32) : timesSign x 1 = x := by
  rw [timesSign, Int.mul_one]
  omega

theorem udivisorLoop_eq (n fuel d q : Nat) :
    udivisorLoop n fuel d = (doubled (2 ^ 32) n fuel d q).map Prod.fst := by
  induction fuel generalizing d q with
  | zero => rfl
  | succ fuel ih =>
    have he : u32 (d <<< 1) = 2 * d % 2 ^ 32 := by
      rw [u32, Nat.shiftLeft_eq, Nat.pow_one, Nat.mul_comm]
    rw [udivisorLoop, doubled_succ, he]
    split_ifs with hle
    · exact ih _ _
    · rfl

theorem aeabiIdivmod_eq (hn : n < 2 ^ 32) (hd : d < 2 ^ 32) :
    aeabiIdivmod fuel n d = divide (2 ^ 32) isPowOf2 idivmodAnswers fuel n d := by
  induction fuel generalizing n with
  | zero => rfl
  | succ fuel ih =>
    rw [aeabiIdivmod, divide]
    simp only [Nat.not_lt_zero, if_false, and_false, false_and, or_false]
    split_ifs with h0 hsame hless hp
    · rfl
    · rfl
    · rfl
    · have hle : n &&& (d - 1) ≤ n := Nat.and_le_left
      rw [timesSign_one (by omega)]
      rfl
    · rw [udivisorLoop_eq n fuel d 1]
      cases hloop : doubled (2 ^ 32) n fuel d 1 with
      | none => rfl
      | some p =>
        obtain ⟨i, h1, _, h3, _⟩ := doubled_spec (by omega) hd (by decide) hloop
        have hle : p.1 ≤ n := h1 ▸ h3 i (Nat.le_refl i)
        rw [Option.map_some, Option.bind_some, Option.bind_some, sub32_of_le hle, sub_word hn hle,
          ih (by omega)]
        exact Option.map_id'.symm

theorem idivmod_right (d : Nat) : Right idivmodAnswers 32 d fun n r => r = n % d where
  same := (Nat.mod_self d).symm
  less n h := (Nat.mod_eq_of_lt h).symm
  join n i r _ _ hle hr := by
    show r = n % d
    rw [hr, Nat.sub_mul_mod hle]

theorem idivmod_exact (hn : n < normal 32 d) (hd : 0 < d) (hw : d < 2 ^ 32)
    (hp : isPowOf2 d = false) : ∃ fuel, aeabiIdivmod fuel n d = some (n % d) := by
  have hfit := normal_lt hd hw
  obtain ⟨r, hr⟩ := Option.isSome_iff_exists.mp
    (divide_ends idivmodAnswers hd hw hp (Nat.lt_succ_self n) hn)
  have hright := divide_exact (idivmod_right d) hd hw hp hn hr
  refine ⟨n + 1, ?_⟩
  rw [aeabiIdivmod_eq (by omega) hw, ← hright]
  exact hr

theorem idivmod_power {k : Nat} (hn : n < 2 ^ 32) (h : 2 ^ k < n) :
    aeabiIdivmod (fuel + 1) n (2 ^ k) = some (n % 2 ^ k) := by
  rw [aeabiIdivmod_eq hn (by omega), divide_power fuel (Nat.two_pow_pos k) h (isPowOf2_two_pow k)]
  show some (n &&& (2 ^ k - 1)) = _
  rw [Nat.and_two_pow_sub_one_eq_mod]

theorem idivmod_same (hd : 0 < d) (hw : d < 2 ^ 32) : aeabiIdivmod (fuel + 1) d d = some 0 := by
  rw [aeabiIdivmod_eq hw hw, divide_same fuel hd]
  rfl

theorem idivmod_less (hw : d < 2 ^ 32) (h : n < d) : aeabiIdivmod (fuel + 1) n d = some n := by
  rw [aeabiIdivmod_eq (by omega) hw, divide_less fuel h]
  rfl

theorem idivmod_loop {r : Nat} (hn : n < 2 ^ 32) (hd : 0 < d) (h : d < n)
    (hp : isPowOf2 d = false) (hr : aeabiIdivmod fuel n d = some r) :
    (n < normal 32 d ∧ r = n % d) ∨
      ∃ i c m, i < 32 ∧ 0 < c ∧ c * 2 ^ 32 < d * 2 ^ i ∧ m + d * 2 ^ i = n + c * 2 ^ 32 ∧
        m < 2 ^ 31 ∧ r = m % d := by
  have hw : d < 2 ^ 32 := h.trans hn
  rw [aeabiIdivmod_eq hn hw] at hr
  rcases Nat.lt_or_ge n (normal 32 d) with hlt | hge
  · exact Or.inl ⟨hlt, divide_exact (idivmod_right d) hd hw hp hlt hr⟩
  · obtain ⟨i, c, m, r', hi, hc, hlow, hsum, hm, hr', rfl⟩ :=
      divide_wrapped (idivmod_right d) hd hw hp (Nat.ne_of_lt h) hge hn hr
    exact Or.inr ⟨i, c, m, hi, hc, hlow, hsum, hm, hr'⟩

/-! ## the four signs -/

theorem toInt32_below {x : Nat} (h : x < 2 ^ 31) : toInt32 x = x := if_pos h

theorem toInt32_above {x : Nat} (h : 2 ^ 31 ≤ x) (hx : x < 2 ^ 32) :
    toInt32 x = -((2 ^ 32 - x : Nat) : Int) := by
  rw [toInt32, if_neg (Nat.not_lt.2 h)]
  omega

theorem idivmod_small (hn : n < 2 ^ 31) (hd : 0 < d) (hw : d < 2 ^ 32) :
    ∃ fuel, aeabiIdivmod fuel n d = some (n % d) := by
  rcases Nat.lt_trichotomy n d with hlt | rfl | hgt
  · rw [Nat.mod_eq_of_lt hlt]
    exact ⟨1, idivmod_less hw hlt⟩
  · rw [Nat.mod_self]
    exact ⟨1, idivmod_same hd hw⟩
  · by_cases hp : isPowOf2 d = true
    · obtain ⟨k, rfl⟩ := (isPowOf2_iff d).1 hp
      exact ⟨1, idivmod_power (by omega) hgt⟩
    · exact idivmod_exact (hn.trans_le (normal_ge hd hw)) hd hw (not_isPowOf2_of_ne hp)

theorem wrapped_remainder {i c m : Nat} (hn : n < 2 ^ 32) (hd : 0 < d) (hc : 0 < c)
    (hlow : c * 2 ^ 32 < d * 2 ^ i) (hsum : m + d * 2 ^ i = n + c * 2 ^ 32) :
    ¬d ∣ (c + 1) * 2 ^ 32 := by
  intro hdvd
  obtain ⟨s, e, hodd, rfl⟩ := Nat.exists_eq_two_pow_mul_odd hd.ne'
  have hsi : s + i < 32 := by
    by_contra hge
    have h1 : 2 ^ 32 ∣ 2 ^ s * e * 2 ^ i := by
      have h2 : 2 ^ s * e * 2 ^ i = 2 ^ (s + i) * e := by
        rw [Nat.pow_add]
        ring
      rw [h2]
      exact Dvd.dvd.mul_right (Nat.pow_dvd_pow 2 (Nat.le_of_not_lt hge)) e
    have h3 : 2 ^ 32 ∣ 2 ^ s * e * 2 ^ i - c * 2 ^ 32 := Nat.dvd_sub h1 (Nat.dvd_mul_left _ c)
    have h4 := Nat.le_of_dvd (by omega) h3
    omega
  have hhalf : 2 * c < e := by
    have h1 : 2 ^ s * e * 2 ^ i ≤ e * 2 ^ 31 := by
      calc 2 ^ s * e * 2 ^ i = e * 2 ^ (s + i) := by
            rw [Nat.pow_add]
            ring
        _ ≤ e * 2 ^ 31 := Nat.mul_le_mul_left e (Nat.pow_le_pow_right (by omega) (by omega))
    omega
  have hcop : Nat.Coprime e (2 ^ 32) := (Nat.coprime_two_right.2 hodd).pow_right 32
  have hle := Nat.le_of_dvd (Nat.succ_pos c)
    (hcop.dvd_of_dvd_mul_right ((Nat.dvd_mul_left e (2 ^ s)).trans hdvd))
  omega

theorem idivmod_negative_ne {r : Nat} (hn : n < 2 ^ 32) (hd : 0 < d) (h : d < n)
    (hp : isPowOf2 d = false) (hr : aeabiIdivmod fuel n d = some r) :
    ¬(d ∣ r ∧ d ∣ 2 ^ 32 - n) := by
  rintro ⟨h1, h2⟩
  rcases idivmod_loop hn hd h hp hr with ⟨_, rfl⟩ | ⟨i, c, m, _, hc, hlow, hsum, _, rfl⟩
  · have hdn : d ∣ n := (Nat.dvd_mod_iff (dvd_refl d)).1 h1
    have hpow : d ∣ 2 ^ 32 := by
      have hadd := Nat.dvd_add hdn h2
      rwa [Nat.add_sub_of_le (Nat.le_of_lt hn)] at hadd
    obtain ⟨k, _, rfl⟩ := (Nat.dvd_prime_pow Nat.prime_two).1 hpow
    rw [isPowOf2_two_pow] at hp
    cases hp
  · have hdm : d ∣ m := (Nat.dvd_mod_iff (dvd_refl d)).1 h1
    have hall : d ∣ (c + 1) * 2 ^ 32 := by
      have h3 : d ∣ m + d * 2 ^ i + (2 ^ 32 - n) :=
        Nat.dvd_add (Nat.dvd_add hdm (Nat.dvd_mul_right d _)) h2
      have he : m + d * 2 ^ i + (2 ^ 32 - n) = (c + 1) * 2 ^ 32 := by
        rw [hsum]
        omega
      rwa [he] at h3
    exact wrapped_remainder hn hd hc hlow hsum hall

theorem idivmod_above {r : Nat} (hn : n < 2 ^ 32) (hd : 2 ^ 31 ≤ d) (h : d < n)
    (hr : aeabiIdivmod fuel n d = some r) : r < 2 ^ 31 := by
  have hmod : n % d < 2 ^ 31 := by
    rw [Nat.mod_eq_sub_mod (Nat.le_of_lt h), Nat.mod_eq_of_lt (by omega)]
    omega
  by_cases hp : isPowOf2 d = true
  · obtain ⟨k, rfl⟩ := (isPowOf2_iff d).1 hp
    cases fuel with
    | zero => cases hr
    | succ fuel =>
      rw [idivmod_power hn h, Option.some.injEq] at hr
      exact hr ▸ hmod
  · rcases idivmod_loop hn (by omega) h (not_isPowOf2_of_ne hp) hr with
      ⟨_, rfl⟩ | ⟨_, _, m, _, _, _, _, hm, rfl⟩
    · exact hmod
    · exact (Nat.mod_le m d).trans_lt hm

/-! ## when it is the signed remainder -/

/-- `__aeabi_idivmod` ends with the word of the signed remainder, whose sign is the dividend's -/
def RemainderRight (n d : Nat) : Prop :=
  ∃ fuel r, aeabiIdivmod fuel n d = some r ∧ toInt32 r = (toInt32 n).tmod (toInt32 d)

theorem remainderRight_pos_pos (hn : n < 2 ^ 31) (hd : 0 < d) (hw : d < 2 ^ 31) :
    RemainderRight n d := by
  obtain ⟨fuel, h⟩ := idivmod_small hn hd (by omega)
  have hlt : n % d < 2 ^ 31 := (Nat.mod_le n d).trans_lt hn
  refine ⟨fuel, n % d, h, ?_⟩
  rw [toInt32_below hlt, toInt32_below hn, toInt32_below hw]
  exact Int.ofNat_tmod n d

theorem remainderRight_pos_neg (hn : n < 2 ^ 31) (hd : 2 ^ 31 ≤ d) (hw : d < 2 ^ 32) :
    RemainderRight n d ↔ n < 2 ^ 32 - d := by
  have htmod : (toInt32 n).tmod (toInt32 d) = ((n % (2 ^ 32 - d) : Nat) : Int) := by
    rw [toInt32_below hn, toInt32_above hd hw, Int.tmod_neg]
    exact (Int.ofNat_tmod _ _).symm
  constructor
  · rintro ⟨fuel, r, h, heq⟩
    cases fuel with
    | zero => cases h
    | succ fuel =>
      rw [idivmod_less hw (by omega)] at h
      cases h
      rw [htmod, toInt32_below hn, Nat.cast_inj] at heq
      have hlt := Nat.mod_lt n (show 2 ^ 32 - d > 0 by omega)
      omega
  · intro hlt
    refine ⟨1, n, idivmod_less hw (by omega), ?_⟩
    rw [htmod, toInt32_below hn, Nat.mod_eq_of_lt hlt]

theorem remainderRight_neg_pos (hn : 2 ^ 31 ≤ n) (hnw : n < 2 ^ 32) (hd : 0 < d) (hw : d < 2 ^ 31) :
    RemainderRight n d ↔ isPowOf2 d = true ∧ d ∣ 2 ^ 32 - n := by
  have htmod : (toInt32 n).tmod (toInt32 d) = -(((2 ^ 32 - n) % d : Nat) : Int) := by
    rw [toInt32_above hn hnw, toInt32_below hw, Int.neg_tmod]
    rfl
  constructor
  · rintro ⟨fuel, r, h, heq⟩
    rw [htmod] at heq
    by_cases hp : isPowOf2 d = true
    · refine ⟨hp, ?_⟩
      obtain ⟨k, rfl⟩ := (isPowOf2_iff d).1 hp
      cases fuel with
      | zero => cases h
      | succ fuel =>
        rw [idivmod_power hnw (by omega)] at h
        cases h
        have hlt : n % 2 ^ k < 2 ^ 31 := (Nat.mod_lt n hd).trans hw
        rw [toInt32_below hlt] at heq
        exact Nat.dvd_of_mod_eq_zero (by omega)
    · have hp' := not_isPowOf2_of_ne hp
      have hr : r < 2 ^ 31 := by
        rcases idivmod_loop hnw hd (by omega) hp' h with ⟨_, rfl⟩ | ⟨_, _, m, _, _, _, _, _, rfl⟩
        · exact (Nat.mod_lt n hd).trans hw
        · exact (Nat.mod_lt m hd).trans hw
      rw [toInt32_below hr] at heq
      have hr0 : r = 0 := by omega
      refine absurd ⟨?_, Nat.dvd_of_mod_eq_zero (by omega)⟩ (idivmod_negative_ne hnw hd (by omega) hp' h)
      rw [hr0]
      exact Nat.dvd_zero d
  · rintro ⟨hp, hdvd⟩
    obtain ⟨k, rfl⟩ := (isPowOf2_iff d).1 hp
    have hk : k ≤ 32 := Nat.le_of_lt (lt_32_of_two_pow_lt (by omega))
    have hdn : 2 ^ k ∣ n := by
      have h1 := Nat.dvd_sub (Nat.pow_dvd_pow 2 hk) hdvd
      rwa [Nat.sub_sub_self (Nat.le_of_lt hnw)] at h1
    refine ⟨1, n % 2 ^ k, idivmod_power hnw (by omega), ?_⟩
    rw [htmod, Nat.mod_eq_zero_of_dvd hdn, Nat.mod_eq_zero_of_dvd hdvd]
    rfl

theorem remainderRight_neg_neg (hn : 2 ^ 31 ≤ n) (hnw : n < 2 ^ 32) (hd : 2 ^ 31 ≤ d)
    (hw : d < 2 ^ 32) : RemainderRight n d ↔ n = d := by
  have htmod : (toInt32 n).tmod (toInt32 d) = -(((2 ^ 32 - n) % (2 ^ 32 - d) : Nat) : Int) := by
    rw [toInt32_above hn hnw, toInt32_above hd hw, Int.tmod_neg, Int.neg_tmod]
    rfl
  constructor
  · rintro ⟨fuel, r, h, heq⟩
    rw [htmod] at heq
    rcases Nat.lt_trichotomy n d with hlt | he | hgt
    · cases fuel with
      | zero => cases h
      | succ fuel =>
        rw [idivmod_less hw hlt] at h
        cases h
        rw [toInt32_above hn hnw] at heq
        have hmod := Nat.mod_lt (2 ^ 32 - n) (show 2 ^ 32 - d > 0 by omega)
        omega
    · exact he
    · have hr := idivmod_above hnw hd hgt h
      rw [toInt32_below hr, Nat.mod_eq_of_lt (by omega)] at heq
      omega
  · rintro rfl
    refine ⟨1, 0, idivmod_same (by omega) hw, ?_⟩
    rw [htmod, Nat.mod_self]
    rfl

/-- **When the signed remainder is right**: for two operands that are not negative, for a dividend
that is smaller than the absolute value of a negative divisor, for a negative dividend that a
positive power of two divides, and for equal operands; for no others. -/
theorem aeabiIdivmod_right_iff (hn : n < 2 ^ 32) (hd : 0 < d) (hw : d < 2 ^ 32) :
    (∃ fuel r, aeabiIdivmod fuel n d = some r ∧ toInt32 r = (toInt32 n).tmod (toInt32 d)) ↔
      (0 ≤ toInt32 n ∧ 0 < toInt32 d) ∨
      (0 ≤ toInt32 n ∧ toInt32 d < 0 ∧ toInt32 n < -toInt32 d) ∨
      (toInt32 n < 0 ∧ 0 < toInt32 d ∧ isPowOf2 d = true ∧ toInt32 d ∣ toInt32 n) ∨
      toInt32 n = toInt32 d := by
  change RemainderRight n d ↔ _
  rcases Nat.lt_or_ge n (2 ^ 31) with hn31 | hn31
  · rw [toInt32_below hn31]
    rcases Nat.lt_or_ge d (2 ^ 31) with hd31 | hd31
    · rw [toInt32_below hd31]
      refine iff_of_true (remainderRight_pos_pos hn31 hd hd31) (Or.inl ?_)
      omega
    · rw [remainderRight_pos_neg hn31 hd31 hw, toInt32_above hd31 hw]
      omega
  · rw [toInt32_above hn31 hn]
    rcases Nat.lt_or_ge d (2 ^ 31) with hd31 | hd31
    · rw [remainderRight_neg_pos hn31 hn hd hd31, toInt32_below hd31, Int.dvd_neg,
        Int.natCast_dvd_natCast]
      constructor
      · intro h
        exact Or.inr (Or.inr (Or.inl ⟨by omega, by omega, h⟩))
      · rintro (h | h | h | h)
        · omega
        · omega
        · exact h.2.2
        · omega
    · rw [remainderRight_neg_neg hn31 hn hd31 hw, toInt32_above hd31 hw]
      omega

end

theorem aeabiIdivmod_right_minus_eight :
    (∃ fuel r, aeabiIdivmod fuel (2 ^ 32 - 8) 4 = some r ∧
      toInt32 r = (toInt32 (2 ^ 32 - 8)).tmod (toInt32 4)) ↔
      (0 ≤ toInt32 (2 ^ 32 - 8) ∧ 0 < toInt32 4) ∨
      (0 ≤ toInt32 (2 ^ 32 - 8) ∧ toInt32 4 < 0 ∧ toInt32 (2 ^ 32 - 8) < -toInt32 4) ∨
      (toInt32 (2 ^ 32 - 8) < 0 ∧ 0 < toInt32 4 ∧ isPowOf2 4 = true ∧
        toInt32 4 ∣ toInt32 (2 ^ 32 - 8)) ∨
      toInt32 (2 ^ 32 - 8) = toInt32 4 :=
  aeabiIdivmod_right_iff (by decide) (by decide) (by decide)

/-- `-7 % 2` -/
theorem aeabiIdivmod_can_fail :
    ¬∀ n d : Nat, n < 2 ^ 32 → 0 < d → d < 2 ^ 32 →
      ∃ fuel r, aeabiIdivmod fuel n d = some r ∧ toInt32 r = (toInt32 n).tmod (toInt32 d) := by
  intro h
  have hright : RemainderRight (2 ^ 32 - 7) 2 := h _ _ (by decide) (by decide) (by decide)
  have hdvd := ((remainderRight_neg_pos (by decide) (by decide) (by decide) (by decide)).1 hright).2
  revert hdvd
  decide

end SierraTee
