import SierraTee.Timers.Convert
import SierraTee.Timers.Queue

/-!
# The count of the tick timer (`sw_timer.c`, `cpu_api.c`)

* `triggerTick_toNat`  the count for a time that is left;
* `programTick_iff`    when it is right, for every normalised expiry and every current time.
-/

namespace SierraTee
open FlatMemory

/-- the nanoseconds of a time value with two signed words -/
def Timeval.total (t : Timeval) : Int := t.sec.toInt * 1000000000 + t.nsec.toInt

/-- the tick timer is programmed for the count `n`, which is over in `left` nanoseconds, unless less
than one clock period is left -/
def InTime (b : Board) (left : Int) (n : Word) : Prop :=
  1 ≤ n.toNat ∧ n.toNat ≤ b.timerCountMax.toNat ∧
    ((n.toNat * (1000 * b.getClockPeriodUs.toNat) : Nat) ≤ left ∨
      n.toNat = 1 ∧ left < (1000 * b.getClockPeriodUs.toNat : Nat))

/-! ## The difference -/

def gapSec (t u : Timeval) : Int := (t.toInt - u.toInt) / 2 ^ 32

def gapNsec (t u : Timeval) : Int :=
  if (t.toInt - u.toInt) % 2 ^ 32 < 2 ^ 31 then (t.toInt - u.toInt) % 2 ^ 32
  else (t.toInt - u.toInt) % 2 ^ 32 - 2 ^ 32 + 1000000000

def GapOverflows (t u : Timeval) : Prop := t.toInt - u.toInt < -2 ^ 63

instance (t u : Timeval) : Decidable (GapOverflows t u) := inferInstanceAs (Decidable (_ < _))

/-- the microseconds of a time, as a word, are one clock period, or none where the period is one -/
def OneCount (b : Board) (sec nsec : Nat) : Prop :=
  (1000000 * sec + series (nsec / 1024)) % 2 ^ 32 / b.getClockPeriodUs.toNat = 1 ∨
    (1000000 * sec + series (nsec / 1024)) % 2 ^ 32 / b.getClockPeriodUs.toNat = 0 ∧
      b.getClockPeriodUs = 1

/-- where the count is in time: what is left is not from 0 to 18431 ns with a clock period of 18 us;
a difference that overflows must come to a single count -/
def CountsInTime (b : Board) (t u : Timeval) : Prop :=
  if GapOverflows t u then
    gapNsec t u < 0 ∨ OneCount b (gapSec t u + 2 ^ 32).toNat (gapNsec t u).toNat
  else b = .ve ∨ u.nsec.toInt < 0 ∨ ¬ (0 ≤ t.total - u.total ∧ t.total - u.total < 18432 ∧
    u.nsec.toInt ≤ t.nsec.toInt + 1000000000)

section
variable {b : Board} {t u : Timeval} {s : TimerCpu}

theorem toInt_sub_cases (t u : Timeval) : (t - u).toInt = t.toInt - u.toInt ∨
    t.toInt - u.toInt < -2 ^ 63 ∧ (t - u).toInt = t.toInt - u.toInt + 2 ^ 64 ∨
      2 ^ 63 ≤ t.toInt - u.toInt ∧ (t - u).toInt = t.toInt - u.toInt - 2 ^ 64 := by
  have h4 := BitVec.toInt_lt (x := t)
  have h5 := BitVec.le_toInt t
  have h6 := BitVec.toInt_lt (x := u)
  have h7 := BitVec.le_toInt u
  have h8 : (t - u).toInt = (t.toInt - u.toInt).bmod (2 ^ 64) := BitVec.toInt_sub
  rw [Int.bmod_def] at h8
  split_ifs at h8 <;> omega

theorem subtractTime_nsec (t u : Timeval) : (subtractTime t u).nsec.toInt = gapNsec t u := by
  have h3 : ((t - u).nsec.toNat : Int) = (t.toInt - u.toInt) % 2 ^ 32 := by
    have h1 := timeval_toInt (t - u)
    have h2 := (t - u).nsec.isLt
    rcases toInt_sub_cases t u with h | ⟨-, h⟩ | ⟨-, h⟩ <;> omega
  have h4 := word_toInt (t - u).nsec
  unfold gapNsec
  show (if (t - u).nsec.toInt < 0 then timeval (t - u).sec ((t - u).nsec + 1000000000)
    else t - u).nsec.toInt = _
  split_ifs with h5 h6 h6
  · omega
  · rw [timeval_nsec]
    have h7 : ((t - u).nsec + 1000000000).toNat = ((t - u).nsec.toNat + 1000000000) % 2 ^ 32 :=
      BitVec.toNat_add _ 1000000000
    have h8 := word_toInt ((t - u).nsec + 1000000000)
    omega
  · omega
  · omega

theorem subtractTime_sec (t u : Timeval) :
    (subtractTime t u).sec.toInt = gapSec t u ∨
      (GapOverflows t u ∧ (subtractTime t u).sec.toInt = gapSec t u + 2 ^ 32) ∨
      (subtractTime t u).sec.toInt < 0 ∧ 2 ^ 31 ≤ gapSec t u := by
  have h1 : (subtractTime t u).sec = (t - u).sec := by
    show (if (t - u).nsec.toInt < 0 then timeval (t - u).sec ((t - u).nsec + 1000000000)
      else t - u).sec = _
    split_ifs
    · exact timeval_sec ..
    · rfl
  have h2 := timeval_toInt (t - u)
  have h3 := (t - u).nsec.isLt
  have h4 := BitVec.toInt_lt (x := t)
  have h5 := BitVec.le_toInt t
  have h6 := BitVec.toInt_lt (x := u)
  have h7 := BitVec.le_toInt u
  rw [h1]
  unfold gapSec GapOverflows
  rcases toInt_sub_cases t u with h | ⟨h8, h⟩ | ⟨h8, h⟩ <;> omega

/-! ## The count -/

theorem timevalToClockcycles_toNat {x : Timeval} (hs : 0 ≤ x.sec.toInt) (hn : 0 ≤ x.nsec.toInt) :
    let n := (1000000 * x.sec.toInt.toNat + series (x.nsec.toInt.toNat / 1024)) % 2 ^ 32
      / b.getClockPeriodUs.toNat
    (timevalToClockcycles b x).toNat = if n = 0 then b.getClockPeriodUs.toNat else n := by
  have h1 := word_toInt x.sec
  have h2 := word_toInt x.nsec
  have h3 := x.sec.isLt
  have h4 := x.nsec.isLt
  have hsec : x.sec.toInt.toNat = x.sec.toNat := by omega
  have hnsec : x.nsec.toInt.toNat = x.nsec.toNat := by omega
  rw [hsec, hnsec]
  have hw (y : Word) : (y.setWidth 64).toNat = y.toNat := BitVec.toNat_setWidth_of_le (by decide)
  have hmul : (timesThousand (timesThousand (x.sec.setWidth 64))).toNat = 1000000 * x.sec.toNat := by
    rw [timesThousand_toNat (by rw [timesThousand_toNat (by rw [hw]; omega), hw]; omega),
      timesThousand_toNat (by rw [hw]; omega), hw]
    omega
  have hshift : (x.nsec.setWidth 64 >>> 10).toNat = x.nsec.toNat / 1024 := by
    rw [BitVec.toNat_ushiftRight, Nat.shiftRight_eq_div_pow, hw]
  have hdiv : (overThousand (x.nsec.setWidth 64 >>> 10)).toNat = series (x.nsec.toNat / 1024) := by
    rw [overThousand_toNat (by rw [hshift]; omega), hshift]
    rfl
  have hsmall : series (x.nsec.toNat / 1024) < 2 ^ 32 := by
    unfold series
    omega
  have hsum : ((overThousand (x.nsec.setWidth 64 >>> 10)
      + timesThousand (timesThousand (x.sec.setWidth 64))).setWidth 32 / b.getClockPeriodUs).toNat
      = (1000000 * x.sec.toNat + series (x.nsec.toNat / 1024)) % 2 ^ 32
        / b.getClockPeriodUs.toNat := by
    rw [BitVec.toNat_udiv, BitVec.toNat_setWidth, BitVec.toNat_add, hmul, hdiv]
    congr 1
    omega
  unfold timevalToClockcycles
  rw [if_neg (by omega)]
  dsimp only
  rw [hw, ← hsum]
  split_ifs with h5 h6 h6
  · rfl
  · exact absurd (congrArg BitVec.toNat h5) h6
  · exact absurd (BitVec.eq_of_toNat_eq h6) h5
  · rfl

theorem triggerTick_toNat (b : Board) (n : BitVec 64) : (triggerTick b n).toNat =
    if n.toNat = 0 then 1 else min n.toNat b.timerCountMax.toNat := by
  have hn := n.isLt
  have hmax : 0 < b.timerCountMax.toNat := by cases b <;> decide
  have hlt := b.timerCountMax.isLt
  have hw : (b.timerCountMax.setWidth 64).toNat = b.timerCountMax.toNat :=
    BitVec.toNat_setWidth_of_le (by decide)
  unfold triggerTick
  dsimp only
  by_cases h : b.timerCountMax.setWidth 64 < n
  · rw [if_pos h, if_neg fun h0 => by rw [h0] at hw; exact absurd hw (by simp; omega)]
    rw [BitVec.lt_def, hw] at h
    rw [if_neg (by omega), BitVec.toNat_setWidth, hw]
    omega
  · rw [if_neg h]
    rw [BitVec.lt_def, hw] at h
    by_cases h0 : n = 0
    · rw [if_pos h0, h0]
      rfl
    · have h1 : n.toNat ≠ 0 := fun e => h0 (BitVec.eq_of_toNat_eq e)
      rw [if_neg h0, if_neg h1, BitVec.toNat_setWidth]
      omega

theorem le_series (y : Nat) : y ≤ series y :=
  le_trans (Nat.le_add_right y _) (Nat.le_add_right _ _)

theorem series_le (nsec : Nat) : 1000 * series (nsec / 1024) ≤ nsec := by
  unfold series
  omega

theorem inTime_one (b : Board) (left : Int) {n : Word} (h : n.toNat = 1) : InTime b left n := by
  have hmax : 1 ≤ b.timerCountMax.toNat := by cases b <;> decide
  unfold InTime
  rw [h]
  omega

theorem triggerTick_inTime {c : BitVec 64} {left : Int}
    (h : (c.toNat * (1000 * b.getClockPeriodUs.toNat) : Nat) ≤ left) : InTime b left (triggerTick b c) := by
  have htick := triggerTick_toNat b c
  by_cases h0 : c.toNat = 0
  · rw [if_pos h0] at htick
    exact inTime_one b left htick
  · rw [if_neg h0] at htick
    have hmax : 1 ≤ b.timerCountMax.toNat := by cases b <;> decide
    have hmul := Nat.mul_le_mul_right (1000 * b.getClockPeriodUs.toNat)
      (min_le_left c.toNat b.timerCountMax.toNat)
    refine ⟨by omega, by omega, Or.inl ?_⟩
    rw [htick]
    exact le_trans (Int.ofNat_le.mpr hmul) h

theorem whole_periods_le (p sec nsec : Nat) :
    (1000000 * sec + series (nsec / 1024)) % 2 ^ 32 / p * (1000 * p)
      ≤ 1000000000 * sec + nsec := by
  have h1 := Nat.div_mul_le_self ((1000000 * sec + series (nsec / 1024)) % 2 ^ 32) p
  have h2 := Nat.mod_le (1000000 * sec + series (nsec / 1024)) (2 ^ 32)
  have h3 := series_le nsec
  rw [Nat.mul_left_comm]
  omega

theorem inTime_past_iff {left : Int} (h : left < 0) {n : Word} : InTime b left n ↔ n.toNat = 1 := by
  constructor
  · rintro ⟨-, -, hle | ⟨h1, -⟩⟩
    · exact absurd (Int.natCast_nonneg _) (Int.not_le.mpr (lt_of_le_of_lt hle h))
    · exact h1
  · exact inTime_one b left

theorem triggerTick_one_iff {c : BitVec 64} : (triggerTick b c).toNat = 1 ↔ c.toNat ≤ 1 := by
  have hmax : 1 < b.timerCountMax.toNat := by cases b <;> decide
  rw [triggerTick_toNat]
  split_ifs <;> omega

/-! ## What is left -/

section
variable (ht : 0 ≤ t.nsec.toInt ∧ t.nsec.toInt < 1000000000)
include ht

theorem left_eq_gap (hn : 0 ≤ gapNsec t u) : t.total - u.total
    = gapSec t u * 1000000000 + gapNsec t u + if u.nsec.toInt < 0 then 1000000000 else 0 := by
  have h1 := timeval_toInt t
  have h2 := timeval_toInt u
  have h3 := word_toInt t.nsec
  have h4 := word_toInt u.nsec
  have h5 := t.nsec.isLt
  have h6 := u.nsec.isLt
  unfold gapNsec at hn
  unfold gapNsec gapSec Timeval.total
  generalize hd : t.toInt - u.toInt = d at *
  split_ifs at hn ⊢ <;> omega

theorem gapNsec_of_near (h0 : 0 ≤ u.nsec.toInt) (hu : u.nsec.toInt ≤ t.nsec.toInt + 1000000000) :
    0 ≤ gapNsec t u ∧ gapNsec t u < 1000000000 := by
  have h1 := timeval_toInt t
  have h2 := timeval_toInt u
  have h3 := word_toInt t.nsec
  have h4 := word_toInt u.nsec
  have h5 := t.nsec.isLt
  have h6 := u.nsec.isLt
  unfold gapNsec
  split_ifs <;> omega

theorem near_of_gapNsec (hn : 0 ≤ gapNsec t u) (h0 : 0 ≤ u.nsec.toInt) :
    u.nsec.toInt ≤ t.nsec.toInt + 1000000000 := by
  have h1 := timeval_toInt t
  have h2 := timeval_toInt u
  have h3 := word_toInt t.nsec
  have h4 := word_toInt u.nsec
  unfold gapNsec at hn
  split_ifs at hn <;> omega

theorem left_of_overflow (h : GapOverflows t u) : t.total - u.total < 0 := by
  have h1 := timeval_toInt t
  have h2 := timeval_toInt u
  have h3 := word_toInt t.nsec
  have h4 := word_toInt u.nsec
  have h5 := t.nsec.isLt
  have h6 := u.nsec.isLt
  unfold GapOverflows at h
  unfold Timeval.total
  omega

theorem countsInTime_past (h : (subtractTime t u).sec.toInt < 0 ∨ (subtractTime t u).nsec.toInt < 0) :
    CountsInTime b t u := by
  have hsec := subtractTime_sec t u
  rw [subtractTime_nsec] at h
  have hlow : -2 ^ 32 ≤ gapSec t u := by
    have h1 := BitVec.le_toInt t
    have h2 := BitVec.toInt_lt (x := u)
    unfold gapSec
    omega
  unfold CountsInTime
  split_ifs with ho
  · left
    have h1 := BitVec.le_toInt (subtractTime t u).sec
    unfold GapOverflows at ho
    unfold gapSec at hsec hlow
    omega
  · right
    by_cases h0 : u.nsec.toInt < 0
    · exact Or.inl h0
    · right
      rintro ⟨hlo, hhi, hu⟩
      obtain ⟨hn, hn'⟩ := gapNsec_of_near ht (Int.not_lt.mp h0) hu
      have hleft := left_eq_gap ht hn
      rw [if_neg h0] at hleft
      omega

theorem inTime_overflow_iff (ho : GapOverflows t u) (hs : 0 ≤ (subtractTime t u).sec.toInt)
    (hn : 0 ≤ (subtractTime t u).nsec.toInt) :
    InTime b (t.total - u.total) (triggerTick b (timevalToClockcycles b (subtractTime t u))) ↔
      OneCount b (gapSec t u + 2 ^ 32).toNat (gapNsec t u).toNat := by
  have hcount := timevalToClockcycles_toNat (b := b) hs hn
  have hsec := subtractTime_sec t u
  have hdown := BitVec.le_toInt (subtractTime t u).sec
  have hx : (subtractTime t u).sec.toInt = gapSec t u + 2 ^ 32 := by
    unfold GapOverflows at ho
    unfold gapSec at hsec ⊢
    omega
  rw [inTime_past_iff (left_of_overflow ht ho), triggerTick_one_iff]
  rw [subtractTime_nsec, hx] at hcount
  rw [hcount]
  unfold OneCount
  generalize (1000000 * (gapSec t u + 2 ^ 32).toNat + series ((gapNsec t u).toNat / 1024)) % 2 ^ 32
    / b.getClockPeriodUs.toNat = n
  cases b with
  | ve =>
    show (if n = 0 then 1 else n) ≤ 1 ↔ n = 1 ∨ n = 0 ∧ (1 : Word) = 1
    split_ifs <;> simp <;> omega
  | zynq7 =>
    show (if n = 0 then 18 else n) ≤ 1 ↔ n = 1 ∨ n = 0 ∧ (18 : Word) = 1
    split_ifs <;> simp <;> omega

theorem inTime_left_iff (hs : 0 ≤ (subtractTime t u).sec.toInt)
    (hn : 0 ≤ (subtractTime t u).nsec.toInt) :
    InTime b (t.total - u.total) (triggerTick b (timevalToClockcycles b (subtractTime t u))) ↔
      CountsInTime b t u := by
  unfold CountsInTime
  split_ifs with ho
  · rw [inTime_overflow_iff ht ho hs hn, ← subtractTime_nsec]
    exact (or_iff_right (Int.not_lt.mpr hn)).symm
  · have hcount := timevalToClockcycles_toNat (b := b) hs hn
    have hsec := subtractTime_sec t u
    rw [subtractTime_nsec] at hn
    have hleft := left_eq_gap ht hn
    have hx : (subtractTime t u).sec.toInt = gapSec t u := by
      rcases hsec with h | ⟨h, -⟩ | ⟨h, -⟩
      · exact h
      · exact absurd h ho
      · omega
    have hwhole := whole_periods_le b.getClockPeriodUs.toNat (gapSec t u).toNat (gapNsec t u).toNat
    have hnear := near_of_gapNsec ht hn
    rw [subtractTime_nsec, hx] at hcount
    rw [hx] at hs
    dsimp only at hcount
    cases b with
    | ve =>
      refine iff_of_true ?_ (Or.inl rfl)
      change _ = if _ = 0 then 1 else _ at hcount
      split_ifs at hcount with h0
      · exact inTime_one _ _ (triggerTick_one_iff.mpr hcount.le)
      · apply triggerTick_inTime
        rw [hcount]
        exact le_trans (Int.ofNat_le.mpr hwhole) (by omega)
    | zynq7 =>
      change _ ≤ _ at hwhole
      change _ = if _ = 0 then 18 else _ at hcount
      by_cases hsmall : 1000000 * (gapSec t u).toNat + series ((gapNsec t u).toNat / 1024) < 18
      · have hx0 : gapSec t u = 0 := by omega
        have hn0 : gapNsec t u < 18432 := by
          have := le_series ((gapNsec t u).toNat / 1024)
          omega
        have hperiod : Board.zynq7.getClockPeriodUs.toNat = 18 := rfl
        rw [if_pos (by rw [hperiod]; omega)] at hcount
        have htick : (triggerTick .zynq7 (timevalToClockcycles .zynq7 (subtractTime t u))).toNat
            = 18 := by
          rw [triggerTick_toNat, hcount]
          rfl
        unfold InTime
        rw [htick, hperiod]
        by_cases hu : u.nsec.toInt < 0
        · rw [if_pos hu] at hleft
          refine iff_of_true ⟨by decide, by decide, Or.inl ?_⟩ (Or.inr (Or.inl hu))
          omega
        · rw [if_neg hu] at hleft
          have := hnear (Int.not_lt.mp hu)
          refine iff_of_false ?_ ?_
          · omega
          · rintro (h | h | h)
            · cases h
            · exact hu h
            · omega
      · have hlate : 18432 ≤ gapSec t u * 1000000000 + gapNsec t u := by
          unfold series at hsmall
          omega
        refine iff_of_true ?_ (Or.inr (Or.inr ?_))
        · apply triggerTick_inTime
          rw [hcount]
          split_ifs with h0
          · have hwrap : 2 ^ 32 ≤ 1000000 * (gapSec t u).toNat
                + series ((gapNsec t u).toNat / 1024) := by
              change _ / 18 = 0 at h0
              omega
            have hbelow := series_le (gapNsec t u).toNat
            change ((324000 : Nat) : Int) ≤ _
            omega
          · exact le_trans (Int.ofNat_le.mpr hwhole) (by omega)
        · split_ifs at hleft <;> omega

end

/-- **The tick** is programmed in time exactly there. -/
theorem programTick_iff (s : TimerCpu) (b : Board) (timelen : Timeval)
    (ht : 0 ≤ timelen.nsec.toInt ∧ timelen.nsec.toInt < 1000000000) :
    (∃ k, (s.programTickForEvent b timelen).tick = some k ∧
      InTime b (timelen.total - (s.clock s.reads).total) k.cycles) ↔
        CountsInTime b timelen (s.clock s.reads) := by
  generalize hu : s.clock s.reads = u
  by_cases hpast : (subtractTime timelen u).sec.toInt < 0 ∨ (subtractTime timelen u).nsec.toInt < 0
  · refine iff_of_true ⟨_, rfl, inTime_one b _ ?_⟩ (countsInTime_past ht hpast)
    show (triggerTick b (if (subtractTime timelen (s.clock s.reads)).sec.toInt < 0 ∨
      (subtractTime timelen (s.clock s.reads)).nsec.toInt < 0 then 1 else _)).toNat = 1
    rw [hu, if_pos hpast]
    cases b <;> decide
  · rw [← inTime_left_iff ht (by omega) (by omega)]
    have hk : (s.programTickForEvent b timelen).tick
        = some ⟨timelen, triggerTick b (timevalToClockcycles b (subtractTime timelen u))⟩ := by
      show some (Tick.mk timelen (triggerTick b (if
        (subtractTime timelen (s.clock s.reads)).sec.toInt < 0 ∨
        (subtractTime timelen (s.clock s.reads)).nsec.toInt < 0 then 1
        else timevalToClockcycles b (subtractTime timelen (s.clock s.reads))))) = _
      rw [hu, if_neg hpast]
    rw [hk]
    constructor
    · rintro ⟨k, hk, h⟩
      cases hk
      exact h
    · intro h
      exact ⟨_, rfl, h⟩

theorem programTick_iff_second :
    (0 ≤ (timeval 1 500000000).nsec.toInt ∧ (timeval 1 500000000).nsec.toInt < 1000000000) ∧
      ((∃ k, ((initSwTimer fun _ => 0).programTickForEvent .zynq7 (timeval 1 500000000)).tick
          = some k ∧ InTime .zynq7 ((timeval 1 500000000).total - Timeval.total 0) k.cycles) ↔
        CountsInTime .zynq7 (timeval 1 500000000) 0) :=
  ⟨by decide, programTick_iff (initSwTimer fun _ => 0) .zynq7 (timeval 1 500000000) (by decide)⟩

/-- 10 us before the expiry the tick of the Zynq board is programmed for 324 us -/
theorem tick_late : ¬ ∀ (s : TimerCpu) (b : Board) (timelen : Timeval),
    0 ≤ timelen.nsec.toInt ∧ timelen.nsec.toInt < 1000000000 →
      ∃ k, (s.programTickForEvent b timelen).tick = some k ∧
        InTime b (timelen.total - (s.clock s.reads).total) k.cycles := by
  intro h
  obtain ⟨k, hk, hmin, hmax, hin⟩ := h (initSwTimer fun _ => 0) .zynq7 (timeval 0 10000) (by decide)
  cases hk
  revert hin
  decide

end

end SierraTee
