import SierraTee.Timers.Time

/-!
# Cycles as a time value, for any clock period (`cpu_api.c`)

`clockcycles_to_timeval` divides by 1000 twice, with a series of shifts that is too small.

* `clockcyclesToTimeval_eq`  that of a board is the one with its period;
* `clockcycles_exact_iff`    the counts that are converted exactly.
-/

namespace SierraTee
open FlatMemory

/-- `clockcycles_to_timeval`, with what `get_clock_period_us` gives -/
def clockcyclesToTimevalOf (clockPeriodUs clockcycles : Word) : Timeval :=
  let usecs := (clockcycles * clockPeriodUs).setWidth 64
  let tmpSecs := overThousand (overThousand (usecs >>> 10) >>> 10)
  let tmpUsecs := usecs - timesThousand (timesThousand tmpSecs)
  timeval (tmpSecs.setWidth 32) ((timesThousand tmpUsecs).setWidth 32)

theorem clockcyclesToTimeval_eq (b : Board) (c : Word) :
    clockcyclesToTimeval b c = clockcyclesToTimevalOf b.getClockPeriodUs c := rfl

/-- the time is normalised and lasts `ns` nanoseconds -/
def ExactTime (t : Timeval) (ns : Nat) : Prop :=
  0 ≤ t.nsec.toInt ∧ t.nsec.toInt < 1000000000 ∧ t.sec.toInt * 1000000000 + t.nsec.toInt = ns

instance (t : Timeval) (ns : Nat) : Decidable (ExactTime t ns) := inferInstanceAs (Decidable (_ ∧ _))

/-! ## The series -/

def series (y : Nat) : Nat := y + 3 * y / 128 + 9 * y / 16384

def reaches (n : Nat) : Nat :=
  let k := 9 * n / 16777
  min ((128 * (n - k) + 130) / 131) ((16384 * (k + 1) + 8) / 9)

section
variable {n y u s : Nat} {c p : Word}

theorem reaches_le_iff : reaches n ≤ y ↔ n ≤ series y := by
  show min ((128 * (n - 9 * n / 16777) + 130) / 131) ((16384 * (9 * n / 16777 + 1) + 8) / 9) ≤ y ↔ _
  rw [min_le_iff]
  unfold series
  generalize hk : 9 * n / 16777 = k
  generalize ha : 3 * y / 128 = a
  generalize hb : 9 * y / 16384 = b
  constructor
  · rintro (h | h)
    · have h1 : k ≤ b := by omega
      omega
    · have h1 : k + 1 ≤ b := by omega
      omega
  · intro h
    by_cases h1 : b ≤ k
    · left
      omega
    · right
      omega

/-- the seconds that the conversion finds in `u` microseconds -/
def shiftSecs (u : Nat) : Nat := series (series (u / 1024) / 1024)

/-- the first number of microseconds in which the conversion finds `q` seconds -/
def secondStart (q : Nat) : Nat := 1024 * reaches (1024 * reaches q)

theorem secondStart_le_iff (q u : Nat) : secondStart q ≤ u ↔ q ≤ shiftSecs u := by
  unfold secondStart shiftSecs
  rw [← reaches_le_iff, Nat.mul_comm 1024 (reaches (1024 * reaches q)),
    ← Nat.le_div_iff_mul_le (by decide), reaches_le_iff, Nat.mul_comm 1024 (reaches q),
    ← Nat.le_div_iff_mul_le (by decide)]

theorem shiftSecs_le (u : Nat) : 1000000 * shiftSecs u ≤ u := by
  unfold shiftSecs series
  omega

theorem le_shiftSecs (h : u < 2 ^ 32) : u - 1000000 * shiftSecs u < 4294968 := by
  unfold shiftSecs series
  omega

/-! ## The conversion -/

theorem tmpSecs_toNat {x : BitVec 64} (h : x.toNat < 2 ^ 32) :
    (overThousand (overThousand (x >>> 10) >>> 10)).toNat = shiftSecs x.toNat := by
  have hs (y : BitVec 64) : (y >>> 10).toNat = y.toNat / 1024 := by
    rw [BitVec.toNat_ushiftRight, Nat.shiftRight_eq_div_pow]
  have h1 : (overThousand (x >>> 10)).toNat = series (x.toNat / 1024) := by
    rw [overThousand_toNat (by rw [hs]; omega), hs]
    rfl
  have h2 : series (x.toNat / 1024) < 2 ^ 32 := by
    unfold series
    omega
  rw [overThousand_toNat (by rw [hs, h1]; omega), hs, h1]
  rfl

theorem clockcycles_words (h : c.toNat * p.toNat < 2 ^ 32) :
    (clockcyclesToTimevalOf p c).sec.toNat = shiftSecs (c.toNat * p.toNat) ∧
      (clockcyclesToTimevalOf p c).nsec.toNat
        = 1000 * (c.toNat * p.toNat - 1000000 * shiftSecs (c.toNat * p.toNat)) := by
  generalize hu : (c * p).setWidth 64 = usecs
  have hn : usecs.toNat = c.toNat * p.toNat := by
    rw [← hu, BitVec.toNat_setWidth_of_le (by decide), BitVec.toNat_mul, Nat.mod_eq_of_lt h]
  rw [← hn] at h ⊢
  have hs := tmpSecs_toNat h
  generalize ht : overThousand (overThousand (usecs >>> 10) >>> 10) = secs at hs
  have h1 := shiftSecs_le usecs.toNat
  have h2 := le_shiftSecs h
  have h3 : (timesThousand (timesThousand secs)).toNat = 1000000 * shiftSecs usecs.toNat := by
    rw [timesThousand_toNat (by rw [timesThousand_toNat (by omega)]; omega),
      timesThousand_toNat (by omega), hs]
    omega
  have h4 : (usecs - timesThousand (timesThousand secs)).toNat
      = usecs.toNat - 1000000 * shiftSecs usecs.toNat := by
    rw [BitVec.toNat_sub_of_le (BitVec.le_def.mpr (by omega)), h3]
  have e : clockcyclesToTimevalOf p c = timeval (secs.setWidth 32)
      ((timesThousand (usecs - timesThousand (timesThousand secs))).setWidth 32) := by
    unfold clockcyclesToTimevalOf
    simp only [hu, ht]
  rw [e, timeval_sec, timeval_nsec, BitVec.toNat_setWidth, BitVec.toNat_setWidth,
    timesThousand_toNat (by omega), h4, hs]
  exact ⟨Nat.mod_eq_of_lt (by omega), Nat.mod_eq_of_lt (by omega)⟩

/-- **The conversion** is exact and normalised if and only if every whole second is counted. -/
theorem clockcycles_exact_iff (c p : Word) (h : c.toNat * p.toNat < 2 ^ 32) :
    ExactTime (clockcyclesToTimevalOf p c) (1000 * (c.toNat * p.toNat)) ↔
      secondStart (c.toNat * p.toNat / 1000000) ≤ c.toNat * p.toNat := by
  obtain ⟨hsec, hnsec⟩ := clockcycles_words h
  rw [secondStart_le_iff]
  unfold ExactTime
  generalize c.toNat * p.toNat = u at *
  have h1 := shiftSecs_le u
  have h2 := le_shiftSecs h
  have h3 := word_toInt (clockcyclesToTimevalOf p c).sec
  have h4 := word_toInt (clockcyclesToTimevalOf p c).nsec
  generalize shiftSecs u = s at *
  constructor
  · rintro ⟨hlo, hhi, htotal⟩
    omega
  · intro hq
    have hs : s = u / 1000000 := by omega
    omega

theorem clockcycles_exact_iff_second :
    (62500 : Word).toNat * (18 : Word).toNat < 2 ^ 32 ∧
      (ExactTime (clockcyclesToTimevalOf 18 62500) (1000 * (62500 * 18)) ↔
        secondStart (62500 * 18 / 1000000) ≤ 62500 * 18) :=
  ⟨by decide, clockcycles_exact_iff 62500 18 (by decide)⟩

/-- 1.000008 s on the Zynq board: the second is not counted -/
theorem second_uncounted : ¬ ∀ c p : Word, c.toNat * p.toNat < 2 ^ 32 →
    ExactTime (clockcyclesToTimevalOf p c) (1000 * (c.toNat * p.toNat)) :=
  fun h => absurd (h 55556 18 (by decide)) (by decide)

end

end SierraTee
