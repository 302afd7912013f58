import SierraTee.Lib.FlatMemory

/-!
# Time values (`sw_time.h`, `sw_timer.c`, `cpu_api.c`)

A `sw_timeval` has seconds in its high and nanoseconds in its low word, and is added, subtracted
and compared as one number of 64 bits.

* `span_addTime_le`, `le_addTime`  a sum is not too long, and not less than its first part;
* `span_clockcycles_le`            cycles are not converted to more time than they last;
* `addTime_ns`, `subtractTime_ns`  sums and differences that do not overflow;
* `time_arithmetic`                what the sums, the differences and their round trip are.
-/

namespace SierraTee
open FlatMemory

/-- `sw_timeval` -/
abbrev Timeval := BitVec 64

def Timeval.sec (t : Timeval) : Word := t.extractLsb' 32 32

def Timeval.nsec (t : Timeval) : Word := t.setWidth 32

def timeval (sec nsec : Word) : Timeval := sec ++ nsec

def timevalMax : Timeval := 0x7FFFFFFF00000000

/-- the boards with a timer driver -/
inductive Board where
  | ve | zynq7

def Board.timerCountMax : Board → Word
  | .ve => 0xFFFFFFFF
  | .zynq7 => 0xFFFF

/-- `TIMER_PERIOD_US` -/
def Board.getClockPeriodUs : Board → Word
  | .ve => 1
  | .zynq7 => 18

def addTime (value1 value2 : Timeval) : Timeval :=
  let sum := value1 + value2
  if 999999999 < sum.nsec.toInt then timeval (sum.sec + 1) (sum.nsec - 1000000000) else sum

def subtractTime (value1 value2 : Timeval) : Timeval :=
  let diff := value1 - value2
  if diff.nsec.toInt < 0 then timeval diff.sec (diff.nsec + 1000000000) else diff

def overThousand (y : BitVec 64) : BitVec 64 := y + ((3 * y) >>> 7) + ((9 * y) >>> 14)

def timesThousand (x : BitVec 64) : BitVec 64 := (x <<< 10) + (x <<< 3) - (x <<< 5)

def clockcyclesToTimeval (b : Board) (clockcycles : Word) : Timeval :=
  let usecs := (clockcycles * b.getClockPeriodUs).setWidth 64
  let tmpSecs := overThousand (overThousand (usecs >>> 10) >>> 10)
  let tmpUsecs := usecs - timesThousand (timesThousand tmpSecs)
  timeval (tmpSecs.setWidth 32) ((timesThousand tmpUsecs).setWidth 32)

def timevalToClockcycles (b : Board) (time : Timeval) : BitVec 64 :=
  if time.sec.toInt < 0 ∨ time.nsec.toInt < 0 then 0
  else
    let tmpSec := timesThousand (timesThousand (time.sec.setWidth 64))
    let tmpNsec := overThousand (time.nsec.setWidth 64 >>> 10)
    let clockcycles := (tmpNsec + tmpSec).setWidth 32 / b.getClockPeriodUs
    (if clockcycles = 0 then b.getClockPeriodUs else clockcycles).setWidth 64

def Timeval.span (t : Timeval) : Nat := t.sec.toNat * 1000000000 + t.nsec.toNat

/-- the nanoseconds of a time value with signed seconds -/
def Timeval.ns (t : Timeval) : Int := t.sec.toInt * 1000000000 + t.nsec.toNat

/-- both words, which are signed, are not negative, and the low one is less than a second -/
def Timeval.Normal (t : Timeval) : Prop :=
  0 ≤ t.sec.toInt ∧ 0 ≤ t.nsec.toInt ∧ t.nsec.toInt < 1000000000

section
variable {t u : Timeval} {x y : BitVec 64} {s n : Word}

theorem nsec_toNat (t : Timeval) : t.nsec.toNat = t.toNat % 2 ^ 32 := BitVec.toNat_setWidth 32 t

theorem sec_toNat (t : Timeval) : t.sec.toNat = t.toNat / 2 ^ 32 := by
  have h := t.isLt
  unfold Timeval.sec
  rw [BitVec.extractLsb'_toNat, Nat.shiftRight_eq_div_pow]
  omega

theorem timeval_toNat (s n : Word) : (timeval s n).toNat = s.toNat * 2 ^ 32 + n.toNat := by
  have h := n.isLt
  unfold timeval
  rw [BitVec.toNat_append, ← Nat.shiftLeft_add_eq_or_of_lt h, Nat.shiftLeft_eq]

theorem timeval_sec (s n : Word) : (timeval s n).sec = s := by
  have h := n.isLt
  rw [← BitVec.toNat_inj, sec_toNat, timeval_toNat]
  omega

theorem timeval_nsec (s n : Word) : (timeval s n).nsec = n := by
  have h := n.isLt
  rw [← BitVec.toNat_inj, nsec_toNat, timeval_toNat]
  omega

theorem toNat_eq_sec_nsec (t : Timeval) : t.toNat = t.sec.toNat * 2 ^ 32 + t.nsec.toNat := by
  rw [sec_toNat, nsec_toNat]
  omega

/-! ## Sums -/

theorem sec_le_of_span {m : Nat} (h : t.span < m * 1000000000) : t.sec.toNat < m := by
  unfold Timeval.span at h
  omega

theorem addTime_toNat {k : Nat} (ht : t.sec.toNat < k) (hu : u.sec.toNat < k) (hk : k ≤ 2 ^ 30) :
    (addTime t u).toNat = t.toNat + u.toNat ∨
      (addTime t u).toNat + 1000000000 = t.toNat + u.toNat + 2 ^ 32 ∧
        1000000000 ≤ (t + u).nsec.toNat := by
  have h1 := toNat_eq_sec_nsec t
  have h2 := toNat_eq_sec_nsec u
  have hn := t.nsec.isLt
  have hm := u.nsec.isLt
  have hsum : (t + u).toNat = t.toNat + u.toNat := by
    rw [BitVec.toNat_add]
    omega
  show (if 999999999 < (t + u).nsec.toInt then timeval ((t + u).sec + 1) ((t + u).nsec - 1000000000)
    else t + u).toNat = _ ∨ (if 999999999 < (t + u).nsec.toInt
      then timeval ((t + u).sec + 1) ((t + u).nsec - 1000000000) else t + u).toNat + _ = _ ∧ _
  split_ifs with h
  · have h3 : 1000000000 ≤ (t + u).nsec.toNat := by
      rw [BitVec.toInt_eq_toNat_cond] at h
      have h4 := (t + u).nsec.isLt
      split_ifs at h <;> omega
    have h5 : ((t + u).nsec - 1000000000).toNat = (t + u).nsec.toNat - 1000000000 :=
      BitVec.toNat_sub_of_le h3
    have h6 : ((t + u).sec + 1).toNat = (t + u).sec.toNat + 1 := by
      have h7 : ((t + u).sec + 1).toNat = ((t + u).sec.toNat + 1) % 2 ^ 32 := BitVec.toNat_add _ 1
      rw [h7, sec_toNat]
      omega
    have h8 := toNat_eq_sec_nsec (t + u)
    refine Or.inr ⟨?_, h3⟩
    rw [timeval_toNat, h5, h6]
    omega
  · exact Or.inl hsum

theorem le_addTime {k : Nat} (ht : t.sec.toNat < k) (hu : u.sec.toNat < k) (hk : k ≤ 2 ^ 30) :
    t ≤ addTime t u := by
  rw [BitVec.le_def]
  obtain h | ⟨h, -⟩ := addTime_toNat ht hu hk <;> omega

theorem span_addTime_le {k : Nat} (ht : t.sec.toNat < k) (hu : u.sec.toNat < k) (hk : k ≤ 2 ^ 30) :
    (addTime t u).span ≤ t.span + u.span := by
  have h1 := toNat_eq_sec_nsec t
  have h2 := toNat_eq_sec_nsec u
  have hn := t.nsec.isLt
  have hm := u.nsec.isLt
  have h3 : (t + u).nsec.toNat = (t.toNat + u.toNat) % 2 ^ 64 % 2 ^ 32 := by
    rw [nsec_toNat, BitVec.toNat_add]
  unfold Timeval.span
  rw [sec_toNat (addTime t u), nsec_toNat (addTime t u)]
  obtain h | ⟨h, h4⟩ := addTime_toNat ht hu hk <;> omega

/-! ## Conversions -/

theorem overThousand_toNat (h : y.toNat < 2 ^ 60) :
    (overThousand y).toNat = y.toNat + 3 * y.toNat / 128 + 9 * y.toNat / 16384 := by
  have h3 : (3 * y).toNat = 3 * y.toNat := by
    have e : (3 * y).toNat = 3 * y.toNat % 2 ^ 64 := BitVec.toNat_mul 3 y
    omega
  have h9 : (9 * y).toNat = 9 * y.toNat := by
    have e : (9 * y).toNat = 9 * y.toNat % 2 ^ 64 := BitVec.toNat_mul 9 y
    omega
  unfold overThousand
  rw [BitVec.toNat_add, BitVec.toNat_add, BitVec.toNat_ushiftRight, BitVec.toNat_ushiftRight, h3, h9,
    Nat.shiftRight_eq_div_pow, Nat.shiftRight_eq_div_pow]
  have h128 : 2 ^ 7 = 128 := rfl
  have h16384 : 2 ^ 14 = 16384 := rfl
  have ha : 3 * y.toNat / 128 ≤ y.toNat := by omega
  have hb : 9 * y.toNat / 16384 ≤ y.toNat := by omega
  have hab : (y.toNat + 3 * y.toNat / 128) % 2 ^ 64 = y.toNat + 3 * y.toNat / 128 :=
    Nat.mod_eq_of_lt (by omega)
  rw [h128, h16384, hab, Nat.mod_eq_of_lt (by omega)]

theorem timesThousand_toNat (h : x.toNat < 2 ^ 53) : (timesThousand x).toNat = 1000 * x.toNat := by
  have hs (k : Nat) (hk : k ≤ 10) : (x <<< k).toNat = x.toNat * 2 ^ k := by
    have h1 : x.toNat * 2 ^ k < 2 ^ 64 := by
      calc x.toNat * 2 ^ k ≤ x.toNat * 2 ^ 10 :=
            Nat.mul_le_mul_left _ (Nat.pow_le_pow_right (by decide) hk)
        _ < 2 ^ 64 := by omega
    rw [BitVec.toNat_shiftLeft, Nat.shiftLeft_eq, Nat.mod_eq_of_lt h1]
  have h10 := hs 10 (by decide)
  have h3 := hs 3 (by decide)
  have h5 := hs 5 (by decide)
  unfold timesThousand
  rw [BitVec.toNat_sub, BitVec.toNat_add, h10, h3, h5]
  omega

theorem overThousand_le (h : x.toNat < 2 ^ 60) :
    1000 * (overThousand (x >>> 10)).toNat ≤ x.toNat := by
  have hs : (x >>> 10).toNat = x.toNat / 1024 := by
    rw [BitVec.toNat_ushiftRight, Nat.shiftRight_eq_div_pow]
  rw [overThousand_toNat (by omega), hs]
  omega

theorem span_clockcycles_le (b : Board) (c : Word) :
    (clockcyclesToTimeval b c).span ≤ 1000 * (c.toNat * b.getClockPeriodUs.toNat) := by
  generalize hu : (c * b.getClockPeriodUs).setWidth 64 = usecs
  have hmul : usecs.toNat ≤ c.toNat * b.getClockPeriodUs.toNat ∧ usecs.toNat < 2 ^ 32 := by
    have h1 := (c * b.getClockPeriodUs).isLt
    have h2 : (c * b.getClockPeriodUs).toNat ≤ c.toNat * b.getClockPeriodUs.toNat := by
      rw [BitVec.toNat_mul]
      exact Nat.mod_le _ _
    have h3 : usecs.toNat = (c * b.getClockPeriodUs).toNat := by
      rw [← hu]
      exact BitVec.toNat_setWidth_of_le (by decide)
    omega
  generalize hs : overThousand (overThousand (usecs >>> 10) >>> 10) = secs
  have h1 := overThousand_le (x := usecs) (by omega)
  have h2 := overThousand_le (x := overThousand (usecs >>> 10)) (by omega)
  rw [hs] at h2
  have h3 : (timesThousand (timesThousand secs)).toNat = 1000 * (1000 * secs.toNat) := by
    rw [timesThousand_toNat (by rw [timesThousand_toNat (by omega)]; omega),
      timesThousand_toNat (by omega)]
  have h4 : (usecs - timesThousand (timesThousand secs)).toNat
      = usecs.toNat - 1000 * (1000 * secs.toNat) := by
    rw [BitVec.toNat_sub_of_le (BitVec.le_def.mpr (by omega)), h3]
  have h5 := timesThousand_toNat (x := usecs - timesThousand (timesThousand secs)) (by omega)
  have e : clockcyclesToTimeval b c = timeval (secs.setWidth 32)
      ((timesThousand (usecs - timesThousand (timesThousand secs))).setWidth 32) := by
    unfold clockcyclesToTimeval
    simp only [hu, hs]
  unfold Timeval.span
  rw [e, timeval_sec, timeval_nsec, BitVec.toNat_setWidth, BitVec.toNat_setWidth, h5, h4]
  have h6 := Nat.mod_le secs.toNat (2 ^ 32)
  have h7 := Nat.mod_le (1000 * (usecs.toNat - 1000 * (1000 * secs.toNat))) (2 ^ 32)
  generalize secs.toNat % 2 ^ 32 = a at *
  generalize 1000 * (usecs.toNat - 1000 * (1000 * secs.toNat)) % 2 ^ 32 = d at *
  omega

/-! ## Signed time values -/

theorem word_toInt (x : Word) :
    (x.toNat < 2 ^ 31 ∧ x.toInt = x.toNat) ∨ (2 ^ 31 ≤ x.toNat ∧ x.toInt = x.toNat - 2 ^ 32) := by
  have h := x.isLt
  rw [BitVec.toInt_eq_toNat_cond]
  split_ifs with h1
  · exact Or.inl ⟨by omega, rfl⟩
  · exact Or.inr ⟨by omega, rfl⟩

theorem timeval_toInt (t : Timeval) : t.toInt = t.sec.toInt * 2 ^ 32 + t.nsec.toNat := by
  have h1 := toNat_eq_sec_nsec t
  have h2 := t.nsec.isLt
  have h3 := t.sec.isLt
  rw [BitVec.toInt_eq_toNat_cond]
  obtain ⟨h4, h5⟩ | ⟨h4, h5⟩ := word_toInt t.sec
  · rw [h5, if_pos (by omega), h1]
    push_cast
    rfl
  · rw [h5, if_neg (by omega), h1]
    push_cast
    omega

theorem timeval_words {a : Int} {n : Nat} (h : t.toInt = a * 2 ^ 32 + n) (hn : n < 2 ^ 32) :
    t.sec.toInt = a ∧ t.nsec.toNat = n := by
  have h1 := timeval_toInt t
  have h2 := t.nsec.isLt
  omega

theorem ns_le_of_toInt_le (ht : t.nsec.toNat < 1000000000) (h : t.toInt ≤ u.toInt) :
    t.ns ≤ u.ns := by
  have h1 := timeval_toInt t
  have h2 := timeval_toInt u
  have h3 := u.nsec.isLt
  unfold Timeval.ns
  omega

theorem add_words (hn : t.nsec.toNat + u.nsec.toNat < 2 ^ 32) :
    (t + u).sec = t.sec + u.sec ∧ (t + u).nsec.toNat = t.nsec.toNat + u.nsec.toNat := by
  have h1 := toNat_eq_sec_nsec t
  have h2 := toNat_eq_sec_nsec u
  rw [← BitVec.toNat_inj, BitVec.toNat_add, sec_toNat (t + u), nsec_toNat, BitVec.toNat_add]
  omega

theorem addTime_ns (hn : t.nsec.toNat + u.nsec.toNat < 2000000000)
    (hlo : -(2 ^ 31 * 1000000000) ≤ t.ns + u.ns) (hhi : t.ns + u.ns < 2 ^ 31 * 1000000000) :
    (addTime t u).ns = t.ns + u.ns ∧ (addTime t u).nsec.toNat < 1000000000 := by
  obtain ⟨hsec, hnsec⟩ := add_words (t := t) (u := u) (by omega)
  have hi := word_toInt (t + u).nsec
  unfold Timeval.ns at hlo hhi ⊢
  by_cases hcarry : 1000000000 ≤ (t + u).nsec.toNat
  · have hone : addTime t u = timeval ((t + u).sec + 1) ((t + u).nsec - 1000000000) :=
      if_pos (by omega)
    have hs : ((t + u).sec + 1).toInt = t.sec.toInt + u.sec.toInt + 1 := by
      have h1 : (1 : Word).toInt = 1 := by decide
      rw [hsec, BitVec.toInt_add, BitVec.toInt_add, Int.bmod_add_bmod, h1]
      exact Int.bmod_eq_of_le (by omega) (by omega)
    have hb : ((t + u).nsec - 1000000000).toNat = (t + u).nsec.toNat - 1000000000 :=
      BitVec.toNat_sub_of_le hcarry
    rw [hone, timeval_sec, timeval_nsec, hs, hb]
    clear hi
    omega
  · have hadd : addTime t u = t + u := if_neg (by omega)
    have hs : (t + u).sec.toInt = t.sec.toInt + u.sec.toInt := by
      rw [hsec, BitVec.toInt_add]
      exact Int.bmod_eq_of_le (by omega) (by omega)
    rw [hadd, hs]
    clear hi
    omega

theorem subtractTime_ns (ht : t.nsec.toNat < 1000000000) (hu : u.nsec.toNat < 2000000000)
    (hlo : -2 ^ 63 ≤ t.toInt - u.toInt) (hhi : t.toInt - u.toInt < 2 ^ 63) :
    (subtractTime t u).sec.toInt * 1000000000 + (subtractTime t u).nsec.toInt = t.ns - u.ns ∧
      (subtractTime t u).nsec.toInt < 1000000000 ∧
      (0 ≤ (subtractTime t u).nsec.toInt ∨
        1000000000 - (u.nsec.toNat : Int) ≤ (subtractTime t u).nsec.toInt) := by
  have h1 := timeval_toInt t
  have h2 := timeval_toInt u
  have hdiff : (t - u).toInt = t.toInt - u.toInt := by
    rw [BitVec.toInt_sub]
    exact Int.bmod_eq_of_le (by omega) (by omega)
  unfold Timeval.ns
  show (if (t - u).nsec.toInt < 0 then timeval (t - u).sec ((t - u).nsec + 1000000000)
    else t - u).sec.toInt * _ + (if (t - u).nsec.toInt < 0
      then timeval (t - u).sec ((t - u).nsec + 1000000000) else t - u).nsec.toInt = _ ∧
    (if (t - u).nsec.toInt < 0 then timeval (t - u).sec ((t - u).nsec + 1000000000)
      else t - u).nsec.toInt < _ ∧ (_ ≤ (if (t - u).nsec.toInt < 0
        then timeval (t - u).sec ((t - u).nsec + 1000000000) else t - u).nsec.toInt ∨
      _ ≤ (if (t - u).nsec.toInt < 0 then timeval (t - u).sec ((t - u).nsec + 1000000000)
        else t - u).nsec.toInt)
  have hi := word_toInt (t - u).nsec
  by_cases hborrow : u.nsec.toNat ≤ t.nsec.toNat
  · obtain ⟨h3, h4⟩ := timeval_words (a := t.sec.toInt - u.sec.toInt)
      (n := t.nsec.toNat - u.nsec.toNat) (t := t - u) (by omega) (by omega)
    rw [if_neg (by omega), h3]
    omega
  · obtain ⟨h3, h4⟩ := timeval_words (a := t.sec.toInt - u.sec.toInt - 1)
      (n := t.nsec.toNat + 2 ^ 32 - u.nsec.toNat) (t := t - u) (by omega) (by omega)
    have h5 : ((t - u).nsec + 1000000000).toNat = ((t - u).nsec.toNat + 1000000000) % 2 ^ 32 :=
      BitVec.toNat_add _ 1000000000
    have h6 := word_toInt ((t - u).nsec + 1000000000)
    have hneg : (t - u).nsec.toInt < 0 := by
      clear h5 h6
      omega
    have hword : ((t - u).nsec + 1000000000).toInt = t.nsec.toNat + 1000000000 - u.nsec.toNat := by
      clear h1 h2 h3 hi hneg hdiff hlo hhi
      omega
    rw [if_pos hneg, timeval_sec, timeval_nsec, h3, hword]
    clear h5 h6 hi hneg hword h4 hdiff hlo hhi
    omega

/-! ## Normalised time values -/

instance (t : Timeval) : Decidable t.Normal := inferInstanceAs (Decidable (_ ∧ _ ∧ _))

theorem Timeval.Normal.nsec_lt (h : t.Normal) : t.nsec.toNat < 1000000000 := by
  have h1 := word_toInt t.nsec
  obtain ⟨-, h2, h3⟩ := h
  omega

theorem Timeval.Normal.of_ns (hs : 0 ≤ t.ns) (hn : t.nsec.toNat < 1000000000) : t.Normal := by
  have h1 := word_toInt t.nsec
  unfold Timeval.ns at hs
  refine ⟨?_, ?_, ?_⟩ <;> omega

theorem Timeval.Normal.ns_nonneg (h : t.Normal) : 0 ≤ t.ns := by
  have h1 := h.1
  unfold Timeval.ns
  omega

theorem Timeval.Normal.toInt_le (ht : t.Normal) (hu : u.Normal) (hle : u.ns ≤ t.ns) :
    u.toInt ≤ t.toInt := by
  have h1 := timeval_toInt t
  have h2 := timeval_toInt u
  have h3 := ht.nsec_lt
  have h4 := hu.nsec_lt
  unfold Timeval.ns at hle
  omega

theorem addTime_normal (ht : t.Normal) (hu : u.Normal) (hsum : t.ns + u.ns < 2 ^ 31 * 1000000000) :
    (addTime t u).Normal ∧ (addTime t u).ns = t.ns + u.ns := by
  have h1 := ht.nsec_lt
  have h2 := hu.nsec_lt
  have h3 := ht.ns_nonneg
  have h4 := hu.ns_nonneg
  obtain ⟨hns, hlt⟩ := addTime_ns (t := t) (u := u) (by omega) (by omega) hsum
  exact ⟨.of_ns (by omega) hlt, hns⟩

theorem subtractTime_normal (ht : t.Normal) (hu : u.Normal) (hle : u.ns ≤ t.ns) :
    (subtractTime t u).Normal ∧ (subtractTime t u).ns = t.ns - u.ns := by
  have h1 := ht.nsec_lt
  have h2 := hu.nsec_lt
  have h3 := ht.toInt_le hu hle
  have h4 := timeval_toInt t
  have h5 := timeval_toInt u
  have h6 := word_toInt t.sec
  have h7 := hu.1
  have h8 : t.sec.toInt < 2 ^ 31 := by omega
  obtain ⟨hns, hlt, hpos⟩ := subtractTime_ns (t := t) (u := u) h1 (by omega) (by omega) (by omega)
  have h9 := word_toInt (subtractTime t u).nsec
  have hback : (subtractTime t u).ns = t.ns - u.ns := by
    unfold Timeval.ns at hns ⊢
    omega
  exact ⟨.of_ns (by omega) (by omega), hback⟩

theorem addTime_of_carry (h : 1000000000 ≤ (t + u).nsec.toNat) (hlt : (t + u).nsec.toNat < 2 ^ 31) :
    addTime t u = t + u + BitVec.ofNat 64 (2 ^ 32 - 1000000000) := by
  have hi := word_toInt (t + u).nsec
  have h1 : ((t + u).nsec - 1000000000).toNat = (t + u).nsec.toNat - 1000000000 :=
    BitVec.toNat_sub_of_le h
  have h2 : ((t + u).sec + 1).toNat = ((t + u).sec.toNat + 1) % 2 ^ 32 := BitVec.toNat_add _ 1
  have h3 := toNat_eq_sec_nsec (t + u)
  have h4 := (t + u).sec.isLt
  have hone : addTime t u = timeval ((t + u).sec + 1) ((t + u).nsec - 1000000000) := if_pos (by omega)
  rw [hone, ← BitVec.toNat_inj, timeval_toNat, h1, h2, BitVec.toNat_add, BitVec.toNat_ofNat]
  omega

theorem subtractTime_addTime (ht : t.nsec.toNat < 1000000000) (hu : u.nsec.toNat < 1000000000) :
    subtractTime (addTime t u) u = t := by
  have hn : (t + u).nsec.toNat = t.nsec.toNat + u.nsec.toNat := by
    have h1 := toNat_eq_sec_nsec t
    have h2 := toNat_eq_sec_nsec u
    rw [nsec_toNat, BitVec.toNat_add]
    omega
  have hi := word_toInt (t + u).nsec
  by_cases hcarry : 1000000000 ≤ (t + u).nsec.toNat
  · have hback : addTime t u - u = t + BitVec.ofNat 64 (2 ^ 32 - 1000000000) := by
      rw [addTime_of_carry hcarry (by omega), BitVec.add_assoc, BitVec.add_comm u,
        ← BitVec.add_assoc, BitVec.add_sub_cancel]
    generalize hd : addTime t u - u = d at hback
    have h1 := toNat_eq_sec_nsec t
    have h2 : d.toNat = (t.toNat + (2 ^ 32 - 1000000000)) % 2 ^ 64 := by
      rw [hback, BitVec.toNat_add, BitVec.toNat_ofNat]
      rfl
    have h3 : d.nsec.toNat = t.nsec.toNat + (2 ^ 32 - 1000000000) := by
      rw [nsec_toNat]
      omega
    have h4 : d.sec = t.sec := by
      rw [← BitVec.toNat_inj, sec_toNat, sec_toNat]
      omega
    have h5 : d.nsec + 1000000000 = t.nsec := by
      have h6 : (d.nsec + 1000000000).toNat = (d.nsec.toNat + 1000000000) % 2 ^ 32 :=
        BitVec.toNat_add _ 1000000000
      rw [← BitVec.toNat_inj, h6]
      omega
    have hneg : d.nsec.toInt < 0 := by
      have h6 := word_toInt d.nsec
      omega
    have hsub : subtractTime (addTime t u) u = timeval d.sec (d.nsec + 1000000000) := by
      rw [← hd] at hneg ⊢
      exact if_pos hneg
    rw [hsub, h4, h5, ← BitVec.toNat_inj, timeval_toNat, h1]
  · have hadd : addTime t u = t + u := if_neg (by omega)
    have h1 := word_toInt t.nsec
    have hsub : subtractTime (t + u) u = t + u - u :=
      if_neg (by rw [BitVec.add_sub_cancel]; omega)
    rw [hadd, hsub, BitVec.add_sub_cancel]

/-- Sums are exact below `2 ^ 31` seconds, the second carried from the nanoseconds included;
differences and the round trip are exact always (the 64-bit sum wraps around). -/
theorem time_arithmetic (ht : t.Normal) (hu : u.Normal) :
    (t.ns + u.ns < 2 ^ 31 * 1000000000 →
      (addTime t u).Normal ∧ (addTime t u).ns = t.ns + u.ns) ∧
    (u.ns ≤ t.ns → (subtractTime t u).Normal ∧ (subtractTime t u).ns = t.ns - u.ns) ∧
    subtractTime (addTime t u) u = t :=
  ⟨addTime_normal ht hu, subtractTime_normal ht hu, subtractTime_addTime ht.nsec_lt hu.nsec_lt⟩

theorem time_arithmetic_two_seconds :
    (addTime (timeval 1 600000000) (timeval 0 700000000)).ns = 2300000000 ∧
      subtractTime (addTime (timeval 1 600000000) (timeval 0 700000000)) (timeval 0 700000000)
        = timeval 1 600000000 := by
  have ht : Timeval.Normal (timeval 1 600000000) := by decide
  have hu : Timeval.Normal (timeval 0 700000000) := by decide
  obtain ⟨hadd, -, hback⟩ := time_arithmetic ht hu
  exact ⟨(hadd (by decide)).2, hback⟩

/-- the carried second overflows although the seconds alone do not -/
theorem carried_second_overflows :
    ¬ ∀ t u : Timeval, t.Normal → u.Normal → t.sec.toInt + u.sec.toInt < 2 ^ 31 →
      ((addTime t u).Normal ∧ (addTime t u).ns = t.ns + u.ns) ∧
      (u.ns ≤ t.ns → (subtractTime t u).Normal ∧ (subtractTime t u).ns = t.ns - u.ns) ∧
      subtractTime (addTime t u) u = t := by
  intro h
  have hsec := (h (timeval 0x7FFFFFFF 999999999) (timeval 0 1) (by decide) (by decide)
    (by decide)).1.1.1
  exact absurd hsec (by decide)

end

end SierraTee
