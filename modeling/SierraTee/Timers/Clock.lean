import SierraTee.Lib.Runs
import SierraTee.Timers.Time

/-!
# The timestamp (`sw_timer.c`)

The time since the start is kept as a number of cycles and as a time value; both grow by what the
free-running counter has counted since the last look at it.

* `counted`             every wrap of the counter is counted as one cycle less than it lasts;
* `clock_faithful_iff`  all counts are right and no time goes back as long as no wrap is delivered,
                        and no time is read between a wrap and its delivery.
-/

namespace SierraTee
open FlatMemory Runs

/-- `struct sw_tmr_info` without the two periods, which nothing reads -/
structure SwTmrInfo where
  swTimestamp : Timeval
  absCyclesCount : BitVec 64
  cyclesCountOld : BitVec 64
  cyclesCountNew : BitVec 64

/-- as `init_sw_timer` leaves it -/
def initTmrInfo : SwTmrInfo := ⟨0, 0, 0, 0⟩

namespace SwTmrInfo
variable (info : SwTmrInfo)

/-- what both functions do with the count `new`, which becomes the old one as `old` -/
def account (b : Board) (new old : BitVec 64) : SwTmrInfo :=
  let tmpCycles := new - info.cyclesCountOld
  { cyclesCountNew := new
    absCyclesCount := info.absCyclesCount + tmpCycles
    cyclesCountOld := old
    swTimestamp := addTime info.swTimestamp (clockcyclesToTimeval b (tmpCycles.setWidth 32)) }

def freeRunningCntrIntr (b : Board) : SwTmrInfo :=
  info.account b (b.timerCountMax.setWidth 64) 0

/-- `readFreerunningCntr` is what `read_freerunning_cntr` returns -/
def readTimestamp (b : Board) (readFreerunningCntr : Word) : SwTmrInfo × Timeval :=
  let info' := info.account b (readFreerunningCntr.setWidth 64) (readFreerunningCntr.setWidth 64)
  (info', info'.swTimestamp)

end SwTmrInfo

/-- the counter and what is kept of it -/
structure ClockSys where
  info : SwTmrInfo
  /-- the cycles since the start -/
  elapsed : Nat
  /-- the interrupts that have been delivered -/
  delivered : Nat
  /-- the timestamps that have been read -/
  stamps : List Timeval

def startClock : ClockSys := ⟨initTmrInfo, 0, 0, []⟩

inductive ClockEvent where
  | advance (cycles : Nat)
  | read
  | wrapIntr

def Board.period (b : Board) : Nat := b.timerCountMax.toNat + 1

namespace ClockSys
variable (s : ClockSys) (b : Board)

def counter : Word := BitVec.ofNat 32 (s.elapsed % b.period)

def wraps : Nat := s.elapsed / b.period

def afterRead : ClockSys :=
  let r := s.info.readTimestamp b (s.counter b)
  { s with info := r.1, stamps := r.2 :: s.stamps }

def afterIntr : ClockSys :=
  { s with info := s.info.freeRunningCntrIntr b, delivered := s.delivered + 1 }

end ClockSys

/-- an interrupt needs a wrap, and no second wrap comes before the interrupt of the first -/
def clockStep (b : Board) (s : ClockSys) : ClockEvent → Option ClockSys
  | .advance n =>
    if (s.elapsed + n) / b.period ≤ s.delivered + 1 then some { s with elapsed := s.elapsed + n }
    else none
  | .read => some (s.afterRead b)
  | .wrapIntr => if s.delivered < s.wraps b then some (s.afterIntr b) else none

/-- after a read the cycles are those that have elapsed, and the timestamp is not less than an
earlier one; after an interrupt they are those up to its wrap -/
def Faithful (b : Board) (s : ClockSys) : ClockEvent → Prop
  | .advance _ => True
  | .read => (s.afterRead b).info.absCyclesCount.toNat = s.elapsed ∧
      ∀ t ∈ s.stamps, t ≤ (s.afterRead b).info.swTimestamp
  | .wrapIntr => s.delivered < s.wraps b →
      (s.afterIntr b).info.absCyclesCount.toNat = (s.delivered + 1) * b.period

/-- no interrupt comes, and nothing is read when one is due -/
def Timely (b : Board) (s : ClockSys) : ClockEvent → Prop
  | .advance _ => True
  | .read => s.wraps b = s.delivered
  | .wrapIntr => s.wraps b ≤ s.delivered

section
variable {b : Board} {s s' : ClockSys} {e : ClockEvent}

/-! ## The cycles -/

def CyclesCounted (b : Board) (s : ClockSys) : Prop :=
  s.info.absCyclesCount
    = s.info.cyclesCountOld + BitVec.ofNat 64 s.delivered * b.timerCountMax.setWidth 64

theorem CyclesCounted.read (h : CyclesCounted b s) : CyclesCounted b (s.afterRead b) := by
  show s.info.absCyclesCount + ((s.counter b).setWidth 64 - s.info.cyclesCountOld) = _
  rw [h]
  show _ = (s.counter b).setWidth 64 + BitVec.ofNat 64 s.delivered * b.timerCountMax.setWidth 64
  generalize BitVec.ofNat 64 s.delivered * b.timerCountMax.setWidth 64 = x
  generalize (s.counter b).setWidth 64 = y
  generalize s.info.cyclesCountOld = z
  bv_omega

theorem CyclesCounted.intr (h : CyclesCounted b s) : CyclesCounted b (s.afterIntr b) := by
  show s.info.absCyclesCount + (b.timerCountMax.setWidth 64 - s.info.cyclesCountOld) = _
  rw [h]
  show _ = 0 + BitVec.ofNat 64 (s.delivered + 1) * b.timerCountMax.setWidth 64
  rw [BitVec.ofNat_add, BitVec.add_mul, BitVec.one_mul]
  generalize BitVec.ofNat 64 s.delivered * b.timerCountMax.setWidth 64 = x
  generalize b.timerCountMax.setWidth 64 = y
  generalize s.info.cyclesCountOld = z
  bv_omega

theorem CyclesCounted.step (h : CyclesCounted b s) (hs : clockStep b s e = some s') : CyclesCounted b s' := by
  cases e with
  | advance n =>
    change (if _ then _ else none) = some s' at hs
    split_ifs at hs
    cases hs
    exact h
  | read =>
    cases hs
    exact h.read
  | wrapIntr =>
    change (if _ then _ else none) = some s' at hs
    split_ifs at hs
    cases hs
    exact h.intr

theorem counted {l : List ClockEvent} (h : run (clockStep b) startClock l = some s) :
    CyclesCounted b s := by
  have h0 : CyclesCounted b startClock := by
    show (0 : BitVec 64) = 0 + BitVec.ofNat 64 0 * b.timerCountMax.setWidth 64
    rw [BitVec.zero_mul]
    rfl
  exact run_invariant (CyclesCounted b) (fun _ _ _ hc _ hs => hc.step hs) h0 (along_true _ _ l) h

/-! ## Before the first interrupt -/

structure FirstPeriod (b : Board) (s : ClockSys) : Prop where
  counted : CyclesCounted b s
  delivered : s.delivered = 0
  old : s.info.cyclesCountOld.toNat ≤ s.elapsed
  within : s.info.cyclesCountOld.toNat < b.period
  span : s.info.swTimestamp.span
    ≤ 1000 * (s.info.cyclesCountOld.toNat * b.getClockPeriodUs.toNat)
  stamps : ∀ t ∈ s.stamps, t ≤ s.info.swTimestamp

theorem period_pos (b : Board) : 0 < b.period := Nat.succ_pos _

theorem period_le (b : Board) : b.period ≤ 2 ^ 32 := b.timerCountMax.isLt

theorem period_span (b : Board) {n : Nat} (h : n < b.period) :
    1000 * (n * b.getClockPeriodUs.toNat) < 4295 * 1000000000 := by
  cases b with
  | ve =>
    have h1 : n < 2 ^ 32 := h
    have h2 : Board.ve.getClockPeriodUs.toNat = 1 := rfl
    rw [h2]
    omega
  | zynq7 =>
    have h1 : n < 2 ^ 16 := h
    have h2 : Board.zynq7.getClockPeriodUs.toNat = 18 := rfl
    rw [h2]
    omega

theorem counter_toNat (b : Board) (s : ClockSys) :
    ((s.counter b).setWidth 64).toNat = s.elapsed % b.period := by
  have h1 := Nat.mod_lt s.elapsed (period_pos b)
  have h2 := period_le b
  unfold ClockSys.counter
  rw [BitVec.toNat_setWidth, BitVec.toNat_ofNat]
  omega

theorem FirstPeriod.abs (h : FirstPeriod b s) :
    s.info.absCyclesCount = s.info.cyclesCountOld := by
  have h1 := h.counted
  unfold CyclesCounted at h1
  rw [h.delivered, BitVec.zero_mul] at h1
  rw [h1]
  exact BitVec.add_zero _

theorem FirstPeriod.read (h : FirstPeriod b s) (hw : s.wraps b = 0) :
    s.info.swTimestamp ≤ (s.afterRead b).info.swTimestamp ∧ FirstPeriod b (s.afterRead b) := by
  have hlt : s.elapsed < b.period := (Nat.div_eq_zero_iff_lt (period_pos b)).mp hw
  have hp := period_le b
  have hnew : ((s.counter b).setWidth 64).toNat = s.elapsed := by
    rw [counter_toNat, Nat.mod_eq_of_lt hlt]
  generalize hd : clockcyclesToTimeval b
    (((s.counter b).setWidth 64 - s.info.cyclesCountOld).setWidth 32) = d
  have hstamp : (s.afterRead b).info.swTimestamp = addTime s.info.swTimestamp d := by
    rw [← hd]
    rfl
  have hcycles : (((s.counter b).setWidth 64 - s.info.cyclesCountOld).setWidth 32).toNat
      = s.elapsed - s.info.cyclesCountOld.toNat := by
    have hle := h.old
    rw [BitVec.toNat_setWidth, BitVec.toNat_sub_of_le (BitVec.le_def.mpr (by omega)), hnew]
    exact Nat.mod_eq_of_lt (by omega)
  have hspan := span_clockcycles_le b
    (((s.counter b).setWidth 64 - s.info.cyclesCountOld).setWidth 32)
  rw [hd, hcycles] at hspan
  have hsec := sec_le_of_span (h.span.trans_lt (period_span b h.within))
  have hsecd := sec_le_of_span (hspan.trans_lt (period_span b (by omega)))
  have hle := le_addTime hsec hsecd (by decide)
  rw [← hstamp] at hle
  refine ⟨hle, h.counted.read, h.delivered, ?_, ?_, ?_, ?_⟩
  · exact hnew.le
  · exact hnew.trans_lt hlt
  · show (s.afterRead b).info.swTimestamp.span
      ≤ 1000 * (((s.counter b).setWidth 64).toNat * b.getClockPeriodUs.toNat)
    rw [hstamp, hnew]
    calc (addTime s.info.swTimestamp d).span
        ≤ s.info.swTimestamp.span + d.span := span_addTime_le hsec hsecd (by decide)
      _ ≤ 1000 * (s.info.cyclesCountOld.toNat * b.getClockPeriodUs.toNat)
          + 1000 * ((s.elapsed - s.info.cyclesCountOld.toNat) * b.getClockPeriodUs.toNat) :=
        Nat.add_le_add h.span hspan
      _ = 1000 * (s.elapsed * b.getClockPeriodUs.toNat) := by
        rw [← Nat.mul_add, ← Nat.add_mul, Nat.add_sub_cancel' h.old]
  · intro t ht
    obtain rfl | ht := List.mem_cons.mp ht
    · exact BitVec.le_refl _
    · exact BitVec.le_trans (h.stamps t ht) hle

theorem FirstPeriod.step (h : FirstPeriod b s) (ha : Timely b s e)
    (hs : clockStep b s e = some s') : FirstPeriod b s' := by
  cases e with
  | advance n =>
    change (if _ then _ else none) = some s' at hs
    split_ifs at hs
    cases hs
    exact { h with old := h.old.trans (Nat.le_add_right _ _) }
  | read =>
    cases hs
    exact (h.read (ha.trans h.delivered)).2
  | wrapIntr =>
    change (if s.delivered < s.wraps b then _ else none) = some s' at hs
    rw [if_neg (Nat.not_lt.mpr ha)] at hs
    cases hs

theorem FirstPeriod.faithful_iff (h : FirstPeriod b s) : Faithful b s e ↔ Timely b s e := by
  cases e with
  | advance n => exact Iff.rfl
  | read =>
    constructor
    · rintro ⟨habs, -⟩
      have h1 : (s.afterRead b).info.absCyclesCount = (s.counter b).setWidth 64 := by
        have h2 := h.counted.read
        unfold CyclesCounted at h2
        have h3 : (s.afterRead b).delivered = 0 := h.delivered
        rw [h3, BitVec.zero_mul] at h2
        rw [h2]
        exact BitVec.add_zero _
      rw [h1, counter_toNat] at habs
      show s.elapsed / b.period = s.delivered
      rw [h.delivered, Nat.div_eq_zero_iff_lt (period_pos b), ← habs]
      exact Nat.mod_lt _ (period_pos b)
    · intro ht
      have hw : s.wraps b = 0 := ht.trans h.delivered
      obtain ⟨hle, hf⟩ := h.read hw
      refine ⟨?_, fun t hm => BitVec.le_trans (h.stamps t hm) hle⟩
      rw [hf.abs]
      show ((s.counter b).setWidth 64).toNat = s.elapsed
      rw [counter_toNat]
      exact Nat.mod_eq_of_lt ((Nat.div_eq_zero_iff_lt (period_pos b)).mp hw)
  | wrapIntr =>
    constructor
    · intro hf
      refine Nat.not_lt.mp fun hlt => ?_
      have h1 := hf hlt
      have h2 := h.counted.intr
      unfold CyclesCounted at h2
      have h3 : (s.afterIntr b).delivered = 1 := congrArg Nat.succ h.delivered
      have h4 : (s.afterIntr b).info.cyclesCountOld = 0 := rfl
      rw [h3, h4] at h2
      rw [h2, h.delivered] at h1
      cases b with
      | ve => exact absurd h1 (by decide)
      | zynq7 => exact absurd h1 (by decide)
    · intro ht hlt
      exact absurd ht (Nat.not_le.mpr hlt)

theorem startClock_first (b : Board) : FirstPeriod b startClock := by
  refine ⟨?_, rfl, Nat.le_refl _, period_pos b, Nat.zero_le _, fun t ht => by cases ht⟩
  exact counted (l := []) rfl

/-- **The timestamp** is faithful in a run just when all its events are in time. -/
theorem clock_faithful_iff (b : Board) (l : List ClockEvent) :
    Along (clockStep b) (Faithful b) startClock l ↔ Along (clockStep b) (Timely b) startClock l :=
  along_iff (FirstPeriod b) (fun _ _ _ h hf hs => h.step (h.faithful_iff.mp hf) hs)
    (fun _ _ h => h.faithful_iff) (startClock_first b) l

theorem clockStep_advance {n : Nat} (h : (s.elapsed + n) / b.period ≤ s.delivered + 1) :
    clockStep b s (.advance n) = some { s with elapsed := s.elapsed + n } := if_pos h

theorem clockStep_intr (h : s.delivered < s.wraps b) :
    clockStep b s .wrapIntr = some (s.afterIntr b) := if_pos h

def wrappedClock : ClockSys := { startClock with elapsed := startClock.elapsed + 65536 }

/-- the first wrap of the counter, and its interrupt -/
theorem wrap_miscounted : ∃ s t,
    run (clockStep .zynq7) startClock [.advance 65536] = some s ∧ s.elapsed = 65536 ∧
      clockStep .zynq7 s .wrapIntr = some t ∧ t.info.absCyclesCount = 65535 ∧
      ¬ Along (clockStep .zynq7) (Faithful .zynq7) startClock [.advance 65536, .wrapIntr] := by
  have hperiod : (startClock.elapsed + 65536) / Board.zynq7.period ≤ startClock.delivered + 1 := by
    decide
  have h1 : clockStep .zynq7 startClock (.advance 65536) = some wrappedClock :=
    clockStep_advance hperiod
  have h2 : clockStep .zynq7 wrappedClock .wrapIntr = some (wrappedClock.afterIntr .zynq7) :=
    clockStep_intr (by decide)
  have h3 : (wrappedClock.afterIntr .zynq7).info.absCyclesCount = 65535 := by decide
  refine ⟨wrappedClock, _, ?_, Nat.zero_add _, h2, h3, fun h => ?_⟩
  · rw [run_cons, h1]
    rfl
  · have h4 := (along_cons h h1).2.1 (by decide)
    rw [h3] at h4
    exact absurd h4 (by decide)

end

end SierraTee
