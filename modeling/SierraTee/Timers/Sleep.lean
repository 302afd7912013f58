import SierraTee.Timers.Convert
import SierraTee.Timers.Queue

/-!
# Sleeping for a number of microseconds (`sw_timer_functions.c`)

* `usleepTime_iff`  when the time is exact and normalised;
* `taskUsleep_iff`  when a timer is armed for it, if there is memory.
-/

namespace SierraTee
open FlatMemory Rings

def timesThousandInt (x : Word) : Word := (x <<< 10) + (x <<< 3) - (x <<< 5)

def usleepTime (usecs : Word) : Timeval :=
  let sec := (usecs >>> 19) - (usecs >>> 20)
  let nsec := timesThousandInt (timesThousandInt sec)
  timeval sec (timesThousandInt (usecs - nsec))

/-- the allocations of `task_usleep`: the block for the task id, and the timer event -/
structure SleepAlloc where
  context : Bool
  tevent : Option TimerId

/-- what `task_usleep` leaves: the timers, and the event it has started with the relative time -/
structure Slept where
  cpu : TimerCpu
  armed : Option (TimerId × Timeval)

namespace TimerCpu

def timerEventCreate (s : TimerCpu) (e : TimerId) : TimerCpu := s.setEvent e ⟨timevalMax, .inactive⟩

/-- `task_usleep`; the pointer to the task id is not tested before it is written through -/
def taskUsleep (s : TimerCpu) (b : Board) (fuel : Nat) (usecs : Word) (a : SleepAlloc) :
    Option Slept :=
  if !a.context then none
  else
    match a.tevent with
    | none => some ⟨s, none⟩
    | some e => ((s.timerEventCreate e).timerEventStart b fuel e (usleepTime usecs)).map fun s' =>
        ⟨s', some (e, usleepTime usecs)⟩

end TimerCpu

/-- a timer is armed, from now on, for a normalised time of that many microseconds -/
def SleepsFor (now : Timeval) (usecs : Word) (r : Option Slept) : Prop :=
  ∃ s e time, r = some ⟨s, some (e, time)⟩ ∧ (s.event e).timelen = addTime now time ∧
    ExactTime time (1000 * usecs.toNat)

/-- the number of microseconds is within 2¹⁹ of 2²⁰ for each of its seconds -/
def NearSecond (usecs : Nat) : Prop :=
  usecs / 1000000 * 1048576 ≤ usecs + 524288 ∧ usecs + 524288 < (usecs / 1000000 + 1) * 1048576

section
variable {s : TimerCpu} {es : List TimerId} {b : Board} {fuel : Nat} {usecs x : Word}
  {a : SleepAlloc}

/-! ## The time -/

theorem timesThousandInt_toNat (x : Word) :
    (timesThousandInt x).toNat = 1000 * x.toNat % 2 ^ 32 := by
  have h := x.isLt
  unfold timesThousandInt
  rw [BitVec.toNat_sub, BitVec.toNat_add, BitVec.toNat_shiftLeft, BitVec.toNat_shiftLeft,
    BitVec.toNat_shiftLeft, Nat.shiftLeft_eq, Nat.shiftLeft_eq, Nat.shiftLeft_eq]
  omega

theorem usleepTime_sec (usecs : Word) :
    (usleepTime usecs).sec.toNat = (usecs.toNat + 524288) / 1048576 := by
  have h := usecs.isLt
  have h19 : (usecs >>> 19).toNat = usecs.toNat / 524288 := by
    rw [BitVec.toNat_ushiftRight, Nat.shiftRight_eq_div_pow]
  have h20 : (usecs >>> 20).toNat = usecs.toNat / 1048576 := by
    rw [BitVec.toNat_ushiftRight, Nat.shiftRight_eq_div_pow]
  show (timeval ((usecs >>> 19) - (usecs >>> 20)) _).sec.toNat = _
  rw [timeval_sec, BitVec.toNat_sub_of_le (BitVec.le_def.mpr (by omega)), h19, h20]
  omega

variable (usecs) in
theorem usleepTime_nsec (h : (usleepTime usecs).sec.toNat = usecs.toNat / 1000000) :
    (usleepTime usecs).nsec.toNat = 1000 * (usecs.toNat % 1000000) := by
  have hlt := usecs.isLt
  generalize hs : (usecs >>> 19) - (usecs >>> 20) = sec
  have e : usleepTime usecs = timeval sec
      (timesThousandInt (usecs - timesThousandInt (timesThousandInt sec))) := by
    unfold usleepTime
    rw [hs]
  rw [e, timeval_sec] at h
  have h1 : (timesThousandInt (timesThousandInt sec)).toNat
      = 1000000 * (usecs.toNat / 1000000) := by
    rw [timesThousandInt_toNat, timesThousandInt_toNat, h]
    omega
  have h2 : (usecs - timesThousandInt (timesThousandInt sec)).toNat = usecs.toNat % 1000000 := by
    rw [BitVec.toNat_sub_of_le (BitVec.le_def.mpr (by omega)), h1]
    omega
  rw [e, timeval_nsec, timesThousandInt_toNat, h2]
  omega

theorem usleepTime_iff (usecs : Word) :
    ExactTime (usleepTime usecs) (1000 * usecs.toNat) ↔ NearSecond usecs.toNat := by
  have hlt := usecs.isLt
  have hsec := usleepTime_sec usecs
  have hi := word_toInt (usleepTime usecs).sec
  have hn := word_toInt (usleepTime usecs).nsec
  have hright := usleepTime_nsec usecs
  unfold ExactTime NearSecond
  constructor
  · rintro ⟨hlo, hhi, htotal⟩
    clear hright hn
    omega
  · rintro ⟨hlo, hhi⟩
    have h1 : (usleepTime usecs).sec.toNat = usecs.toNat / 1000000 := by omega
    have h2 := hright h1
    clear hright hlo hhi hsec
    omega

/-! ## The timer -/

theorem TimerQueueOk.create {e : TimerId} (h : TimerQueueOk s es) (he : e ∉ es) :
    TimerQueueOk (s.timerEventCreate e) es := by
  have hother (y : TimerId) (hy : y ≠ e) : (s.timerEventCreate e).event y = s.event y :=
    Function.update_of_ne hy _ _
  have hself : (s.timerEventCreate e).event e = ⟨timevalMax, .inactive⟩ := Function.update_self ..
  refine ⟨h.ring, h.data, ?_, fun y => ?_, fun y => ?_⟩
  · refine h.sorted.imp_of_mem fun {x y} hx hy hle => ?_
    rw [hother x (ne_of_mem_of_not_mem hx he), hother y (ne_of_mem_of_not_mem hy he)]
    exact hle
  · by_cases hy : y = e
    · rw [hy, hself]
      exact iff_of_false (fun hc : TimerState.inactive = .active => nomatch hc) he
    · rw [hother y hy]
      exact h.active y
  · by_cases hy : y = e
    · rw [hy, hself]
      exact Or.inr rfl
    · rw [hother y hy]
      exact h.states y

/-- **A sleep** is armed for the time that is asked for if and only if both allocations succeed and
the number of microseconds is near to its seconds. -/
theorem taskUsleep_iff (h : TimerQueueOk s es) (hf : es.length < fuel)
    (hnew : ∀ e, a.tevent = some e → e ∉ es) :
    SleepsFor (s.clock s.reads) usecs (s.taskUsleep b fuel usecs a) ↔
      a.context = true ∧ a.tevent.isSome ∧ NearSecond usecs.toNat := by
  rw [← usleepTime_iff]
  unfold TimerCpu.taskUsleep
  obtain ⟨context, tevent⟩ := a
  cases context with
  | false =>
    refine iff_of_false ?_ fun hc => absurd hc.1 Bool.false_ne_true
    rintro ⟨s', e, time, hr, -⟩
    cases hr
  | true =>
    cases tevent with
    | none =>
      refine iff_of_false ?_ fun hc => absurd hc.2.1 (by decide)
      rintro ⟨s', e, time, hr, -⟩
      cases hr
    | some e =>
      have he := hnew e rfl
      have h0 := h.create he
      have hstate : ((s.timerEventCreate e).event e).state ≠ .active := fun hx =>
        he ((h0.active e).mp hx)
      obtain ⟨s1, h1⟩ := Option.isSome_iff_exists.mp ((h0.returns hf).1 e (usleepTime usecs) hstate)
      change (s.timerEventCreate e).timerEventStart b fuel e (usleepTime usecs) = some s1 at h1
      have hexpire := ((h0.start he h1).2.expire e).trans (if_pos rfl)
      show SleepsFor _ _ (((s.timerEventCreate e).timerEventStart b fuel e (usleepTime usecs)).map _) ↔ _
      rw [h1]
      constructor
      · rintro ⟨s', e', time, hr, -, hexact⟩
        cases hr
        exact ⟨rfl, rfl, hexact⟩
      · rintro ⟨-, -, hexact⟩
        exact ⟨s1, e, usleepTime usecs, rfl, hexpire, hexact⟩

theorem taskUsleep_iff_second :
    TimerQueueOk (initSwTimer fun _ => 0) [] ∧
      (SleepsFor 0 1500000 ((initSwTimer fun _ => 0).taskUsleep .zynq7 1 1500000 ⟨true, some 0⟩) ↔
        (true = true ∧ (some 0 : Option TimerId).isSome ∧ NearSecond (1500000 : Word).toNat)) :=
  ⟨initSwTimer_queue _, taskUsleep_iff (initSwTimer_queue fun _ => 0) (by decide)
    fun _ _ => List.not_mem_nil⟩

/-- 600 ms are one second and minus 400 ms -/
theorem sleep_overshoots : ¬ ∀ (s : TimerCpu) (es : List TimerId) (b : Board) (fuel : Nat)
    (usecs : Word) (e : TimerId), TimerQueueOk s es → es.length < fuel → e ∉ es →
      SleepsFor (s.clock s.reads) usecs (s.taskUsleep b fuel usecs ⟨true, some e⟩) := by
  intro h
  obtain ⟨s, e, time, hr, -, hexact⟩ := h (initSwTimer fun _ => 0) [] .zynq7 1 600000 0
    (initSwTimer_queue _) (by decide) List.not_mem_nil
  have htime : time = usleepTime 600000 := by
    change (((initSwTimer fun _ => 0).timerEventCreate 0).timerEventStart .zynq7 1 0
      (usleepTime 600000)).map (fun s' => Slept.mk s' (some (0, usleepTime 600000))) = _ at hr
    obtain ⟨s1, -, h1⟩ := Option.map_eq_some_iff.mp hr
    cases h1
    rfl
  rw [htime] at hexact
  revert hexact
  decide

end

end SierraTee
