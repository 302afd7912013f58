import SierraTee.Timers.Queue

/-!
# Timers in order (`sw_timer.c`)

* `inFuture_iff`     the test of the interrupt is the one for more than 1000 ns;
* `timers_in_order`  the events are in order, and the interrupt leaves none that it has to handle.
-/

namespace SierraTee
open FlatMemory Rings Runs

/-- timestamps of the first 2³¹ seconds, with less than two seconds in the nanoseconds -/
def ClockOk (clock : Nat → Timeval) : Prop :=
  ∀ n, 0 ≤ (clock n).sec.toInt ∧ (clock n).nsec.toNat < 1999999000

/-- an expiry whose nanoseconds are less than a second, and which is not 2³¹ seconds before a
timestamp -/
def Comparable (clock : Nat → Timeval) (expire : Timeval) : Prop :=
  expire.nsec.toNat < 1000000000 ∧ ∀ n, (clock n).toInt - 2 ^ 63 ≤ expire.toInt

/-- the words of the timestamp and the relative time of a start do not overflow, and the expiry is
not 2³¹ seconds before a timestamp -/
def TimesInRange (s : TimerCpu) : TimerCall → Prop
  | .start _ time => (s.clock s.reads).nsec.toNat + time.nsec.toNat < 2000000000 ∧
      -(2 ^ 31 * 1000000000) ≤ (s.clock s.reads).ns + time.ns ∧
      (s.clock s.reads).ns + time.ns < 2 ^ 31 * 1000000000 ∧
      ∀ n, (s.clock n).toInt - 2 ^ 63 ≤ (addTime (s.clock s.reads) time).toInt
  | _ => True

/-- handlers start nothing -/
def NoHandlerStart (s : TimerCpu) : TimerCall → Prop
  | .start _ _ => s.inInterrupt = false
  | _ => True

instance decidableNoHandlerStart (s : TimerCpu) : (c : TimerCall) → Decidable (NoHandlerStart s c)
  | .start _ _ => inferInstanceAs (Decidable (s.inInterrupt = false))
  | .stop _ => isTrue trivial
  | .tick => isTrue trivial
  | .round => isTrue trivial

/-- the queue is sorted and has the active events once; what the interrupt has handled was in the
order of the expiries, and nothing more than 1000 ns early -/
structure InOrder (s : TimerCpu) (es : List TimerId) : Prop where
  ring : Ring s.links .active (es.map .node)
  nodup : es.Nodup
  sorted : es.Pairwise fun e f => (s.event e).timelen.ns ≤ (s.event f).timelen.ns
  active : ∀ e, (s.event e).state = .active ↔ e ∈ es
  handled : s.handled.reverse.Pairwise fun x y => x.expire.ns ≤ y.expire.ns
  early : ∀ x ∈ s.handled, x.expire.ns - x.now.ns ≤ 1000

/-- the last timestamp of `timer_interrupt` is more than 1000 ns before the active events -/
def LeavesFuture (s : TimerCpu) : Prop :=
  ∀ e, (s.event e).state = .active → 1000 < (s.event e).timelen.ns - s.now.ns

structure OrderOk (clock : Nat → Timeval) (s : TimerCpu) (es : List TimerId) : Prop where
  queue : TimerQueueOk s es
  sameClock : s.clock = clock
  comparable : ∀ e ∈ es, Comparable clock (s.event e).timelen
  handled : s.handled.Pairwise fun x y => y.expire.ns ≤ x.expire.ns
  early : ∀ x ∈ s.handled, x.expire.ns - x.now.ns ≤ 1000
  /-- what is left expires after what has been handled -/
  later : s.inInterrupt = true →
    ∀ x ∈ s.handled, ∀ e ∈ es, x.expire.ns ≤ (s.event e).timelen.ns

section
variable {s s' : TimerCpu} {es es' : List TimerId} {e : TimerId} {b : Board} {fuel : Nat}
  {time t : Timeval} {c : TimerCall} {clock : Nat → Timeval}

theorem inFuture_iff {n : Nat} (hc : ClockOk clock) (ht : Comparable clock t) :
    inFuture t (clock n) = true ↔ 1000 < t.ns - (clock n).ns := by
  obtain ⟨h1, h2⟩ := hc n
  have hhi : t.toInt - (clock n).toInt < 2 ^ 63 := by
    have h3 : t.toInt < 2 ^ 63 := BitVec.toInt_lt
    have h4 := timeval_toInt (clock n)
    omega
  have hlo : -2 ^ 63 ≤ t.toInt - (clock n).toInt := by
    have h3 := ht.2 n
    omega
  obtain ⟨h3, h4, h5⟩ := subtractTime_ns ht.1 (by omega) hlo hhi
  have hzero : (subtractTime t (clock n)).sec = 0 ↔ (subtractTime t (clock n)).sec.toInt = 0 := by
    rw [← BitVec.toInt_inj]
    rfl
  show decide _ = true ↔ _
  rw [decide_eq_true_iff, hzero, ← h3]
  omega

theorem OrderOk.sorted (h : OrderOk clock s es) :
    es.Pairwise fun e f => (s.event e).timelen.ns ≤ (s.event f).timelen.ns :=
  h.queue.sorted.imp_of_mem fun hx _ hle => ns_le_of_toInt_le (h.comparable _ hx).1 hle

theorem OrderOk.inOrder (h : OrderOk clock s es) : InOrder s es :=
  ⟨h.queue.ring, h.queue.nodup, h.sorted, h.queue.active, List.pairwise_reverse.mpr h.handled,
    h.early⟩

theorem initSwTimer_order (clock : Nat → Timeval) : OrderOk clock (initSwTimer clock) [] := by
  refine ⟨initSwTimer_queue clock, rfl, fun e he => ?_, List.Pairwise.nil, fun x hx => ?_,
    fun h => ?_⟩
  · cases he
  · cases hx
  · cases h

/-! ## One call -/

theorem OrderOk.start (h : OrderOk clock s es) (hact : (s.event e).state ≠ .active)
    (hr : TimesInRange s (.start e time)) (hi : s.inInterrupt = false)
    (hs : s.timerEventStart b fuel e time = some s') : ∃ es', OrderOk clock s' es' := by
  have he : e ∉ es := fun hm => hact ((h.queue.active e).mpr hm)
  obtain ⟨⟨l, m, rfl, hq⟩, hst⟩ := h.queue.start he hs
  obtain ⟨hn, hlo, hhi, hclock⟩ := hr
  refine ⟨l ++ e :: m, hq, hst.interrupt.clock.trans h.sameClock, fun x hx => ?_, ?_, ?_, fun hin => ?_⟩
  · rw [hst.expire]
    split_ifs with hxe
    · refine ⟨(addTime_ns hn hlo hhi).2, fun n => ?_⟩
      rw [← h.sameClock]
      exact hclock n
    · refine h.comparable x ?_
      simp only [List.mem_append, List.mem_cons] at hx ⊢
      tauto
  · rw [hst.interrupt.handled]
    exact h.handled
  · rw [hst.interrupt.handled]
    exact h.early
  · rw [hst.interrupt.inInterrupt, hi] at hin
    cases hin

theorem OrderOk.stop (h : OrderOk clock s es) (hs : s.timerEventStop b e = some s') :
    ∃ es', OrderOk clock s' es' := by
  obtain ⟨-, rfl⟩ | ⟨l, m, rfl, hq, hint, htime, -⟩ := h.queue.stop hs
  · exact ⟨es, h⟩
  have hsub (x : TimerId) (hx : x ∈ l ++ m) : x ∈ l ++ e :: m := by
    simp only [List.mem_append, List.mem_cons] at hx ⊢
    tauto
  refine ⟨l ++ m, hq, hint.clock.trans h.sameClock, fun x hx => ?_, ?_, ?_, fun hin x hx y hy => ?_⟩
  · rw [htime]
    exact h.comparable x (hsub x hx)
  · rw [hint.handled]
    exact h.handled
  · rw [hint.handled]
    exact h.early
  · rw [hint.inInterrupt] at hin
    rw [hint.handled] at hx
    rw [htime]
    exact h.later hin x hx y (hsub y hy)

theorem OrderOk.tick (h : OrderOk clock s es) : OrderOk clock s.timerTick es := by
  refine ⟨h.queue.tick, h.sameClock, h.comparable, List.Pairwise.nil, fun x hx => ?_, fun _ x hx => ?_⟩
  · cases hx
  · cases hx

theorem OrderOk.round (hc : ClockOk clock) (h : OrderOk clock s es)
    (hin : s.inInterrupt = true) (hs : s.timerRound b = some s') :
    (∃ es', OrderOk clock s' es') ∧ (s'.inInterrupt = false → LeavesFuture s') := by
  cases es with
  | nil =>
    rw [h.queue.round_nil] at hs
    cases hs
    refine ⟨⟨[], h.queue.interruptEnd, h.sameClock, h.comparable, h.handled, h.early, fun hi => ?_⟩,
      fun _ x hx => ?_⟩
    · cases hi
    · have h1 := (h.queue.active x).mp hx
      cases h1
  | cons e m =>
    rw [h.queue.round_cons] at hs
    cases hs
    have htest : inFuture (s.event e).timelen (s.clock s.reads) = true ↔
        1000 < (s.event e).timelen.ns - (s.clock s.reads).ns := by
      rw [h.sameClock]
      exact inFuture_iff hc (h.comparable e (by simp))
    by_cases hfut : inFuture (s.event e).timelen (s.clock s.reads) = true
    · rw [if_pos hfut]
      refine ⟨⟨e :: m, h.queue.congr rfl rfl rfl, h.sameClock, h.comparable, h.handled, h.early,
        fun hi => ?_⟩, fun _ x hx => ?_⟩
      · cases hi
      · have h1 := htest.mp hfut
        show 1000 < (s.event x).timelen.ns - (s.clock s.reads).ns
        obtain rfl | hx := List.mem_cons.mp ((h.queue.active x).mp hx)
        · exact h1
        · have h2 := (List.pairwise_cons.mp h.sorted).1 x hx
          omega
    · rw [if_neg hfut]
      obtain ⟨hq, htime⟩ := h.queue.handle
      have h1 := mt htest.mpr hfut
      have hhandled := handled_handle s e
      refine ⟨⟨m, hq, h.sameClock, fun x hx => ?_, ?_, fun x hx => ?_, fun _ x hx y hy => ?_⟩,
        fun hi => ?_⟩
      · rw [htime]
        exact h.comparable x (List.mem_cons_of_mem _ hx)
      · rw [hhandled]
        exact List.pairwise_cons.mpr ⟨fun x hx => h.later hin x hx e (by simp), h.handled⟩
      · rw [hhandled] at hx
        obtain rfl | hx := List.mem_cons.mp hx
        · exact Int.not_lt.mp h1
        · exact h.early x hx
      · rw [htime]
        rw [hhandled] at hx
        obtain rfl | hx := List.mem_cons.mp hx
        · exact (List.pairwise_cons.mp h.sorted).1 y hy
        · exact h.later hin x hx y (List.mem_cons_of_mem _ hy)
      · have h2 : s.inInterrupt = false := hi
        rw [hin] at h2
        cases h2

theorem OrderOk.step (hclock : ClockOk clock) (h : OrderOk clock s es) (hc : Startable s c)
    (hh : NoHandlerStart s c) (hr : TimesInRange s c) (hs : timerStep b fuel s c = some s') :
    ∃ es', OrderOk clock s' es' := by
  cases c with
  | start e time => exact h.start hc hr hh hs
  | stop e => exact h.stop hs
  | tick =>
    change (if _ then none else some _) = some s' at hs
    split_ifs at hs
    cases hs
    exact ⟨es, h.tick⟩
  | round =>
    change (if s.inInterrupt = true then s.timerRound b else none) = some s' at hs
    split_ifs at hs with hin
    exact (h.round hclock hin hs).1

/-- **Timers in order**: in every run with times in range, and after every interrupt. -/
theorem timers_in_order {l : List TimerCall} (hclock : ClockOk clock)
    (hl : Along (timerStep b fuel)
      (fun s c => Startable s c ∧ NoHandlerStart s c ∧ TimesInRange s c) (initSwTimer clock) l)
    (hr : run (timerStep b fuel) (initSwTimer clock) l = some s) :
    (∃ es, InOrder s es) ∧ ∀ s', timerStep b fuel s .round = some s' → s'.inInterrupt = false →
      LeavesFuture s' := by
  have h0 : ∃ es, OrderOk clock (initSwTimer clock) es := ⟨[], initSwTimer_order clock⟩
  obtain ⟨es, h⟩ := run_invariant (fun s => ∃ es, OrderOk clock s es)
    (fun _ _ _ hI hc hs => hI.elim fun _ h => h.step hclock hc.1 hc.2.1 hc.2.2 hs) h0 hl hr
  refine ⟨⟨es, h.inOrder⟩, fun s' hs hi => ?_⟩
  change (if s.inInterrupt = true then s.timerRound b else none) = some s' at hs
  split_ifs at hs with hin
  exact (h.round hclock hin hs).2 hi

/-- one second after the start, and, from the fourth time on, three seconds after it -/
def thirdSecond (n : Nat) : Timeval := if n < 3 then timeval 1 0 else timeval 3 0

/-- two starts, and the tick in which both events are handled -/
def twoSleeps : List TimerCall :=
  [.start 0 (timeval 1 500), .start 1 (timeval 1 0), .tick, .round, .round]

theorem thirdSecond_words (n : Nat) :
    0 ≤ (thirdSecond n).sec.toInt ∧ (thirdSecond n).nsec.toNat < 1999999000 := by
  unfold thirdSecond
  split_ifs <;> decide

theorem thirdSecond_expire {time : Timeval} (h : (timeval 3 0).toInt - 2 ^ 63 ≤ time.toInt) (n : Nat) :
    (thirdSecond n).toInt - 2 ^ 63 ≤ time.toInt := by
  have h1 : (timeval 1 0).toInt ≤ (timeval 3 0).toInt := by decide
  unfold thirdSecond
  split_ifs <;> omega

theorem timers_in_order_two : ∃ s,
    run (timerStep .zynq7 3) (initSwTimer thirdSecond) twoSleeps = some s ∧
      s.handled.map (·.expire) = [timeval 2 500, timeval 2 0] ∧ (∃ es, InOrder s es) ∧
      ∀ s', timerStep .zynq7 3 s .round = some s' → s'.inInterrupt = false → LeavesFuture s' := by
  have hall : (run (timerStep .zynq7 3) (initSwTimer thirdSecond) twoSleeps).map
      (fun s => s.handled.map (·.expire)) = some [timeval 2 500, timeval 2 0] := by decide
  have hfirst : (timerStep .zynq7 3 (initSwTimer thirdSecond) (.start 0 (timeval 1 500))).map
      (fun s => (s.inInterrupt, s.reads, (s.event 1).state)) = some (false, 2, .inactive) := by decide
  have hclock : (timerStep .zynq7 3 (initSwTimer thirdSecond) (.start 0 (timeval 1 500))).map
      (fun s => s.clock) = some thirdSecond := rfl
  obtain ⟨s, hs, hhandled⟩ := Option.map_eq_some_iff.mp hall
  obtain ⟨s1, h1, hfacts⟩ := Option.map_eq_some_iff.mp hfirst
  rw [h1] at hclock
  replace hclock : s1.clock = thirdSecond := Option.some.inj hclock
  simp only [Prod.mk.injEq] at hfacts
  obtain ⟨hin, hreads, hstate⟩ := hfacts
  have hnow : s1.clock s1.reads = timeval 1 0 := by
    rw [hclock, hreads]
    rfl
  have hrange : TimesInRange s1 (.start 1 (timeval 1 0)) := by
    unfold TimesInRange
    dsimp only
    rw [hnow, hclock]
    exact ⟨by decide, by decide, by decide, thirdSecond_expire (by decide)⟩
  have hrange0 : TimesInRange (initSwTimer thirdSecond) (.start 0 (timeval 1 500)) :=
    ⟨by decide, by decide, by decide, thirdSecond_expire (by decide)⟩
  have hstart : Startable s1 (.start 1 (timeval 1 0)) := by
    show (s1.event 1).state ≠ .active
    rw [hstate]
    decide
  obtain ⟨s1', h1', hrest⟩ := run_cons_some hs
  obtain ⟨s2, h2, -⟩ := run_cons_some hrest
  rw [h1] at h1'
  cases h1'
  refine ⟨s, hs, hhandled, timers_in_order thirdSecond_words
    (along_of_step ⟨by decide, by decide, hrange0⟩ h1
      (along_of_step ⟨hstart, hin, hrange⟩ h2 (along_of_forall (fun s c hc => ?_) s2))) hs⟩
  rcases hc with _ | ⟨_, _ | ⟨_, _ | ⟨_, hc⟩⟩⟩
  · exact ⟨trivial, trivial, trivial⟩
  · exact ⟨trivial, trivial, trivial⟩
  · exact ⟨trivial, trivial, trivial⟩
  · cases hc

/-- a start for the longest time there is, one for a second, and the tick -/
def longestSleep : List TimerCall :=
  [.start 0 (timeval 0x7FFFFFFF 0), .start 1 (timeval 1 0), .tick, .round]

/-- an event is due, and is left behind an event whose seconds have overflowed -/
theorem due_left : (∀ n, thirdSecond n ≤ thirdSecond (n + 1)) ∧
    Along (timerStep .zynq7 2) (fun s c => Startable s c ∧ NoHandlerStart s c)
      (initSwTimer thirdSecond) longestSleep ∧
    ∃ s, run (timerStep .zynq7 2) (initSwTimer thirdSecond) longestSleep = some s ∧
      s.inInterrupt = false ∧ s.now = timeval 3 0 ∧ (s.event 1).state = .active ∧
      (s.event 1).timelen = timeval 2 0 ∧ ¬ LeavesFuture s := by
  have h : (run (timerStep .zynq7 2) (initSwTimer thirdSecond) longestSleep).map
      (fun s => (s.inInterrupt, s.now, (s.event 1).state, (s.event 1).timelen))
      = some (false, timeval 3 0, .active, timeval 2 0) := by decide
  obtain ⟨s, hs, h1⟩ := Option.map_eq_some_iff.mp h
  simp only [Prod.mk.injEq] at h1
  obtain ⟨hin, hnow, hact, htime⟩ := h1
  refine ⟨fun n => ?_, ?_, s, hs, hin, hnow, hact, htime, fun hl => ?_⟩
  · unfold thirdSecond
    split_ifs with h2 h3
    · exact BitVec.le_refl _
    · decide
    · omega
    · exact BitVec.le_refl _
  · rw [along_and]
    exact ⟨by decide, by decide⟩
  · have h2 := hl 1 hact
    rw [htime, hnow] at h2
    exact absurd h2 (by decide)

end

end SierraTee
