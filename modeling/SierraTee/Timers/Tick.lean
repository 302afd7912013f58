import SierraTee.Timers.Queue

/-!
# The tick of the earliest timer (`sw_timer.c`)

`next_timelen` is the time that the tick is expected at, and each tick sets it to `TIMEVAL_MAX`, also
when it has programmed the next tick for an event that is left in the queue.

* `earliest_programmed`  the tick is programmed for no later than the earliest event in all states
                         just when no start programs it for later than an event of the queue.
-/

namespace SierraTee
open FlatMemory Rings Runs

/-- while there are events in the queue, the tick was last programmed for a time that is not later
than any of their expiries -/
def EarliestProgrammed (s : TimerCpu) : Prop :=
  ∃ es, Ring s.links .active (es.map .node) ∧ (es ≠ [] →
    ∃ p, s.tick = some p ∧ ∀ e ∈ es, p.timelen.toInt ≤ (s.event e).timelen.toInt)

/-- after the call, if it was not by a handler -/
def KeepsEarliest (b : Board) (fuel : Nat) (s : TimerCpu) (c : TimerCall) : Prop :=
  ∀ s', timerStep b fuel s c = some s' → s'.inInterrupt = false → EarliestProgrammed s'

/-- a start is of an inactive event, for a time before `TIMEVAL_MAX` -/
def StartsBefore (s : TimerCpu) : TimerCall → Prop
  | .start e time => (s.event e).state ≠ .active ∧
      (addTime (s.clock s.reads) time).toInt < timevalMax.toInt
  | _ => True

instance decidableStartsBefore (s : TimerCpu) : (c : TimerCall) → Decidable (StartsBefore s c)
  | .start _ _ => inferInstanceAs (Decidable (_ ∧ _))
  | .stop _ => isTrue trivial
  | .tick => isTrue trivial
  | .round => isTrue trivial

/-- a start outside of a handler, for a time before the one that the tick is expected at, is not for
a time later than that of an active event -/
def NotLater (s : TimerCpu) : TimerCall → Prop
  | .start _ time => s.inInterrupt = false →
      (addTime (s.clock s.reads) time).toInt < s.nextTimelen.toInt →
      ∀ e, (s.event e).state = .active →
        (addTime (s.clock s.reads) time).toInt ≤ (s.event e).timelen.toInt
  | _ => True

structure TickIdle (s : TimerCpu) (es : List TimerId) : Prop where
  none : s.tick = none → s.nextTimelen = timevalMax
  le : ∀ p, s.tick = some p → p.timelen.toInt ≤ s.nextTimelen.toInt
  earliest : es ≠ [] →
    ∃ p, s.tick = some p ∧ ∀ e ∈ es, p.timelen.toInt ≤ (s.event e).timelen.toInt

structure TickOk (s : TimerCpu) (es : List TimerId) : Prop where
  queue : TimerQueueOk s es
  before : ∀ e ∈ es, (s.event e).timelen.toInt < timevalMax.toInt
  next : s.nextTimelen.toInt ≤ timevalMax.toInt
  tick : ∀ p, s.tick = some p → p.timelen.toInt ≤ timevalMax.toInt
  idle : s.inInterrupt = false → TickIdle s es

section
variable {s s' : TimerCpu} {es es' : List TimerId} {e : TimerId} {b : Board} {fuel : Nat}
  {time t : Timeval} {c : TimerCall}

theorem TimerQueueOk.earliest_iff (h : TimerQueueOk s es) : EarliestProgrammed s ↔ (es ≠ [] →
    ∃ p, s.tick = some p ∧ ∀ e ∈ es, p.timelen.toInt ≤ (s.event e).timelen.toInt) := by
  constructor
  · rintro ⟨es', hr, hp⟩
    have e := List.map_injective_iff.mpr node_injective (hr.unique h.ring)
    rwa [e] at hp
  · intro hp
    exact ⟨es, h.ring, hp⟩

theorem initSwTimer_tick (clock : Nat → Timeval) : TickOk (initSwTimer clock) [] := by
  refine ⟨initSwTimer_queue clock, fun e he => ?_, Int.le_refl _, fun p hp => ?_, fun _ => ?_⟩
  · cases he
  · cases hp
  · exact ⟨fun _ => rfl, (fun p hp => by cases hp), fun h => absurd rfl h⟩

/-! ## One call -/

theorem TickOk.started {l m : List TimerId} (h : TickOk s (l ++ m))
    (ht : (addTime (s.clock s.reads) time).toInt < timevalMax.toInt) (hs : Started s e time s') :
    (∀ x ∈ l ++ e :: m, (s'.event x).timelen.toInt < timevalMax.toInt) ∧
      s'.nextTimelen.toInt ≤ timevalMax.toInt ∧
      ∀ p, s'.tick = some p → p.timelen.toInt ≤ timevalMax.toInt := by
  refine ⟨fun x hx => ?_, ?_⟩
  · rw [hs.expire]
    split_ifs with hxe
    · exact ht
    · refine h.before x ?_
      simp only [List.mem_append, List.mem_cons] at hx ⊢
      tauto
  · obtain ⟨-, hp⟩ | ⟨-, hsame⟩ := hs.tick
    · obtain ⟨c, hc⟩ := hp.tick
      rw [hp.next]
      refine ⟨ht.le, fun p hpt => ?_⟩
      rw [hc] at hpt
      cases hpt
      exact ht.le
    · rw [hsame.next, hsame.tick]
      exact ⟨h.next, h.tick⟩

theorem TickOk.started_idle {l m : List TimerId} (h : TickOk s (l ++ m))
    (hidle : s.inInterrupt = false) (he : e ∉ l ++ m)
    (ht : (addTime (s.clock s.reads) time).toInt < timevalMax.toInt) (hs : Started s e time s') :
    (NotLater s (.start e time) → TickIdle s' (l ++ e :: m)) ∧
      ((∃ p, s'.tick = some p ∧
        ∀ x ∈ l ++ e :: m, p.timelen.toInt ≤ (s'.event x).timelen.toInt) →
        NotLater s (.start e time)) := by
  have hself : (s'.event e).timelen = addTime (s.clock s.reads) time := by
    rw [hs.expire, if_pos rfl]
  have hold (x : TimerId) (hx : x ∈ l ++ m) : (s'.event x).timelen = (s.event x).timelen := by
    rw [hs.expire, if_neg (ne_of_mem_of_not_mem hx he)]
  have hmem (x : TimerId) : x ∈ l ++ e :: m ↔ x = e ∨ x ∈ l ++ m := by
    simp only [List.mem_append, List.mem_cons]
    tauto
  obtain ⟨hlt, hp⟩ | ⟨hle, hsame⟩ := hs.tick
  · obtain ⟨c, hc⟩ := hp.tick
    have hnl : NotLater s (.start e time) ↔
        ∀ x ∈ l ++ m, (addTime (s.clock s.reads) time).toInt ≤ (s.event x).timelen.toInt := by
      constructor
      · intro h1 x hx
        exact h1 hidle hlt x ((h.queue.active x).mpr hx)
      · intro h1 _ _ x hx
        exact h1 x ((h.queue.active x).mp hx)
    rw [hnl]
    constructor
    · intro h1
      refine ⟨fun hn => ?_, fun p hpt => ?_, fun _ => ⟨_, hc, fun x hx => ?_⟩⟩
      · rw [hc] at hn
        cases hn
      · rw [hc] at hpt
        cases hpt
        rw [hp.next]
      · obtain rfl | hx := (hmem x).mp hx
        · rw [hself]
        · rw [hold x hx]
          exact h1 x hx
    · rintro ⟨p, hpt, h1⟩ x hx
      rw [hc] at hpt
      cases hpt
      have h2 := h1 x ((hmem x).mpr (Or.inr hx))
      rwa [hold x hx] at h2
  · have hi := h.idle hidle
    refine ⟨fun _ => ⟨?_, ?_, fun _ => ?_⟩, fun _ _ hlt => absurd hlt (Int.not_lt.mpr hle)⟩
    · rw [hsame.tick, hsame.next]
      exact hi.none
    · rw [hsame.tick, hsame.next]
      exact hi.le
    · cases htick : s.tick with
      | none =>
        rw [hi.none htick] at hle
        exact absurd ht (Int.not_lt.mpr hle)
      | some p =>
        refine ⟨p, hsame.tick.trans htick, fun x hx => ?_⟩
        obtain rfl | hx := (hmem x).mp hx
        · rw [hself]
          exact (hi.le p htick).trans hle
        · rw [hold x hx]
          obtain ⟨q, hq, h1⟩ := hi.earliest (List.ne_nil_of_mem hx)
          rw [htick] at hq
          cases hq
          exact h1 x hx

theorem TickOk.stop (h : TickOk s es) (hs : s.timerEventStop b e = some s') :
    ∃ es', TickOk s' es' := by
  obtain ⟨-, rfl⟩ | ⟨l, m, rfl, hq, hint, htime, htick⟩ := h.queue.stop hs
  · exact ⟨es, h⟩
  have hsub (x : TimerId) (hx : x ∈ l ++ m) : x ∈ l ++ e :: m := by
    simp only [List.mem_append, List.mem_cons] at hx ⊢
    tauto
  have hbefore (x : TimerId) (hx : x ∈ l ++ m) :
      (s'.event x).timelen.toInt < timevalMax.toInt := by
    rw [htime]
    exact h.before x (hsub x hx)
  obtain hsame | ⟨rfl, hp⟩ := htick
  · refine ⟨l ++ m, hq, hbefore, ?_, ?_, fun hi => ?_⟩
    · rw [hsame.next]
      exact h.next
    · rw [hsame.tick]
      exact h.tick
    · have h1 := h.idle (hint.inInterrupt ▸ hi)
      refine ⟨?_, ?_, fun _ => ?_⟩
      · rw [hsame.tick, hsame.next]
        exact h1.none
      · rw [hsame.tick, hsame.next]
        exact h1.le
      · obtain ⟨p, hp, h2⟩ := h1.earliest (by simp)
        refine ⟨p, hsame.tick.trans hp, fun x hx => ?_⟩
        rw [htime]
        exact h2 x (hsub x hx)
  · rw [List.nil_append] at hq hbefore
    have hnext : s'.nextTimelen.toInt ≤ timevalMax.toInt := by
      rw [hp.next]
      cases m with
      | nil => exact Int.le_refl _
      | cons f m => exact (h.before f (by simp)).le
    obtain ⟨c, hc⟩ := hp.tick
    have hle (p : Tick) (hpt : s'.tick = some p) : p.timelen.toInt ≤ s'.nextTimelen.toInt := by
      rw [hc] at hpt
      cases hpt
      rw [hp.next]
    refine ⟨m, hq, hbefore, hnext, fun p hpt => (hle p hpt).trans hnext, fun _ =>
      ⟨fun hn => ?_, hle, fun hne => ⟨_, hc, fun x hx => ?_⟩⟩⟩
    · rw [hc] at hn
      cases hn
    · cases m with
      | nil => exact absurd rfl hne
      | cons f m =>
        show (s.event f).timelen.toInt ≤ _
        rw [← htime f]
        exact hq.first_le hx

theorem TickOk.round (h : TickOk s es) (hs : s.timerRound b = some s') (hin : s.inInterrupt = true) :
    ∃ es', TickOk s' es' := by
  cases es with
  | nil =>
    rw [h.queue.round_nil] at hs
    cases hs
    refine ⟨[], h.queue.interruptEnd, fun x hx => ?_, Int.le_refl _, h.tick, fun _ =>
      ⟨fun _ => rfl, h.tick, fun hne => absurd rfl hne⟩⟩
    cases hx
  | cons e m =>
    rw [h.queue.round_cons] at hs
    cases hs
    by_cases hfut : inFuture (s.event e).timelen (s.clock s.reads) = true
    · rw [if_pos hfut]
      have hlt : (s.event e).timelen.slt timevalMax = true := by
        rw [BitVec.slt_eq_decide, decide_eq_true_iff]
        exact h.before e (by simp)
      rw [if_pos hlt]
      have hle (p : Tick) (hp : (s.looked.programTickForEvent b
          (s.event e).timelen).interruptEnd.tick = some p) :
          p.timelen.toInt ≤ timevalMax.toInt := by
        cases hp
        exact (h.before e (by simp)).le
      refine ⟨e :: m, h.queue.congr rfl rfl rfl, h.before, Int.le_refl _, hle, fun _ =>
        ⟨(fun hn => by cases hn), hle, fun _ => ⟨_, rfl, fun x hx => h.queue.first_le hx⟩⟩⟩
    · rw [if_neg hfut]
      obtain ⟨hq, htime⟩ := h.queue.handle
      refine ⟨m, hq, fun x hx => ?_, h.next, h.tick, fun hi => ?_⟩
      · rw [htime]
        exact h.before x (List.mem_cons_of_mem _ hx)
      · have h1 : s.inInterrupt = false := hi
        rw [hin] at h1
        cases h1

/-- **One call** that starts no active event, and nothing for `TIMEVAL_MAX` -/
theorem TickOk.step (h : TickOk s es) (hc : StartsBefore s c)
    (hs : timerStep b fuel s c = some s') (hnl : NotLater s c) : ∃ es', TickOk s' es' := by
  cases c with
  | start e time =>
    obtain ⟨hstate, ht⟩ := hc
    have he : e ∉ es := fun hm => hstate ((h.queue.active e).mpr hm)
    obtain ⟨⟨l, m, rfl, hq⟩, hst⟩ := h.queue.start he hs
    obtain ⟨h1, h2, h3⟩ := h.started ht hst
    refine ⟨l ++ e :: m, hq, h1, h2, h3, fun hi => ?_⟩
    have hidle : s.inInterrupt = false := hst.interrupt.inInterrupt ▸ hi
    exact (h.started_idle hidle he ht hst).1 hnl
  | stop e => exact h.stop hs
  | tick =>
    change (if _ then none else some _) = some s' at hs
    split_ifs at hs
    cases hs
    refine ⟨es, h.queue.tick, h.before, h.next, fun p hp => ?_, fun hi => ?_⟩
    · cases hp
    · cases hi
  | round =>
    change (if s.inInterrupt = true then s.timerRound b else none) = some s' at hs
    split_ifs at hs with hin
    exact h.round hs hin

theorem TickOk.earliest (h : TickOk s es) (hi : s.inInterrupt = false) : EarliestProgrammed s :=
  h.queue.earliest_iff.mpr (h.idle hi).earliest

theorem TickOk.keeps_iff (h : TickOk s es) (hc : StartsBefore s c)
    (hs : timerStep b fuel s c = some s') : KeepsEarliest b fuel s c ↔ NotLater s c := by
  constructor
  · intro hk
    cases c with
    | start e time =>
      obtain ⟨hstate, ht⟩ := hc
      have he : e ∉ es := fun hm => hstate ((h.queue.active e).mpr hm)
      obtain ⟨⟨l, m, rfl, hq⟩, hst⟩ := h.queue.start he hs
      intro hidle
      have h1 := hk s' hs (hst.interrupt.inInterrupt.trans hidle)
      exact (h.started_idle hidle he ht hst).2 (hq.earliest_iff.mp h1 (by simp)) hidle
    | stop e => trivial
    | tick => trivial
    | round => trivial
  · intro hnl t ht hi
    obtain ⟨es', h1⟩ := h.step hc ht hnl
    exact h1.earliest hi

/-- **The earliest timer** is never missed just when, of the starts outside of handlers that program
the tick, none is for a time later than that of an event in the queue. -/
theorem earliest_programmed {clock : Nat → Timeval} {l : List TimerCall}
    (hr : run (timerStep b fuel) (initSwTimer clock) l = some s)
    (hl : Along (timerStep b fuel) StartsBefore (initSwTimer clock) l) :
    Along (timerStep b fuel) (KeepsEarliest b fuel) (initSwTimer clock) l ↔
      Along (timerStep b fuel) NotLater (initSwTimer clock) l := by
  have h0 : ∃ es, TickOk (initSwTimer clock) es := ⟨[], initSwTimer_tick clock⟩
  have h1 : Along (timerStep b fuel) (fun s c => StartsBefore s c ∧ KeepsEarliest b fuel s c)
        (initSwTimer clock) l ↔
      Along (timerStep b fuel) (fun s c => StartsBefore s c ∧ NotLater s c) (initSwTimer clock) l :=
    along_iff_of_run (fun s => ∃ es, TickOk s es)
      (fun _ _ _ hI hok hs => hI.elim fun _ h =>
        h.step hok.1 hs ((h.keeps_iff hok.1 hs).mp hok.2))
      (fun _ _ _ hI hs => and_congr_right fun hc => hI.elim fun _ h => h.keeps_iff hc hs) h0 hr
  rw [along_and, along_and] at h1
  exact and_congr_right_iff.mp h1 hl

/-- the clock shows 0 and, from the fourth time it is read, one second -/
def secondClock (n : Nat) : Timeval := if n < 3 then 0 else timeval 1 0

/-- the tick of the first of two events, and a start for later than the second one -/
def laterStart : List TimerCall :=
  [.start 0 (timeval 1 0), .start 1 (timeval 5 0), .tick, .round, .round, .start 2 (timeval 10 0)]

theorem laterStart_returns : ∃ s, run (timerStep .zynq7 3) (initSwTimer secondClock) laterStart
      = some s ∧ s.inInterrupt = false ∧ (s.event 1).state = .active ∧
        (s.event 1).timelen = timeval 5 0 ∧ s.tick.map Tick.timelen = some (timeval 11 0) := by
  have h : (run (timerStep .zynq7 3) (initSwTimer secondClock) laterStart).map (fun s =>
      (s.inInterrupt, (s.event 1).state, (s.event 1).timelen, s.tick.map Tick.timelen))
      = some (false, .active, timeval 5 0, some (timeval 11 0)) := by decide
  obtain ⟨s, hs, h1⟩ := Option.map_eq_some_iff.mp h
  simp only [Prod.mk.injEq] at h1
  exact ⟨s, hs, h1⟩

theorem earliest_programmed_laterStart :
    (∃ s, run (timerStep .zynq7 3) (initSwTimer secondClock) laterStart = some s) ∧
      (Along (timerStep .zynq7 3) (KeepsEarliest .zynq7 3) (initSwTimer secondClock) laterStart ↔
        Along (timerStep .zynq7 3) NotLater (initSwTimer secondClock) laterStart) := by
  obtain ⟨s, hs, -⟩ := laterStart_returns
  exact ⟨⟨s, hs⟩, earliest_programmed hs (by decide)⟩

/-- the event at 5 s is in the queue, and the tick is programmed for 11 s -/
theorem tick_lost : ∃ s, run (timerStep .zynq7 3) (initSwTimer secondClock) laterStart = some s ∧
    s.inInterrupt = false ∧ (s.event 1).state = .active ∧ (s.event 1).timelen = timeval 5 0 ∧
      s.tick.map Tick.timelen = some (timeval 11 0) ∧ ¬ EarliestProgrammed s := by
  obtain ⟨s, hs, hi, hact, htime, htick⟩ := laterStart_returns
  refine ⟨s, hs, hi, hact, htime, htick, fun hp => ?_⟩
  have hq : ∃ es, TimerQueueOk s es :=
    run_invariant (fun s => ∃ es, TimerQueueOk s es) (fun _ _ _ hI hc hs => hI.elim fun _ h => h.step hc hs)
      ⟨[], initSwTimer_queue secondClock⟩ (by decide : Along _ Startable _ laterStart) hs
  obtain ⟨es, hq⟩ := hq
  have he := (hq.active 1).mp hact
  obtain ⟨p, hp, h1⟩ := hq.earliest_iff.mp hp (List.ne_nil_of_mem he)
  have h2 := h1 1 he
  rw [hp, Option.map_some] at htick
  rw [htime, Option.some.inj htick] at h2
  exact absurd h2 (by decide)

end

end SierraTee
