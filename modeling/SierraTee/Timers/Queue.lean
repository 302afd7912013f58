import SierraTee.Lib.Ring
import SierraTee.Lib.Runs
import SierraTee.Timers.Time

/-!
# The timer queue (`sw_timer.c`)

* `TimerQueueOk.step`  every call that starts no active event keeps the queue in order.

The packed time values are compared as signed numbers, as the code compares them.
-/

namespace SierraTee
open Function FlatMemory Rings

abbrev TimerId := Nat

inductive TimerNode where
  /-- `active` of the clock info of the tick timer -/
  | active
  | node (e : TimerId)
  | poisonNext
  | poisonPrev
  deriving DecidableEq

inductive TimerState where
  | inactive | active | pending | executing
  deriving DecidableEq

/-- `struct timer_event` without its node and its handler -/
structure TimerEvent where
  timelen : Timeval
  state : TimerState

/-- one call of `program_tick_for_event` -/
structure Tick where
  timelen : Timeval
  /-- what the hardware counts -/
  cycles : Word

/-- an event that `timer_interrupt` has handled, and the time it has read before -/
structure Handling where
  tevent : TimerId
  expire : Timeval
  now : Timeval

structure TimerCpu where
  links : Links TimerNode
  data : TimerNode → Option TimerId
  event : TimerId → TimerEvent
  nextTimelen : Timeval
  numEvents : Nat
  /-- the last call of `program_tick_for_event` since the last tick -/
  tick : Option Tick
  /-- what the calls of `read_timestamp` return, one after the other -/
  clock : Nat → Timeval
  /-- the number of these calls so far -/
  reads : Nat
  /-- `timer_interrupt` has not returned -/
  inInterrupt : Bool
  /-- the last `now` of `timer_interrupt` -/
  now : Timeval
  /-- the events that the last `timer_interrupt` has handled, the last one first -/
  handled : List Handling

/-- as `init_sw_timer` and `timer_event_create` leave the queue and the events -/
def initSwTimer (clock : Nat → Timeval) : TimerCpu where
  links := ⟨id, id⟩
  data _ := none
  event _ := ⟨timevalMax, .inactive⟩
  nextTimelen := timevalMax
  numEvents := 0
  tick := none
  clock := clock
  reads := 0
  inInterrupt := false
  now := 0
  handled := []

/-- the number of cycles in a call of `trigger_tick` that reaches the hardware -/
def triggerTick (b : Board) (usecs : BitVec 64) : Word :=
  let usecs := if b.timerCountMax.setWidth 64 < usecs then b.timerCountMax.setWidth 64 else usecs
  if usecs = 0 then 1 else usecs.setWidth 32

def inFuture (expire now : Timeval) : Bool :=
  let timeDiff := subtractTime expire now
  0 < timeDiff.sec.toInt ∨ (timeDiff.sec = 0 ∧ 1000 < timeDiff.nsec.toInt)

namespace TimerCpu
variable (s : TimerCpu)

def linkEmpty : Bool := s.links.next .active = .active

def setEvent (e : TimerId) (x : TimerEvent) : TimerCpu :=
  { s with event := update s.event e x }

/-- a node before another one -/
def addLink (head : TimerNode) (e : TimerId) : TimerCpu :=
  { s with
    data := update s.data (.node e) (some e)
    links := s.links.insert (s.links.prev head) (.node e) head }

/-- the first event of the list that expires after `new` -/
def laterEvent (fuel : Nat) (new : TimerId) : Option (Option TimerId) :=
  (search s.links .active
    (fun l => (s.data l).any fun temp => (s.event new).timelen.slt (s.event temp).timelen) fuel
    (s.links.next .active)).map fun l => l.bind s.data

def timerQueueAdd (fuel : Nat) (new : TimerId) : Option TimerCpu :=
  (if s.linkEmpty then some (s.addLink .active new)
    else (s.laterEvent fuel new).map fun temp => s.addLink (temp.elim .active .node) new).map
      fun s' => s'.setEvent new { s'.event new with state := .active }

def timerQueueDel (e : TimerId) : TimerCpu :=
  { s.setEvent e { s.event e with state := .inactive } with
    links := s.links.unlink (.node e) .poisonNext .poisonPrev }

def timerQueueGetnext : Option TimerNode :=
  if s.linkEmpty then none else some (s.links.next .active)

def readTimestamp : Timeval × TimerCpu := (s.clock s.reads, { s with reads := s.reads + 1 })

def programTickForEvent (b : Board) (timelen : Timeval) : TimerCpu :=
  let timeTillNextTick := subtractTime timelen s.readTimestamp.1
  let clockcycles :=
    if timeTillNextTick.sec.toInt < 0 ∨ timeTillNextTick.nsec.toInt < 0 then 1
    else timevalToClockcycles b timeTillNextTick
  { s.readTimestamp.2 with
    nextTimelen := timelen
    tick := some ⟨timelen, triggerTick b clockcycles⟩ }

def timerEventStart (b : Board) (fuel : Nat) (e : TimerId) (time : Timeval) : Option TimerCpu :=
  let r := s.readTimestamp
  let expire := addTime r.1 time
  ((r.2.setEvent e { s.event e with timelen := expire }).timerQueueAdd fuel e).map fun s' =>
    if expire.slt s'.nextTimelen then s'.programTickForEvent b expire else s'

/-- the time that the tick is expected at when the first event `e` is gone -/
def timelenBehind (e : TimerId) : Option Timeval :=
  if s.links.next (.node e) = .active then some timevalMax
  else (s.data (s.links.next (.node e))).map fun next => (s.event next).timelen

def timerEventStop (b : Board) (e : TimerId) : Option TimerCpu :=
  if (s.event e).state = .pending then some s
  else if (s.event e).state = .active then
    (if s.timerQueueGetnext = some (.node e) ∧ (s.event e).timelen = s.nextTimelen then
      (s.timelenBehind e).map fun t =>
        if t ≠ s.nextTimelen then s.programTickForEvent b t else s
    else some s).map fun s' => s'.timerQueueDel e
  else some s

/-- the tick hardware has fired, which stops it, and `timer_interrupt` is called -/
def timerTick : TimerCpu := { s with tick := none, inInterrupt := true, handled := [] }

/-- what `exec_timer_handler` does before it calls the handler -/
def execTimerHandler (e : TimerId) : TimerCpu :=
  { s.timerQueueDel e with
    numEvents := s.numEvents + 1
    handled := ⟨e, (s.event e).timelen, s.now⟩ :: s.handled }

/-- `timer_interrupt` returns -/
def interruptEnd : TimerCpu := { s with nextTimelen := timevalMax, inInterrupt := false }

/-- one round of the loop of `timer_interrupt`, up to the call of a handler -/
def timerRound (b : Board) : Option TimerCpu :=
  match s.timerQueueGetnext with
  | none => some s.interruptEnd
  | some node => (s.data node).map fun tevent =>
    let expire := (s.event tevent).timelen
    let s1 := { s.readTimestamp.2 with now := s.readTimestamp.1 }
    if inFuture expire s1.now then
      (s1.programTickForEvent b (if expire.slt timevalMax then expire else timevalMax)).interruptEnd
    else
      (s1.setEvent tevent { s1.event tevent with state := .executing }).execTimerHandler tevent

end TimerCpu

inductive TimerCall where
  | start (e : TimerId) (time : Timeval)
  | stop (e : TimerId)
  | tick
  | round

/-- the calls are atomic: a start or a stop while `timer_interrupt` runs is by a handler -/
def timerStep (b : Board) (fuel : Nat) (s : TimerCpu) : TimerCall → Option TimerCpu
  | .start e time => s.timerEventStart b fuel e time
  | .stop e => s.timerEventStop b e
  | .tick => if s.inInterrupt then none else some s.timerTick
  | .round => if s.inInterrupt then s.timerRound b else none

/-! ## The queue -/

/-- the queue has the events `es` in the order of their expiries, and these are the active ones -/
structure TimerQueueOk (s : TimerCpu) (es : List TimerId) : Prop where
  ring : Ring s.links .active (es.map .node)
  data : ∀ e ∈ es, s.data (.node e) = some e
  sorted : es.Pairwise fun e f => (s.event e).timelen.toInt ≤ (s.event f).timelen.toInt
  active : ∀ e, (s.event e).state = .active ↔ e ∈ es
  states : ∀ e, (s.event e).state = .active ∨ (s.event e).state = .inactive

structure SameTick (s s' : TimerCpu) : Prop where
  next : s'.nextTimelen = s.nextTimelen
  tick : s'.tick = s.tick

structure SameInterrupt (s s' : TimerCpu) : Prop where
  clock : s'.clock = s.clock
  inInterrupt : s'.inInterrupt = s.inInterrupt
  now : s'.now = s.now
  handled : s'.handled = s.handled

structure Programmed (s' : TimerCpu) (t : Timeval) : Prop where
  next : s'.nextTimelen = t
  tick : ∃ c, s'.tick = some ⟨t, c⟩

section
variable {s s' : TimerCpu} {es : List TimerId} {e x : TimerId} {b : Board} {fuel : Nat}
  {time t : Timeval} {c : TimerCall}

theorem node_injective : Injective TimerNode.node := by
  intro e f h
  cases h
  rfl

theorem node_mem (e : TimerId) (es : List TimerId) :
    TimerNode.node e ∈ TimerNode.active :: es.map .node ↔ e ∈ es := by
  rw [List.mem_cons, List.mem_map_of_injective node_injective]
  exact or_iff_right (by simp)

theorem TimerQueueOk.nodup (h : TimerQueueOk s es) : es.Nodup :=
  (List.nodup_cons.mp h.ring.nodup).2.of_map _

theorem TimerQueueOk.congr (h : TimerQueueOk s es) (hl : s'.links = s.links) (hd : s'.data = s.data)
    (he : s'.event = s.event) : TimerQueueOk s' es := by
  refine ⟨?_, ?_, ?_, ?_, ?_⟩
  · rw [hl]
    exact h.ring
  · rw [hd]
    exact h.data
  · rw [he]
    exact h.sorted
  · rw [he]
    exact h.active
  · rw [he]
    exact h.states

theorem initSwTimer_queue (clock : Nat → Timeval) : TimerQueueOk (initSwTimer clock) [] := by
  refine ⟨⟨⟨rfl, rfl⟩, by simp⟩, fun e he => ?_, List.Pairwise.nil, fun e => ?_, fun e => Or.inr rfl⟩
  · cases he
  · show TimerState.inactive = .active ↔ e ∈ []
    simp

theorem TimerQueueOk.empty_iff (h : TimerQueueOk s es) : s.linkEmpty = true ↔ es = [] := by
  unfold TimerCpu.linkEmpty
  rw [decide_eq_true_iff, h.ring.nil_iff, List.map_eq_nil_iff]

theorem TimerQueueOk.getnext_nil (h : TimerQueueOk s []) : s.timerQueueGetnext = none :=
  if_pos (h.empty_iff.mpr rfl)

theorem TimerQueueOk.getnext_cons (h : TimerQueueOk s (e :: es)) : s.timerQueueGetnext = some (.node e) := by
  have h1 : ¬ s.linkEmpty = true := mt h.empty_iff.mp (by simp)
  unfold TimerCpu.timerQueueGetnext
  rw [if_neg h1, h.ring.path.1.1]

theorem TimerQueueOk.getnext_iff (h : TimerQueueOk s es) :
    s.timerQueueGetnext = some (.node e) ↔ ∃ m, es = e :: m := by
  cases es with
  | nil =>
    rw [h.getnext_nil]
    simp
  | cons f m =>
    rw [h.getnext_cons]
    simp [eq_comm]

theorem TimerQueueOk.first_le (h : TimerQueueOk s (e :: es)) (hx : x ∈ e :: es) :
    (s.event e).timelen.toInt ≤ (s.event x).timelen.toInt := by
  obtain rfl | hx := List.mem_cons.mp hx
  · exact Int.le_refl _
  · exact (List.pairwise_cons.mp h.sorted).1 x hx

/-! ## Adding -/

theorem TimerQueueOk.laterEvent (h : TimerQueueOk s es) {r : Option TimerId}
    (hr : s.laterEvent fuel e = some r) :
    r = es.find? fun temp => (s.event e).timelen.slt (s.event temp).timelen := by
  unfold TimerCpu.laterEvent at hr
  obtain ⟨l, hs, rfl⟩ := Option.map_eq_some_iff.mp hr
  rw [h.ring.search_eq hs]
  exact find_map_bind h.data _

theorem TimerQueueOk.laterEvent_isSome (h : TimerQueueOk s es) (hf : es.length < fuel) (e : TimerId) :
    (s.laterEvent fuel e).isSome := by
  unfold TimerCpu.laterEvent
  rw [h.ring.search (by rwa [List.length_map])]
  rfl

theorem Ring.addLink {l m : List TimerId} (hr : Ring s.links .active ((l ++ m).map .node))
    (he : e ∉ l ++ m) :
    Ring (s.addLink ((m.head?).elim .active .node) e).links .active ((l ++ e :: m).map .node) := by
  have hx : TimerNode.node e ∉ TimerNode.active :: (l ++ m).map .node := mt (node_mem e _).mp he
  cases m with
  | nil =>
    rw [List.append_nil] at hr hx
    rw [List.map_append]
    exact hr.addTail hx
  | cons z m =>
    rw [List.map_append, List.map_cons] at hr hx
    rw [List.map_append, List.map_cons, List.map_cons]
    exact hr.addBefore hx

theorem find_cut (p : TimerId → Bool) (es : List TimerId) :
    ∃ l m, es = l ++ m ∧ m.head? = es.find? p ∧ ∀ x ∈ l, p x = false := by
  induction es with
  | nil => exact ⟨[], [], rfl, rfl, fun x hx => by cases hx⟩
  | cons y es ih =>
    cases hy : p y with
    | true =>
      refine ⟨[], y :: es, rfl, ?_, fun x hx => by cases hx⟩
      rw [List.find?_cons_of_pos hy]
      rfl
    | false =>
      obtain ⟨l, m, h1, h2, h3⟩ := ih
      refine ⟨y :: l, m, ?_, ?_, fun x hx => ?_⟩
      · rw [h1]
        rfl
      · rw [h2, List.find?_cons_of_neg (by simp [hy])]
      · obtain rfl | hx := List.mem_cons.mp hx
        · exact hy
        · exact h3 x hx

theorem TimerQueueOk.add_links (h : TimerQueueOk s es) (hr : s.timerQueueAdd fuel e = some s') :
    ∃ l m, es = l ++ m ∧ m.head? = es.find? (fun y => (s.event e).timelen.slt (s.event y).timelen) ∧
      (∀ y ∈ l, (s.event e).timelen.slt (s.event y).timelen = false) ∧
      s' = (s.addLink ((m.head?).elim .active .node) e).setEvent e
        { s.event e with state := .active } := by
  unfold TimerCpu.timerQueueAdd at hr
  obtain ⟨s1, hs1, rfl⟩ := Option.map_eq_some_iff.mp hr
  obtain ⟨l, m, hes, hm, hl⟩ := find_cut
    (fun y => (s.event e).timelen.slt (s.event y).timelen) es
  refine ⟨l, m, hes, hm, hl, ?_⟩
  by_cases hempty : s.linkEmpty = true
  · rw [if_pos hempty] at hs1
    have h1 := h.empty_iff.mp hempty
    rw [h1] at hm
    cases hs1
    rw [hm]
    rfl
  · rw [if_neg hempty] at hs1
    obtain ⟨r, hlater, rfl⟩ := Option.map_eq_some_iff.mp hs1
    rw [hm, h.laterEvent hlater]
    rfl

theorem TimerQueueOk.add (h : TimerQueueOk s es) (he : e ∉ es) (hr : s.timerQueueAdd fuel e = some s') :
    (∃ l m, es = l ++ m ∧ TimerQueueOk s' (l ++ e :: m)) ∧ SameTick s s' ∧ SameInterrupt s s' ∧
      (∀ y, (s'.event y).timelen = (s.event y).timelen) ∧ s'.reads = s.reads := by
  obtain ⟨l, m, hes, hm, hl, rfl⟩ := h.add_links hr
  have htime (y : TimerId) : (((s.addLink ((m.head?).elim .active .node) e).setEvent e
      { s.event e with state := .active }).event y).timelen = (s.event y).timelen := by
    show (update s.event e _ y).timelen = _
    rw [update_apply]
    split_ifs with hy
    · rw [hy]
    · rfl
  have hstate (y : TimerId) : (((s.addLink ((m.head?).elim .active .node) e).setEvent e
      { s.event e with state := .active }).event y).state
        = if y = e then .active else (s.event y).state := by
    show (update s.event e _ y).state = _
    rw [update_apply]
    split_ifs <;> rfl
  rw [hes] at he
  have hring := h.ring
  have hsort := h.sorted
  rw [hes] at hring hsort
  refine ⟨⟨l, m, hes, Ring.addLink hring he, fun y hy => ?_, ?_, fun y => ?_, fun y => ?_⟩,
    ⟨rfl, rfl⟩, ⟨rfl, rfl, rfl, rfl⟩, htime, rfl⟩
  · show update s.data (.node e) (some e) (.node y) = some y
    rw [update_apply]
    split_ifs with hye
    · rw [node_injective hye]
    · have hye' : y ≠ e := fun h1 => hye (congrArg TimerNode.node h1)
      refine h.data y ?_
      rw [hes]
      simp only [List.mem_append, List.mem_cons] at hy ⊢
      tauto
  · simp only [htime]
    have h1 := List.pairwise_append.mp hsort
    have hbefore (y : TimerId) (hy : y ∈ l) :
        (s.event y).timelen.toInt ≤ (s.event e).timelen.toInt := by
      have h2 := hl y hy
      rw [BitVec.slt_eq_decide, decide_eq_false_iff_not] at h2
      exact Int.not_lt.mp h2
    have hbehind (y : TimerId) (hy : y ∈ m) :
        (s.event e).timelen.toInt ≤ (s.event y).timelen.toInt := by
      cases m with
      | nil => cases hy
      | cons z m =>
        have h2 := List.find?_some hm.symm
        rw [BitVec.slt_eq_decide, decide_eq_true_iff] at h2
        refine h2.le.trans ?_
        obtain rfl | hy := List.mem_cons.mp hy
        · exact Int.le_refl _
        · exact (List.pairwise_cons.mp h1.2.1).1 y hy
    refine List.pairwise_append.mpr ⟨h1.1, List.pairwise_cons.mpr ⟨hbehind, h1.2.1⟩, ?_⟩
    intro y hy z hz
    obtain rfl | hz := List.mem_cons.mp hz
    · exact hbefore y hy
    · exact h1.2.2 y hy z hz
  · rw [hstate]
    have h1 := h.active y
    rw [hes] at h1
    split_ifs with hy
    · simp [hy]
    · rw [h1]
      simp [hy]
  · rw [hstate]
    split_ifs
    · exact Or.inl rfl
    · exact h.states y

theorem TimerQueueOk.add_isSome (h : TimerQueueOk s es) (hf : es.length < fuel) (e : TimerId) :
    (s.timerQueueAdd fuel e).isSome := by
  unfold TimerCpu.timerQueueAdd
  rw [Option.isSome_map]
  split_ifs
  · rfl
  · rw [Option.isSome_map]
    exact h.laterEvent_isSome hf e

/-! ## Deleting -/

theorem TimerQueueOk.del {l m : List TimerId} (h : TimerQueueOk s (l ++ e :: m)) :
    TimerQueueOk (s.timerQueueDel e) (l ++ m) ∧ SameTick s (s.timerQueueDel e) ∧
      SameInterrupt s (s.timerQueueDel e) ∧
      ∀ y, ((s.timerQueueDel e).event y).timelen = (s.event y).timelen := by
  have htime (y : TimerId) : ((s.timerQueueDel e).event y).timelen = (s.event y).timelen := by
    show (update s.event e _ y).timelen = _
    rw [update_apply]
    split_ifs with hy
    · rw [hy]
    · rfl
  have hstate (y : TimerId) : ((s.timerQueueDel e).event y).state
      = if y = e then .inactive else (s.event y).state := by
    show (update s.event e _ y).state = _
    rw [update_apply]
    split_ifs <;> rfl
  have hnd := h.nodup
  have hsub : (l ++ m).Sublist (l ++ e :: m) := by simp
  have hring := h.ring
  rw [List.map_append, List.map_cons] at hring
  refine ⟨⟨?_, fun y hy => h.data y (hsub.subset hy), ?_, fun y => ?_, fun y => ?_⟩, ⟨rfl, rfl⟩,
    ⟨rfl, rfl, rfl, rfl⟩, htime⟩
  · rw [List.map_append]
    exact hring.unlink .poisonNext .poisonPrev
  · simp only [htime]
    exact h.sorted.sublist hsub
  · rw [hstate]
    have h1 := h.active y
    have h2 : e ∉ l ++ m := by
      have h3 := (List.nodup_middle.mp hnd)
      exact (List.nodup_cons.mp h3).1
    split_ifs with hy
    · rw [hy]
      simpa using h2
    · rw [h1]
      simp [hy]
  · rw [hstate]
    split_ifs
    · exact Or.inr rfl
    · exact h.states y

/-! ## The calls -/

structure Started (s : TimerCpu) (e : TimerId) (time : Timeval) (s' : TimerCpu) : Prop where
  interrupt : SameInterrupt s s'
  expire : ∀ y, (s'.event y).timelen
    = if y = e then addTime (s.clock s.reads) time else (s.event y).timelen
  tick : ((addTime (s.clock s.reads) time).toInt < s.nextTimelen.toInt ∧
      Programmed s' (addTime (s.clock s.reads) time)) ∨
    (s.nextTimelen.toInt ≤ (addTime (s.clock s.reads) time).toInt ∧ SameTick s s')

theorem TimerQueueOk.setExpire (h : TimerQueueOk s es) (he : e ∉ es) (t : Timeval) :
    TimerQueueOk (s.setEvent e { s.event e with timelen := t }) es := by
  have hother (y : TimerId) (hy : y ≠ e) :
      (s.setEvent e { s.event e with timelen := t }).event y = s.event y :=
    update_of_ne hy _ _
  have hstate (y : TimerId) :
      ((s.setEvent e { s.event e with timelen := t }).event y).state = (s.event y).state := by
    by_cases hy : y = e
    · rw [hy]
      show (update s.event e _ e).state = _
      rw [update_self]
    · rw [hother y hy]
  refine ⟨h.ring, h.data, ?_, fun y => ?_, fun y => ?_⟩
  · refine h.sorted.imp_of_mem fun {x y} hx hy hle => ?_
    rw [hother x (ne_of_mem_of_not_mem hx he), hother y (ne_of_mem_of_not_mem hy he)]
    exact hle
  · rw [hstate]
    exact h.active y
  · rw [hstate]
    exact h.states y

theorem TimerQueueOk.start (h : TimerQueueOk s es) (he : e ∉ es)
    (hs : s.timerEventStart b fuel e time = some s') :
    (∃ l m, es = l ++ m ∧ TimerQueueOk s' (l ++ e :: m)) ∧ Started s e time s' := by
  obtain ⟨s1, h1, rfl⟩ := Option.map_eq_some_iff.mp hs
  have h0 : TimerQueueOk s.readTimestamp.2 es := h.congr rfl rfl rfl
  obtain ⟨⟨l, m, hes, hq⟩, htick, hint, htime, -⟩ := (h0.setExpire he _).add he h1
  have hexpire (y : TimerId) : (s1.event y).timelen
      = if y = e then addTime (s.clock s.reads) time else (s.event y).timelen := by
    rw [htime]
    show (update s.event e _ y).timelen = _
    rw [update_apply]
    split_ifs <;> rfl
  have hnext : s1.nextTimelen = s.nextTimelen := htick.next
  have hslt : s.readTimestamp.1 = s.clock s.reads := rfl
  rw [hslt]
  split_ifs with hlt
  · rw [BitVec.slt_eq_decide, decide_eq_true_iff, hnext] at hlt
    exact ⟨⟨l, m, hes, hq.congr rfl rfl rfl⟩, { hint with },
      hexpire, Or.inl ⟨hlt, rfl, _, rfl⟩⟩
  · rw [BitVec.slt_eq_decide, decide_eq_true_iff, hnext] at hlt
    exact ⟨⟨l, m, hes, hq⟩, { hint with }, hexpire,
      Or.inr ⟨Int.not_lt.mp hlt, hnext, htick.tick⟩⟩

theorem TimerQueueOk.timelenBehind {m : List TimerId} (h : TimerQueueOk s (e :: m)) :
    s.timelenBehind e = some (m.head?.elim timevalMax fun f => (s.event f).timelen) := by
  unfold TimerCpu.timelenBehind
  have h1 := h.ring.path.2
  cases m with
  | nil => exact if_pos h1.1
  | cons f m =>
    have h2 : s.links.next (.node e) = .node f := h1.1.1
    rw [h2, if_neg (by simp), h.data f (by simp)]
    rfl

theorem TimerQueueOk.stop (h : TimerQueueOk s es) (hs : s.timerEventStop b e = some s') :
    (e ∉ es ∧ s' = s) ∨ ∃ l m, es = l ++ e :: m ∧ TimerQueueOk s' (l ++ m) ∧ SameInterrupt s s' ∧
      (∀ y, (s'.event y).timelen = (s.event y).timelen) ∧
      (SameTick s s' ∨
        l = [] ∧ Programmed s' (m.head?.elim timevalMax fun f => (s.event f).timelen)) := by
  unfold TimerCpu.timerEventStop at hs
  have hpending : (s.event e).state ≠ .pending := by
    obtain h1 | h1 := h.states e <;> rw [h1] <;> decide
  rw [if_neg hpending] at hs
  by_cases he : e ∈ es
  · rw [if_pos ((h.active e).mpr he)] at hs
    obtain ⟨s1, h1, rfl⟩ := Option.map_eq_some_iff.mp hs
    obtain ⟨l, m, rfl⟩ := List.append_of_mem he
    refine Or.inr ⟨l, m, rfl, ?_⟩
    split_ifs at h1 with hfirst
    · obtain ⟨k, hk⟩ := h.getnext_iff.mp hfirst.1
      have hl : l = [] := by
        cases l with
        | nil => rfl
        | cons y l =>
          have hnd := h.nodup
          rw [List.cons_append] at hk hnd
          have h2 : e ∉ l ++ e :: m := (List.cons.inj hk).1 ▸ (List.nodup_cons.mp hnd).1
          exact absurd (by simp) h2
      rw [hl, List.nil_append] at h ⊢
      rw [h.timelenBehind, Option.map_some] at h1
      split_ifs at h1 with hne
      · cases h1
        have h2 : TimerQueueOk (s.programTickForEvent b
            (m.head?.elim timevalMax fun f => (s.event f).timelen)) ([] ++ e :: m) :=
          h.congr rfl rfl rfl
        obtain ⟨h3, -, h4, h5⟩ := h2.del
        exact ⟨h3, { h4 with }, h5, Or.inr ⟨rfl, rfl, _, rfl⟩⟩
      · cases h1
        have h2 : TimerQueueOk s ([] ++ e :: m) := h
        obtain ⟨h3, h4, h5, h6⟩ := h2.del
        exact ⟨h3, h5, h6, Or.inl h4⟩
    · cases h1
      obtain ⟨h3, h4, h5, h6⟩ := h.del
      exact ⟨h3, h5, h6, Or.inl h4⟩
  · have h1 : ¬ (s.event e).state = .active := mt (h.active e).mp he
    rw [if_neg h1] at hs
    cases hs
    exact Or.inl ⟨he, rfl⟩

theorem TimerQueueOk.tick (h : TimerQueueOk s es) : TimerQueueOk s.timerTick es := h.congr rfl rfl rfl

theorem TimerQueueOk.interruptEnd (h : TimerQueueOk s es) : TimerQueueOk s.interruptEnd es := h.congr rfl rfl rfl

theorem TimerQueueOk.round_nil (h : TimerQueueOk s []) : s.timerRound b = some s.interruptEnd := by
  unfold TimerCpu.timerRound
  rw [h.getnext_nil]

def TimerCpu.looked (s : TimerCpu) : TimerCpu :=
  { s.readTimestamp.2 with now := s.readTimestamp.1 }

theorem TimerQueueOk.round_cons {m : List TimerId} (h : TimerQueueOk s (e :: m)) :
    s.timerRound b = some (if inFuture (s.event e).timelen (s.clock s.reads) then
      (s.looked.programTickForEvent b
        (if (s.event e).timelen.slt timevalMax then (s.event e).timelen
          else timevalMax)).interruptEnd
      else (s.looked.setEvent e { s.event e with state := .executing }).execTimerHandler e) := by
  unfold TimerCpu.timerRound
  rw [h.getnext_cons]
  simp only
  rw [h.data e (by simp), Option.map_some]
  rfl

theorem TimerQueueOk.handle {m : List TimerId} (h : TimerQueueOk s (e :: m)) :
    TimerQueueOk ((s.looked.setEvent e { s.event e with state := .executing }).execTimerHandler e) m ∧
      ∀ y, (((s.looked.setEvent e { s.event e with state := .executing }).execTimerHandler e).event
        y).timelen = (s.event y).timelen := by
  have h1 : TimerQueueOk s ([] ++ e :: m) := h
  obtain ⟨h2, -, -, h3⟩ := h1.del
  have hevent : ((s.looked.setEvent e { s.event e with state := .executing }).execTimerHandler
      e).event = (s.timerQueueDel e).event := by
    show update (update s.event e _) e
      { update s.event e _ e with state := TimerState.inactive }
      = update s.event e { s.event e with state := .inactive }
    rw [update_idem, update_self]
  exact ⟨h2.congr rfl rfl hevent, fun y => by rw [hevent, h3]⟩

theorem handled_handle (s : TimerCpu) (e : TimerId) :
    ((s.looked.setEvent e { s.event e with state := .executing }).execTimerHandler e).handled
      = ⟨e, (s.event e).timelen, s.clock s.reads⟩ :: s.handled := by
  show Handling.mk e (update s.event e _ e).timelen _ :: _ = _
  rw [update_self]
  rfl

/-- no active event is started -/
def Startable (s : TimerCpu) : TimerCall → Prop
  | .start e _ => (s.event e).state ≠ .active
  | _ => True

instance decidableStartable (s : TimerCpu) : (c : TimerCall) → Decidable (Startable s c)
  | .start e _ => inferInstanceAs (Decidable ((s.event e).state ≠ .active))
  | .stop _ => isTrue trivial
  | .tick => isTrue trivial
  | .round => isTrue trivial

theorem TimerQueueOk.step (h : TimerQueueOk s es) (hc : Startable s c) (hs : timerStep b fuel s c = some s') :
    ∃ es', TimerQueueOk s' es' := by
  cases c with
  | start e time =>
    obtain ⟨⟨l, m, -, hq⟩, -⟩ := h.start (fun he => hc ((h.active e).mpr he)) hs
    exact ⟨_, hq⟩
  | stop e =>
    obtain ⟨-, rfl⟩ | ⟨l, m, -, hq, -⟩ := h.stop hs
    · exact ⟨_, h⟩
    · exact ⟨_, hq⟩
  | tick =>
    change (if _ then none else some _) = some s' at hs
    split_ifs at hs
    cases hs
    exact ⟨_, h.tick⟩
  | round =>
    change (if _ then s.timerRound b else none) = some s' at hs
    split_ifs at hs
    cases es with
    | nil =>
      rw [h.round_nil] at hs
      cases hs
      exact ⟨_, h.interruptEnd⟩
    | cons e m =>
      rw [h.round_cons] at hs
      cases hs
      by_cases hfut : inFuture (s.event e).timelen (s.clock s.reads) = true
      · rw [if_pos hfut]
        exact ⟨e :: m, h.congr rfl rfl rfl⟩
      · rw [if_neg hfut]
        exact ⟨m, h.handle.1⟩

theorem TimerQueueOk.returns (h : TimerQueueOk s es) (hf : es.length < fuel) :
    (∀ e time, (s.event e).state ≠ .active → (timerStep b fuel s (.start e time)).isSome) ∧
      (∀ e, (timerStep b fuel s (.stop e)).isSome) ∧ (s.timerRound b).isSome := by
  refine ⟨fun e time he => ?_, fun e => ?_, ?_⟩
  · show (Option.map _ _).isSome
    rw [Option.isSome_map]
    have h0 : TimerQueueOk s.readTimestamp.2 es := h.congr rfl rfl rfl
    exact (h0.setExpire (fun hm => he ((h.active e).mpr hm)) _).add_isSome hf e
  · show (s.timerEventStop b e).isSome
    unfold TimerCpu.timerEventStop
    split_ifs with h1 h2 h3
    · rfl
    · obtain ⟨m, rfl⟩ := h.getnext_iff.mp h3.1
      rw [h.timelenBehind]
      rfl
    · rfl
    · rfl
  · cases es with
    | nil =>
      rw [h.round_nil]
      rfl
    | cons e m =>
      rw [h.round_cons]
      rfl

end

end SierraTee
