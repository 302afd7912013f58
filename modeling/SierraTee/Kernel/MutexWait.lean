import SierraTee.Kernel.MutexOwner
import SierraTee.Lib.Wakeup

/-!
# Tasks that wait for a mutex

* `mutex_waits_iff`  no retry of a held mutex, no sleep for a free one and no lost wakeup, exactly
                     when the wait condition finds the lock word 0 and the sleep does not;
* `mutex_retried`    a task that tries again while the mutex is held.
-/

namespace SierraTee
open Function Exclusive Runs Wakeup

namespace PendingMutex
variable (s : PendingMutex) (t : TaskId)

def word : Nat := s.core.lock.word

def Wants : Prop :=
  s.core.pc t = .acquireLdrex ∨ s.core.pc t = .acquireStrex ∨ s.core.pc t = .acquireWait

def Blocked : Prop :=
  s.core.pc t = .acquireWait ∧ s.place t = .sleep ∧ s.waitQueue.waiting t = true

/-- in `_sw_release_mutex`, with the wakeup still to come -/
def Waking : Prop :=
  s.core.pc t = .releaseLdrex ∨ s.core.pc t = .releaseStrex ∨ s.core.pc t = .releaseWakeup

/-- on the way to another `cpu_acquire_mutex`, behind the loop of the macro -/
def Retries : Prop :=
  s.core.pc t = .acquireLdrex ∨ s.core.pc t = .acquireWait ∧ s.place t = .done

structure Stranded : Prop where
  free : s.word = 0
  wanted : ∃ t, s.Wants t
  blocked : ∀ t, s.Wants t → s.Blocked t
  unwoken : ∀ t, ¬ s.Waking t

end PendingMutex

structure WaitsIn (s : PendingMutex) (t : TaskId) (s' : PendingMutex) : Prop where
  /-- a task in the macro does not go back while the mutex is held -/
  retry : s.core.pc t = .acquireWait → ¬ s.Retries t → s'.Retries t → s.word = 0
  /-- it goes to the `WAIT` state only when the mutex is held -/
  sleep : s.core.pc t = .acquireWait → s.place t ≠ .sleep → s'.place t = .sleep → s.word ≠ 0
  woken : ¬ s'.Stranded

/-- no retry of a mutex that is held, no sleep for a free one, no lost wakeup -/
def MutexWaits (s : PendingMutex) (a : TaskId × MutexAction) : Prop :=
  ∀ s', pendingStep s a = some s' → WaitsIn s a.1 s'

/-- the lock word when the condition is read, when no memory is found, and when the task is put into
the queue -/
def FitsWord (s : PendingMutex) (a : TaskId × MutexAction) : Prop :=
  ∀ fails, a.2 = .step fails → s.core.pc a.1 = .acquireWait →
    (s.place a.1 = .test ∨ s.place a.1 = .check → s.word = 0) ∧
    (s.place a.1 = .alloc → fails = true → s.word = 0) ∧
    (s.place a.1 = .add → s.word ≠ 0)

/-! ## Who is on the way -/

def MutexPc.stage (found : Option TaskId) : MutexPc → Stage TaskId
  | .acquireLdrex | .acquireStrex | .acquireWait => .trying
  | .releaseLdrex | .releaseStrex => .stored
  | .releaseWakeup => found.elim .stored .waking
  | _ => .away

namespace PendingMutex

def stage (s : PendingMutex) (t : TaskId) : Stage TaskId := (s.core.pc t).stage (s.found t)

def view (s : PendingMutex) : View TaskId := ⟨s.stage, s.Blocked, fun _ => s.word = 0⟩

def inMacro (s : PendingMutex) (t : TaskId) : Option WaitPoint :=
  if s.core.pc t = .acquireWait then some (s.place t) else none

end PendingMutex

structure MutexHeard (s : PendingMutex) : Prop where
  queue : QueueOk s.waitQueue s.inMacro
  place : ∀ t, s.core.pc t ≠ .acquireWait → s.place t = .test
  found : ∀ t, s.core.pc t ≠ .releaseWakeup → s.found t = none
  heard : Heard s.view

section
variable {s s' : PendingMutex} {t u f : TaskId} {p q : MutexPc} {fails : Bool}

/-- **A step of the mutex alone**: the lock word is taken, or the step is in a release, or the lock
word stays. -/
theorem instr_moves {c c' : MutexState} (hp : c.pc t = p) (h : c.instr t fails p = some c')
    (h1 : p ≠ .acquireWait) (h2 : p ≠ .releaseWakeup) :
    ∃ q, c'.pc = update c.pc t q ∧
      (c'.lock.word ≠ 0 ∨ q.stage none = .stored ∨
        c'.lock.word = c.lock.word ∧
          (p.stage none = .away ∨ p.stage none = .trying ∧ q.stage none = .trying)) := by
  have hstrex : (c.lock.strex t otzLocked fails).word ≠ 0 ∨
      c.lock.succeeds t fails = false ∧ (c.lock.strex t otzLocked fails).word = c.lock.word := by
    cases hok : c.lock.succeeds t fails with
    | true =>
      rw [Cell.strex_of_succeeds _ _ _ _ hok]
      exact Or.inl (by decide)
    | false =>
      rw [Cell.strex_of_not _ _ _ _ hok]
      exact Or.inr ⟨rfl, rfl⟩
  cases p with
  | idle => cases h
  | acquire =>
    change (if c.mutex.initParam = false then some (c.goto t .idle)
      else if c.mutex.ownerId = t then some (c.goto t .idle)
      else some (c.goto t .acquireLdrex)) = some c' at h
    split_ifs at h <;> cases h <;> exact ⟨_, rfl, Or.inr (Or.inr ⟨rfl, Or.inl rfl⟩)⟩
  | nowait =>
    change (if c.mutex.initParam = false then some _ else some (c.goto t .nowaitLdrex)) = some c' at h
    split_ifs at h <;> cases h <;> exact ⟨_, rfl, Or.inr (Or.inr ⟨rfl, Or.inl rfl⟩)⟩
  | release =>
    change (if c.mutex.initParam = false ∨ c.mutex.ownerId ≠ t then some (c.goto t .idle)
      else some (c.goto t .releaseLdrex)) = some c' at h
    split_ifs at h <;> cases h <;> exact ⟨_, rfl, Or.inr (Or.inr ⟨rfl, Or.inl rfl⟩)⟩
  | acquireLdrex =>
    cases h
    refine ⟨_, rfl, Or.inr (Or.inr ⟨rfl, Or.inr ⟨rfl, ?_⟩⟩)⟩
    split_ifs <;> rfl
  | acquireStrex =>
    cases h
    refine ⟨_, rfl, hstrex.imp_right fun ⟨hno, h⟩ => Or.inr ⟨h, Or.inr ⟨rfl, ?_⟩⟩⟩
    rw [hno]
    rfl
  | nowaitStrex =>
    cases h
    exact ⟨_, rfl, hstrex.imp_right fun h => Or.inr ⟨h.2, Or.inl rfl⟩⟩
  | releaseLdrex =>
    cases h
    refine ⟨_, rfl, Or.inr (Or.inl ?_)⟩
    split_ifs <;> rfl
  | releaseStrex =>
    change (if c.lock.succeeds t fails then some _ else some _) = some c' at h
    split_ifs at h <;> cases h <;> exact ⟨_, rfl, Or.inr (Or.inl rfl)⟩
  | acquireWait => exact absurd rfl h1
  | releaseWakeup => exact absurd rfl h2
  | _ =>
    cases h
    exact ⟨_, rfl, Or.inr (Or.inr ⟨rfl, Or.inl rfl⟩)⟩

theorem mutexStep_moves {c c' : MutexState} {a : TaskId × MutexAction}
    (h : mutexStep c a = some c') (h1 : c.pc a.1 ≠ .acquireWait)
    (h2 : c.pc a.1 ≠ .releaseWakeup) :
    ∃ q, c'.pc = update c.pc a.1 q ∧
      (c'.lock.word ≠ 0 ∨ q.stage none = .stored ∨
        c'.lock.word = c.lock.word ∧ ((c.pc a.1).stage none = .away ∨
          (c.pc a.1).stage none = .trying ∧ q.stage none = .trying)) := by
  have call {t : TaskId} {p : MutexPc} (h : c.call t p = some c') :
      ∃ q, c'.pc = update c.pc t q ∧
        (c'.lock.word ≠ 0 ∨ q.stage none = .stored ∨
          c'.lock.word = c.lock.word ∧ ((c.pc t).stage none = .away ∨
            (c.pc t).stage none = .trying ∧ q.stage none = .trying)) := by
    unfold MutexState.call at h
    split_ifs at h with hp
    cases h
    refine ⟨p, rfl, Or.inr (Or.inr ⟨rfl, Or.inl ?_⟩)⟩
    rw [hp]
    rfl
  obtain ⟨t, act⟩ := a
  cases act with
  | acquire => exact call h
  | nowait => exact call h
  | release => exact call h
  | step fails => exact instr_moves rfl h h1 h2

theorem stage_of_pc (hpc : s'.core.pc u = s.core.pc u) (hf : s'.found u = s.found u) :
    s'.stage u = s.stage u := by
  unfold PendingMutex.stage
  rw [hpc, hf]

theorem inMacro_of_pc (hpc : s'.core.pc u = s.core.pc u) (hp : s'.place u = s.place u) :
    s'.inMacro u = s.inMacro u := by
  unfold PendingMutex.inMacro
  rw [hpc, hp]

theorem inMacro_update (hpc : ∀ u, u ≠ t → s'.core.pc u = s.core.pc u)
    (hp : ∀ u, u ≠ t → s'.place u = s.place u) :
    s'.inMacro = update s.inMacro t (s'.inMacro t) := by
  funext u
  by_cases e : u = t
  · rw [e, update_self]
  · rw [update_of_ne e]
    exact inMacro_of_pc (hpc u e) (hp u e)

theorem MutexHeard.core {c : MutexState} (hs : MutexHeard s) (h1 : s.core.pc t ≠ .acquireWait)
    (h2 : s.core.pc t ≠ .releaseWakeup) (hpc : c.pc = update s.core.pc t q)
    (hq : c.lock.word ≠ 0 ∨ q.stage none = .stored ∨
      c.lock.word = s.core.lock.word ∧ ((s.core.pc t).stage none = .away ∨
        (s.core.pc t).stage none = .trying ∧ q.stage none = .trying)) :
    MutexHeard (s.setCore c) := by
  have hself : c.pc t = q := by rw [hpc, update_self]
  have hother (u : TaskId) (hu : u ≠ t) : c.pc u = s.core.pc u := by
    rw [hpc, update_of_ne hu]
  have hplace := hs.place t h1
  have hfound := hs.found t h2
  have hblocked : ¬ (s.setCore c).Blocked t := by
    intro hb
    have h3 : s.place t = .sleep := hb.2.1
    rw [hplace] at h3
    cases h3
  have hstage : s.stage t = (s.core.pc t).stage none := by
    unfold PendingMutex.stage
    rw [hfound]
  have hstage' : (s.setCore c).stage t = q.stage none := by
    show (c.pc t).stage (s.found t) = _
    rw [hself, hfound]
  have hstays (hw : c.lock.word = s.core.lock.word) : Stays s.view (s.setCore c).view t := by
    refine ⟨fun u hu => stage_of_pc (hother u hu) rfl, fun u hu => ?_, fun u _ => ?_⟩
    · show c.pc u = _ ∧ _ ↔ _
      rw [hother u hu]
      exact Iff.rfl
    · show c.lock.word = 0 ↔ _
      rw [hw]
      exact Iff.rfl
  refine ⟨?_, fun u hu => ?_, fun u hu => ?_, ?_⟩
  · have hin : (s.setCore c).inMacro = update s.inMacro t ((s.setCore c).inMacro t) :=
      inMacro_update hother fun _ _ => rfl
    rw [hin]
    refine hs.queue.goto (Or.inl (hs.queue.not_linked fun w hw => ?_)) fun e => ?_
    · unfold PendingMutex.inMacro at hw
      rw [if_neg h1] at hw
      cases hw
    · change (if c.pc t = .acquireWait then some (s.place t) else none) = _ at e
      rw [hplace] at e
      split_ifs at e
      cases e
  · by_cases e : u = t
    · rw [e]
      exact hplace
    · refine hs.place u ?_
      rw [← hother u e]
      exact hu
  · by_cases e : u = t
    · rw [e]
      exact hfound
    · refine hs.found u ?_
      rw [← hother u e]
      exact hu
  · rcases hq with hw | hq | ⟨hw, hq | ⟨hp, hq⟩⟩
    · exact fun u _ h => absurd h hw
    · exact Heard.change (hstage'.trans hq)
    · exact hs.heard.enter (hstays hw) (hstage.trans hq) hblocked
    · refine hs.heard.trying (hstays hw) (hstage.trans hp) (hstage'.trans hq) ?_
        fun hb => absurd hb hblocked
      show c.lock.word = 0 ↔ _
      rw [hw]
      exact Iff.rfl

theorem MutexHeard.waitEvent (hs : MutexHeard s) (hp : s.core.pc t = .acquireWait)
    (ha : s.place t = .add → s.word ≠ 0) (h : s.waitEvent t fails = some s') : MutexHeard s' := by
  obtain ⟨r, hr, rfl⟩ := Option.map_eq_some_iff.mp h
  obtain ⟨hwaiting, hadd⟩ := swWaitEvent_waiting hr
  have hmcr : s.inMacro t = some (s.place t) := if_pos hp
  obtain ⟨q, hpc, hword, hq, hin⟩ : ∃ q : MutexPc,
      (if r.2 = none then s.core.goto t .acquireLdrex else s.core).pc
        = update s.core.pc t q ∧
      (if r.2 = none then s.core.goto t .acquireLdrex else s.core).lock.word = s.word ∧
      (∀ x, q.stage x = .trying) ∧
      (if q = .acquireWait then some (r.2.getD .test) else none) = r.2 := by
    cases hx : r.2 with
    | none => exact ⟨.acquireLdrex, rfl, rfl, fun _ => rfl, rfl⟩
    | some w =>
      refine ⟨.acquireWait, ?_, rfl, fun _ => rfl, rfl⟩
      rw [if_neg (by simp), ← hp, update_eq_self]
  set s' : PendingMutex := { s with
      core := if r.2 = none then s.core.goto t .acquireLdrex else s.core
      waitQueue := r.1
      place := update s.place t (r.2.getD .test) } with hs'
  have hself : s'.core.pc t = q := by
    show (if r.2 = none then s.core.goto t .acquireLdrex else s.core).pc t = q
    rw [hpc, update_self]
  have hother (u : TaskId) (hu : u ≠ t) : s'.core.pc u = s.core.pc u := by
    show (if r.2 = none then s.core.goto t .acquireLdrex else s.core).pc u = _
    rw [hpc, update_of_ne hu]
  have hplace (u : TaskId) (hu : u ≠ t) : s'.place u = s.place u := update_of_ne hu _ _
  have hin' : s'.inMacro t = r.2 := by
    show (if s'.core.pc t = .acquireWait then some (update s.place t _ t) else none) = _
    rw [hself, update_self]
    exact hin
  have hstage (u : TaskId) (h1 : s.core.pc u = .acquireWait) : s.stage u = .trying := by
    unfold PendingMutex.stage
    rw [h1]
    rfl
  refine ⟨?_, fun u hu => ?_, fun u hu => ?_, hs.heard.trying (t := t) ⟨fun u hu => ?_, fun u hu => ?_,
    fun u _ => ?_⟩ (hstage t hp) ?_ ?_ fun hb hable => ?_⟩
  · rw [inMacro_update hother hplace, hin']
    exact hs.queue.wait hmcr hr
  · by_cases e : u = t
    · rw [e] at hu ⊢
      rw [hself] at hu
      rw [if_neg hu] at hin
      show update s.place t (r.2.getD .test) t = _
      rw [update_self, ← hin]
      rfl
    · rw [hplace u e]
      exact hs.place u (hother u e ▸ hu)
  · by_cases e : u = t
    · rw [e]
      exact hs.found t (by rw [hp]; decide)
    · exact hs.found u (hother u e ▸ hu)
  · exact stage_of_pc (hother u hu) rfl
  · show s'.core.pc u = _ ∧ s'.place u = _ ∧ r.1.waiting u = _ ↔ _
    rw [hother u hu, hplace u hu, hwaiting u hu]
    exact Iff.rfl
  · show (if r.2 = none then s.core.goto t .acquireLdrex else s.core).lock.word = 0 ↔ _
    rw [hword]
    exact Iff.rfl
  · show (s'.core.pc t).stage _ = _
    rw [hself]
    exact hq _
  · show (if r.2 = none then s.core.goto t .acquireLdrex else s.core).lock.word = 0 ↔ _
    rw [hword]
    exact Iff.rfl
  · refine ha (hadd ?_) hable
    have h1 : s'.inMacro t = some .sleep := (if_pos hb.1).trans (congrArg some hb.2.1)
    rw [← hin', h1]

theorem WaitPoint.eq_sleep {x : Option WaitPoint} (h : x.getD .test = .sleep) :
    x = some .sleep := by
  cases x with
  | none => cases h
  | some w => exact congrArg some h

theorem not_blocked_of_pc (h : s.core.pc t ≠ .acquireWait) : ¬ s.Blocked t := fun hb => h hb.1

theorem MutexHeard.wakeup (hs : MutexHeard s) (hp : s.core.pc t = .releaseWakeup) :
    MutexHeard (s.wakeup t) := by
  have hnot : s.core.pc t ≠ .acquireWait := by
    rw [hp]
    decide
  have hmcr : s.inMacro t = none := if_neg hnot
  have hother (u : TaskId) (hu : u ≠ t) : (s.core.goto t .releaseOwner).pc u = s.core.pc u :=
    update_of_ne hu _ _
  have hself : (s.core.goto t .releaseOwner).pc t = .releaseOwner := update_self ..
  have hplace (u : TaskId) (hu : (s.core.goto t .releaseOwner).pc u ≠ .acquireWait) :
      s.place u = .test := by
    by_cases e : u = t
    · rw [e]
      exact hs.place t hnot
    · exact hs.place u (hother u e ▸ hu)
  have hgoto (s' : PendingMutex) (hc : s'.core = s.core.goto t .releaseOwner)
      (hpl : s'.place = s.place) : s'.inMacro = s.inMacro := by
    have h1 : s'.inMacro = update s.inMacro t (s'.inMacro t) :=
      inMacro_update (fun u hu => by rw [hc]; exact hother u hu) fun u _ => congrFun hpl u
    have h2 : s'.inMacro t = s.inMacro t := by
      rw [hmcr]
      refine if_neg ?_
      rw [hc, hself]
      decide
    rw [h1, h2, update_eq_self]
  unfold PendingMutex.wakeup
  cases hf : s.found t with
  | none =>
    cases hhead : s.waitQueue.elementsList.head? with
    | none =>
      have hnil := List.head?_eq_none_iff.mp hhead
      refine ⟨?_, hplace, fun u hu => ?_, Heard.of_none fun u hu => ?_⟩
      · show QueueOk s.waitQueue (s.setCore (s.core.goto t .releaseOwner)).inMacro
        rw [hgoto (s.setCore (s.core.goto t .releaseOwner)) rfl rfl]
        exact hs.queue
      · by_cases e : u = t
        · rw [e]
          exact hf
        · exact hs.found u (hother u e ▸ hu)
      · have h1 : (s.setCore (s.core.goto t .releaseOwner)).inMacro u = some .sleep :=
          (if_pos hu.1).trans (congrArg some hu.2.1)
        rw [hgoto (s.setCore (s.core.goto t .releaseOwner)) rfl rfl] at h1
        have h2 := hs.queue.member u h1
        rw [hnil] at h2
        cases h2
    | some f =>
      obtain ⟨w, hw, -⟩ := hs.queue.linked f (List.mem_of_head? hhead)
      have hpf : s.core.pc f = .acquireWait := by
        by_contra hne
        rw [show s.inMacro f = none from if_neg hne] at hw
        cases hw
      have hft : f ≠ t := by
        rintro rfl
        exact hnot hpf
      have hfound (u : TaskId) (hu : u ≠ t) : update s.found t (some f) u = s.found u :=
        update_of_ne hu _ _
      set s' : PendingMutex := { s with found := update s.found t (some f) } with hs'
      show MutexHeard s'
      refine ⟨hs.queue, hs.place, fun u hu => ?_, Heard.pick (v := s.view) (t := t) (f := f)
        ⟨fun u hu => stage_of_pc rfl (hfound u hu), fun _ _ => Iff.rfl, fun _ _ => Iff.rfl⟩ ?_
        (not_blocked_of_pc hnot) hft ?_ fun hx => ?_⟩
      · have e : u ≠ t := by
          rintro rfl
          exact hu hp
        show update s.found t (some f) u = none
        rw [hfound u e]
        exact hs.found u hu
      · show (s.core.pc t).stage (update s.found t (some f) t) = _
        rw [hp, update_self]
        rfl
      · show (s.core.pc f).stage _ = _
        rw [hpf]
        rfl
      · obtain ⟨u, -, hu⟩ := hx
        exact hu
  | some f =>
    have hfound (u : TaskId) (hu : u ≠ t) : update s.found t none u = s.found u :=
      update_of_ne hu _ _
    set s' : PendingMutex := { s with
      core := s.core.goto t .releaseOwner
      waitQueue := s.waitQueue.scheduleTaskFunction f
      found := update s.found t none } with hs'
    show MutexHeard s'
    refine ⟨?_, hplace, fun u hu => ?_, hs.heard.wake (t := t) (f := f) ?_
      (fun u hu => stage_of_pc (hother u hu) (hfound u hu)) (fun u hu => ?_) (fun _ _ => Iff.rfl) ?_⟩
    · rw [hgoto s' rfl rfl]
      exact hs.queue.schedule f
    · show update s.found t none u = none
      by_cases e : u = t
      · rw [e, update_self]
      · rw [hfound u e]
        exact hs.found u (hother u e ▸ hu)
    · show (s.core.pc t).stage (s.found t) = _
      rw [hp, hf]
      rfl
    · show ((s.core.goto t .releaseOwner).pc u = _ ∧ s.place u = _ ∧
        update s.waitQueue.waiting f false u = true) ↔ (_ ∧ _ ∧ _) ∧ u ≠ f
      rw [hother u hu]
      by_cases e : u = f
      · rw [e, update_self]
        simp
      · rw [update_of_ne e]
        simp [e]
    · refine not_blocked_of_pc ?_
      show (s.core.goto t .releaseOwner).pc t ≠ _
      rw [hself]
      decide

/-! ## Steps and runs -/

theorem MutexHeard.step {a : TaskId × MutexAction} (hs : MutexHeard s) (ha : FitsWord s a)
    (h : pendingStep s a = some s') : MutexHeard s' := by
  obtain ⟨fails, hact, hp, h1⟩ | ⟨-, -, hp, rfl⟩ | ⟨⟨hp1, hp2⟩, c, hc, rfl⟩ := pendingStep_cases h
  · exact hs.waitEvent hp (ha fails hact hp).2.2 h1
  · exact hs.wakeup hp
  · obtain ⟨q, hpc, hq⟩ := mutexStep_moves hc hp1 hp2
    exact hs.core hp1 hp2 hpc hq

theorem MutexHeard.not_stranded (hs : MutexHeard s) : ¬ s.Stranded := by
  intro h
  obtain ⟨t, ht⟩ := h.wanted
  have wants (u : TaskId) (hu : s.stage u = .trying) : s.Wants u := by
    change (s.core.pc u).stage (s.found u) = .trying at hu
    unfold PendingMutex.Wants
    cases hp : s.core.pc u with
    | acquireLdrex => exact Or.inl rfl
    | acquireStrex => exact Or.inr (Or.inl rfl)
    | acquireWait => exact Or.inr (Or.inr rfl)
    | releaseWakeup =>
      rw [hp] at hu
      change (s.found u).elim Stage.stored Stage.waking = .trying at hu
      cases hf : s.found u <;> rw [hf] at hu <;> cases hu
    | _ =>
      rw [hp] at hu
      cases hu
  have waking (u : TaskId) (hu : s.stage u = .stored ∨ ∃ f, s.stage u = .waking f) : s.Waking u := by
    change (s.core.pc u).stage (s.found u) = .stored ∨
      (∃ f, (s.core.pc u).stage (s.found u) = .waking f) at hu
    unfold PendingMutex.Waking
    cases hp : s.core.pc u with
    | releaseLdrex => exact Or.inl rfl
    | releaseStrex => exact Or.inr (Or.inl rfl)
    | releaseWakeup => exact Or.inr (Or.inr rfl)
    | _ =>
      rw [hp] at hu
      rcases hu with hu | ⟨f, hu⟩ <;> cases hu
  rcases hs.heard t (h.blocked t ht) h.free with ⟨u, hu⟩ | ⟨u, hu, hub, -⟩ | ⟨u, f, hu, -⟩
  · exact h.unwoken u (waking u (Or.inl hu))
  · exact hub (h.blocked u (wants u hu))
  · exact h.unwoken u (waking u (Or.inr ⟨f, hu⟩))

theorem waitsIn_of_fits {a : TaskId × MutexAction} (ha : FitsWord s a) (hs' : MutexHeard s')
    (h : pendingStep s a = some s') : WaitsIn s a.1 s' := by
  have hmcr (hp : s.core.pc a.1 = .acquireWait) :
      ∃ fails, a.2 = .step fails ∧ s.waitEvent a.1 fails = some s' := by
    obtain ⟨fails, hact, -, h1⟩ | ⟨-, -, hp1, -⟩ | ⟨⟨hp1, -⟩, -⟩ := pendingStep_cases h
    · exact ⟨fails, hact, h1⟩
    · rw [hp] at hp1
      cases hp1
    · exact absurd hp hp1
  refine ⟨fun hp hno hret => ?_, fun hp hno hsleep => ?_, hs'.not_stranded⟩
  · obtain ⟨fails, hact, h1⟩ := hmcr hp
    obtain ⟨hread, halloc, -⟩ := ha fails hact hp
    obtain ⟨r, hr, rfl⟩ := Option.map_eq_some_iff.mp h1
    have hgoes (p : WaitPoint) (hne : p ≠ .done) (h : s.core.pc a.1 = .acquireLdrex ∨
        s.core.pc a.1 = .acquireWait ∧ update s.place a.1 p a.1 = .done) : False := by
      rcases h with h | ⟨-, h⟩
      · rw [hp] at h
        cases h
      · rw [update_self] at h
        exact hne h
    cases hw : s.place a.1 with
    | test => exact hread (Or.inl hw)
    | check => exact hread (Or.inr hw)
    | done => exact absurd (Or.inr ⟨hp, hw⟩) hno
    | alloc =>
      rw [hw] at hr
      cases hr
      cases fails with
      | true => exact halloc hw rfl
      | false =>
        exact (hgoes .check nofun hret).elim
    | add =>
      rw [hw] at hr
      cases hr
      exact (hgoes .sleep nofun hret).elim
    | sleep =>
      rw [hw] at hr
      change (if s.waitQueue.waiting a.1 then none else some (s.waitQueue, some .check)) = some r
        at hr
      split_ifs at hr
      cases hr
      exact (hgoes .check nofun hret).elim
  · obtain ⟨fails, hact, h1⟩ := hmcr hp
    obtain ⟨r, hr, rfl⟩ := Option.map_eq_some_iff.mp h1
    refine (ha fails hact hp).2.2 ((swWaitEvent_waiting hr).2 (WaitPoint.eq_sleep ?_))
    have h2 : update s.place a.1 (r.2.getD .test) a.1 = .sleep := hsleep
    rw [update_self] at h2
    exact h2

theorem fits_of_waits {a : TaskId × MutexAction} (h : MutexWaits s a) : FitsWord s a := by
  rintro fails hact hp
  obtain ⟨t, act⟩ := a
  obtain rfl : act = .step fails := hact
  have hp : s.core.pc t = .acquireWait := hp
  have hstep : pendingStep s (t, .step fails) = s.waitEvent t fails := by
    show s.instr t fails (s.core.pc t) = _
    rw [hp]
    rfl
  have step {r : TaskPendingQueue TaskId × Option WaitPoint}
      (hr : swWaitEvent s.waitQueue t (s.word != 0) fails (s.place t) = some r) :
      WaitsIn s t { s with
        core := if r.2 = none then s.core.goto t .acquireLdrex else s.core
        waitQueue := r.1
        place := update s.place t (r.2.getD .test) } := by
    refine h _ (hstep.trans ?_)
    show (swWaitEvent s.waitQueue t (s.word != 0) fails (s.place t)).map _ = _
    rw [hr]
    rfl
  have hnot {w : WaitPoint} (hw : s.place t = w) (hd : w ≠ .done) : ¬ s.Retries t := by
    rintro (h1 | ⟨-, h1⟩)
    · rw [hp] at h1
      cases h1
    · exact hd (hw.symm.trans h1)
  have hleft : (s.core.goto t .acquireLdrex).pc t = .acquireLdrex := update_self ..
  refine ⟨?_, fun hw hf => ?_, fun hw => ?_⟩
  · rintro (hw | hw)
    · by_contra hne
      have hr : swWaitEvent s.waitQueue t (s.word != 0) fails (s.place t)
          = some (s.waitQueue, none) := by
        rw [hw, bne_iff_ne.mpr hne]
        rfl
      exact hne ((step hr).retry hp (hnot hw (by decide)) (Or.inl hleft))
    · by_contra hne
      have hr : swWaitEvent s.waitQueue t (s.word != 0) fails (s.place t)
          = some (s.waitQueue, some .done) := by
        rw [hw, bne_iff_ne.mpr hne]
        rfl
      exact hne ((step hr).retry hp (hnot hw (by decide))
        (Or.inr ⟨hp, update_self ..⟩))
  · have hr : swWaitEvent s.waitQueue t (s.word != 0) fails (s.place t)
        = some (s.waitQueue, none) := by
      rw [hw, hf]
      rfl
    exact (step hr).retry hp (hnot hw (by decide)) (Or.inl hleft)
  · have hr : swWaitEvent s.waitQueue t (s.word != 0) fails (s.place t)
        = some (s.waitQueue.swAtomicQueueAddAndState t, some .sleep) := by
      rw [hw]
      rfl
    refine (step hr).sleep hp ?_ (update_self ..)
    show s.place t ≠ .sleep
    rw [hw]
    decide

theorem newPendingMutex_heard : MutexHeard newPendingMutex := by
  refine ⟨⟨List.nodup_nil, fun f hf => ?_, fun t ht => ?_⟩, fun _ _ => rfl, fun _ _ => rfl,
    Heard.of_none fun t ht => ?_⟩
  · cases hf
  · cases ht
  · cases ht.1

/-- **Waiting for a mutex** is neither needless nor lost exactly while the lock word fits. -/
theorem mutex_waits_iff (l : List (TaskId × MutexAction)) :
    Along pendingStep FitsWord newPendingMutex l ↔ Along pendingStep MutexWaits newPendingMutex l := by
  refine along_iff MutexHeard (fun _ _ _ hs ha h => hs.step ha h) (fun s a hs => ?_)
    newPendingMutex_heard l
  exact ⟨fun ha s' h => waitsIn_of_fits ha (hs.step ha h) h, fits_of_waits⟩

end

/-! ## A task that tries again -/

def heldMutex : List (TaskId × MutexAction) :=
  callOf firstTask .acquire 4 ++ callOf secondTask .acquire 2

theorem mutex_retried :
    ¬ ∀ l, Along pendingStep MutexWaits newPendingMutex l := by
  intro hall
  have h : (run pendingStep newPendingMutex heldMutex).bind (fun s =>
      (pendingStep s (secondTask, .step false)).map fun s' =>
        (s.word, s.core.pc secondTask, s.place secondTask, s'.core.pc secondTask))
      = some (1, .acquireWait, .test, .acquireLdrex) := by decide
  obtain ⟨s, hs, h1⟩ := Option.bind_eq_some_iff.mp h
  obtain ⟨s', hs', h2⟩ := Option.map_eq_some_iff.mp h1
  have hword : s.word = 1 := congrArg (fun x => x.1) h2
  have hp : s.core.pc secondTask = .acquireWait := congrArg (fun x => x.2.1) h2
  have hplace : s.place secondTask = .test := congrArg (fun x => x.2.2.1) h2
  have hw := along_snoc (hall (heldMutex ++ [(secondTask, .step false)])) hs s' hs'
  have h3 := hw.retry hp ?_ (Or.inl (congrArg (fun x => x.2.2.2) h2))
  · rw [hword] at h3
    cases h3
  · rintro (h4 | ⟨-, h4⟩)
    · rw [hp] at h4
      cases h4
    · rw [hplace] at h4
      cases h4

end SierraTee
