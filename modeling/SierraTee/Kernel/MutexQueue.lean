import SierraTee.Kernel.Exclusion
import SierraTee.Kernel.Pending

/-!
# Mutexes with their wait queue (`sw_semaphores.c`, `sw_wait.c`)

* `pendingStep_cases`  a step outside of the two functions is one of the mutex alone.

A task in the `WAIT` state takes no step.  `schedule` is a change to any other task, as there may be
one after every access.
-/

namespace SierraTee
open Function Exclusive Runs

structure PendingMutex where
  core : MutexState
  waitQueue : TaskPendingQueue TaskId
  /-- where a task at `acquireWait` is in `sw_wait_event` -/
  place : TaskId → WaitPoint
  /-- the task of the first element, when a task at `releaseWakeup` has read it -/
  found : TaskId → Option TaskId

namespace PendingMutex
variable (s : PendingMutex) (t : TaskId)

def setCore (c : MutexState) : PendingMutex := { s with core := c }

/-- one step of `sw_wait_event` on the lock word -/
def waitEvent (fails : Bool) : Option PendingMutex :=
  (swWaitEvent s.waitQueue t (s.core.lock.word != 0) fails (s.place t)).map fun r =>
    { s with
      core := if r.2 = none then s.core.goto t .acquireLdrex else s.core
      waitQueue := r.1
      place := update s.place t (r.2.getD .test) }

/-- one step of `sw_wakeup`: the first element is read, and then its function is called -/
def wakeup : PendingMutex :=
  (s.found t).elim
    (s.waitQueue.elementsList.head?.elim (s.setCore (s.core.goto t .releaseOwner)) fun f =>
      { s with found := update s.found t (some f) })
    fun f =>
      { s with
        core := s.core.goto t .releaseOwner
        waitQueue := s.waitQueue.scheduleTaskFunction f
        found := update s.found t none }

/-- one access of the task at its program point -/
def instr (fails : Bool) : MutexPc → Option PendingMutex
  | .acquireWait => s.waitEvent t fails
  | .releaseWakeup => some (s.wakeup t)
  | p => (s.core.instr t fails p).map s.setCore

end PendingMutex

/-- one step of a task -/
def pendingStep (s : PendingMutex) (a : TaskId × MutexAction) : Option PendingMutex :=
  match a.2 with
  | .step fails => s.instr a.1 fails (s.core.pc a.1)
  | .acquire | .nowait | .release => (mutexStep s.core a).map s.setCore

/-- no task is in the functions of a new mutex -/
def newPendingMutex : PendingMutex := ⟨newMutexState, .empty, fun _ => .test, fun _ => none⟩

/-! ## The steps -/

section
variable {s s' : PendingMutex} {t u : TaskId} {a : TaskId × MutexAction}

theorem pendingStep_cases (h : pendingStep s a = some s') :
    (∃ fails, a.2 = .step fails ∧ s.core.pc a.1 = .acquireWait ∧
      s.waitEvent a.1 fails = some s') ∨
    (∃ fails, a.2 = .step fails ∧ s.core.pc a.1 = .releaseWakeup ∧ s' = s.wakeup a.1) ∨
    ((s.core.pc a.1 ≠ .acquireWait ∧ s.core.pc a.1 ≠ .releaseWakeup) ∧
      ∃ c, mutexStep s.core a = some c ∧ s' = s.setCore c) := by
  obtain ⟨t, act⟩ := a
  have call {p : MutexPc} (h : (s.core.call t p).map s.setCore = some s') :
      (s.core.pc t ≠ .acquireWait ∧ s.core.pc t ≠ .releaseWakeup) ∧
        ∃ c, s.core.call t p = some c ∧ s' = s.setCore c := by
    obtain ⟨c, hc, rfl⟩ := Option.map_eq_some_iff.mp h
    have hc' := hc
    unfold MutexState.call at hc'
    split_ifs at hc' with hp
    exact ⟨by rw [hp]; decide, c, hc, rfl⟩
  cases act with
  | acquire => exact Or.inr (Or.inr (call h))
  | nowait => exact Or.inr (Or.inr (call h))
  | release => exact Or.inr (Or.inr (call h))
  | step fails =>
    have other {p : MutexPc} (hp : s.core.pc t = p) (h1 : p ≠ .acquireWait)
        (h2 : p ≠ .releaseWakeup) (h : (s.core.instr t fails p).map s.setCore = some s') :
        (s.core.pc t ≠ .acquireWait ∧ s.core.pc t ≠ .releaseWakeup) ∧
          ∃ c, mutexStep s.core (t, .step fails) = some c ∧ s' = s.setCore c := by
      obtain ⟨c, hc, rfl⟩ := Option.map_eq_some_iff.mp h
      refine ⟨⟨hp ▸ h1, hp ▸ h2⟩, c, ?_, rfl⟩
      show s.core.instr t fails (s.core.pc t) = some c
      rw [hp]
      exact hc
    change s.instr t fails (s.core.pc t) = some s' at h
    cases hp : s.core.pc t with
    | acquireWait =>
      rw [hp] at h
      exact Or.inl ⟨fails, rfl, rfl, h⟩
    | releaseWakeup =>
      rw [hp] at h
      cases h
      exact Or.inr (Or.inl ⟨fails, rfl, rfl, rfl⟩)
    | _ =>
      rw [hp] at h
      have h1 := other hp (by decide) (by decide) h
      rw [hp] at h1
      exact Or.inr (Or.inr h1)

theorem waitEvent_core {fails : Bool} (h : s.waitEvent t fails = some s') :
    s'.core = s.core ∨ s'.core = s.core.goto t .acquireLdrex := by
  obtain ⟨r, -, rfl⟩ := Option.map_eq_some_iff.mp h
  show (if r.2 = none then s.core.goto t .acquireLdrex else s.core) = _ ∨ _
  by_cases hr : r.2 = none
  · exact Or.inr (if_pos hr)
  · exact Or.inl (if_neg hr)

theorem wakeup_core : (s.wakeup t).core = s.core ∨
    (s.wakeup t).core = s.core.goto t .releaseOwner := by
  unfold PendingMutex.wakeup
  cases s.found t with
  | some f => exact Or.inr rfl
  | none =>
    cases s.waitQueue.elementsList.head? with
    | some f => exact Or.inl rfl
    | none => exact Or.inr rfl

/-- **What holds of the mutex alone**: kept by its own steps, by a task that leaves the macro and by
one that leaves `sw_wakeup`. -/
theorem pendingStep_core {P : MutexState → Prop} (h : pendingStep s a = some s') (hs : P s.core)
    (hwait : s.core.pc a.1 = .acquireWait → P (s.core.goto a.1 .acquireLdrex))
    (hwakeup : s.core.pc a.1 = .releaseWakeup → P (s.core.goto a.1 .releaseOwner))
    (hstep : ∀ c, mutexStep s.core a = some c → P c) : P s'.core := by
  obtain ⟨fails, -, hp, h1⟩ | ⟨fails, -, hp, rfl⟩ | ⟨-, c, hc, rfl⟩ := pendingStep_cases h
  · rcases waitEvent_core h1 with e | e <;> rw [e]
    · exact hs
    · exact hwait hp
  · rcases wakeup_core (s := s) (t := a.1) with e | e <;> rw [e]
    · exact hs
    · exact hwakeup hp
  · exact hstep c hc

/-! ## Tasks that take no step -/

theorem mutexStep_pc {c c' : MutexState} (h : mutexStep c a = some c') (hu : u ≠ a.1) :
    c'.pc u = c.pc u := by
  have goto (x : MutexState) (p : MutexPc) (hx : x.pc = c.pc) : (x.goto a.1 p).pc u = c.pc u := by
    show update x.pc a.1 p u = _
    rw [update_of_ne hu, hx]
  have call {p : MutexPc} (h : c.call a.1 p = some c') : c'.pc u = c.pc u := by
    unfold MutexState.call at h
    split_ifs at h
    cases h
    exact goto c p rfl
  obtain ⟨t, act⟩ := a
  cases act with
  | acquire => exact call h
  | nowait => exact call h
  | release => exact call h
  | step fails =>
    change c.instr t fails (c.pc t) = some c' at h
    cases hp : c.pc t with
    | idle =>
      rw [hp] at h
      cases h
    | acquire =>
      rw [hp] at h
      change (if c.mutex.initParam = false then some (c.goto t .idle)
        else if c.mutex.ownerId = t then some (c.goto t .idle)
        else some (c.goto t .acquireLdrex)) = some c' at h
      split_ifs at h <;> cases h <;> exact goto _ _ rfl
    | nowait =>
      rw [hp] at h
      change (if c.mutex.initParam = false then some _ else some (c.goto t .nowaitLdrex)) = some c'
        at h
      split_ifs at h <;> cases h <;> exact goto _ _ rfl
    | release =>
      rw [hp] at h
      change (if c.mutex.initParam = false ∨ c.mutex.ownerId ≠ t then some (c.goto t .idle)
        else some (c.goto t .releaseLdrex)) = some c' at h
      split_ifs at h <;> cases h <;> exact goto _ _ rfl
    | releaseStrex =>
      rw [hp] at h
      change (if c.lock.succeeds t fails then some _ else some _) = some c' at h
      split_ifs at h <;> cases h <;> exact goto _ _ rfl
    | _ =>
      rw [hp] at h
      cases h
      exact goto _ _ rfl

theorem pendingStep_pc (h : pendingStep s a = some s') (hu : u ≠ a.1) :
    s'.core.pc u = s.core.pc u := by
  have goto (p : MutexPc) : (s.core.goto a.1 p).pc u = s.core.pc u := by
    show update s.core.pc a.1 p u = _
    rw [update_of_ne hu]
  exact pendingStep_core (P := fun c => c.pc u = s.core.pc u) h rfl (fun _ => goto _)
    (fun _ => goto _) fun c hc => mutexStep_pc hc hu

theorem pendingRun_pc {l : List (TaskId × MutexAction)} (h : run pendingStep s l = some s')
    (hu : ∀ a ∈ l, u ≠ a.1) : s'.core.pc u = s.core.pc u := by
  induction l generalizing s with
  | nil =>
    cases h
    rfl
  | cons a l ih =>
    obtain ⟨s1, h1, h2⟩ := run_cons_some h
    rw [ih h2 fun b hb => hu b (List.mem_cons_of_mem a hb), pendingStep_pc h1 (hu a (by simp))]

end

end SierraTee
