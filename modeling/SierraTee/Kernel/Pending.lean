import Mathlib.Data.List.Nodup

/-!
# Waiting in a queue (`sw_wait.h`, `sw_wait.c`)

A task has one notification element at a time, so the queue holds the tasks.  The freed element
of a task is not modelled.
-/

namespace SierraTee
open Function

/-- `struct task_pending_queue`, with the state of the tasks that wait in it -/
structure TaskPendingQueue (A : Type*) where
  elementsList : List A
  waiting : A → Bool

inductive WaitPoint where
  /-- the first test of the condition -/
  | test
  /-- `sw_malloc_private` -/
  | alloc
  /-- the test in the loop -/
  | check
  /-- `sw_atomic_queue_add_and_state` -/
  | add
  /-- `schedule` -/
  | sleep
  /-- `sw_wait_done` -/
  | done
  deriving DecidableEq

namespace TaskPendingQueue
variable {A : Type*} [DecidableEq A] (q : TaskPendingQueue A) (t u : A)

/-- `sw_atomic_queue_add_and_state` with `TASK_STATE_WAIT` -/
def swAtomicQueueAddAndState : TaskPendingQueue A where
  elementsList := if t ∈ q.elementsList then q.elementsList else q.elementsList ++ [t]
  waiting := update q.waiting t true

def swWaitDone : TaskPendingQueue A := { q with elementsList := q.elementsList.erase t }

def scheduleTaskFunction : TaskPendingQueue A :=
  { q with waiting := update q.waiting t false }

def empty : TaskPendingQueue A := ⟨[], fun _ => false⟩

theorem mem_add : u ∈ (q.swAtomicQueueAddAndState t).elementsList ↔ u ∈ q.elementsList ∨ u = t := by
  show u ∈ (if t ∈ q.elementsList then q.elementsList else q.elementsList ++ [t]) ↔ _
  split_ifs with h
  · refine ⟨Or.inl, fun h1 => h1.elim id ?_⟩
    rintro rfl
    exact h
  · rw [List.mem_append, List.mem_singleton]

theorem mem_done (h : u ∈ q.elementsList) (hne : u ≠ t) : u ∈ (q.swWaitDone t).elementsList :=
  (List.mem_erase_of_ne hne).mpr h

end TaskPendingQueue

section
variable {A : Type*} [DecidableEq A]

/-- one step of `sw_wait_event` by task `t`: the queue, and the next point in the macro or `none`
behind it.  `cond` is the value of the condition, and `fails` is for the allocation. -/
def swWaitEvent (q : TaskPendingQueue A) (t : A) (cond fails : Bool) :
    WaitPoint → Option (TaskPendingQueue A × Option WaitPoint)
  | .test => some (q, if cond then none else some .alloc)
  | .alloc => some (q, if fails then none else some .check)
  | .check => some (q, some (if cond then .done else .add))
  | .add => some (q.swAtomicQueueAddAndState t, some .sleep)
  | .sleep => if q.waiting t then none else some (q, some .check)
  | .done => some (q.swWaitDone t, none)

/-! ## The elements of the queue -/

def WaitPoint.linked : WaitPoint → Bool
  | .test | .alloc => false
  | _ => true

structure QueueOk (q : TaskPendingQueue A) (place : A → Option WaitPoint) : Prop where
  nodup : q.elementsList.Nodup
  linked : ∀ f ∈ q.elementsList, ∃ w, place f = some w ∧ w.linked = true
  member : ∀ t, place t = some .sleep → t ∈ q.elementsList

variable {q : TaskPendingQueue A} {place : A → Option WaitPoint} {t : A} {x : Option WaitPoint}

theorem QueueOk.goto (h : QueueOk q place)
    (hx : t ∉ q.elementsList ∨ ∃ w, x = some w ∧ w.linked = true) (hs : x ≠ some .sleep) :
    QueueOk q (update place t x) := by
  refine ⟨h.nodup, fun f hf => ?_, fun u hu => ?_⟩
  · by_cases e : f = t
    · rw [e, update_self]
      exact hx.resolve_left fun hc => hc (e ▸ hf)
    · rw [update_of_ne e]
      exact h.linked f hf
  · by_cases e : u = t
    · rw [e, update_self] at hu
      exact absurd hu hs
    · rw [update_of_ne e] at hu
      exact h.member u hu

omit [DecidableEq A] in
theorem QueueOk.not_linked (h : QueueOk q place) (hp : ∀ w, place t = some w → w.linked = false) :
    t ∉ q.elementsList := by
  intro ht
  obtain ⟨w, h1, h2⟩ := h.linked t ht
  rw [hp w h1] at h2
  cases h2

theorem QueueOk.schedule (h : QueueOk q place) (f : A) : QueueOk (q.scheduleTaskFunction f) place :=
  ⟨h.nodup, h.linked, h.member⟩

theorem QueueOk.add (h : QueueOk q place) (t : A) :
    QueueOk (q.swAtomicQueueAddAndState t) (update place t (some .sleep)) := by
  refine ⟨?_, fun f hf => ?_, fun u hu => ?_⟩
  · show (if t ∈ q.elementsList then q.elementsList else q.elementsList ++ [t]).Nodup
    split_ifs with ht
    · exact h.nodup
    · exact List.nodup_append'.mpr ⟨h.nodup, List.nodup_singleton t,
        List.disjoint_singleton.mpr ht⟩
  · by_cases e : f = t
    · rw [e, update_self]
      exact ⟨.sleep, rfl, rfl⟩
    · rw [update_of_ne e]
      exact h.linked f (((TaskPendingQueue.mem_add q t f).mp hf).resolve_right e)
  · refine (TaskPendingQueue.mem_add q t u).mpr ?_
    by_cases e : u = t
    · exact Or.inr e
    · rw [update_of_ne e] at hu
      exact Or.inl (h.member u hu)

theorem QueueOk.done (h : QueueOk q place) (t : A) :
    QueueOk (q.swWaitDone t) (update place t none) := by
  refine ⟨h.nodup.erase t, fun f hf => ?_, fun u hu => ?_⟩
  · obtain ⟨e, hf'⟩ := h.nodup.mem_erase_iff.mp hf
    rw [update_of_ne e]
    exact h.linked f hf'
  · by_cases e : u = t
    · rw [e, update_self] at hu
      cases hu
    · rw [update_of_ne e] at hu
      exact TaskPendingQueue.mem_done q t u (h.member u hu) e

theorem QueueOk.wait (h : QueueOk q place) {w : WaitPoint} {cond fails : Bool}
    {r : TaskPendingQueue A × Option WaitPoint} (hw : place t = some w)
    (hr : swWaitEvent q t cond fails w = some r) : QueueOk r.1 (update place t r.2) := by
  have fresh (hl : w.linked = false) : t ∉ q.elementsList := by
    refine h.not_linked fun w' h1 => ?_
    rw [hw] at h1
    cases h1
    exact hl
  cases w with
  | test =>
    cases hr
    refine h.goto (Or.inl (fresh rfl)) fun e => ?_
    cases cond <;> cases e
  | alloc =>
    cases hr
    refine h.goto (Or.inl (fresh rfl)) fun e => ?_
    cases fails <;> cases e
  | check =>
    cases hr
    refine h.goto (Or.inr ?_) fun e => ?_
    · cases cond
      · exact ⟨.add, rfl, rfl⟩
      · exact ⟨.done, rfl, rfl⟩
    · cases cond <;> cases e
  | add =>
    cases hr
    exact h.add t
  | sleep =>
    change (if q.waiting t then none else some (q, some .check)) = some r at hr
    split_ifs at hr
    cases hr
    exact h.goto (Or.inr ⟨.check, rfl, rfl⟩) fun e => by cases e
  | done =>
    cases hr
    exact h.done t

theorem swWaitEvent_waiting {w : WaitPoint} {cond fails : Bool}
    {r : TaskPendingQueue A × Option WaitPoint} (hr : swWaitEvent q t cond fails w = some r) :
    (∀ u, u ≠ t → r.1.waiting u = q.waiting u) ∧ (r.2 = some .sleep → w = .add) := by
  cases w with
  | test =>
    cases hr
    refine ⟨fun _ _ => rfl, fun e => ?_⟩
    cases cond <;> cases e
  | alloc =>
    cases hr
    refine ⟨fun _ _ => rfl, fun e => ?_⟩
    cases fails <;> cases e
  | check =>
    cases hr
    refine ⟨fun _ _ => rfl, fun e => ?_⟩
    cases cond <;> cases e
  | add =>
    cases hr
    refine ⟨fun u hu => ?_, fun _ => rfl⟩
    show update q.waiting t true u = _
    rw [update_of_ne hu]
  | sleep =>
    change (if q.waiting t then none else some (q, some .check)) = some r at hr
    split_ifs at hr
    cases hr
    exact ⟨fun _ _ => rfl, fun e => by cases e⟩
  | done =>
    cases hr
    exact ⟨fun _ _ => rfl, fun e => by cases e⟩

end

end SierraTee
