import SierraTee.Kernel.Kept

/-!
# The running task

* `running_current`    the running task is the current one, in every run without a switch from a
                       task that goes on;
* `preempted_running`  two tasks that run.
-/

namespace SierraTee
open Rings Runs

/-- the running task is the current one, and what is ready to run is queued -/
structure RunningOk (k : Kernel) (all ts : List TaskPtr) : Prop where
  ok : KernelOk k all ts
  running : ∀ t ∈ all, (k.task t).state = .running ↔ ((k.task t).taskId : Int) = k.currentTaskId
  ready : ∀ t ∈ all, (k.task t).state = .readyToRun → t ∈ ts

/-! ## Operations that keep it -/

def NoSwitch (g : GuestConfig) (k : Kernel) : Prop :=
  ∀ u t, Live k u → IsCurrent k u → k.links.next .readyToRunList = .readyHead t →
    k.guestOk g t → t = u

/-- not a switch from a task that goes on -/
def KeepsRunning (g : GuestConfig) (k : Kernel) (a : Nat × Kernel.KernelOp) : Prop :=
  match a.2 with
  | .scheduleTask t => Live k t
  | .scheduleTaskId id => ∀ t, Live k t → ((k.task t).taskId : Int) = id → ¬ IsCurrent k t
  | .suspendTask id s => ∀ t, Live k t → ((k.task t).taskId : Int) = id →
      if IsCurrent k t then s = .suspend ∨ s = .running
      else s ≠ .running ∧ (s = .readyToRun → Queued k t)
  | .scheduleTaskFunction i f => ∀ t, k.itemTask i = some t → Live k t ∧ ¬ IsCurrent k t ∧
      (f = .immediate → ¬ Queued k t ∧ NoSwitch g ((k.setState t .readyToRun).scheduleTaskNext t))
  | .getNextTask => ∀ t, k.links.next .readyToRunList = .readyHead t → k.guestOk g t →
      (k.task t).state ≠ .readyToRun
  | .scheduler => NoSwitch g k
  | .startTask _ _ => True
  | .destroyTask id => ∀ t, Live k t → ((k.task t).taskId : Int) = id → OneWaiter k t

section
variable {k k' k'' : Kernel} {all ts ts' : List TaskPtr} {t : TaskPtr} {fuel : Nat}
  {g : GuestConfig} {id : Int}

/-- **What the operations on lists keep**: the states are as they were. -/
theorem RunningOk.only (hk : RunningOk k all ts) (hk' : KernelOk k' all ts')
    (ho : OnlyLists k k') (h : ∀ t ∈ all, (k.task t).state = .readyToRun → t ∈ ts → t ∈ ts') :
    RunningOk k' all ts' := by
  refine ⟨hk', fun t ht => ?_, fun t ht hr => ?_⟩
  · rw [ho.task, ho.currentTaskId]
    exact hk.running t ht
  · rw [ho.task] at hr
    exact h t ht hr (hk.ready t ht hr)

theorem RunningOk.setTask {x : SwTask} (hk : RunningOk k all ts) (t : TaskPtr)
    (hx : x.taskId = (k.task t).taskId) (hst : x.state = (k.task t).state) :
    RunningOk (k.setTask t x) all ts := by
  have h1 (u : TaskPtr) : ((k.setTask t x).task u).state = (k.task u).state := by
    rw [Kernel.setTask_task]
    split_ifs with h
    · rw [hst, h]
    · rfl
  have h2 (u : TaskPtr) : ((k.setTask t x).task u).taskId = (k.task u).taskId := by
    rw [Kernel.setTask_task]
    split_ifs with h
    · rw [hx, h]
    · rfl
  refine ⟨hk.ok.setTask t hx, fun u hu => ?_, fun u hu hr => ?_⟩
  · rw [h1, h2]
    exact hk.running u hu
  · rw [h1] at hr
    exact hk.ready u hu hr

theorem RunningOk.scheduleTask (hk : RunningOk k all ts) (ht : t ∈ all)
    (hs : k.scheduleTask fuel t = some k') : ∃ ts', RunningOk k' all ts' := by
  obtain ⟨ts', h1, h2, -, h3⟩ := scheduleTask_mem hk.ok ht hs
  exact ⟨ts', hk.only h1 h2 fun u _ _ hu => h3 u hu⟩

theorem RunningOk.woken (hk : RunningOk k all ts) (hc : ¬ IsCurrent k t)
    (hk' : KernelOk k' all ts') (ho : OnlyLists (k.setState t .readyToRun) k') (hm : t ∈ ts')
    (hsub : ∀ u ∈ ts, u ∈ ts') : RunningOk k' all ts' := by
  refine ⟨hk', fun u hu => ?_, fun u hu hr => ?_⟩
  · rw [ho.task, ho.currentTaskId, Kernel.setState_state, Kernel.setState_taskId]
    split_ifs with h
    · rw [h]
      exact ⟨fun e => absurd e (by decide), fun e => absurd e hc⟩
    · exact hk.running u hu
  · rw [ho.task, Kernel.setState_state] at hr
    split_ifs at hr with h
    · rwa [h]
    · exact hsub u (hk.ready u hu hr)

theorem RunningOk.wakeUp (hk : RunningOk k all ts) (ht : t ∈ all) (hc : ¬ IsCurrent k t)
    (hs : (k.setState t .readyToRun).scheduleTask fuel t = some k') :
    ∃ ts', RunningOk k' all ts' := by
  have h0 := hk.ok.setTask (x := { k.task t with state := .readyToRun }) t rfl
  obtain ⟨ts', h1, h2, h3, h4⟩ := scheduleTask_mem h0 ht hs
  exact ⟨ts', hk.woken hc h1 h2 h3 h4⟩

theorem RunningOk.wakeNext (hk : RunningOk k all ts) (ht : t ∈ all) (hc : ¬ IsCurrent k t)
    (hq : t ∉ ts) : RunningOk ((k.setState t .readyToRun).scheduleTaskNext t) all (t :: ts) := by
  have h1 := hk.ok.setTask (x := { k.task t with state := .readyToRun }) t rfl
  refine hk.woken hc (h1.step (scheduleTaskNext_ready h1.ready hq) (fun _ => rfl) fun u hu => ?_)
    ⟨rfl, rfl, rfl, rfl, rfl, rfl, rfl⟩ (by simp) fun u hu => List.mem_cons_of_mem _ hu
  obtain rfl | hu := List.mem_cons.mp hu
  · exact ht
  · exact hk.ok.listed u hu

theorem RunningOk.suspendTask {s : TaskState} (hk : RunningOk k all ts)
    (ha : ∀ t, Live k t → ((k.task t).taskId : Int) = id →
      if IsCurrent k t then s = .suspend ∨ s = .running
      else s ≠ .running ∧ (s = .readyToRun → Queued k t))
    (hs : k.suspendTask fuel id s = some k') : RunningOk k' all ts := by
  have h1 := suspendTask_step hk.ok.ready hs
  obtain ⟨r, hf, hs⟩ := Option.bind_eq_some_iff.mp hs
  cases r with
  | none =>
    cases hs
    exact hk
  | some t =>
    obtain ⟨ht, hid⟩ := (hk.ok.getTask hf).1 t rfl
    have h2 := ha t (hk.ok.live_iff.mpr ht) hid
    have hother (u : TaskPtr) (hu : u ∈ all) (hne : u ≠ t) : ((k.task u).taskId : Int) ≠ id :=
      fun e => hne (hk.ok.ids u hu t ht (Int.ofNat.inj (e.trans hid.symm)))
    change (if k.currentTaskId = id ∧ s = .suspend
      then some { k.setState t s with currentTaskId := -1 } else some (k.setState t s)) = some k' at hs
    by_cases hc : IsCurrent k t
    · have hcur : k.currentTaskId = id := hc.symm.trans hid
      rw [if_pos hc] at h2
      obtain rfl | rfl := h2
      · rw [if_pos ⟨hcur, rfl⟩] at hs
        cases hs
        refine ⟨hk.ok.step h1 (fun u => Kernel.setState_taskId ..) hk.ok.listed, fun u hu => ?_,
          fun u hu hr => ?_⟩
        · show ((k.setState t _).task u).state = _ ↔ (((k.setState t _).task u).taskId : Int) = -1
          rw [Kernel.setState_state]
          refine ⟨fun e => ?_, fun e => by omega⟩
          split_ifs at e with h
          exact absurd (((hk.running u hu).mp e).trans hcur) (hother u hu h)
        · change ((k.setState t _).task u).state = _ at hr
          rw [Kernel.setState_state] at hr
          split_ifs at hr
          exact hk.ready u hu hr
      · rw [if_neg (by simp)] at hs
        cases hs
        refine ⟨hk.ok.step h1 (fun u => Kernel.setState_taskId ..) hk.ok.listed, fun u hu => ?_,
          fun u hu hr => ?_⟩
        · rw [Kernel.setState_state, Kernel.setState_taskId]
          split_ifs with h
          · rw [h]
            exact ⟨fun _ => hc, fun _ => rfl⟩
          · exact hk.running u hu
        · rw [Kernel.setState_state] at hr
          split_ifs at hr
          exact hk.ready u hu hr
    · rw [if_neg hc] at h2
      rw [if_neg fun e => hc (hid.trans e.1.symm)] at hs
      cases hs
      refine ⟨hk.ok.step h1 (fun u => Kernel.setState_taskId ..) hk.ok.listed, fun u hu => ?_,
        fun u hu hr => ?_⟩
      · rw [Kernel.setState_state, Kernel.setState_taskId]
        split_ifs with h
        · rw [h]
          exact ⟨fun e => absurd e h2.1, fun e => absurd e hc⟩
        · exact hk.running u hu
      · rw [Kernel.setState_state] at hr
        split_ifs at hr with h
        · rw [h]
          exact hk.ok.ready.queued_iff.mp (h2.2 hr)
        · exact hk.ready u hu hr

/-! ## The scheduler -/

theorem RunningOk.getNextTask {next : Option TaskPtr} (hk : RunningOk k all ts)
    (ha : ∀ t, k.links.next .readyToRunList = .readyHead t → k.guestOk g t →
      (k.task t).state ≠ .readyToRun)
    (hs : k.getNextTask fuel g = some (k', next)) : ∃ ts', RunningOk k' all ts' := by
  obtain ⟨c, ts', -, h1, h2, -, h3, -⟩ := getNextTask_cases hk.ok hs
  refine ⟨ts', hk.only h1 h2 fun u _ hr hu => ?_⟩
  obtain h | ⟨-, h4, h5⟩ := h3 u hu
  · exact h
  · exact absurd hr (ha u h4 h5)

theorem RunningOk.run (hk' : KernelOk k' all ts') (ho : OnlyLists k k')
    (hk : RunningOk k all ts) (hn : ∀ u ∈ all, ¬ IsCurrent k u) (ht : t ∈ all)
    (hsub : ∀ u ∈ ts, u ∈ ts' ∨ u = t) :
    RunningOk ((k'.setRunning (some t)).taskContextSwitch (some t) none) all ts' := by
  refine ⟨hk'.step (ReadyStep.of_eq hk'.ready rfl rfl) (fun u => Kernel.setState_taskId ..)
    hk'.listed, fun u hu => ?_, fun u hu hr => ?_⟩
  · show ((k'.setState t _).task u).state = _ ↔
      (((k'.setState t _).task u).taskId : Int) = (k'.task t).taskId
    rw [Kernel.setState_state, Kernel.setState_taskId, ho.task]
    split_ifs with h
    · rw [h]
      exact ⟨fun _ => rfl, fun _ => rfl⟩
    · refine ⟨fun e => absurd ((hk.running u hu).mp e) (hn u hu), fun e => absurd ?_ h⟩
      exact hk.ok.ids u hu t ht (Int.ofNat.inj e)
  · change ((k'.setState t _).task u).state = _ at hr
    rw [Kernel.setState_state, ho.task] at hr
    split_ifs at hr with h
    exact (hsub u (hk.ready u hu hr)).resolve_right h

theorem RunningOk.scheduler (hk : RunningOk k all ts) (ha : NoSwitch g k)
    (hs : k.scheduler fuel g = some k') : ∃ ts', RunningOk k' all ts' := by
  obtain ⟨c, k1, next, hc, h1, rfl⟩ := scheduler_cases hs
  obtain ⟨c', ts', hc', h2, h3, h4, h5, -⟩ := getNextTask_cases hk.ok h1
  rw [hc] at hc'
  cases hc'
  have hcur := hk.ok.getTask hc
  have hkeep (hne : ∀ t, next = some t → c = some t) : RunningOk k1 all ts' := by
    refine hk.only h2 h3 fun u hu hr hm => (h5 u hm).resolve_right fun h => ?_
    have h6 := (hcur.1 u (hne u h.1)).2
    rw [(hk.running u hu).mpr h6] at hr
    cases hr
  by_cases e : c = next
  · rw [if_pos e]
    exact ⟨ts', hkeep fun t ht => e.trans ht⟩
  · rw [if_neg e]
    cases next with
    | none =>
      have h6 := hkeep fun t ht => by cases ht
      cases c with
      | none => exact ⟨ts', h6⟩
      | some u =>
        exact ⟨ts', h6.setTask u rfl rfl⟩
    | some t =>
      obtain h6 | h6 | ⟨t', h6, ht, hfirst, hg⟩ := h4
      · cases h6
      · exact absurd h6.symm e
      · cases h6
        cases c with
        | none =>
          refine ⟨ts', RunningOk.run h2 h3 hk (hcur.2 rfl) ht fun u hu => ?_⟩
          exact (h5 u hu).imp_right fun h => (Option.some.inj h.1).symm
        | some u =>
          obtain ⟨hu, hid⟩ := hcur.1 u rfl
          exact absurd (congrArg some (ha u t (hk.ok.live_iff.mpr hu) hid hfirst hg).symm) e

/-! ## Start and end -/

theorem RunningOk.startTask {params : Option (Nat → Nat)} (hk : RunningOk k all ts)
    (hs : k.startTask fuel id params = some k') : ∃ ts', RunningOk k' all ts' := by
  obtain ⟨r, hf, hs⟩ := Option.bind_eq_some_iff.mp hs
  cases r with
  | none =>
    cases hs
    exact ⟨ts, hk⟩
  | some t =>
    have h1 := hk.setTask (x := (k.task t).start params) t rfl rfl
    exact h1.scheduleTask ((hk.ok.getTask hf).1 t rfl).1 hs

theorem RunningOk.destroyTask (hk : RunningOk k all ts)
    (ha : ∀ t, Live k t → ((k.task t).taskId : Int) = id → OneWaiter k t)
    (hs : k.destroyTask fuel id = some k') : ∃ all' ts', RunningOk k' all' ts' := by
  obtain ⟨r, hf, -⟩ := Option.bind_eq_some_iff.mp hs
  cases r with
  | none =>
    have h1 : k.destroyTask fuel id = some k := Option.bind_eq_some_iff.mpr ⟨none, hf, rfl⟩
    cases h1.symm.trans hs
    exact ⟨all, ts, hk⟩
  | some t =>
    obtain ⟨ht, hid⟩ := (hk.ok.getTask hf).1 t rfl
    obtain ⟨ow, hw, how⟩ := ha t (hk.ok.live_iff.mpr ht) hid
    obtain ⟨h1, h2⟩ := destroyTask_ok hk.ok ht hid hw (hk.ok.waiter how) hs
    have hne (u : TaskPtr) (hu : u ∈ all.erase t) : u ≠ t ∧ u ∈ all :=
      (List.Nodup.mem_erase_iff hk.ok.tasks.nodup).mp hu
    refine ⟨_, _, h1, fun u hu => ?_, fun u hu hr => ?_⟩
    · rw [h2.task u (hne u hu).1, h2.currentTaskId]
      exact hk.running u (hne u hu).2
    · rw [h2.task u (hne u hu).1] at hr
      refine List.mem_append_right _ ((List.mem_erase_of_ne (hne u hu).1).mpr ?_)
      exact hk.ready u (hne u hu).2 hr

/-! ## Runs -/

theorem RunningOk.step {a : Nat × Kernel.KernelOp} (hk : RunningOk k all ts)
    (ha : KeepsRunning g k a) (hs : k.step g a = some k') : ∃ all' ts', RunningOk k' all' ts' := by
  obtain ⟨n, op⟩ := a
  have same (h : ∃ ts', RunningOk k' all ts') : ∃ all' ts', RunningOk k' all' ts' := ⟨all, h⟩
  cases op with
  | scheduleTask t => exact same (hk.scheduleTask (hk.ok.live_iff.mp ha) hs)
  | scheduleTaskId id =>
    obtain ⟨r, hf, hs⟩ := Option.bind_eq_some_iff.mp hs
    cases r with
    | none =>
      cases hs
      exact ⟨all, ts, hk⟩
    | some t =>
      obtain ⟨ht, hid⟩ := (hk.ok.getTask hf).1 t rfl
      exact same (hk.wakeUp ht (ha t (hk.ok.live_iff.mpr ht) hid) hs)
  | suspendTask id s => exact ⟨all, ts, hk.suspendTask ha hs⟩
  | scheduleTaskFunction i f =>
    obtain ⟨t, ht, hs⟩ := Option.bind_eq_some_iff.mp hs
    obtain ⟨hl, hc, himm⟩ := ha t ht
    have hm := hk.ok.live_iff.mp hl
    cases f with
    | wakeUp => exact same (hk.wakeUp hm hc hs)
    | immediate =>
      obtain ⟨hq, hno⟩ := himm rfl
      have h1 := hk.wakeNext hm hc fun h => hq (hk.ok.ready.queued_iff.mpr h)
      exact same (h1.scheduler hno hs)
  | getNextTask =>
    obtain ⟨p, hp, rfl⟩ := Option.map_eq_some_iff.mp hs
    exact same (hk.getNextTask ha hp)
  | scheduler => exact same (hk.scheduler ha hs)
  | startTask id params => exact same (hk.startTask hs)
  | destroyTask id => exact hk.destroyTask ha hs

/-- **At most one task runs, and it is the current one**, in every run without a switch from a
task that goes on. -/
theorem running_current {l : List (Nat × Kernel.KernelOp)} (hk : RunningOk k all ts)
    (hl : Along (Kernel.step g) (KeepsRunning g) k l) (hrun : run (Kernel.step g) k l = some k') :
    ∃ all' ts', RunningOk k' all' ts' :=
  run_invariant (fun k => ∃ all ts, RunningOk k all ts)
    (fun k a k' h ha hs => by
      obtain ⟨all, ts, h⟩ := h
      exact h.step ha hs) ⟨all, ts, hk⟩ hl hrun

end

/-! ## A switch from a task that goes on -/

theorem twoTasks_running : RunningOk twoTasks [1, 2] [2] where
  ok := twoTasks_ok
  running := by decide
  ready := by decide

theorem running_current_suspend : ∃ k', run (Kernel.step ⟨false⟩) twoTasks
    [(3, .suspendTask 1 .suspend), (3, .scheduler)] = some k' ∧
      ∃ all' ts', RunningOk k' all' ts' := by
  have h1 : twoTasks.step ⟨false⟩ (3, .suspendTask 1 .suspend)
      = some { twoTasks.setState 1 .suspend with currentTaskId := -1 } := rfl
  have h2 : (run (Kernel.step ⟨false⟩) twoTasks
      [(3, .suspendTask 1 .suspend), (3, .scheduler)]).isSome := by decide
  obtain ⟨k', hk⟩ := Option.isSome_iff_exists.mp h2
  refine ⟨k', hk, running_current twoTasks_running (along_of_step ?_ h1 (along_singleton ?_)) hk⟩
  · intro t ht hid
    have h3 : t = 1 := twoTasks_ok.ids t (twoTasks_ok.live_iff.mp ht) 1 (by simp) (Int.ofNat.inj hid)
    rw [h3, if_pos (by decide)]
    exact Or.inl rfl
  · intro u t _ hc
    have h3 : (((twoTasks.setState 1 .suspend).task u).taskId : Int) = -1 := hc
    omega

/-- task 1 is switched from while it can go on, and it is still running in the ready list -/
theorem preempted_running : RunningOk twoTasks [1, 2] [2] ∧ ∃ k',
    run (Kernel.step ⟨false⟩) twoTasks [(3, .scheduler)] = some k' ∧
      ¬ ∃ all' ts', RunningOk k' all' ts' := by
  refine ⟨twoTasks_running, ?_⟩
  have h : ((run (Kernel.step ⟨false⟩) twoTasks [(3, .scheduler)]).map fun k =>
      ((k.task 1).state, (k.task 1).taskId, k.currentTaskId,
        search k.links .taskList (fun x => x = .head 1) 2 (k.links.next .taskList)))
      = some (.running, 1, 2, some (some (.head 1))) := by decide
  obtain ⟨k', hk, h1⟩ := Option.map_eq_some_iff.mp h
  simp only [Prod.mk.injEq] at h1
  obtain ⟨hstate, hid, hcur, hlive⟩ := h1
  refine ⟨k', hk, ?_⟩
  rintro ⟨all', ts', hr⟩
  have h2 := (hr.running 1 (hr.ok.live_iff.mp ⟨2, hlive⟩)).mp hstate
  rw [hid, hcur] at h2
  exact absurd h2 (by decide)

end SierraTee
