import SierraTee.Lib.Runs
import SierraTee.Kernel.Lists
import SierraTee.Kernel.Schedule

/-!
# The ready list

* `getNextTask_ready`     the next task and the list behind it;
* `readyList_wellFormed`  the ready list stays one in every run in which nothing is queued by
                          `schedule_task_next` that is queued already;
* `wakeup_twice`          a wakeup that makes a cycle of it.
-/

namespace SierraTee
open Rings Runs

section
variable {k k' k'' : Kernel} {ts ts' ts'' : List TaskPtr} {t : TaskPtr} {fuel : Nat}
  {g : GuestConfig} {id : Int}

/-! ## Changes of the ready list -/

/-- the ready list has been changed to the tasks `ts`, and no other list has been changed -/
structure ReadyStep (k k' : Kernel) (ts : List TaskPtr) : Prop where
  ready : ReadyOk k' ts
  others : SameBut .ready k k'

theorem ReadyStep.refl (hr : ReadyOk k ts) : ReadyStep k k ts := ⟨hr, SameBut.refl _ k⟩

theorem ReadyStep.trans (h1 : ReadyStep k k' ts) (h2 : ReadyStep k' k'' ts') :
    ReadyStep k k'' ts' :=
  ⟨h2.ready, h1.others.trans h2.others⟩

theorem ReadyStep.of_eq (hr : ReadyOk k ts) (hl : k'.links = k.links) (hd : k'.data = k.data) :
    ReadyStep k k' ts := by
  refine ⟨hr.congr fun l _ => ?_, SameBut.of_eq hl hd⟩
  unfold SameCell
  rw [hl, hd]
  exact ⟨rfl, rfl, rfl⟩

theorem ReadyStep.tasks (hs : ReadyStep k k' ts) (hl : TasksOk k ts') : TasksOk k' ts' :=
  hs.others.list kindOf_tasks (by decide) hl

theorem readyHead_injective : Link.readyHead.Injective := fun _ _ e => Link.readyHead.inj e

theorem addLink_ready {p : LinkPos} (hr : ReadyOk k ts) (ht : t ∉ ts) :
    ReadyStep k ((k.setLinkData (.readyHead t) t).addLink .readyToRunList (.readyHead t) p)
      (p.place t ts) :=
  ⟨hr.add readyHead_injective (by simp) ht, hr.add_sameBut kindOf_ready t⟩

theorem removeLink_ready {us vs : List TaskPtr} (hr : ReadyOk k (us ++ t :: vs)) :
    ReadyStep k (k.removeLink (.readyHead t)) (us ++ vs) :=
  ⟨hr.remove, hr.remove_sameBut kindOf_ready (by simp)⟩

/-! ## The operations -/

theorem scheduleTaskNext_ready (hr : ReadyOk k ts) (ht : t ∉ ts) :
    ReadyStep k (k.scheduleTaskNext t) (t :: ts) :=
  addLink_ready (p := .head) hr ht

theorem scheduleTask_eq (hr : ReadyOk k ts) (hs : k.scheduleTask fuel t = some k') :
    k' = if k.hasId t ts then k
      else (k.setLinkData (.readyHead t) t).addLink .readyToRunList (.readyHead t) .tail := by
  unfold Kernel.scheduleTask at hs
  obtain ⟨r, hf, hs⟩ := Option.bind_eq_some_iff.mp hs
  rw [← hr.find_id hf]
  cases r with
  | none => exact (Option.some.inj hs).symm
  | some u => exact (Option.some.inj hs).symm

theorem scheduleTask_ready (hr : ReadyOk k ts) (hs : k.scheduleTask fuel t = some k') :
    ReadyStep k k' (if k.hasId t ts then ts else ts ++ [t]) := by
  rw [scheduleTask_eq hr hs]
  cases hi : k.hasId t ts with
  | true => exact ReadyStep.refl hr
  | false =>
    refine addLink_ready (p := .tail) hr fun ht => ?_
    rw [hasId_of_mem ht] at hi
    cases hi

structure OnlyLists (k k' : Kernel) : Prop where
  task : k'.task = k.task
  itemTask : k'.itemTask = k.itemTask
  currentTaskId : k'.currentTaskId = k.currentTaskId
  taskIdPool : k'.taskIdPool = k.taskIdPool
  sleepTimers : k'.sleepTimers = k.sleepTimers
  swiRegs : k'.swiRegs = k.swiRegs
  currentGuest : k'.currentGuest = k.currentGuest

theorem OnlyLists.refl (k : Kernel) : OnlyLists k k := ⟨rfl, rfl, rfl, rfl, rfl, rfl, rfl⟩

theorem scheduleTask_only (hr : ReadyOk k ts) (hs : k.scheduleTask fuel t = some k') :
    OnlyLists k k' := by
  rw [scheduleTask_eq hr hs]
  cases k.hasId t ts with
  | true => exact OnlyLists.refl k
  | false => exact ⟨rfl, rfl, rfl, rfl, rfl, rfl, rfl⟩

/-! ## The next task -/

def Kernel.requeued (k : Kernel) (g : GuestConfig) (ts : List TaskPtr) :
    Option TaskPtr → List TaskPtr
  | none => ts
  | some c => if k.hasId c ts || !k.runnable g c then ts else ts ++ [c]

def Kernel.choose (k : Kernel) (g : GuestConfig) (c : Option TaskPtr) :
    List TaskPtr → Option TaskPtr × List TaskPtr
  | [] => (k.stayWith g c, [])
  | t :: ts =>
    if k.guestOk g t then (some t, k.requeued g ts c) else (none, k.requeued g (t :: ts) c)

theorem OnlyLists.requeued (hs : OnlyLists k k') : k'.requeued g ts = k.requeued g ts := by
  funext c
  cases c with
  | none => rfl
  | some c =>
    unfold Kernel.requeued Kernel.hasId Kernel.runnable Kernel.guestOk
    rw [hs.task, hs.currentGuest]

theorem requeue_ready {c : Option TaskPtr} (hr : ReadyOk k ts) (hs : k.requeue fuel g c = some k') :
    ReadyStep k k' (k.requeued g ts c) ∧ OnlyLists k k' := by
  cases c with
  | none =>
    cases hs
    exact ⟨ReadyStep.refl hr, OnlyLists.refl k⟩
  | some c =>
    obtain ⟨r, hf, hs⟩ := Option.bind_eq_some_iff.mp hs
    have hi := hr.find_id hf
    show ReadyStep k k' (if k.hasId c ts || !k.runnable g c then ts else ts ++ [c]) ∧ _
    cases r with
    | some u =>
      cases hs
      rw [← hi]
      exact ⟨ReadyStep.refl hr, OnlyLists.refl k⟩
    | none =>
      change (if k.runnable g c then k.scheduleTask fuel c else some k) = some k' at hs
      rw [← hi]
      cases hrun : k.runnable g c with
      | false =>
        rw [hrun] at hs
        cases hs
        exact ⟨ReadyStep.refl hr, OnlyLists.refl k⟩
      | true =>
        rw [hrun, if_pos rfl] at hs
        have h1 := scheduleTask_ready hr hs
        rw [← hi] at h1
        exact ⟨h1, scheduleTask_only hr hs⟩

theorem removeLink_only (k : Kernel) (l : Link) : OnlyLists k (k.removeLink l) :=
  ⟨rfl, rfl, rfl, rfl, rfl, rfl, rfl⟩

theorem OnlyLists.trans (h1 : OnlyLists k k') (h2 : OnlyLists k' k'') : OnlyLists k k'' :=
  ⟨h2.task.trans h1.task, h2.itemTask.trans h1.itemTask,
    h2.currentTaskId.trans h1.currentTaskId, h2.taskIdPool.trans h1.taskIdPool,
    h2.sleepTimers.trans h1.sleepTimers, h2.swiRegs.trans h1.swiRegs,
    h2.currentGuest.trans h1.currentGuest⟩

theorem takeFirst_eq (hr : ReadyOk k (t :: ts)) :
    k.takeFirst g (k.links.next .readyToRunList)
      = if k.guestOk g t then some (k.removeLink (.readyHead t), some t) else some (k, none) := by
  have hfirst : k.links.next .readyToRunList = .readyHead t := hr.ring.path.1.1
  unfold Kernel.takeFirst
  rw [hfirst, hr.data t (by simp)]

theorem getNextTask_ready {next : Option TaskPtr} (hr : ReadyOk k ts)
    (hs : k.getNextTask fuel g = some (k', next)) :
    ∃ c, k.getCurrentTask fuel = some c ∧ next = (k.choose g c ts).1 ∧
      ReadyStep k k' (k.choose g c ts).2 ∧ OnlyLists k k' := by
  obtain ⟨c, hc, hs⟩ := Option.bind_eq_some_iff.mp hs
  refine ⟨c, hc, ?_⟩
  have hempty : k.linkEmpty .readyToRunList = true ↔ ts = [] := by
    simp [Kernel.linkEmpty, hr.ring.nil_iff]
  cases ts with
  | nil =>
    rw [if_pos (hempty.mpr rfl)] at hs
    cases hs
    exact ⟨rfl, ReadyStep.refl hr, OnlyLists.refl k⟩
  | cons t ts =>
    rw [if_neg (by rw [hempty]; simp)] at hs
    obtain ⟨⟨k1, n⟩, h1, hs⟩ := Option.bind_eq_some_iff.mp hs
    obtain ⟨k2, h2, hs⟩ := Option.bind_eq_some_iff.mp hs
    cases hs
    rw [takeFirst_eq hr] at h1
    show next = (if k.guestOk g t then _ else _ : Option TaskPtr × List TaskPtr).1 ∧ ReadyStep k k'
      (if k.guestOk g t then (some t, k.requeued g ts c)
        else (none, k.requeued g (t :: ts) c) : Option TaskPtr × List TaskPtr).2 ∧ _
    cases hg : k.guestOk g t with
    | false =>
      rw [hg] at h1
      cases h1
      obtain ⟨h3, h4⟩ := requeue_ready hr h2
      exact ⟨rfl, h3, h4⟩
    | true =>
      rw [hg, if_pos rfl] at h1
      cases h1
      have hr' : ReadyOk k ([] ++ t :: ts) := hr
      have h3 := removeLink_ready hr'
      obtain ⟨h4, h5⟩ := requeue_ready h3.ready h2
      rw [(removeLink_only k _).requeued] at h4
      exact ⟨rfl, h3.trans h4, (removeLink_only k _).trans h5⟩

theorem getNextTask_step {next : Option TaskPtr} (hr : ReadyOk k ts)
    (hs : k.getNextTask fuel g = some (k', next)) : ∃ ts', ReadyStep k k' ts' := by
  obtain ⟨c, -, -, h1, -⟩ := getNextTask_ready hr hs
  exact ⟨_, h1⟩

theorem switch_step {new old next : Option TaskPtr} (hr : ReadyOk k ts) :
    ReadyStep k ((k.setRunning next).taskContextSwitch new old) ts := by
  refine ReadyStep.of_eq hr ?_ ?_ <;>
  · cases next <;> cases new <;> cases old <;> rfl

theorem scheduler_cases (hs : k.scheduler fuel g = some k') : ∃ c k1 next,
    k.getCurrentTask fuel = some c ∧ k.getNextTask fuel g = some (k1, next) ∧
      k' = if c = next then k1 else (k1.setRunning next).taskContextSwitch next c := by
  obtain ⟨c, hc, hs⟩ := Option.bind_eq_some_iff.mp hs
  obtain ⟨⟨k1, next⟩, h1, hs⟩ := Option.bind_eq_some_iff.mp hs
  refine ⟨c, k1, next, hc, h1, ?_⟩
  change (if c = next then some k1 else some ((k1.setRunning next).taskContextSwitch next c))
    = some k' at hs
  split_ifs at hs ⊢
  · exact (Option.some.inj hs).symm
  · exact (Option.some.inj hs).symm

theorem scheduler_step (hr : ReadyOk k ts) (hs : k.scheduler fuel g = some k') :
    ∃ ts', ReadyStep k k' ts' := by
  obtain ⟨c, k1, next, -, h1, rfl⟩ := scheduler_cases hs
  obtain ⟨ts', h2⟩ := getNextTask_step hr h1
  refine ⟨ts', h2.trans ?_⟩
  split_ifs
  · exact ReadyStep.refl h2.ready
  · exact switch_step h2.ready

theorem setState_step (hr : ReadyOk k ts) (t : TaskPtr) (s : TaskState) :
    ReadyStep k (k.setState t s) ts :=
  ReadyStep.of_eq hr rfl rfl

theorem scheduleTaskId_step (hr : ReadyOk k ts) (hs : k.scheduleTaskId fuel id = some k') :
    ∃ ts', ReadyStep k k' ts' := by
  obtain ⟨r, -, hs⟩ := Option.bind_eq_some_iff.mp hs
  cases r with
  | none =>
    cases hs
    exact ⟨ts, ReadyStep.refl hr⟩
  | some t =>
    have h1 := setState_step hr t .readyToRun
    exact ⟨_, h1.trans (scheduleTask_ready h1.ready hs)⟩

theorem suspendTask_step {s : TaskState} (hr : ReadyOk k ts)
    (hs : k.suspendTask fuel id s = some k') : ReadyStep k k' ts := by
  obtain ⟨r, -, hs⟩ := Option.bind_eq_some_iff.mp hs
  cases r with
  | none =>
    cases hs
    exact ReadyStep.refl hr
  | some t =>
    change (if _ then _ else _) = some k' at hs
    split_ifs at hs with hc
    · cases hs
      exact ReadyStep.of_eq hr rfl rfl
    · cases hs
      exact setState_step hr t s

/-! ## Runs -/

def Queued (k : Kernel) (t : TaskPtr) : Prop := OnList k .readyToRunList (.readyHead t)

theorem ListOf.queued_iff (hr : ReadyOk k ts) : Queued k t ↔ t ∈ ts :=
  hr.onList_iff readyHead_injective

def WakesOnce (k : Kernel) (f : Kernel.WakeFlag) (i : Option ItemPtr) : Prop :=
  f = .immediate → ∀ j t, i = some j → k.itemTask j = some t → ¬ Queued k t

/-- nothing is queued by `schedule_task_next` that is queued already -/
def QueuesOnce (s : SchedState) (a : Nat × SchedCall) : Prop :=
  match a.2 with
  | .op (.scheduleTaskNext t) => ¬ Queued s.kernel t
  | .op (.scheduleTaskFunction i f) => WakesOnce s.kernel f (some i)
  | .op _ => True
  | .swWakeup q f => ∀ l, search s.kernel.links (.elementsList q) (fun l => (s.kernel.data l).isSome)
      a.1 (s.kernel.links.next (.elementsList q)) = some l → WakesOnce s.kernel f (l.bind s.kernel.data)
  | .swWakeupAll _ _ => True
  | .goOn c => ∀ x, s.loops[c]? = some x →
      WakesOnce s.kernel x.2.1 (s.kernel.data (s.kernel.links.next x.2.2))

theorem wakeItem_step {f : Kernel.WakeFlag} {i : Option ItemPtr} (hr : ReadyOk k ts)
    (ha : WakesOnce k f i) (hs : k.wakeItem fuel g f i = some k') : ∃ ts', ReadyStep k k' ts' := by
  cases i with
  | none =>
    cases hs
    exact ⟨ts, ReadyStep.refl hr⟩
  | some i =>
    obtain ⟨t, ht, hs⟩ := Option.bind_eq_some_iff.mp hs
    have h1 := setState_step hr t .readyToRun
    cases f with
    | wakeUp => exact ⟨_, h1.trans (scheduleTask_ready h1.ready hs)⟩
    | immediate =>
      have h2 := scheduleTaskNext_ready h1.ready fun hm => ha rfl i t rfl ht (hr.queued_iff.mpr hm)
      obtain ⟨ts', h3⟩ := scheduler_step h2.ready hs
      exact ⟨ts', (h1.trans h2).trans h3⟩

theorem sched_step {s : SchedState} {op : Kernel.SchedOp} {n : Nat} (hr : ReadyOk s.kernel ts)
    (ha : QueuesOnce s (n, .op op)) (hs : s.kernel.sched g (n, op) = some k') :
    ∃ ts', ReadyStep s.kernel k' ts' := by
  cases op with
  | scheduleTask t => exact ⟨_, scheduleTask_ready hr hs⟩
  | scheduleTaskNext t =>
    cases hs
    exact ⟨_, scheduleTaskNext_ready hr fun ht => ha (hr.queued_iff.mpr ht)⟩
  | scheduleTaskId id => exact scheduleTaskId_step hr hs
  | suspendTask id s => exact ⟨ts, suspendTask_step hr hs⟩
  | scheduleTaskFunction i f => exact wakeItem_step hr ha hs
  | getNextTask =>
    obtain ⟨p, hp, rfl⟩ := Option.map_eq_some_iff.mp hs
    exact getNextTask_step hr hp
  | scheduler => exact scheduler_step hr hs

theorem schedCall_step {s s' : SchedState} {a : Nat × SchedCall} (hr : ReadyOk s.kernel ts)
    (ha : QueuesOnce s a) (hs : schedCall g s a = some s') :
    ∃ ts', ReadyStep s.kernel s'.kernel ts' := by
  obtain ⟨n, call⟩ := a
  cases call with
  | op x =>
    obtain ⟨k, h1, rfl⟩ := Option.map_eq_some_iff.mp hs
    exact sched_step hr ha h1
  | swWakeup q f =>
    obtain ⟨k, h1, rfl⟩ := Option.map_eq_some_iff.mp hs
    obtain ⟨l, h2, h3⟩ := Option.bind_eq_some_iff.mp h1
    exact wakeItem_step hr (ha l h2) h3
  | swWakeupAll q f =>
    cases hs
    exact ⟨ts, ReadyStep.refl hr⟩
  | goOn c =>
    obtain ⟨x, hx, hs⟩ := Option.bind_eq_some_iff.mp hs
    dsimp only at hs
    split_ifs at hs
    · cases hs
      exact ⟨ts, ReadyStep.refl hr⟩
    · obtain ⟨k, h1, rfl⟩ := Option.map_eq_some_iff.mp hs
      exact wakeItem_step hr (ha x hx) h1

/-- **The ready list stays well-formed**, each task is in it at most once, and its traversals
end. -/
theorem readyList_wellFormed {s s' : SchedState} {l : List (Nat × SchedCall)}
    (hr : ReadyOk s.kernel ts) (hl : Along (schedCall g) QueuesOnce s l)
    (hrun : run (schedCall g) s l = some s') :
    ∃ ts', ReadyOk s'.kernel ts' ∧ ts'.Nodup ∧ ∀ n, ts'.length < n → ∀ p,
      search s'.kernel.links .readyToRunList p n (s'.kernel.links.next .readyToRunList)
        = some ((ts'.map Link.readyHead).find? p) := by
  obtain ⟨ts', h1⟩ := run_invariant (fun s : SchedState => ∃ ts, ReadyOk s.kernel ts)
    (fun s a s' h ha hs => by
      obtain ⟨ts, h⟩ := h
      obtain ⟨ts', h1⟩ := schedCall_step h ha hs
      exact ⟨ts', h1.ready⟩) ⟨ts, hr⟩ hl hrun
  exact ⟨ts', h1, h1.nodup, fun n hn p => h1.ring.search (by rwa [List.length_map])⟩

end

/-! ## A wakeup of a task that has been woken already -/

theorem newKernel_ready : ReadyOk newKernel [] := by
  refine ⟨⟨⟨rfl, rfl⟩, by simp⟩, fun t ht => ?_⟩
  cases ht

/-- the tasks 1 and 2 wait in the queue 0, with the elements 1 and 2 -/
def waitingKernel : Kernel :=
  let k := { newKernel with itemTask := some }
  [1, 2].foldl (fun k i => (k.setLinkData (.item i) i).addLink (.elementsList 0) (.item i) .tail) k

theorem waitingKernel_ready : ReadyOk waitingKernel [] :=
  ⟨⟨⟨rfl, rfl⟩, by simp⟩, fun _ ht => absurd ht List.not_mem_nil⟩

def queuesLast : SchedCall → Bool
  | .op (.scheduleTaskNext _) | .op (.scheduleTaskFunction _ .immediate) => false
  | .swWakeup _ f | .swWakeupAll _ f => f = .wakeUp
  | _ => true

theorem queuesOnce_of_last {g : GuestConfig} {s : SchedState} {l : List (Nat × SchedCall)}
    (hs : ∀ x ∈ s.loops, x.2.1 = .wakeUp) (hl : ∀ a ∈ l, queuesLast a.2) :
    Along (schedCall g) QueuesOnce s l := by
  have hlazy (k : Kernel) (i : Option ItemPtr) : WakesOnce k .wakeUp i :=
    fun h => absurd h (by decide)
  induction l generalizing s with
  | nil => trivial
  | cons a l ih =>
    obtain ⟨n, call⟩ := a
    obtain ⟨ha, hl⟩ := List.forall_mem_cons.mp hl
    have hkeep : ∀ s', schedCall g s (n, call) = some s' → ∀ x ∈ s'.loops, x.2.1 = .wakeUp := by
      intro s' h
      cases call with
      | op x =>
        obtain ⟨k, -, rfl⟩ := Option.map_eq_some_iff.mp h
        exact hs
      | swWakeup q f =>
        obtain ⟨k, -, rfl⟩ := Option.map_eq_some_iff.mp h
        exact hs
      | swWakeupAll q f =>
        cases h
        exact List.forall_mem_append.mpr ⟨hs, List.forall_mem_singleton.mpr (of_decide_eq_true ha)⟩
      | goOn c =>
        obtain ⟨x, hx, h⟩ := Option.bind_eq_some_iff.mp h
        dsimp only at h
        split_ifs at h
        · cases h
          exact fun y hy => hs y (List.mem_of_mem_eraseIdx hy)
        · obtain ⟨k, -, rfl⟩ := Option.map_eq_some_iff.mp h
          intro y hy
          obtain hy | rfl := List.mem_or_eq_of_mem_set hy
          · exact hs y hy
          · exact hs x (List.mem_of_getElem? hx)
    refine ⟨?_, ?_⟩
    · cases call with
      | op x =>
        cases x with
        | scheduleTaskNext t => cases ha
        | scheduleTaskFunction i f =>
          cases f with
          | wakeUp => exact hlazy _ _
          | immediate => cases ha
        | _ => trivial
      | swWakeup q f =>
        intro l _
        rw [of_decide_eq_true ha]
        exact hlazy _ _
      | swWakeupAll q f => trivial
      | goOn c =>
        intro x hx
        rw [hs x (List.mem_of_getElem? hx)]
        exact hlazy _ _
    · cases h : schedCall g s (n, call) with
      | none => trivial
      | some s' => exact ih (hkeep s' h) hl

/-- both are woken, task 3 is queued in between, and the first of them is taken out -/
def wakeBoth : List (Nat × SchedCall) :=
  [(3, .swWakeupAll 0 .wakeUp), (3, .goOn 0), (3, .op (.scheduleTask 3)), (4, .goOn 0), (4, .goOn 0),
    (4, .op .getNextTask)]

theorem readyList_wellFormed_both :
    ∃ s', run (schedCall ⟨false⟩) ⟨waitingKernel, []⟩ wakeBoth = some s' ∧
    s'.loops = [] ∧ ∃ ts', ReadyOk s'.kernel ts' ∧ ts'.Nodup ∧ s'.kernel.links.next .readyToRunList
      = .readyHead 3 ∧ s'.kernel.links.next (.readyHead 3) = .readyHead 2 := by
  have h1 : (run (schedCall ⟨false⟩) ⟨waitingKernel, []⟩ wakeBoth).map (fun s => (s.loops,
      s.kernel.links.next .readyToRunList, s.kernel.links.next (.readyHead 3)))
      = some ([], .readyHead 3, .readyHead 2) := by decide
  obtain ⟨s', hs, h2⟩ := Option.map_eq_some_iff.mp h1
  obtain ⟨h3, h4⟩ := Prod.mk.inj h2
  obtain ⟨h5, h6⟩ := Prod.mk.inj h4
  obtain ⟨ts', h7, h8, -⟩ := readyList_wellFormed waitingKernel_ready
    (queuesOnce_of_last (fun _ h => absurd h List.not_mem_nil) (by decide)) hs
  exact ⟨s', hs, h3, ts', h7, h8, h5, h6⟩

theorem wakeup_twice : ReadyOk waitingKernel [] ∧ ∃ s', run (schedCall ⟨false⟩) ⟨waitingKernel, []⟩
    [(1, .swWakeup 0 .wakeUp), (9, .swWakeup 0 .immediate)] = some s' ∧
      ∀ ts', ¬ ReadyOk s'.kernel ts' := by
  refine ⟨waitingKernel_ready, ?_⟩
  have h : ((run (schedCall ⟨false⟩) ⟨waitingKernel, []⟩
      [(1, .swWakeup 0 .wakeUp), (9, .swWakeup 0 .immediate)]).map
        fun s => (s.kernel.links.next .readyToRunList, s.kernel.links.next (.readyHead 1)))
      = some (.readyHead 1, .poisonNext) := by decide
  obtain ⟨s', hs, h1⟩ := Option.map_eq_some_iff.mp h
  obtain ⟨h2, h3⟩ := Prod.mk.inj h1
  refine ⟨s', hs, fun ts' hr => ?_⟩
  have hring := hr.ring
  have h4 : Link.readyHead 1 ∈ ts'.map Link.readyHead := by
    have h5 := hring.next_mem
    rw [h2] at h5
    simpa using h5
  have h5 := kindOf_ready.mem (hring.neighbours h4).1
  rw [h3] at h5
  cases h5

end SierraTee
