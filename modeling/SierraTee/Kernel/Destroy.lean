import SierraTee.Kernel.Kept

/-!
# What a destroyed task leaves behind

* `destroyed_noTrace`  when no list has it any more;
* `destroyed_sleeper`  a timer that outlives its task.
-/

namespace SierraTee
open Function Rings Runs

/-! ## Lists that are not lists of tasks -/

def ListKind.outer : ListKind → Bool
  | .wait _ | .queues => true
  | .tasks | .ready | .poison => false

def Closed (k : Kernel) : Prop := ∀ l : Link, l.kind.outer →
  (k.links.next l).kind = l.kind ∧ (k.links.prev l).kind = l.kind

section
variable {k k' k'' : Kernel} {all ts ts' : List TaskPtr} {t u w : TaskPtr} {fuel : Nat}
  {g : GuestConfig} {id : Int} {l h : Link}

theorem outer_iff : l.kind.outer ↔ l.kind ≠ .tasks ∧ l.kind ≠ .ready ∧ l.kind ≠ .poison := by
  cases l <;> simp [Link.kind, ListKind.outer]

theorem Quiet.outer (hs : Quiet k k') (hl : l.kind.outer) : SameCell k k' l := by
  obtain ⟨h1, h2, -⟩ := outer_iff.mp hl
  exact hs l h1 h2

theorem Quiet.closed (hs : Quiet k k') (hc : Closed k) : Closed k' := by
  intro l hl
  obtain ⟨h1, h2, -⟩ := hs.outer hl
  rw [h1, h2]
  exact hc l hl

theorem search_congr {s s' : Links Link} {κ : ListKind} {p : Link → Bool}
    (hs : ∀ l : Link, l.kind = κ → s'.next l = s.next l ∧ (s.next l).kind = κ) (n : Nat) {a : Link}
    (ha : a.kind = κ) : search s' h p n a = search s h p n a := by
  induction n generalizing a with
  | zero => rfl
  | succ n ih =>
    obtain ⟨h1, h2⟩ := hs a ha
    unfold search
    rw [h1, ih h2]

theorem Quiet.onList (hs : Quiet k k') (hc : Closed k) (hh : h.kind.outer) :
    OnList k' h l ↔ OnList k h l := by
  have h1 (x : Link) (hx : x.kind = h.kind) :
      k'.links.next x = k.links.next x ∧ (k.links.next x).kind = h.kind := by
    have h2 : x.kind.outer := by rwa [hx]
    exact ⟨(hs.outer h2).1, (hc x h2).1.trans hx⟩
  unfold OnList
  rw [(h1 h rfl).1]
  simp only [search_congr h1 _ (h1 h rfl).2]

/-! ## Changes of these lists -/

def OuterOnly (k k' : Kernel) : Prop := ∀ l : Link, l.kind.outer = false → SameCell k k' l

theorem KernelOk.outer (hk : KernelOk k all ts) (hs : OuterOnly k k')
    (hid : ∀ t, (k'.task t).taskId = (k.task t).taskId) : KernelOk k' all ts := by
  refine ⟨hk.tasks.congr fun l hl => hs l ?_, hk.ready.congr fun l hl => hs l ?_, hk.listed,
    fun t ht u hu h => hk.ids t ht u hu ?_⟩
  · rw [kindOf_tasks.mem hl]
    rfl
  · rw [kindOf_ready.mem hl]
    rfl
  · rwa [hid, hid] at h

theorem linkInit_outer (k : Kernel) (hl : l.kind.outer) : OuterOnly k (k.linkInit l) := by
  intro x hx
  have h1 : x ≠ l := by
    rintro rfl
    rw [hl] at hx
    cases hx
  refine ⟨?_, ?_, update_of_ne h1 ..⟩
  · show (k.links.init l).next x = _
    rw [Links.init_next, if_neg h1]
  · show (k.links.init l).prev x = _
    rw [Links.init_prev, if_neg h1]

theorem linkInit_closed (hc : Closed k) (l : Link) : Closed (k.linkInit l) := by
  intro x hx
  show ((k.links.init l).next x).kind = _ ∧ ((k.links.init l).prev x).kind = _
  rw [Links.init_next, Links.init_prev]
  split_ifs with h
  · rw [h]
    exact ⟨rfl, rfl⟩
  · exact hc x hx

theorem insert_closed {p x q : Link} {d : Link → Option Nat} (hc : Closed k) (hp : p.kind = x.kind)
    (hq : q.kind = x.kind) : Closed { k with links := k.links.insert p x q, data := d } := by
  intro y hy
  show ((k.links.insert p x q).next y).kind = _ ∧ ((k.links.insert p x q).prev y).kind = _
  rw [Links.insert_next, Links.insert_prev]
  obtain ⟨h1, h2⟩ := hc y hy
  refine ⟨?_, ?_⟩
  · split_ifs with h h
    · rw [h, hp]
    · rw [h, hq]
    · exact h1
  · split_ifs with h h
    · rw [h, hq]
    · rw [h, hp]
    · exact h2

theorem insert_outer {p x q : Link} (k : Kernel) (b : Nat) (hx : x.kind.outer)
    (hp : p.kind = x.kind) (hq : q.kind = x.kind) : OuterOnly k
      { k.setLinkData x b with links := k.links.insert p x q } := by
  intro y hy
  have hne (z : Link) (hz : z.kind = x.kind) : y ≠ z := by
    rintro rfl
    rw [hz, hx] at hy
    cases hy
  obtain ⟨h1, h2⟩ := insert_cell (k := k) (hne p hp) (hne q hq) (hne x rfl)
  exact ⟨h1, h2, update_of_ne (hne x rfl) ..⟩

theorem removeInit_cell (hc : Closed k) (hl : l.kind.outer) :
    OuterOnly k ((k.removeLink l).linkInit l) ∧ Closed ((k.removeLink l).linkInit l) := by
  obtain ⟨h1, h2⟩ := hc l hl
  have hn (y : Link) : ((k.removeLink l).linkInit l).links.next y
      = if y = l then l else if y = k.links.prev l then k.links.next l else k.links.next y := by
    show ((k.links.unlink l _ _).init l).next y = _
    rw [Links.init_next, Links.unlink_next]
    split_ifs <;> rfl
  have hp (y : Link) : ((k.removeLink l).linkInit l).links.prev y
      = if y = l then l else if y = k.links.next l then k.links.prev l else k.links.prev y := by
    show ((k.links.unlink l _ _).init l).prev y = _
    rw [Links.init_prev, Links.unlink_prev]
    split_ifs <;> rfl
  refine ⟨fun y hy => ?_, fun y hy => ?_⟩
  · have hne (z : Link) (hz : z.kind = l.kind) : y ≠ z := by
      rintro rfl
      rw [hz, hl] at hy
      cases hy
    refine ⟨?_, ?_, update_of_ne (hne l rfl) ..⟩
    · rw [hn, if_neg (hne l rfl), if_neg (hne _ h2)]
    · rw [hp, if_neg (hne l rfl), if_neg (hne _ h1)]
  · obtain ⟨h3, h4⟩ := hc y hy
    rw [hn, hp]
    refine ⟨?_, ?_⟩
    · split_ifs with h h
      · rw [h]
      · rw [h, h1, h2]
      · exact h3
    · split_ifs with h h
      · rw [h]
      · rw [h, h1, h2]
      · exact h4

/-! ## Runs -/

structure LifeOk (k : Kernel) (all ts : List TaskPtr) : Prop where
  ok : KernelOk k all ts
  closed : Closed k

/-- tasks are created in memory that is not in use, with an id that is not -/
def KeepsLife (k : Kernel) (a : Nat × Kernel.LifeOp) : Prop :=
  match a.2 with
  | .kernel op => KeepsLists k (a.1, op)
  | .createTask t x => ¬ Live k t ∧ ∀ u, Live k u → (k.task u).taskId ≠ x.taskId
  | _ => True

theorem LifeOk.step (hk : LifeOk k all ts) (hk' : KernelOk k' all ts') (hs : Quiet k k') :
    LifeOk k' all ts' := ⟨hk', hs.closed hk.closed⟩

theorem LifeOk.of_eq (hk : LifeOk k all ts) (hl : k'.links = k.links) (hd : k'.data = k.data)
    (ht : k'.task = k.task) : LifeOk k' all ts := by
  have h1 := ReadyStep.of_eq hk.ok.ready hl hd
  exact hk.step (hk.ok.step h1 (fun u => by rw [ht]) hk.ok.listed) h1.quiet

theorem LifeOk.suspendTask {s : TaskState} (hk : LifeOk k all ts)
    (hs : k.suspendTask fuel id s = some k') : LifeOk k' all ts :=
  hk.step (suspendTask_kept hk.ok hs) (suspendTask_step hk.ok.ready hs).quiet

theorem LifeOk.createTask {x : SwTask} (hk : LifeOk k all ts) (ht : t ∉ all)
    (hx : ∀ u ∈ all, (k.task u).taskId ≠ x.taskId) : LifeOk (k.createTask t x) (all ++ [t]) ts := by
  let k1 := (((k.linkInit (.head t)).linkInit (.readyHead t)).linkInit (.waitHead t)).linkInit
    (.taskWaitList t)
  have hcell (y : Link) (h1 : y ≠ .head t) (h2 : y ≠ .readyHead t) (h3 : y ≠ .waitHead t)
      (h4 : y ≠ .taskWaitList t) : SameCell k k1 y :=
    (((linkInit_cell k h1).trans (linkInit_cell _ h2)).trans (linkInit_cell _ h3)).trans
      (linkInit_cell _ h4)
  have htasks : TasksOk k1 all := by
    refine hk.ok.tasks.congr fun l hl => ?_
    obtain rfl | hl := List.mem_cons.mp hl
    · exact hcell _ (by simp) (by simp) (by simp) (by simp)
    · obtain ⟨u, hu, rfl⟩ := List.mem_map.mp hl
      refine hcell _ ?_ (by simp) (by simp) (by simp)
      rintro h
      cases h
      exact ht hu
  have hready : ReadyOk k1 ts := by
    refine hk.ok.ready.congr fun l hl => ?_
    obtain rfl | hl := List.mem_cons.mp hl
    · exact hcell _ (by simp) (by simp) (by simp) (by simp)
    · obtain ⟨u, hu, rfl⟩ := List.mem_map.mp hl
      refine hcell _ (by simp) ?_ (by simp) (by simp)
      rintro h
      cases h
      exact ht (hk.ok.listed t hu)
  have hs : SameBut .tasks k1 (k1.enterTask t) := htasks.add_sameBut kindOf_tasks t
  have hclosed : Closed k1 := linkInit_closed (linkInit_closed (linkInit_closed
    (linkInit_closed hk.closed _) _) _) _
  have hq : Quiet k1 (k1.enterTask t) := fun l hl _ => hs l hl
  have htask (u : TaskPtr) (hu : u ∈ all) : ((k.createTask t x).task u).taskId
      = (k.task u).taskId := by
    have hne : u ≠ t := fun e => ht (e ▸ hu)
    show (((k1.enterTask t).setTask t _).task u).taskId = _
    rw [Kernel.setTask_task, if_neg hne]
    rfl
  have htask' : ((k.createTask t x).task t).taskId = x.taskId := by
    show (((k1.enterTask t).setTask t _).task t).taskId = _
    rw [Kernel.setTask_task, if_pos rfl]
  refine ⟨⟨?_, ?_, fun u hu => List.mem_append_left _ (hk.ok.listed u hu), fun u hu v hv h => ?_⟩,
    hq.closed hclosed⟩
  · have h1 := htasks.add (p := .tail) head_injective (by simp) ht
    exact ⟨h1.ring, h1.data⟩
  · have h1 := hs.list kindOf_ready (by simp) hready
    exact ⟨h1.ring, h1.data⟩
  · obtain hu | hu := List.mem_append.mp hu
    · obtain hv | hv := List.mem_append.mp hv
      · rw [htask u hu, htask v hv] at h
        exact hk.ok.ids u hu v hv h
      · rw [List.mem_singleton.mp hv, htask u hu, htask'] at h
        exact absurd h (hx u hu)
    · obtain hv | hv := List.mem_append.mp hv
      · rw [List.mem_singleton.mp hu, htask v hv, htask'] at h
        exact absurd h.symm (hx v hv)
      · rw [List.mem_singleton.mp hu, List.mem_singleton.mp hv]

theorem LifeOk.queueAdd {q : QueuePtr} {i : ItemPtr} (hk : LifeOk k all ts) :
    LifeOk (k.swNoLockPendingQueueAdd q i) all ts := by
  have h1 := (hk.closed (.elementsList q) rfl).2
  have h2 : OuterOnly k (k.swNoLockPendingQueueAdd q i) :=
    insert_outer (x := .item i) k i rfl h1 rfl
  exact ⟨hk.ok.outer h2 fun _ => rfl, insert_closed (x := .item i) hk.closed h1 rfl⟩

theorem LifeOk.addToWaitList (hk : LifeOk k all ts) (t w : Option TaskPtr) :
    LifeOk (k.addToWaitList t w) all ts := by
  cases t with
  | none => exact hk
  | some t =>
    cases w with
    | none => exact hk
    | some w =>
      have h1 := (hk.closed (.taskWaitList t) rfl).1
      have h2 : OuterOnly k (k.addToWaitList (some t) (some w)) :=
        insert_outer (x := .waitHead t) k w rfl rfl h1
      exact ⟨hk.ok.outer h2 fun _ => rfl, insert_closed (x := .waitHead t) hk.closed rfl h1⟩

theorem LifeOk.life {a : Nat × Kernel.LifeOp} (hk : LifeOk k all ts) (ha : KeepsLife k a)
    (hs : k.life g a = some k') : ∃ all' ts', LifeOk k' all' ts' := by
  obtain ⟨n, op⟩ := a
  cases op with
  | kernel op =>
    obtain ⟨all', ts', h1, h2⟩ := hk.ok.kept ha hs
    exact ⟨all', ts', h1, h2.closed hk.closed⟩
  | createTask t x =>
    cases hs
    exact ⟨_, _, hk.createTask (fun h => ha.1 (hk.ok.live_iff.mpr h))
      fun u hu => ha.2 u (hk.ok.live_iff.mpr hu)⟩
  | newQueueItem i =>
    obtain ⟨c, -, hs⟩ := Option.bind_eq_some_iff.mp hs
    cases hs
    have h1 : LifeOk (k.linkInit (.item i)) all ts :=
      ⟨hk.ok.outer (linkInit_outer k rfl) fun _ => rfl, linkInit_closed hk.closed _⟩
    exact ⟨all, ts, h1.of_eq rfl rfl rfl⟩
  | queueAdd q i s =>
    refine ⟨all, ts, LifeOk.suspendTask ?_ hs⟩
    split_ifs
    · exact hk.queueAdd
    · exact hk
  | waitDone i =>
    cases hs
    refine ⟨all, ts, ?_⟩
    show LifeOk (if _ then _ else _) all ts
    split_ifs
    · exact hk
    · obtain ⟨h1, h2⟩ := removeInit_cell (l := .item i) hk.closed rfl
      exact ⟨hk.ok.outer h1 fun _ => rfl, h2⟩
  | sleep =>
    have h1 : LifeOk { k with sleepTimers := k.currentTaskId :: k.sleepTimers } all ts :=
      hk.of_eq rfl rfl rfl
    exact ⟨all, ts, h1.suspendTask hs⟩
  | timer id =>
    obtain ⟨k1, h1, hs⟩ := Option.bind_eq_some_iff.mp hs
    cases hs
    obtain ⟨all', ts', h2, h3⟩ := hk.ok.kept (g := g) (a := (n, .scheduleTaskId id)) trivial h1
    have h4 : LifeOk k1 all' ts' := ⟨h2, h3.closed hk.closed⟩
    exact ⟨all', ts', h4.of_eq rfl rfl rfl⟩
  | wait id =>
    obtain ⟨c, -, hs⟩ := Option.bind_eq_some_iff.mp hs
    obtain ⟨t, -, hs⟩ := Option.bind_eq_some_iff.mp hs
    obtain ⟨c', -, hs⟩ := Option.bind_eq_some_iff.mp hs
    exact ⟨all, ts, (hk.addToWaitList t c).suspendTask hs⟩

/-! ## What refers to a task -/

def WaitsFor (k : Kernel) (w t : TaskPtr) : Prop :=
  OnList k (.taskWaitList t) (.waitHead t) ∧ k.data (.waitHead t) = some w

/-- in `k'` nothing refers to the task `t` with the id `id`, which existed in `k`, and the other
tasks are as they were, but for those that waited for its end -/
structure NoTrace (k k' : Kernel) (t : TaskPtr) (id : Int) : Prop where
  tasks : ∀ u, OnList k' .taskList (.head u) → u ≠ t ∧ k'.data (.head u) ≠ some t
  ready : ∀ u, OnList k' .readyToRunList (.readyHead u) → u ≠ t ∧ k'.data (.readyHead u) ≠ some t
  queues : ∀ q i, OnList k' (.elementsList q) (.item i) → k'.itemTask i ≠ some t
  waits : ∀ u, u ≠ t → Live k' u → ¬ WaitsFor k' t u
  timers : id ∉ k'.sleepTimers
  idFree : k'.taskIdPool id = false
  waiters : ∀ u, u ≠ t → Live k u → WaitsFor k u t → (k'.task u).state = .readyToRun
  others : ∀ u, u ≠ t → Live k u → Live k' u ∧ (¬ WaitsFor k u t → k'.task u = k.task u)

/-- no wait-queue element, no timer and no other task's list of waiting tasks refers to `t`, and
what waits for its end is ready -/
structure Forgotten (k : Kernel) (t : TaskPtr) (id : Int) : Prop where
  queues : ∀ q i, OnList k (.elementsList q) (.item i) → k.itemTask i ≠ some t
  waits : ∀ u, u ≠ t → Live k u → ¬ WaitsFor k t u
  timers : id ∉ k.sleepTimers
  waiters : ∀ u, u ≠ t → Live k u → WaitsFor k u t → (k.task u).state = .readyToRun

theorem WaiterIs.waitsFor {ow : Option TaskPtr} (hw : WaiterIs k t ow) :
    WaitsFor k u t ↔ ow = some u := by
  cases ow with
  | none =>
    refine ⟨?_, fun h => by cases h⟩
    rintro ⟨⟨n, hn⟩, -⟩
    have h1 : k.links.next (.taskWaitList t) = .taskWaitList t := of_decide_eq_true hw
    rw [h1] at hn
    cases n with
    | zero => cases hn
    | succ n =>
      rw [search, if_pos rfl] at hn
      cases hn
  | some w =>
    obtain ⟨hr, -, hw⟩ := hw
    have h1 : OnList k (.taskWaitList t) (.waitHead t) := by
      refine ⟨2, ?_⟩
      rw [hr.search (by simp)]
      simp
    unfold WaitsFor
    rw [hw]
    exact ⟨fun h => h.2, fun h => ⟨h1, h⟩⟩

theorem destroyTask_noTrace_iff {n : Nat} (hk : LifeOk k all ts) (ht : t ∈ all)
    (hid : ((k.task t).taskId : Int) = id) (hone : OneWaiter k t)
    (hs : k.destroyTask n id = some k') : NoTrace k k' t id ↔ Forgotten k t id := by
  obtain ⟨ow, hw, how⟩ := hone
  obtain ⟨h1, h2⟩ := destroyTask_ok hk.ok ht hid hw (hk.ok.waiter how) hs
  have hq : Quiet k k' := h2.cell
  have hqueue (q i : Nat) : OnList k' (.elementsList q) (.item i) ↔
      OnList k (.elementsList q) (.item i) := hq.onList hk.closed rfl
  have hwait (v u : TaskPtr) : WaitsFor k' v u ↔ WaitsFor k v u := by
    unfold WaitsFor
    rw [hq.onList hk.closed rfl, (hq (.waitHead u) (by simp [Link.kind]) (by simp [Link.kind])).2.2]
  have hlive (u : TaskPtr) : Live k' u ↔ u ≠ t ∧ Live k u := by
    rw [h1.live_iff, hk.ok.live_iff]
    exact List.Nodup.mem_erase_iff hk.ok.tasks.nodup
  refine ⟨fun hn => ⟨fun q i h => ?_, fun u hu hl h => ?_, ?_, fun u hu hl h => ?_⟩, fun hc => ?_⟩
  · rw [← h2.itemTask]
    exact hn.queues q i ((hqueue q i).mpr h)
  · exact hn.waits u hu ((hlive u).mpr ⟨hu, hl⟩) ((hwait t u).mpr h)
  · rw [← h2.sleepTimers]
    exact hn.timers
  · have h3 := hn.waiters u hu hl h
    rwa [h2.task u hu] at h3
  · refine ⟨fun u hu => ?_, fun u hu => ?_, fun q i h => ?_, fun u hu hl h => ?_, ?_, ?_,
      fun u hu hl h => ?_, fun u hu hl => ⟨(hlive u).mpr ⟨hu, hl⟩, fun _ => h2.task u hu⟩⟩
    · have h3 := h1.live_iff.mp hu
      have h4 := ((hlive u).mp hu).1
      rw [h1.tasks.data u h3]
      exact ⟨h4, fun e => h4 (Option.some.inj e)⟩
    · have h3 := h1.ready.queued_iff.mp hu
      have h4 := ((hlive u).mp (h1.live_iff.mpr (h1.listed u h3))).1
      rw [h1.ready.data u h3]
      exact ⟨h4, fun e => h4 (Option.some.inj e)⟩
    · rw [h2.itemTask]
      exact hc.queues q i ((hqueue q i).mp h)
    · exact hc.waits u hu ((hlive u).mp hl).2 ((hwait t u).mp h)
    · rw [h2.sleepTimers]
      exact hc.timers
    · rw [h2.taskIdPool, update_self]
    · rw [h2.task u hu]
      exact hc.waiters u hu hl h

/-- **When a destroyed task leaves no trace**, in every state that is reached -/
theorem destroyed_noTrace {l : List (Nat × Kernel.LifeOp)} (hk : LifeOk k all ts)
    (hl : Along (Kernel.life g) KeepsLife k l) (hrun : run (Kernel.life g) k l = some k')
    (ht : Live k' t) (hid : ((k'.task t).taskId : Int) = id) (hone : OneWaiter k' t) :
    ∃ m, ∀ n, m ≤ n → ∃ k'', k'.destroyTask n id = some k'' ∧
      (NoTrace k' k'' t id ↔ Forgotten k' t id) := by
  obtain ⟨all', ts', h1⟩ := run_invariant (fun k => ∃ all ts, LifeOk k all ts)
    (fun k a k' h ha hs => by
      obtain ⟨all, ts, h⟩ := h
      exact h.life ha hs) ⟨all, ts, hk⟩ hl hrun
  have ht' := h1.ok.live_iff.mp ht
  refine ⟨all'.length + 2, fun n hn => ?_⟩
  obtain ⟨n, rfl⟩ := Nat.exists_eq_add_of_le' (by omega : 1 ≤ n)
  have ⟨ow, hw, _⟩ := hone
  obtain ⟨k'', h2⟩ := destroyTask_some h1.ok ht' hid hw (by omega : all'.length < n)
  exact ⟨k'', h2, destroyTask_noTrace_iff h1 ht' hid hone h2⟩

end

/-! ## A task that sleeps -/

theorem newKernel_life : LifeOk newKernel [] [] where
  ok := ⟨⟨⟨⟨rfl, rfl⟩, by simp⟩, by simp⟩, newKernel_ready, by simp, by simp⟩
  closed := fun _ _ => ⟨rfl, rfl⟩

theorem twoTasks_life : LifeOk twoTasks [1, 2] [2] where
  ok := twoTasks_ok
  closed l hl := by
    cases l with
    | head t => cases hl
    | readyHead t => cases hl
    | _ => exact ⟨rfl, rfl⟩

/-- task 1 sleeps when task 2 is destroyed -/
theorem destroyed_noTrace_asleep : ∃ k', run (Kernel.life ⟨false⟩) twoTasks [(3, .sleep)] = some k' ∧
    k'.sleepTimers = [1] ∧ ∃ m, ∀ n, m ≤ n → ∃ k'', k'.destroyTask n 2 = some k'' ∧
      NoTrace k' k'' 2 2 := by
  have hrun : (run (Kernel.life ⟨false⟩) twoTasks [(3, .sleep)]).map (fun k =>
      (k.sleepTimers, (k.task 2).taskId, k.linkEmpty (.taskWaitList 2),
        search k.links .taskList (fun x => x = .head 2) 3 (k.links.next .taskList)))
      = some ([1], 2, true, some (some (.head 2))) := by decide
  obtain ⟨k', hk', hfacts⟩ := Option.map_eq_some_iff.mp hrun
  simp only [Prod.mk.injEq] at hfacts
  obtain ⟨htimers, hid, hempty, hlive⟩ := hfacts
  obtain ⟨k1, hsleep, he⟩ := run_cons_some hk'
  cases he
  have hlife : LifeOk { twoTasks with sleepTimers := [1] } [1, 2] [2] :=
    twoTasks_life.of_eq rfl rfl rfl
  have hquiet : Quiet twoTasks k' := (suspendTask_step hlife.ok.ready hsleep).quiet
  have hnobody (u v : TaskPtr) : ¬ WaitsFor k' u v := fun ⟨_, hdata⟩ => by
    rw [(hquiet.outer (l := .waitHead v) rfl).2.2] at hdata
    cases hdata
  obtain ⟨m, hm⟩ := destroyed_noTrace (g := ⟨false⟩) twoTasks_life
    (along_singleton (show KeepsLife twoTasks (3, .sleep) from trivial)) hk' ⟨3, hlive⟩
    (congrArg Nat.cast hid) ⟨none, hempty, fun _ h => by cases h⟩
  refine ⟨k', hk', htimers, m, fun n hn => ?_⟩
  obtain ⟨k'', hdestroy, htrace⟩ := hm n hn
  refine ⟨k'', hdestroy, htrace.mpr ⟨fun q i hlist => ?_, fun u _ _ => hnobody 2 u, ?_,
    fun u _ _ h => absurd h (hnobody u 2)⟩⟩
  · obtain ⟨j, hj⟩ := (hquiet.onList twoTasks_life.closed rfl).mp hlist
    cases j with
    | zero => cases hj
    | succ j =>
      rw [search, if_pos (show twoTasks.links.next (.elementsList q) = .elementsList q from rfl)]
        at hj
      cases hj
  · rw [htimers]
    decide

/-- task 1 sleeps, and its timer is still pending when it has been destroyed -/
theorem destroyed_sleeper : ∃ k' k'', run (Kernel.life ⟨false⟩) newKernel
    [(0, .createTask 1 (newTask 1)), (2, .kernel (.startTask 1 none)), (2, .kernel .scheduler),
      (2, .sleep)] = some k' ∧ Live k' 1 ∧ k'.destroyTask 2 1 = some k'' ∧
        ¬ NoTrace k' k'' 1 1 := by
  have h : ((run (Kernel.life ⟨false⟩) newKernel
      [(0, .createTask 1 (newTask 1)), (2, .kernel (.startTask 1 none)), (2, .kernel .scheduler),
        (2, .sleep)]).bind fun k => (k.destroyTask 2 1).map fun k'' =>
          (k''.sleepTimers, search k.links .taskList (fun x => x = .head 1) 2
            (k.links.next .taskList))) = some ([1], some (some (.head 1))) := by decide
  obtain ⟨k', hk, h⟩ := Option.bind_eq_some_iff.mp h
  obtain ⟨k'', hd, h⟩ := Option.map_eq_some_iff.mp h
  obtain ⟨h1, h2⟩ := Prod.mk.inj h
  refine ⟨k', k'', hk, ⟨2, h2⟩, hd, fun hn => hn.timers ?_⟩
  rw [h1]
  simp

end SierraTee
