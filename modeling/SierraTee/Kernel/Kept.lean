import SierraTee.Kernel.NextTask
import SierraTee.Kernel.Lifecycle

/-!
# What the operations keep

* `KernelOk.step`      an operation on the ready list keeps the two lists of tasks in order;
* `getNextTask_cases`  a choice takes out the first task at most;
* `destroyTask_ok`     the end of a task for which at most one task waits.
-/

namespace SierraTee
open Function Rings

def Live (k : Kernel) (t : TaskPtr) : Prop := OnList k .taskList (.head t)

def IsCurrent (k : Kernel) (t : TaskPtr) : Prop := ((k.task t).taskId : Int) = k.currentTaskId

instance (k : Kernel) (t : TaskPtr) : Decidable (IsCurrent k t) :=
  inferInstanceAs (Decidable (_ = _))

section
variable {k k' k'' : Kernel} {all ts ts' : List TaskPtr} {t : TaskPtr} {fuel : Nat}
  {g : GuestConfig} {id : Int}

theorem head_injective : Link.head.Injective := fun _ _ e => Link.head.inj e

theorem KernelOk.live_iff (hk : KernelOk k all ts) : Live k t ↔ t ∈ all :=
  hk.tasks.onList_iff head_injective

theorem KernelOk.step (hk : KernelOk k all ts) (hs : ReadyStep k k' ts')
    (hid : ∀ t, (k'.task t).taskId = (k.task t).taskId) (hsub : ∀ t ∈ ts', t ∈ all) :
    KernelOk k' all ts' := by
  refine ⟨hs.tasks hk.tasks, hs.ready, hsub, fun t ht u hu h => hk.ids t ht u hu ?_⟩
  rwa [hid, hid] at h

theorem KernelOk.getTask (hk : KernelOk k all ts) {r : Option TaskPtr}
    (hr : k.getTask fuel id = some r) :
    (∀ t, r = some t → t ∈ all ∧ ((k.task t).taskId : Int) = id) ∧
      (r = none → ∀ t ∈ all, ((k.task t).taskId : Int) ≠ id) := by
  rw [hk.tasks.find hr]
  refine ⟨fun t ht => ⟨List.mem_of_find?_eq_some ht, by simpa using List.find?_some ht⟩,
    fun hn t ht => ?_⟩
  simpa using List.find?_eq_none.mp hn t ht

theorem KernelOk.found (hk : KernelOk k all ts) (ht : t ∈ all)
    (hid : ((k.task t).taskId : Int) = id) {r : Option TaskPtr}
    (hr : k.getTask fuel id = some r) : r = some t := by
  cases r with
  | none => exact absurd hid ((hk.getTask hr).2 rfl t ht)
  | some u =>
    obtain ⟨hu, hid'⟩ := (hk.getTask hr).1 u rfl
    rw [hk.ids u hu t ht (Int.ofNat.inj (hid'.trans hid.symm))]

theorem hasId_iff (hk : KernelOk k all ts) (ht : t ∈ all) : k.hasId t ts ↔ t ∈ ts := by
  refine ⟨fun h => ?_, hasId_of_mem⟩
  obtain ⟨u, hu, h1⟩ := List.any_eq_true.mp h
  have h2 : u = t := hk.ids u (hk.listed u hu) t ht (by simpa using h1)
  rwa [← h2]

theorem scheduleTask_mem (hk : KernelOk k all ts) (ht : t ∈ all)
    (hs : k.scheduleTask fuel t = some k') : ∃ ts', KernelOk k' all ts' ∧ OnlyLists k k' ∧
      t ∈ ts' ∧ ∀ u ∈ ts, u ∈ ts' := by
  have h1 := scheduleTask_ready hk.ready hs
  have h2 := scheduleTask_only hk.ready hs
  refine ⟨_, hk.step h1 (fun u => by rw [h2.task]) fun u hu => ?_, h2, ?_, fun u hu => ?_⟩
  · split_ifs at hu
    · exact hk.listed u hu
    · obtain hu | hu := List.mem_append.mp hu
      · exact hk.listed u hu
      · rwa [List.mem_singleton.mp hu]
  · split_ifs with h
    · exact (hasId_iff hk ht).mp h
    · simp
  · split_ifs
    · exact hu
    · exact List.mem_append_left _ hu

theorem KernelOk.setTask {x : SwTask} (hk : KernelOk k all ts) (t : TaskPtr)
    (hx : x.taskId = (k.task t).taskId) : KernelOk (k.setTask t x) all ts := by
  refine hk.step (ReadyStep.of_eq hk.ready rfl rfl) (fun u => ?_) hk.listed
  rw [Kernel.setTask_task]
  split_ifs with h
  · rw [hx, h]
  · rfl

/-! ## The choice of a task -/

theorem mem_requeued_of {c : Option TaskPtr} (ht : t ∈ ts) : t ∈ k.requeued g ts c := by
  obtain h | ⟨u, -, -, h⟩ := requeued_cases k g ts c
  · rwa [h]
  · rw [h]
    exact List.mem_append_left _ ht

theorem of_mem_requeued {c : Option TaskPtr} (ht : t ∈ k.requeued g ts c) : t ∈ ts ∨ c = some t := by
  obtain h | ⟨u, hc, -, h⟩ := requeued_cases k g ts c
  · rw [h] at ht
    exact Or.inl ht
  · rw [h] at ht
    refine (List.mem_append.mp ht).imp_right fun h1 => ?_
    rw [List.mem_singleton.mp h1, hc]

theorem choose_cases (k : Kernel) (g : GuestConfig) (c : Option TaskPtr) (ts : List TaskPtr) :
    ts = [] ∧ k.choose g c ts = (k.stayWith g c, []) ∨
    (∃ t us, ts = t :: us ∧ k.guestOk g t ∧ k.choose g c ts = (some t, k.requeued g us c)) ∨
    ∃ t us, ts = t :: us ∧ k.choose g c ts = (none, k.requeued g ts c) := by
  cases ts with
  | nil => exact Or.inl ⟨rfl, rfl⟩
  | cons t us =>
    cases h : k.guestOk g t with
    | true => exact Or.inr (Or.inl ⟨t, us, rfl, h, if_pos h⟩)
    | false => exact Or.inr (Or.inr ⟨t, us, rfl, if_neg (by rw [h]; simp)⟩)

theorem getNextTask_cases {next : Option TaskPtr} (hk : KernelOk k all ts)
    (hs : k.getNextTask fuel g = some (k', next)) : ∃ c ts', k.getCurrentTask fuel = some c ∧
      KernelOk k' all ts' ∧ OnlyLists k k' ∧ (next = none ∨ next = c ∨
        ∃ t, next = some t ∧ t ∈ all ∧ k.links.next .readyToRunList = .readyHead t ∧
          k.guestOk g t) ∧
      (∀ u ∈ ts, u ∈ ts' ∨ next = some u ∧ k.links.next .readyToRunList = .readyHead u ∧
        k.guestOk g u) ∧ ∀ u ∈ ts', u ∈ ts ∨ c = some u := by
  obtain ⟨c, hc, rfl, h1, h2⟩ := getNextTask_ready hk.ready hs
  have hin (us : List TaskPtr) (hus : ∀ u ∈ us, u ∈ all) (u : TaskPtr)
      (hu : u ∈ k.requeued g us c) : u ∈ all := by
    obtain h | rfl := of_mem_requeued hu
    · exact hus u h
    · exact ((hk.getTask hc).1 u rfl).1
  have hok (hsub : ∀ u ∈ (k.choose g c ts).2, u ∈ all) : KernelOk k' all (k.choose g c ts).2 :=
    hk.step h1 (fun u => by rw [h2.task]) hsub
  refine ⟨c, _, hc, hok ?_, h2, ?_⟩
  · obtain ⟨rfl, h⟩ | ⟨t, us, rfl, -, h⟩ | ⟨t, us, rfl, h⟩ := choose_cases k g c ts
    · rw [h]
      exact fun u hu => absurd hu (by simp)
    · rw [h]
      exact hin us fun u hu => hk.listed u (by simp [hu])
    · rw [h]
      exact hin _ hk.listed
  · obtain ⟨rfl, h⟩ | ⟨t, us, rfl, hg, h⟩ | ⟨t, us, rfl, h⟩ := choose_cases k g c ts
    · rw [h]
      refine ⟨?_, fun u hu => absurd hu (by simp), fun u hu => absurd hu (by simp)⟩
      cases c with
      | none => exact Or.inl rfl
      | some c =>
        show (if _ then _ else _) = _ ∨ (if _ then _ else _) = _ ∨ _
        split_ifs
        · exact Or.inr (Or.inl rfl)
        · exact Or.inl rfl
    · have hfirst : k.links.next .readyToRunList = .readyHead t := hk.ready.ring.path.1.1
      rw [h]
      refine ⟨Or.inr (Or.inr ⟨t, rfl, hk.listed t (by simp), hfirst, hg⟩), fun u hu => ?_,
        fun u hu => (of_mem_requeued hu).imp_left (List.mem_cons_of_mem _)⟩
      obtain rfl | hu := List.mem_cons.mp hu
      · exact Or.inr ⟨rfl, hfirst, hg⟩
      · exact Or.inl (mem_requeued_of hu)
    · rw [h]
      exact ⟨Or.inl rfl, fun u hu => Or.inl (mem_requeued_of hu), fun u hu => of_mem_requeued hu⟩

/-! ## The end of a task -/

def WaiterIs (k : Kernel) (t : TaskPtr) : Option TaskPtr → Prop
  | none => k.linkEmpty (.taskWaitList t)
  | some w => Ring k.links (.taskWaitList t) [.waitHead t] ∧ k.data (.taskWaitList t) = none ∧
      k.data (.waitHead t) = some w

/-- at most one task waits for the end of `t`; it is another one, and it is not queued -/
def OneWaiter (k : Kernel) (t : TaskPtr) : Prop :=
  ∃ ow, WaiterIs k t ow ∧ ∀ w, ow = some w → Live k w ∧ ¬ Queued k w ∧ w ≠ t

theorem WaiterIs.congr {ow : Option TaskPtr} (hw : WaiterIs k t ow) (hs : SameBut .ready k k') :
    WaiterIs k' t ow := by
  obtain ⟨h1, h2, h3⟩ := hs (.taskWaitList t) (by simp [Link.kind])
  obtain ⟨h4, h5, h6⟩ := hs (.waitHead t) (by simp [Link.kind])
  cases ow with
  | none =>
    show k'.linkEmpty _
    unfold Kernel.linkEmpty
    rw [h1]
    exact hw
  | some w =>
    obtain ⟨hr, hd, hw⟩ := hw
    refine ⟨hr.congr (fun y hy => ?_) (fun y hy => ?_), h3.trans hd, h6.trans hw⟩
    · simp only [List.mem_cons, List.not_mem_nil, or_false] at hy
      obtain rfl | rfl := hy
      · exact h1
      · exact h4
    · simp only [List.mem_cons, List.not_mem_nil, or_false] at hy
      obtain rfl | rfl := hy
      · exact h2
      · exact h5

theorem KernelOk.waiter {ow : Option TaskPtr} (hk : KernelOk k all ts)
    (how : ∀ w, ow = some w → Live k w ∧ ¬ Queued k w ∧ w ≠ t) (w : TaskPtr) (h : ow = some w) :
    w ∈ all ∧ w ∉ ts ∧ w ≠ t := by
  obtain ⟨h1, h2, h3⟩ := how w h
  exact ⟨hk.live_iff.mp h1, fun h4 => h2 (hk.ready.queued_iff.mpr h4), h3⟩

theorem wakeWaitList_eq {ow : Option TaskPtr} (hw : WaiterIs k t ow) (n : Nat) :
    k.wakeWaitList (n + 2) t = some (k.wakeWaiter t ow) ∧
      ∀ k', k.wakeWaitList n t = some k' → k' = k.wakeWaiter t ow := by
  cases ow with
  | none =>
    have h (m : Nat) : k.wakeWaitList m t = some k := if_pos hw
    exact ⟨h _, fun k' hs => (Option.some.inj ((h n).symm.trans hs)).symm⟩
  | some w =>
    obtain ⟨hr, hd, hw⟩ := hw
    have hnext : k.links.next (.taskWaitList t) = .waitHead t := hr.path.1.1
    have hback : k.links.next (.waitHead t) = .taskWaitList t := hr.path.2.1
    have hne : ¬ k.linkEmpty (.taskWaitList t) := by
      simp [Kernel.linkEmpty, hnext]
    have h1 (m : Nat) : k.wakeWaiters t (m + 1) (.taskWaitList t)
        = k.wakeWaiters t m (.waitHead t) := by
      show (if (((k.wakeWaiter t (k.data _)).data _).isSome) then _ else _) = _
      rw [hd]
      show (if (k.data (k.links.next _)).isSome then k.wakeWaiters t m (k.links.next _) else _) = _
      rw [hnext, if_pos (by rw [hw]; rfl)]
    have h2 (m : Nat) : k.wakeWaiters t (m + 1) (.waitHead t)
        = some (k.wakeWaiter t (some w)) := by
      show (if (((k.wakeWaiter t (k.data _)).data _).isSome) then _ else _) = _
      rw [hw]
      have h3 : (k.wakeWaiter t (some w)).links.next (.waitHead t) = .taskWaitList t := by
        show ((k.links.insert .readyToRunList (.readyHead w) _).next _) = _
        rw [Links.insert_next, if_neg (by simp), if_neg (by simp), hback]
      have h4 : (k.wakeWaiter t (some w)).data (.taskWaitList t) = none := by
        show update k.data (.readyHead w) (some w) (.taskWaitList t) = none
        rw [update_of_ne (by simp), hd]
      rw [h3, if_neg (by rw [h4]; simp)]
    have h3 (m : Nat) : k.wakeWaitList m t = k.wakeWaiters t m (.taskWaitList t) := if_neg hne
    refine ⟨by rw [h3, h1, h2], fun k' hs => ?_⟩
    rw [h3] at hs
    cases n with
    | zero => cases hs
    | succ n =>
      rw [h1] at hs
      cases n with
      | zero => cases hs
      | succ n =>
        rw [h2] at hs
        exact (Option.some.inj hs).symm

theorem leaveReady_ready (hk : KernelOk k all ts) (ht : t ∈ all)
    (hid : ((k.task t).taskId : Int) = id) (hs : k.leaveReady fuel id = some k') :
    ReadyStep k k' (ts.erase t) ∧ OnlyLists k k' := by
  obtain ⟨r, hf, hs⟩ := Option.bind_eq_some_iff.mp hs
  have h1 := hk.ready.find hf
  cases r with
  | none =>
    cases hs
    have h2 : t ∉ ts := fun hm => by
      simpa [hid] using List.find?_eq_none.mp h1.symm t hm
    rw [List.erase_of_not_mem h2]
    exact ⟨ReadyStep.refl hk.ready, OnlyLists.refl k⟩
  | some u =>
    cases hs
    have hu := List.mem_of_find?_eq_some h1.symm
    have h2 : u = t := by
      refine hk.ids u (hk.listed u hu) t ht (Int.ofNat.inj (Eq.trans ?_ hid.symm))
      simpa using List.find?_some h1.symm
    subst h2
    obtain ⟨us, vs, rfl⟩ := List.append_of_mem hu
    have hn := hk.ready.nodup
    have h3 : u ∉ us ∧ u ∉ vs := by
      have h4 := (List.nodup_middle.mp hn)
      exact ⟨fun h => (List.nodup_cons.mp h4).1 (List.mem_append_left _ h),
        fun h => (List.nodup_cons.mp h4).1 (List.mem_append_right _ h)⟩
    rw [List.erase_append_right _ h3.1, List.erase_cons_head]
    have h4 := removeLink_ready hk.ready
    refine ⟨⟨⟨h4.ready.ring, fun v hv => ?_⟩, fun l hl => ?_⟩, ⟨rfl, rfl, rfl, rfl, rfl, rfl, rfl⟩⟩
    · have h5 : v ≠ u := by
        rintro rfl
        exact (List.mem_append.mp hv).elim h3.1 h3.2
      show update k.data (.readyHead u) none (.readyHead v) = some v
      rw [update_of_ne fun e => h5 (Link.readyHead.inj e)]
      exact h4.ready.data v hv
    · obtain ⟨h5, h6, -⟩ := h4.others l hl
      refine ⟨h5, h6, update_of_ne ?_ ..⟩
      rintro rfl
      exact hl rfl

/-- what the end of the task `t` with the id `id` leaves as it is -/
structure Destroyed (k k' : Kernel) (t : TaskPtr) (id : Int) : Prop where
  cell : ∀ l : Link, l.kind ≠ .tasks → l.kind ≠ .ready → SameCell k k' l
  task : ∀ u, u ≠ t → k'.task u = k.task u
  itemTask : k'.itemTask = k.itemTask
  currentTaskId : k'.currentTaskId = k.currentTaskId
  sleepTimers : k'.sleepTimers = k.sleepTimers
  taskIdPool : k'.taskIdPool = update k.taskIdPool id false

theorem destroyTask_ok {ow : Option TaskPtr} (hk : KernelOk k all ts) (ht : t ∈ all)
    (hid : ((k.task t).taskId : Int) = id) (hw : WaiterIs k t ow)
    (how : ∀ w, ow = some w → w ∈ all ∧ w ∉ ts ∧ w ≠ t)
    (hs : k.destroyTask fuel id = some k') :
    KernelOk k' (all.erase t) (ow.toList ++ ts.erase t) ∧ Destroyed k k' t id := by
  obtain ⟨r, hf, hs⟩ := Option.bind_eq_some_iff.mp hs
  obtain rfl := hk.found ht hid hf
  obtain ⟨k1, h1, hs⟩ := Option.bind_eq_some_iff.mp hs
  obtain ⟨k2, h2, hs⟩ := Option.bind_eq_some_iff.mp hs
  cases hs
  obtain ⟨s1, o1⟩ := leaveReady_ready hk ht hid h1
  have ht1 : t ∉ ts.erase t := fun h => (List.Nodup.mem_erase_iff hk.ready.nodup).mp h |>.1 rfl
  have s2 : ReadyStep k1 k2 (ow.toList ++ ts.erase t) ∧ (∀ u, u ≠ t → k2.task u = k1.task u) ∧
      k2.itemTask = k1.itemTask ∧ k2.currentTaskId = k1.currentTaskId ∧
      k2.sleepTimers = k1.sleepTimers ∧ k2.taskIdPool = k1.taskIdPool := by
    have hw1 := hw.congr s1.others
    obtain rfl := (wakeWaitList_eq hw1 fuel).2 k2 h2
    cases ow with
    | none => exact ⟨ReadyStep.refl s1.ready, fun _ _ => rfl, rfl, rfl, rfl, rfl⟩
    | some w =>
      obtain ⟨-, hq, -⟩ := how w rfl
      have h3 := setState_step s1.ready t .readyToRun
      have h4 := scheduleTaskNext_ready h3.ready fun h => hq (List.mem_of_mem_erase h)
      refine ⟨h3.trans h4, fun u hu => ?_, rfl, rfl, rfl, rfl⟩
      show (k1.setState t _).task u = _
      rw [Kernel.setState_task, if_neg hu]
  obtain ⟨s2, htask, hitem, hcur, hsl, hpool⟩ := s2
  have s3 := s1.trans s2
  obtain ⟨us, vs, rfl⟩ := List.append_of_mem ht
  have hn := hk.tasks.nodup
  have h3 : t ∉ us := fun h => (List.nodup_cons.mp (List.nodup_middle.mp hn)).1
    (List.mem_append_left _ h)
  have h4 : (us ++ t :: vs).erase t = us ++ vs := by
    rw [List.erase_append_right _ h3, List.erase_cons_head]
  have htasks := s3.tasks hk.tasks
  have hcells (l : Link) (hl : l.kind ≠ .tasks) : SameCell k2 (k2.freeTask t id) l :=
    (htasks.remove_sameBut kindOf_tasks (by simp)) l hl
  have htask' (u : TaskPtr) (hu : u ≠ t) : (k2.freeTask t id).task u = k.task u := by
    show k2.task u = _
    rw [htask u hu, o1.task]
  refine ⟨⟨?_, ?_, fun u hu => ?_, fun u hu v hv h => ?_⟩, ⟨fun l hl hl' => ?_, htask', ?_, ?_,
    ?_, ?_⟩⟩
  · rw [h4]
    exact ⟨htasks.remove.ring, htasks.remove.data⟩
  · refine s3.ready.congr fun l hl => hcells l ?_
    rw [kindOf_ready.mem hl]
    simp
  · rw [List.Nodup.mem_erase_iff hn]
    obtain hu | hu := List.mem_append.mp hu
    · obtain ⟨h5, -, h6⟩ := how u (by simpa using hu)
      exact ⟨h6, h5⟩
    · exact ⟨fun e => ht1 (e ▸ hu), hk.listed u (List.mem_of_mem_erase hu)⟩
  · rw [List.Nodup.mem_erase_iff hn] at hu hv
    rw [htask' u hu.1, htask' v hv.1] at h
    exact hk.ids u hu.2 v hv.2 h
  · exact (s3.others l hl').trans (hcells l hl)
  · exact hitem.trans o1.itemTask
  · exact hcur.trans o1.currentTaskId
  · exact hsl.trans o1.sleepTimers
  · show update k2.taskIdPool id false = _
    rw [hpool, o1.taskIdPool]

theorem leaveReady_some (hr : ReadyOk k ts) (hf : ts.length < fuel) (id : Int) :
    ∃ k', k.leaveReady fuel id = some k' := by
  unfold Kernel.leaveReady
  rw [hr.find_some hf]
  cases ts.find? _ with
  | none => exact ⟨_, rfl⟩
  | some u => exact ⟨_, rfl⟩

theorem destroyTask_some {ow : Option TaskPtr} (hk : KernelOk k all ts) (ht : t ∈ all)
    (hid : ((k.task t).taskId : Int) = id) (hw : WaiterIs k t ow) (hf : all.length < fuel) :
    ∃ k', k.destroyTask (fuel + 1) id = some k' := by
  have hlen := hk.length_le
  obtain ⟨k1, h2⟩ := leaveReady_some hk.ready (by omega : ts.length < fuel + 1) id
  obtain ⟨r, hr⟩ : ∃ r, k.getTask (fuel + 1) id = some r :=
    ⟨_, hk.tasks.find_some (by omega : all.length < fuel + 1)⟩
  obtain rfl := hk.found ht hid hr
  have h4 := (leaveReady_ready hk ht hid h2).1.others
  obtain ⟨n, rfl⟩ : ∃ n, fuel = n + 1 := ⟨fuel - 1, by omega⟩
  have h5 := (wakeWaitList_eq (hw.congr h4) n).1
  exact ⟨_, Option.bind_eq_some_iff.mpr ⟨_, hr, Option.bind_eq_some_iff.mpr ⟨k1, h2,
    Option.bind_eq_some_iff.mpr ⟨_, h5, rfl⟩⟩⟩⟩

/-! ## Operations of a run -/

def Quiet (k k' : Kernel) : Prop :=
  ∀ l : Link, l.kind ≠ .tasks → l.kind ≠ .ready → SameCell k k' l

theorem ReadyStep.quiet (hs : ReadyStep k k' ts) : Quiet k k' := fun l _ hl => hs.others l hl

theorem Quiet.refl (k : Kernel) : Quiet k k := fun l _ _ => SameCell.refl k l

/-- a link that is queued already is not queued again by `schedule_task_next`, and a task is only
ended when at most one task waits for that -/
def KeepsLists (k : Kernel) (a : Nat × Kernel.KernelOp) : Prop :=
  match a.2 with
  | .scheduleTask t => Live k t
  | .scheduleTaskFunction i f => ∀ t, k.itemTask i = some t →
      Live k t ∧ (f = .immediate → ¬ Queued k t)
  | .destroyTask id => ∀ t, Live k t → ((k.task t).taskId : Int) = id → OneWaiter k t
  | _ => True

theorem scheduleTask_kept (hk : KernelOk k all ts) (ht : t ∈ all)
    (hs : k.scheduleTask fuel t = some k') : ∃ ts', KernelOk k' all ts' := by
  obtain ⟨ts', h, -⟩ := scheduleTask_mem hk ht hs
  exact ⟨ts', h⟩

theorem suspendTask_found {s : TaskState} (hk : KernelOk k all ts) (ht : t ∈ all)
    (hid : ((k.task t).taskId : Int) = id) (hs : k.suspendTask fuel id s = some k') :
    k' = if k.currentTaskId = id ∧ s = .suspend then { k.setState t s with currentTaskId := -1 }
      else k.setState t s := by
  obtain ⟨r, hf, hs⟩ := Option.bind_eq_some_iff.mp hs
  obtain rfl := hk.found ht hid hf
  change (if k.currentTaskId = id ∧ s = .suspend
    then some { k.setState t s with currentTaskId := -1 } else some (k.setState t s)) = some k' at hs
  split_ifs at hs ⊢ <;> exact (Option.some.inj hs).symm

theorem suspendTask_kept {s : TaskState} (hk : KernelOk k all ts)
    (hs : k.suspendTask fuel id s = some k') : KernelOk k' all ts := by
  refine hk.step (suspendTask_step hk.ready hs) (fun u => ?_) hk.listed
  obtain ⟨r, -, hs⟩ := Option.bind_eq_some_iff.mp hs
  cases r with
  | none =>
    cases hs
    rfl
  | some t =>
    change (if _ then _ else _) = some k' at hs
    split_ifs at hs <;>
    · cases hs
      exact Kernel.setState_taskId ..

theorem switch_task (k : Kernel) (new old : Option TaskPtr) (u : TaskPtr) :
    ∃ r, (k.taskContextSwitch new old).task u = { k.task u with regs := r } := by
  have h1 (k : Kernel) : (k.restoreTaskContextRegs new).task = k.task := by
    cases new <;> rfl
  show ∃ r, ((k.saveTaskContextRegs old).restoreTaskContextRegs new).task u = _
  rw [h1]
  cases old with
  | none => exact ⟨(k.task u).regs, rfl⟩
  | some v =>
    show ∃ r, (k.setTask v _).task u = _
    rw [Kernel.setTask_task]
    split_ifs with h
    · exact ⟨k.swiRegs, by rw [h]⟩
    · exact ⟨(k.task u).regs, rfl⟩

theorem scheduler_taskId (hr : ReadyOk k ts) (hs : k.scheduler fuel g = some k') (u : TaskPtr) :
    (k'.task u).taskId = (k.task u).taskId := by
  obtain ⟨c, k1, next, -, h1, rfl⟩ := scheduler_cases hs
  obtain ⟨-, -, -, -, ho⟩ := getNextTask_ready hr h1
  rw [← ho.task]
  split_ifs
  · rfl
  · obtain ⟨r, h3⟩ := switch_task (k1.setRunning next) next c u
    rw [h3]
    cases next with
    | none => rfl
    | some v => exact Kernel.setState_taskId ..

def Idle (k : Kernel) (ts : List TaskPtr) (t : TaskPtr) : Prop := t ∉ ts ∧ ¬ IsCurrent k t

theorem scheduler_kept (hk : KernelOk k all ts) (hs : k.scheduler fuel g = some k') :
    ∃ ts', KernelOk k' all ts' ∧ ∀ u ∈ all, Idle k ts u → Idle k' ts' u ∧
      (k'.task u).state = (k.task u).state := by
  have hid := scheduler_taskId hk.ready hs
  obtain ⟨c, k1, next, hc, h1, rfl⟩ := scheduler_cases hs
  obtain ⟨c', ts', hc', h2, ho, hnext, -, hin⟩ := getNextTask_cases hk h1
  rw [hc] at hc'
  cases hc'
  have hout (u : TaskPtr) (hu : Idle k ts u) : u ∉ ts' := fun h => (hin u h).elim hu.1 fun e =>
    hu.2 ((hk.getTask hc).1 u e).2
  refine ⟨ts', ?_⟩
  split_ifs at hid ⊢ with he
  · refine ⟨h2, fun u _ hu => ⟨⟨hout u hu, ?_⟩, by rw [ho.task]⟩⟩
    unfold IsCurrent
    rw [ho.task, ho.currentTaskId]
    exact hu.2
  · have htask (u : TaskPtr) := switch_task (k1.setRunning next) next c u
    have hcur : ((k1.setRunning next).taskContextSwitch next c).currentTaskId
        = (k1.setRunning next).currentTaskId := by
      cases next <;> cases c <;> rfl
    refine ⟨h2.step (switch_step h2.ready) (fun u => ?_) h2.listed, fun u hu hi => ?_⟩
    · rw [ho.task]
      exact hid u
    · obtain ⟨r, h3⟩ := htask u
      unfold Idle IsCurrent
      rw [h3, hcur]
      cases next with
      | none =>
        refine ⟨⟨hout u hi, ?_⟩, congrArg (fun f => (f u).state) ho.task⟩
        show ¬ (((k1.task u).taskId : Int) = k1.currentTaskId)
        rw [ho.task, ho.currentTaskId]
        exact hi.2
      | some v =>
        obtain h4 | h4 | ⟨t, h4, ht, hfirst, -⟩ := hnext
        · cases h4
        · exact absurd h4.symm he
        · cases h4
          have hv : v ∈ ts := by
            have h5 := hk.ready.ring.next_mem
            rw [hfirst] at h5
            simpa using h5
          have hne : u ≠ v := fun e => hi.1 (e ▸ hv)
          refine ⟨⟨hout u hi, fun h => hne (hk.ids u hu v ht ?_)⟩, ?_⟩
          · have h6 : (((k1.setState v .running).task u).taskId : Int) = (k1.task v).taskId := h
            rw [Kernel.setState_taskId, ho.task] at h6
            exact Int.ofNat.inj h6
          · show ((k1.setState v .running).task u).state = _
            rw [Kernel.setState_state, if_neg hne, ho.task]

theorem destroyTask_kept (hk : KernelOk k all ts)
    (ha : ∀ t, Live k t → ((k.task t).taskId : Int) = id → OneWaiter k t)
    (hs : k.destroyTask fuel id = some k') : ∃ all' ts', KernelOk k' all' ts' ∧ Quiet k k' := by
  obtain ⟨r, hf, -⟩ := Option.bind_eq_some_iff.mp hs
  cases r with
  | none =>
    have h1 : k.destroyTask fuel id = some k := Option.bind_eq_some_iff.mpr ⟨none, hf, rfl⟩
    cases h1.symm.trans hs
    exact ⟨all, ts, hk, Quiet.refl k⟩
  | some t =>
    obtain ⟨ht, hid⟩ := (hk.getTask hf).1 t rfl
    obtain ⟨ow, hw, how⟩ := ha t (hk.live_iff.mpr ht) hid
    obtain ⟨h1, h2⟩ := destroyTask_ok hk ht hid hw (hk.waiter how) hs
    exact ⟨_, _, h1, h2.cell⟩

/-- **The lists of tasks stay in order**, and the others are left alone. -/
theorem KernelOk.kept {a : Nat × Kernel.KernelOp} (hk : KernelOk k all ts) (ha : KeepsLists k a)
    (hs : k.step g a = some k') : ∃ all' ts', KernelOk k' all' ts' ∧ Quiet k k' := by
  obtain ⟨n, op⟩ := a
  cases op with
  | scheduleTask t =>
    obtain ⟨ts', h1⟩ := scheduleTask_kept hk (hk.live_iff.mp ha) hs
    exact ⟨all, ts', h1, (scheduleTask_ready hk.ready hs).quiet⟩
  | scheduleTaskId id =>
    obtain ⟨us, h2⟩ := scheduleTaskId_step hk.ready hs
    obtain ⟨r, hf, hs⟩ := Option.bind_eq_some_iff.mp hs
    cases r with
    | none =>
      cases hs
      exact ⟨all, ts, hk, Quiet.refl k⟩
    | some t =>
      have h0 := hk.setTask (x := { k.task t with state := .readyToRun }) t rfl
      obtain ⟨ts', h1⟩ := scheduleTask_kept h0 ((hk.getTask hf).1 t rfl).1 hs
      exact ⟨all, ts', h1, h2.quiet⟩
  | suspendTask id s => exact ⟨all, ts, suspendTask_kept hk hs, (suspendTask_step hk.ready hs).quiet⟩
  | scheduleTaskFunction i f =>
    obtain ⟨t, ht, hs⟩ := Option.bind_eq_some_iff.mp hs
    obtain ⟨hl, hq⟩ := ha t ht
    have hm := hk.live_iff.mp hl
    have h0 := hk.setTask (x := { k.task t with state := .readyToRun }) t rfl
    have s0 := setState_step hk.ready t .readyToRun
    cases f with
    | wakeUp =>
      obtain ⟨ts', h1⟩ := scheduleTask_kept h0 hm hs
      exact ⟨all, ts', h1, (s0.trans (scheduleTask_ready h0.ready hs)).quiet⟩
    | immediate =>
      have s1 := scheduleTaskNext_ready h0.ready fun h => hq rfl (hk.ready.queued_iff.mpr h)
      have h1 := h0.step s1 (fun _ => rfl) fun u hu => by
        obtain rfl | hu := List.mem_cons.mp hu
        · exact hm
        · exact hk.listed u hu
      obtain ⟨ts', h2, -⟩ := scheduler_kept h1 hs
      obtain ⟨us, s2⟩ := scheduler_step h1.ready hs
      exact ⟨all, ts', h2, ((s0.trans s1).trans s2).quiet⟩
  | getNextTask =>
    obtain ⟨p, hp, rfl⟩ := Option.map_eq_some_iff.mp hs
    obtain ⟨-, ts', -, h1, -⟩ := getNextTask_cases hk hp
    obtain ⟨us, h2⟩ := getNextTask_step hk.ready hp
    exact ⟨all, ts', h1, h2.quiet⟩
  | scheduler =>
    obtain ⟨ts', h1, -⟩ := scheduler_kept hk hs
    obtain ⟨us, h2⟩ := scheduler_step hk.ready hs
    exact ⟨all, ts', h1, h2.quiet⟩
  | startTask id params =>
    obtain ⟨r, hf, hs⟩ := Option.bind_eq_some_iff.mp hs
    cases r with
    | none =>
      cases hs
      exact ⟨all, ts, hk, Quiet.refl k⟩
    | some t =>
      have h0 := hk.setTask (x := (k.task t).start params) t rfl
      obtain ⟨ts', h1⟩ := scheduleTask_kept h0 ((hk.getTask hf).1 t rfl).1 hs
      have s0 : ReadyStep k (k.setTask t ((k.task t).start params)) ts :=
        ReadyStep.of_eq hk.ready rfl rfl
      exact ⟨all, ts', h1, (s0.trans (scheduleTask_ready h0.ready hs)).quiet⟩
  | destroyTask id => exact destroyTask_kept hk ha hs

end

end SierraTee
