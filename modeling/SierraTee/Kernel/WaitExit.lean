import SierraTee.Kernel.Destroy

/-!
# Waiting for the end of a task

* `waiter_suspended`  a waiting task stays suspended while its target goes on;
* `wait_missing`      a task that waits for one that does not exist.
-/

namespace SierraTee
open Function Rings Runs

namespace Kernel

inductive WaitOp where
  | scheduler
  | wait (id : Int)
  | destroyTask (id : Int)

/-- an operation with as many rounds as it gets for its loops -/
def waitStep (g : GuestConfig) (k : Kernel) (a : Nat × WaitOp) : Option Kernel :=
  match a.2 with
  | .scheduler => k.scheduler a.1 g
  | .wait id => k.syscallWait a.1 id
  | .destroyTask id => k.destroyTask a.1 id

end Kernel

/-! ## The waiting tasks -/

/-- the list of the tasks that wait for the end of `t`, with one of them at most -/
structure WaitList (k : Kernel) (t : TaskPtr) (ow : Option TaskPtr) : Prop where
  ring : Ring k.links (.taskWaitList t) (ow.toList.map fun _ => .waitHead t)
  head : k.data (.taskWaitList t) = none
  data : ∀ w, ow = some w → k.data (.waitHead t) = some w

/-- each list of waiting tasks has at most one, which is suspended and not queued -/
structure WaitOk (k : Kernel) (all ts : List TaskPtr) : Prop where
  ok : KernelOk k all ts
  lists : ∀ t ∈ all, ∃ ow, WaitList k t ow
  blocked : ∀ t ∈ all, ∀ w ∈ all, WaitsFor k w t →
    w ≠ t ∧ Idle k ts w ∧ (k.task w).state = .suspend
  unique : ∀ t ∈ all, ∀ u ∈ all, ∀ w ∈ all, WaitsFor k w t → WaitsFor k w u → t = u

/-- a task that is not queued waits for another one for which no task waits yet, and nobody waits for
a task that ends -/
def KeepsWaits (k : Kernel) (a : Nat × Kernel.WaitOp) : Prop :=
  match a.2 with
  | .scheduler => True
  | .wait id => ∀ c, Live k c → IsCurrent k c → ¬ Queued k c ∧ ∃ t, Live k t ∧
      ((k.task t).taskId : Int) = id ∧ t ≠ c ∧ k.linkEmpty (.taskWaitList t)
  | .destroyTask id => ∀ t, Live k t → ((k.task t).taskId : Int) = id → k.linkEmpty (.taskWaitList t)

section
variable {k k' k'' : Kernel} {all ts ts' : List TaskPtr} {t u w c : TaskPtr} {fuel : Nat}
  {g : GuestConfig} {id : Int} {ow : Option TaskPtr}

theorem WaitList.waiterIs (hw : WaitList k t ow) : WaiterIs k t ow := by
  cases ow with
  | none => exact decide_eq_true hw.ring.path.1
  | some w => exact ⟨hw.ring, hw.head, hw.data w rfl⟩

theorem WaitList.waitsFor (hw : WaitList k t ow) : WaitsFor k w t ↔ ow = some w :=
  hw.waiterIs.waitsFor

theorem WaitList.none_of_empty (hw : WaitList k t ow) (he : k.linkEmpty (.taskWaitList t)) :
    ow = none := by
  cases ow with
  | none => rfl
  | some w =>
    have h1 : k.links.next (.taskWaitList t) = .waitHead t := hw.ring.path.1.1
    simp [Kernel.linkEmpty, h1] at he

theorem WaitList.congr (hw : WaitList k t ow) (h1 : SameCell k k' (.taskWaitList t))
    (h2 : SameCell k k' (.waitHead t)) : WaitList k' t ow := by
  have h3 (y : Link) (hy : y ∈ Link.taskWaitList t :: ow.toList.map fun _ => .waitHead t) :
      SameCell k k' y := by
    obtain rfl | hy := List.mem_cons.mp hy
    · exact h1
    · obtain ⟨-, -, rfl⟩ := List.mem_map.mp hy
      exact h2
  refine ⟨hw.ring.congr (fun y hy => (h3 y hy).1) fun y hy => (h3 y hy).2.1, ?_, fun w h => ?_⟩
  · rw [h1.2.2]
    exact hw.head
  · rw [h2.2.2]
    exact hw.data w h

theorem WaitList.quiet (hw : WaitList k t ow) (hs : Quiet k k') : WaitList k' t ow :=
  hw.congr (hs _ (by simp [Link.kind]) (by simp [Link.kind]))
    (hs _ (by simp [Link.kind]) (by simp [Link.kind]))

theorem WaitOk.waitsFor (hk : WaitOk k all ts) (ht : t ∈ all) (hs : Quiet k k') :
    WaitsFor k' w t ↔ WaitsFor k w t := by
  obtain ⟨ow, h⟩ := hk.lists t ht
  rw [h.waitsFor, (h.quiet hs).waitsFor]

/-- what a step does to the tasks other than `gone`, and to those that wait for each other -/
structure WaitStep (k k' : Kernel) (all all' : List TaskPtr) (gone : TaskPtr → Prop) : Prop where
  stay : ∀ u ∈ all, ¬ gone u → u ∈ all' ∧ (k'.task u).taskId = (k.task u).taskId
  waits : ∀ t ∈ all, ∀ w ∈ all, ¬ gone t → ¬ gone w → WaitsFor k w t → WaitsFor k' w t

/-! ## Steps -/

theorem WaitOk.scheduler (hk : WaitOk k all ts) (hs : k.scheduler fuel g = some k') :
    ∃ ts', WaitOk k' all ts' ∧ WaitStep k k' all all fun _ => False := by
  obtain ⟨us, h1⟩ := scheduler_step hk.ok.ready hs
  have hq := h1.quiet
  obtain ⟨ts', h2, hidle⟩ := scheduler_kept hk.ok hs
  have hw (t w : TaskPtr) (ht : t ∈ all) : WaitsFor k' w t ↔ WaitsFor k w t := hk.waitsFor ht hq
  refine ⟨ts', ⟨h2, fun t ht => ?_, fun t ht w hm h => ?_, fun t ht u hu w hm h h' => ?_⟩,
    ⟨fun u hu _ => ⟨hu, ?_⟩, fun t ht w _ _ _ h => (hw t w ht).mpr h⟩⟩
  · obtain ⟨ow, h⟩ := hk.lists t ht
    exact ⟨ow, h.quiet hq⟩
  · obtain ⟨h3, h4, h5⟩ := hk.blocked t ht w hm ((hw t w ht).mp h)
    obtain ⟨h6, h7⟩ := hidle w hm h4
    exact ⟨h3, h6, h7.trans h5⟩
  · exact hk.unique t ht u hu w hm ((hw t w ht).mp h) ((hw u w hu).mp h')
  · exact scheduler_taskId hk.ok.ready hs u

theorem addToWaitList_list (hw : WaitList k t none) (w : TaskPtr) :
    WaitList (k.addToWaitList (some t) (some w)) t (some w) := by
  have h1 := hw.ring.addHead (x := Link.waitHead t) (by simp)
  refine ⟨h1, ?_, fun v hv => ?_⟩
  · show update k.data (.waitHead t) (some w) (.taskWaitList t) = none
    rw [update_of_ne (by simp)]
    exact hw.head
  · cases hv
    exact update_self ..

theorem addToWaitList_cell (hw : WaitList k t none) (w : TaskPtr) {l : Link}
    (h1 : l ≠ .taskWaitList t) (h2 : l ≠ .waitHead t) :
    SameCell k (k.addToWaitList (some t) (some w)) l := by
  obtain ⟨h3, h4⟩ := insert_cell (k := k) (q := k.links.next (.taskWaitList t)) h1
    (by rwa [hw.ring.path.1]) h2
  exact ⟨h3, h4, update_of_ne h2 ..⟩

theorem WaitOk.wait (hk : WaitOk k all ts) (hc : c ∈ all) (hcur : IsCurrent k c) (hq : c ∉ ts)
    (ht : t ∈ all) (hid : ((k.task t).taskId : Int) = id) (hne : t ≠ c)
    (hempty : k.linkEmpty (.taskWaitList t)) (hs : k.syscallWait fuel id = some k') :
    WaitOk k' all ts ∧ WaitsFor k' c t ∧ WaitStep k k' all all fun _ => False := by
  obtain ⟨r, hr, hs⟩ := Option.bind_eq_some_iff.mp hs
  obtain ⟨r', hr', hs⟩ := Option.bind_eq_some_iff.mp hs
  obtain ⟨c', rfl, hs⟩ := Option.bind_eq_some_iff.mp hs
  obtain h0 := hk.ok.found hc hcur hr
  cases h0
  obtain rfl := hk.ok.found ht hid hr'
  obtain ⟨ow, hlist⟩ := hk.lists t ht
  obtain rfl := hlist.none_of_empty hempty
  have hlist' := addToWaitList_list hlist c
  have hcell (l : Link) (h1 : l ≠ .taskWaitList t) (h2 : l ≠ .waitHead t) :=
    addToWaitList_cell hlist c h1 h2
  have hout : OuterOnly k (k.addToWaitList (some t) (some c)) := by
    intro l hl
    refine hcell l ?_ ?_ <;>
    · rintro rfl
      cases hl
  have hok := hk.ok.outer hout fun _ => rfl
  have heq := suspendTask_found hok hc rfl hs
  rw [if_pos ⟨hcur.symm, rfl⟩] at heq
  have hok' := suspendTask_kept hok hs
  have htask (u : TaskPtr) : (k'.task u).taskId = (k.task u).taskId := by
    rw [heq]
    exact Kernel.setState_taskId ..
  have hidle (u : TaskPtr) : ¬ IsCurrent k' u := by
    intro h
    have h1 : ((k'.task u).taskId : Int) = -1 := by
      rw [h, heq]
    omega
  have hstate (u : TaskPtr) (h : u = c ∨ (k.task u).state = .suspend) :
      (k'.task u).state = .suspend := by
    rw [heq]
    show ((Kernel.setState _ c .suspend).task u).state = _
    rw [Kernel.setState_state]
    split_ifs with h1
    · rfl
    · exact h.resolve_left h1
  have hother (u : TaskPtr) (hu : u ≠ t) {ow : Option TaskPtr} (h : WaitList k u ow) :
      WaitList k' u ow := by
    have h1 := h.congr (hcell _ (by simpa using hu) (by simp)) (hcell _ (by simp) (by simpa using hu))
    rw [heq]
    exact ⟨h1.ring, h1.head, h1.data⟩
  have hself : WaitList k' t (some c) := by
    rw [heq]
    exact ⟨hlist'.ring, hlist'.head, hlist'.data⟩
  have hw (u w : TaskPtr) (hu : u ∈ all) (hne' : u ≠ t) : WaitsFor k' w u ↔ WaitsFor k w u := by
    obtain ⟨ow, h⟩ := hk.lists u hu
    rw [h.waitsFor, (hother u hne' h).waitsFor]
  have hwt (w : TaskPtr) (h : WaitsFor k' w t) : w = c := (Option.some.inj (hself.waitsFor.mp h)).symm
  have hold (u w : TaskPtr) (hu : u ∈ all) (hne' : u ≠ t) (hm : w ∈ all) (h : WaitsFor k' w u) :
      w ≠ c := by
    rintro rfl
    exact (hk.blocked u hu w hm ((hw u w hu hne').mp h)).2.1.2 hcur
  refine ⟨⟨hok', fun u hu => ?_, fun u hu w hm h => ?_, fun u hu v hv w hm h h' => ?_⟩,
    hself.waitsFor.mpr rfl, ⟨fun u hu _ => ⟨hu, htask u⟩, fun u hu w _ _ _ h => ?_⟩⟩
  · by_cases e : u = t
    · rw [e]
      exact ⟨_, hself⟩
    · obtain ⟨ow, h⟩ := hk.lists u hu
      exact ⟨ow, hother u e h⟩
  · by_cases e : u = t
    · rw [e] at h ⊢
      rw [hwt w h]
      exact ⟨hne.symm, ⟨hq, hidle c⟩, hstate c (Or.inl rfl)⟩
    · obtain ⟨h1, h2, h3⟩ := hk.blocked u hu w hm ((hw u w hu e).mp h)
      exact ⟨h1, ⟨h2.1, hidle w⟩, hstate w (Or.inr h3)⟩
  · by_cases e : u = t
    · by_cases e' : v = t
      · rw [e, e']
      · rw [e] at h
        exact absurd (hwt w h) (hold v w hv e' hm h')
    · by_cases e' : v = t
      · rw [e'] at h'
        exact absurd (hwt w h') (hold u w hu e hm h)
      · exact hk.unique u hu v hv w hm ((hw u w hu e).mp h) ((hw v w hv e').mp h')
  · have e : u ≠ t := by
      rintro rfl
      have h1 := hlist.waitsFor.mp h
      cases h1
    exact (hw u w hu e).mpr h

theorem WaitOk.destroyTask (hk : WaitOk k all ts) (ht : t ∈ all)
    (hid : ((k.task t).taskId : Int) = id) (hlive : ∀ w, WaitsFor k w t → w ∈ all)
    (hs : k.destroyTask fuel id = some k') : ∃ all' ts', WaitOk k' all' ts' ∧
      (∀ w ∈ all, w ≠ t → (w ∈ ts' ↔ w ∈ ts ∨ WaitsFor k w t) ∧ k'.task w = k.task w) ∧
      WaitStep k k' all all' fun u => u = t := by
  obtain ⟨ow, hlist⟩ := hk.lists t ht
  have how (w : TaskPtr) (h : ow = some w) : w ∈ all ∧ w ∉ ts ∧ w ≠ t := by
    have h1 := hlist.waitsFor.mpr h
    obtain ⟨h2, h3, -⟩ := hk.blocked t ht w (hlive w h1) h1
    exact ⟨hlive w h1, h3.1, h2⟩
  obtain ⟨h1, h2⟩ := destroyTask_ok hk.ok ht hid hlist.waiterIs how hs
  have hq : Quiet k k' := h2.cell
  have hmem (u : TaskPtr) : u ∈ all.erase t ↔ u ≠ t ∧ u ∈ all :=
    List.Nodup.mem_erase_iff hk.ok.tasks.nodup
  have hw (u w : TaskPtr) (hu : u ∈ all) : WaitsFor k' w u ↔ WaitsFor k w u := hk.waitsFor hu hq
  refine ⟨_, _, ⟨h1, fun u hu => ?_, fun u hu w hm h => ?_, fun u hu v hv w hm h h' => ?_⟩,
    fun w hm hne => ⟨?_, h2.task w hne⟩, ⟨fun u hu hne => ⟨(hmem u).mpr ⟨hne, hu⟩, ?_⟩,
      fun u hu w _ _ _ h => (hw u w hu).mpr h⟩⟩
  · obtain ⟨ow', h⟩ := hk.lists u ((hmem u).mp hu).2
    exact ⟨ow', h.quiet hq⟩
  · obtain ⟨hne, hu⟩ := (hmem u).mp hu
    obtain ⟨hne', hm⟩ := (hmem w).mp hm
    have h3 := (hw u w hu).mp h
    obtain ⟨h4, h5, h6⟩ := hk.blocked u hu w hm h3
    refine ⟨h4, ⟨fun h7 => ?_, ?_⟩, by rwa [h2.task w hne']⟩
    · obtain h7 | h7 := List.mem_append.mp h7
      · have h8 := hlist.waitsFor.mpr (by simpa using h7)
        exact hne (hk.unique u hu t ht w hm h3 h8)
      · exact h5.1 (List.mem_of_mem_erase h7)
    · unfold IsCurrent
      rw [h2.task w hne', h2.currentTaskId]
      exact h5.2
  · obtain ⟨-, hu⟩ := (hmem u).mp hu
    obtain ⟨-, hv⟩ := (hmem v).mp hv
    exact hk.unique u hu v hv w ((hmem w).mp hm).2 ((hw u w hu).mp h) ((hw v w hv).mp h')
  · rw [List.mem_append, List.mem_erase_of_ne hne, hlist.waitsFor, Option.mem_toList, or_comm]
  · rw [h2.task u hne]

theorem WaitOk.nobody (hk : WaitOk k all ts) (ht : t ∈ all) (he : k.linkEmpty (.taskWaitList t))
    (w : TaskPtr) : ¬ WaitsFor k w t := by
  obtain ⟨ow, h⟩ := hk.lists t ht
  rw [h.waitsFor, h.none_of_empty he]
  exact fun h => by cases h

theorem WaitStep.mono {all' : List TaskPtr} {p q : TaskPtr → Prop} (hs : WaitStep k k' all all' p)
    (h : ∀ u, p u → q u) : WaitStep k k' all all' q :=
  ⟨fun u hu hn => hs.stay u hu fun hp => hn (h u hp),
    fun t ht w hw h1 h2 => hs.waits t ht w hw (fun hp => h1 (h t hp)) fun hp => h2 (h w hp)⟩

def Ends (k : Kernel) (a : Nat × Kernel.WaitOp) (u : TaskPtr) : Prop :=
  a.2 = .destroyTask (k.task u).taskId

theorem WaitOk.step {a : Nat × Kernel.WaitOp} (hk : WaitOk k all ts) (ha : KeepsWaits k a)
    (hs : k.waitStep g a = some k') :
    ∃ all' ts', WaitOk k' all' ts' ∧ WaitStep k k' all all' (Ends k a) := by
  obtain ⟨n, op⟩ := a
  cases op with
  | scheduler =>
    obtain ⟨ts', h1, h2⟩ := hk.scheduler hs
    exact ⟨all, ts', h1, h2.mono fun _ => False.elim⟩
  | wait id =>
    obtain ⟨r, hr, hs'⟩ := Option.bind_eq_some_iff.mp hs
    obtain ⟨r', hr', hs'⟩ := Option.bind_eq_some_iff.mp hs'
    obtain ⟨c, rfl, -⟩ := Option.bind_eq_some_iff.mp hs'
    obtain ⟨hc, hcur⟩ := (hk.ok.getTask hr).1 c rfl
    obtain ⟨hq, t, ht, hid, hne, hempty⟩ := ha c (hk.ok.live_iff.mpr hc) hcur
    obtain ⟨h1, -, h2⟩ := hk.wait hc hcur (fun h => hq (hk.ok.ready.queued_iff.mpr h))
      (hk.ok.live_iff.mp ht) hid hne hempty hs
    exact ⟨all, ts, h1, h2.mono fun _ => False.elim⟩
  | destroyTask id =>
    obtain ⟨r, hr, -⟩ := Option.bind_eq_some_iff.mp hs
    cases r with
    | none =>
      have h1 : k.destroyTask n id = some k := Option.bind_eq_some_iff.mpr ⟨none, hr, rfl⟩
      cases h1.symm.trans hs
      exact ⟨all, ts, hk, ⟨fun u hu _ => ⟨hu, rfl⟩, fun t _ w _ _ _ h => h⟩⟩
    | some t =>
      obtain ⟨ht, hid⟩ := (hk.ok.getTask hr).1 t rfl
      have hnone (w : TaskPtr) : ¬ WaitsFor k w t := hk.nobody ht (ha t (hk.ok.live_iff.mpr ht) hid) w
      obtain ⟨all', ts', h1, -, h2⟩ := hk.destroyTask ht hid (fun w hw => absurd hw (hnone w)) hs
      refine ⟨all', ts', h1, h2.mono fun u hu => ?_⟩
      unfold Ends
      rw [hu, hid]

/-! ## Runs -/

theorem WaitOk.run {l : List (Nat × Kernel.WaitOp)} (hk : WaitOk k all ts)
    (hl : Along (Kernel.waitStep g) KeepsWaits k l)
    (hrun : run (Kernel.waitStep g) k l = some k') : ∃ all' ts', WaitOk k' all' ts' :=
  run_invariant (fun k => ∃ all ts, WaitOk k all ts)
    (fun k a k' h ha hs => by
      obtain ⟨all, ts, h⟩ := h
      obtain ⟨all', ts', h1, -⟩ := h.step ha hs
      exact ⟨all', ts', h1⟩) ⟨all, ts, hk⟩ hl hrun

structure Waiting (k : Kernel) (c t : TaskPtr) (cid id : Int) (all ts : List TaskPtr) : Prop where
  ok : WaitOk k all ts
  caller : c ∈ all
  target : t ∈ all
  waits : WaitsFor k c t
  callerId : ((k.task c).taskId : Int) = cid
  targetId : ((k.task t).taskId : Int) = id

/-- a step that keeps the lists, in which the task with the id does not end -/
def KeepsCaller (cid : Int) (k : Kernel) (a : Nat × Kernel.WaitOp) : Prop :=
  KeepsWaits k a ∧ a.2 ≠ .destroyTask cid

theorem Waiting.step {a : Nat × Kernel.WaitOp} {cid : Int} (hk : Waiting k c t cid id all ts)
    (ha : KeepsCaller cid k a) (hs : k.waitStep g a = some k') :
    ∃ all' ts', Waiting k' c t cid id all' ts' := by
  obtain ⟨all', ts', h1, h2⟩ := hk.ok.step ha.1 hs
  have hc : ¬ Ends k a c := by
    unfold Ends
    rw [hk.callerId]
    exact ha.2
  have ht : ¬ Ends k a t := by
    intro he
    have h3 := ha.1
    unfold KeepsWaits at h3
    rw [he] at h3
    exact hk.ok.nobody hk.target (h3 t (hk.ok.ok.live_iff.mpr hk.target) rfl) c hk.waits
  obtain ⟨h3, h4⟩ := h2.stay c hk.caller hc
  obtain ⟨h5, h6⟩ := h2.stay t hk.target ht
  refine ⟨all', ts', h1, h3, h5, h2.waits t hk.target c hk.caller ht hc hk.waits, ?_, ?_⟩
  · rw [h4]
    exact hk.callerId
  · rw [h6]
    exact hk.targetId

/-- the end of every task is reached -/
def EndsReached (k : Kernel) : Prop :=
  ∀ u, Live k u → (∀ w, WaitsFor k w u → Live k w) →
    ∃ m, ∀ n, m ≤ n → ∃ k', k.destroyTask n (k.task u).taskId = some k'

theorem WaitOk.endsReached (hk : WaitOk k all ts) : EndsReached k := by
  intro u hu _
  have hm := hk.ok.live_iff.mp hu
  obtain ⟨ow, h⟩ := hk.lists u hm
  refine ⟨all.length + 2, fun n hn => ?_⟩
  obtain ⟨n, rfl⟩ := Nat.exists_eq_add_of_le' (by omega : 1 ≤ n)
  exact destroyTask_some hk.ok hm rfl h.waiterIs (by omega)

/-- the end of the target would queue the caller once, but leave it suspended: the state that is set
is that of the target -/
def Released (k : Kernel) (c : TaskPtr) (id : Int) : Prop :=
  ∃ m, ∀ n, m ≤ n → ∃ k' ts', k.destroyTask n id = some k' ∧ ReadyOk k' ts' ∧ ts'.count c = 1 ∧
    (k'.task c).state = .suspend

theorem Waiting.released {cid : Int} (hk : Waiting k c t cid id all ts) : Released k c id := by
  obtain ⟨hne, -, hstate⟩ := hk.ok.blocked t hk.target c hk.caller hk.waits
  refine ⟨all.length + 2, fun n hn => ?_⟩
  obtain ⟨n, rfl⟩ := Nat.exists_eq_add_of_le' (by omega : 1 ≤ n)
  obtain ⟨ow, h1⟩ := hk.ok.lists t hk.target
  have hlive (w : TaskPtr) (hw : WaitsFor k w t) : w ∈ all := by
    have h2 := (h1.waitsFor.mp hk.waits).symm.trans (h1.waitsFor.mp hw)
    rw [← Option.some.inj h2]
    exact hk.caller
  obtain ⟨k', h2⟩ := destroyTask_some hk.ok.ok hk.target hk.targetId h1.waiterIs
    (by omega : all.length < n)
  obtain ⟨all', ts', h3, h4, -⟩ := hk.ok.destroyTask hk.target hk.targetId hlive h2
  obtain ⟨h5, h6⟩ := h4 c hk.caller hne
  refine ⟨k', ts', h2, h3.ok.ready, List.count_eq_one_of_mem h3.ok.ready.nodup ?_, ?_⟩
  · exact h5.mpr (Or.inr hk.waits)
  · rw [h6]
    exact hstate

/-- **A waiting task stays suspended** and is not queued while its target goes on, the ends of all
tasks are reached, and the end of a target never makes the waiting task ready. -/
theorem waiter_suspended {l : List (Nat × Kernel.WaitOp)} (hk : WaitOk k all ts)
    (hl : Along (Kernel.waitStep g) KeepsWaits k l)
    (hrun : run (Kernel.waitStep g) k l = some k') :
    EndsReached k' ∧ ∀ n id m k1 k2, KeepsWaits k' (n, .wait id) →
      k'.waitStep g (n, .wait id) = some k1 →
      Along (Kernel.waitStep g) (KeepsCaller k'.currentTaskId) k1 m →
      run (Kernel.waitStep g) k1 m = some k2 → ∃ c, Live k' c ∧ IsCurrent k' c ∧
        (k2.task c).state = .suspend ∧ ¬ Queued k2 c ∧ Released k2 c id := by
  obtain ⟨all', ts', h1⟩ := hk.run hl hrun
  refine ⟨h1.endsReached, fun n id m k1 k2 ha hs hm hrun2 => ?_⟩
  obtain ⟨r, hr, hs'⟩ := Option.bind_eq_some_iff.mp hs
  obtain ⟨r', -, hs'⟩ := Option.bind_eq_some_iff.mp hs'
  obtain ⟨c, rfl, -⟩ := Option.bind_eq_some_iff.mp hs'
  obtain ⟨hc, hcur⟩ := (h1.ok.getTask hr).1 c rfl
  obtain ⟨hq, t, ht, hid, hne, hempty⟩ := ha c (h1.ok.live_iff.mpr hc) hcur
  have ht' := h1.ok.live_iff.mp ht
  obtain ⟨h2, h3, h4⟩ := h1.wait hc hcur (fun h => hq (h1.ok.ready.queued_iff.mpr h)) ht' hid hne
    hempty hs
  have h5 (u : TaskPtr) (hu : u ∈ all') := (h4.stay u hu fun h => h).2
  have h6 : Waiting k1 c t k'.currentTaskId id all' ts' := by
    refine ⟨h2, hc, ht', h3, ?_, ?_⟩
    · rw [h5 c hc]
      exact hcur
    · rw [h5 t ht']
      exact hid
  obtain ⟨all2, ts2, h7⟩ := run_invariant
    (fun k => ∃ all ts, Waiting k c t k'.currentTaskId id all ts)
    (fun k a k' h ha hs => by
      obtain ⟨all, ts, h⟩ := h
      exact h.step ha hs) ⟨all', ts', h6⟩ hm hrun2
  obtain ⟨-, hidle, hstate⟩ := h7.ok.blocked t h7.target c h7.caller h7.waits
  exact ⟨c, h1.ok.live_iff.mpr hc, hcur, hstate,
    fun h => hidle.1 (h7.ok.ok.ready.queued_iff.mp h), h7.released⟩

end

/-! ## Runs with and without a target -/

theorem twoTasks_wait : WaitOk twoTasks [1, 2] [2] := by
  have hl (t : TaskPtr) (ht : t ∈ [1, 2]) : WaitList twoTasks t none := by
    simp only [List.mem_cons, List.not_mem_nil, or_false] at ht
    obtain rfl | rfl := ht
    · exact ⟨⟨⟨rfl, rfl⟩, by simp⟩, rfl, by simp⟩
    · exact ⟨⟨⟨rfl, rfl⟩, by simp⟩, rfl, by simp⟩
  have hno (t w : TaskPtr) (ht : t ∈ [1, 2]) : ¬ WaitsFor twoTasks w t := by
    rw [(hl t ht).waitsFor]
    simp
  exact ⟨twoTasks_ok, fun t ht => ⟨none, hl t ht⟩, fun t ht w _ h => absurd h (hno t w ht),
    fun t ht u _ w _ h => absurd h (hno t w ht)⟩

/-- task 1 waits for the end of task 2, which is scheduled -/
theorem waiter_suspended_twoTasks : ∃ k1 k2, twoTasks.waitStep ⟨false⟩ (3, .wait 2) = some k1 ∧
    run (Kernel.waitStep ⟨false⟩) k1 [(9, .scheduler)] = some k2 ∧
    ∃ c, Live twoTasks c ∧ IsCurrent twoTasks c ∧ (k2.task c).state = .suspend ∧ ¬ Queued k2 c ∧
      Released k2 c 2 := by
  have h1 : ((twoTasks.waitStep ⟨false⟩ (3, .wait 2)).bind fun k1 =>
      run (Kernel.waitStep ⟨false⟩) k1 [(9, .scheduler)]).isSome := by decide
  obtain ⟨k2, hrun⟩ := Option.isSome_iff_exists.mp h1
  obtain ⟨k1, hk, hrun⟩ := Option.bind_eq_some_iff.mp hrun
  have h2 : KeepsWaits twoTasks (3, .wait 2) := by
    intro c hc hcur
    have h3 : c = 1 := twoTasks_ok.ids c (twoTasks_ok.live_iff.mp hc) 1 (by simp) (Int.ofNat.inj hcur)
    refine ⟨?_, 2, twoTasks_ok.live_iff.mpr (by simp), rfl, by simp [h3], rfl⟩
    rw [twoTasks_ok.ready.queued_iff, h3]
    simp
  exact ⟨k1, k2, hk, hrun, (waiter_suspended (g := ⟨false⟩) twoTasks_wait (l := []) trivial rfl).2 3 2
    [(9, .scheduler)] k1 k2 h2 hk (along_singleton ⟨trivial, nofun⟩) hrun⟩

/-- task 1 waits for a task that does not exist, and it is suspended -/
theorem wait_missing : WaitOk twoTasks [1, 2] [2] ∧ IsCurrent twoTasks 1 ∧
    twoTasks.getTask 3 7 = some none ∧ ∃ k1, twoTasks.waitStep ⟨false⟩ (3, .wait 7) = some k1 ∧
      (k1.task 1).state = .suspend ∧ k1.currentTaskId = -1 := by
  have h : (twoTasks.waitStep ⟨false⟩ (3, .wait 7)).map
      (fun k => ((k.task 1).state, k.currentTaskId)) = some (.suspend, -1) := by decide
  obtain ⟨k1, hk, h1⟩ := Option.map_eq_some_iff.mp h
  obtain ⟨h2, h3⟩ := Prod.mk.inj h1
  exact ⟨twoTasks_wait, rfl, by decide, k1, hk, h2, h3⟩

end SierraTee
