import SierraTee.Kernel.ReadyQueue
import Mathlib.Data.List.Count

/-!
# The choice of the next task

* `getNextTask_some`           the choice is made with as many rounds as there are tasks;
* `getNextTask_conserved_iff`  when no task is lost or duplicated by it;
* `requeued_twice`             a current task that is chosen again and is in the list as well.
-/

namespace SierraTee
open Rings

/-- the tasks `all` exist and have different ids, and `ts` of them are in the ready list -/
structure KernelOk (k : Kernel) (all ts : List TaskPtr) : Prop where
  tasks : TasksOk k all
  ready : ReadyOk k ts
  listed : ∀ t ∈ ts, t ∈ all
  ids : ∀ t ∈ all, ∀ u ∈ all, (k.task t).taskId = (k.task u).taskId → t = u

section
variable {k k' : Kernel} {all ts ts' : List TaskPtr} {t : TaskPtr} {fuel : Nat} {g : GuestConfig}
  {c next : Option TaskPtr}

/-! ## The choice is made -/

theorem KernelOk.length_le (hk : KernelOk k all ts) : ts.length ≤ all.length :=
  (List.subperm_of_subset hk.ready.nodup hk.listed).length_le

theorem KernelOk.current (hk : KernelOk k all ts) (hf : all.length < fuel) :
    ∃ c, k.getCurrentTask fuel = some c ∧ ∀ u, c = some u →
      u ∈ all ∧ ((k.task u).taskId : Int) = k.currentTaskId := by
  refine ⟨_, hk.tasks.find_some hf, fun u hu => ⟨List.mem_of_find?_eq_some hu, ?_⟩⟩
  simpa using List.find?_some hu

theorem scheduleTask_some (hr : ReadyOk k ts) (hf : ts.length < fuel) (t : TaskPtr) :
    ∃ k', k.scheduleTask fuel t = some k' := by
  unfold Kernel.scheduleTask
  rw [hr.find_some hf]
  cases ts.find? _ with
  | none => exact ⟨_, rfl⟩
  | some u => exact ⟨_, rfl⟩

theorem requeue_some (hr : ReadyOk k ts) (hf : ts.length < fuel) (c : Option TaskPtr) :
    ∃ k', k.requeue fuel g c = some k' := by
  cases c with
  | none => exact ⟨k, rfl⟩
  | some c =>
    have h1 : k.findTask fuel .readyToRunList (k.task c).taskId = _ := hr.find_some hf
    generalize (ts.find? fun t => ((k.task t).taskId : Int) = (k.task c).taskId) = r at h1
    cases r with
    | some u => exact ⟨k, Option.bind_eq_some_iff.mpr ⟨_, h1, rfl⟩⟩
    | none =>
      obtain ⟨k', h2⟩ := scheduleTask_some hr hf c
      cases hg : k.runnable g c with
      | true => exact ⟨k', Option.bind_eq_some_iff.mpr ⟨_, h1, by simp only [hg, if_true, h2]⟩⟩
      | false => exact ⟨k, Option.bind_eq_some_iff.mpr ⟨_, h1, by rw [hg]; rfl⟩⟩

theorem getNextTask_some (hk : KernelOk k all ts) (hf : all.length < fuel) :
    ∃ k' next, k.getNextTask fuel g = some (k', next) := by
  obtain ⟨c, hc, -⟩ := hk.current hf
  have hlen := hk.length_le
  have hr := hk.ready
  have hempty : k.linkEmpty .readyToRunList = true ↔ ts = [] := by
    simp [Kernel.linkEmpty, hr.ring.nil_iff]
  cases ts with
  | nil =>
    refine ⟨k, k.stayWith g c, Option.bind_eq_some_iff.mpr ⟨c, hc, ?_⟩⟩
    rw [if_pos (hempty.mpr rfl)]
  | cons t ts =>
    have h1 : ∃ k1 n us, k.takeFirst g (k.links.next .readyToRunList) = some (k1, n) ∧
        ReadyOk k1 us ∧ us.length < fuel := by
      rw [takeFirst_eq hr]
      rw [List.length_cons] at hlen
      cases hg : k.guestOk g t with
      | true =>
        have hr' : ReadyOk k ([] ++ t :: ts) := hr
        exact ⟨_, _, ts, rfl, (removeLink_ready hr').ready, by omega⟩
      | false => exact ⟨_, _, t :: ts, rfl, hr, by rw [List.length_cons]; omega⟩
    obtain ⟨k1, n, us, h1, h2, h3⟩ := h1
    obtain ⟨k2, h4⟩ := requeue_some (g := g) h2 h3 c
    refine ⟨k2, n, Option.bind_eq_some_iff.mpr ⟨c, hc, ?_⟩⟩
    rw [if_neg (by rw [hempty]; simp)]
    exact Option.bind_eq_some_iff.mpr ⟨_, h1, Option.bind_eq_some_iff.mpr ⟨k2, h4, rfl⟩⟩

/-! ## What becomes of the tasks -/

def InPlay (k : Kernel) (g : GuestConfig) (c : Option TaskPtr) (ts : List TaskPtr) (t : TaskPtr) :
    Prop :=
  t ∈ ts ∨ c = some t ∧ k.runnable g t

/-- `next` has been chosen, and `ts'` are left in the ready list -/
structure Conserved (k : Kernel) (g : GuestConfig) (c : Option TaskPtr) (ts : List TaskPtr)
    (next : Option TaskPtr) (ts' : List TaskPtr) : Prop where
  kept : ∀ t, InPlay k g c ts t → (next = some t ∧ t ∉ ts') ∨ (next ≠ some t ∧ ts'.count t = 1)
  order : (ts'.filter (· ∈ ts)).Sublist ts
  null : next = none → ∀ t, InPlay k g c ts t → k.guestOk g t = false

/-- the first queued task can be run and is not the current one, unless that is not to be kept; or
no task can be run -/
def FairNext (k : Kernel) (g : GuestConfig) (c : Option TaskPtr) : List TaskPtr → Prop
  | [] => True
  | t :: ts =>
    if k.guestOk g t then ¬ (c = some t ∧ k.runnable g t)
    else ∀ u, InPlay k g c (t :: ts) u → k.guestOk g u = false

theorem fairNext_of_ok (hg : k.guestOk g t) :
    FairNext k g c (t :: ts) = ¬ (c = some t ∧ k.runnable g t) := if_pos hg

theorem fairNext_of_not (hg : k.guestOk g t = false) :
    FairNext k g c (t :: ts) = ∀ u, InPlay k g c (t :: ts) u → k.guestOk g u = false :=
  if_neg (by rw [hg]; simp)

theorem conserved_of {next : Option TaskPtr} (hn : ts'.Nodup)
    (h : ∀ t, InPlay k g c ts t → (next = some t ∧ t ∉ ts') ∨ (next ≠ some t ∧ t ∈ ts'))
    (ho : (ts'.filter (· ∈ ts)).Sublist ts)
    (h0 : next = none → ∀ t, InPlay k g c ts t → k.guestOk g t = false) :
    Conserved k g c ts next ts' := by
  refine ⟨fun t ht => ?_, ho, h0⟩
  obtain h1 | ⟨h1, h2⟩ := h t ht
  · exact Or.inl h1
  · exact Or.inr ⟨h1, List.count_eq_one_of_mem hn h2⟩

theorem requeued_cases (k : Kernel) (g : GuestConfig) (ts : List TaskPtr) (c : Option TaskPtr) :
    k.requeued g ts c = ts ∨
    ∃ u, c = some u ∧ u ∉ ts ∧ k.requeued g ts c = ts ++ [u] := by
  cases c with
  | none => exact Or.inl rfl
  | some u =>
    show (if k.hasId u ts || !k.runnable g u then ts else ts ++ [u]) = ts ∨
      ∃ v, some u = some v ∧ v ∉ ts ∧
        (if k.hasId u ts || !k.runnable g u then ts else ts ++ [u]) = ts ++ [v]
    split_ifs with h
    · exact Or.inl rfl
    · rw [Bool.or_eq_true, not_or] at h
      exact Or.inr ⟨u, rfl, fun hu => h.1 (hasId_of_mem hu), rfl⟩

theorem requeued_nodup (hn : ts.Nodup) : (k.requeued g ts c).Nodup := by
  obtain h | ⟨u, -, hu, h⟩ := requeued_cases k g ts c
  · rwa [h]
  · rw [h, ← List.concat_eq_append]
    exact hn.concat hu

def OwnIds (k : Kernel) (c : Option TaskPtr) (ts : List TaskPtr) : Prop :=
  ∀ u, c = some u → ∀ t ∈ ts, (k.task t).taskId = (k.task u).taskId → t = u

theorem mem_requeued (hid : OwnIds k c ts) : t ∈ k.requeued g ts c ↔ InPlay k g c ts t := by
  cases c with
  | none =>
    show t ∈ ts ↔ _
    simp [InPlay]
  | some u =>
    show t ∈ (if k.hasId u ts || !k.runnable g u then ts else ts ++ [u]) ↔ _
    unfold InPlay
    cases hr : k.runnable g u with
    | false =>
      rw [Bool.not_false, Bool.or_true, if_pos rfl]
      refine ⟨Or.inl, fun h => h.resolve_right ?_⟩
      rintro ⟨h1, h2⟩
      cases h1
      rw [hr] at h2
      cases h2
    | true =>
      rw [Bool.not_true, Bool.or_false]
      split_ifs with h
      · obtain ⟨v, hv, h1⟩ := List.any_eq_true.mp h
        have h2 : v = u := hid u rfl v hv (by simpa using h1)
        refine ⟨Or.inl, fun h3 => h3.elim id ?_⟩
        rintro ⟨h4, -⟩
        cases h4
        rwa [← h2]
      · rw [List.mem_append, List.mem_singleton]
        refine ⟨fun h1 => h1.imp_right ?_, fun h1 => h1.imp_right ?_⟩
        · rintro rfl
          exact ⟨rfl, hr⟩
        · rintro ⟨h2, -⟩
          cases h2
          rfl

theorem requeued_order {us : List TaskPtr} (hs : ts.Sublist us)
    (h : ∀ u ∈ k.requeued g ts c, u ∉ ts → u ∉ us) :
    ((k.requeued g ts c).filter (· ∈ us)).Sublist us := by
  obtain h1 | ⟨u, -, hu, h1⟩ := requeued_cases k g ts c
  · rw [h1]
    exact List.filter_sublist.trans hs
  · have h2 : u ∉ us := h u (by rw [h1]; simp) hu
    rw [h1, List.filter_append, List.filter_cons_of_neg (by simpa using h2), List.filter_nil,
      List.append_nil]
    exact List.filter_sublist.trans hs

theorem choose_conserved_iff (hn : ts.Nodup) (hid : OwnIds k c ts) :
    Conserved k g c ts (k.choose g c ts).1 (k.choose g c ts).2 ↔ FairNext k g c ts := by
  cases ts with
  | nil =>
    refine ⟨fun _ => trivial, fun _ => conserved_of List.nodup_nil (fun t ht => ?_)
      (by simp [Kernel.choose]) fun h t ht => ?_⟩
    · obtain ht | ⟨rfl, hr⟩ := ht
      · cases ht
      · exact Or.inl ⟨if_pos hr, by simp [Kernel.choose]⟩
    · obtain ht | ⟨rfl, hr⟩ := ht
      · cases ht
      · exact absurd ((if_pos hr).symm.trans h) (by simp)
  | cons t ts =>
    obtain ⟨ht, hn'⟩ := List.nodup_cons.mp hn
    have hid' : OwnIds k c ts := fun u hu v hv => hid u hu v (List.mem_cons_of_mem _ hv)
    cases hg : k.guestOk g t with
    | true =>
      have hch : k.choose g c (t :: ts) = (some t, k.requeued g ts c) := if_pos hg
      rw [hch, fairNext_of_ok hg]
      refine ⟨fun hs hc => ?_, fun hc => conserved_of (requeued_nodup hn') (fun u hu => ?_) ?_ ?_⟩
      · have h1 := (mem_requeued (g := g) hid').mpr (Or.inr hc)
        obtain ⟨-, h2⟩ | ⟨h2, -⟩ := hs.kept t (Or.inl (by simp))
        · exact h2 h1
        · exact h2 rfl
      · by_cases e : u = t
        · rw [e, mem_requeued hid']
          exact Or.inl ⟨rfl, fun h => h.elim ht hc⟩
        · refine Or.inr ⟨fun h => e (Option.some.inj h).symm, (mem_requeued hid').mpr ?_⟩
          exact hu.imp_left fun h => (List.mem_cons.mp h).resolve_left e
      · refine requeued_order (List.sublist_cons_self ..) fun u hu h1 h2 => ?_
        obtain rfl | h2 := List.mem_cons.mp h2
        · exact hc (((mem_requeued hid').mp hu).resolve_left h1)
        · exact h1 h2
      · intro h
        cases h
    | false =>
      have hch : k.choose g c (t :: ts) = (none, k.requeued g (t :: ts) c) :=
        if_neg (by rw [hg]; simp)
      rw [hch, fairNext_of_not hg]
      refine ⟨fun hs => hs.null rfl, fun hc => conserved_of (requeued_nodup hn) (fun u hu => ?_) ?_
        fun _ => hc⟩
      · exact Or.inr ⟨by simp, (mem_requeued hid).mpr hu⟩
      · exact requeued_order (List.Sublist.refl _) fun u _ h1 => h1

/-- **When the scheduler loses and duplicates no task.** -/
theorem getNextTask_conserved_iff (hk : KernelOk k all ts) (hf : all.length < fuel) :
    ∃ c k' next ts', k.getCurrentTask fuel = some c ∧
      k.getNextTask fuel g = some (k', next) ∧ ReadyOk k' ts' ∧
      (Conserved k g c ts next ts' ↔ FairNext k g c ts) := by
  obtain ⟨c, hc, hcur⟩ := hk.current hf
  obtain ⟨k', next, h1⟩ := getNextTask_some (g := g) hk hf
  obtain ⟨c', hc', rfl, h2, -⟩ := getNextTask_ready hk.ready h1
  rw [hc] at hc'
  cases hc'
  refine ⟨c, k', _, _, hc, h1, h2.ready, choose_conserved_iff hk.ready.nodup fun u hu t ht h => ?_⟩
  exact hk.ids t (hk.listed t ht) u (hcur u hu).1 h

end

/-! ## The current task at the head of the ready list -/

/-- task 1 runs, and task 2 is queued -/
def twoTasks : Kernel :=
  { ((newKernel.enterTask 1).enterTask 2).scheduleTaskNext 2 with currentTaskId := 1 }.setState 1
    .running

theorem twoTasks_ok : KernelOk twoTasks [1, 2] [2] where
  tasks := ⟨⟨⟨⟨rfl, rfl⟩, ⟨rfl, rfl⟩, rfl, rfl⟩, by simp⟩, by simp; exact ⟨rfl, rfl⟩⟩
  ready := ⟨⟨⟨⟨rfl, rfl⟩, rfl, rfl⟩, by simp⟩, by simp; rfl⟩
  listed := by simp
  ids := by decide

theorem getNextTask_conserved_twoTasks : ∃ k' next ts',
    twoTasks.getNextTask 3 ⟨true⟩ = some (k', next) ∧ ReadyOk k' ts' ∧
      Conserved twoTasks ⟨true⟩ (some 1) [2] next ts' := by
  obtain ⟨c, k', next, ts', hc, h1, h2, h3⟩ :=
    getNextTask_conserved_iff (g := ⟨true⟩) twoTasks_ok (by decide : _ < 3)
  have h4 : twoTasks.getCurrentTask 3 = some (some 1) := by decide
  rw [h4] at hc
  cases hc
  have h5 : FairNext twoTasks ⟨true⟩ (some 1) [2] := by
    rw [fairNext_of_ok (by decide)]
    simp
  exact ⟨k', next, ts', h1, h2, h3.mpr h5⟩

/-- task 1 runs, and a wakeup has queued it -/
def currentQueued : Kernel :=
  { (newKernel.enterTask 1).scheduleTaskNext 1 with currentTaskId := 1 }.setState 1 .readyToRun

theorem requeued_twice : KernelOk currentQueued [1] [1] ∧
    currentQueued.getCurrentTask 3 = some (some 1) ∧ ∃ k' next ts',
      currentQueued.getNextTask 3 ⟨false⟩ = some (k', next) ∧ ReadyOk k' ts' ∧
        ¬ Conserved currentQueued ⟨false⟩ (some 1) [1] next ts' := by
  have hk : KernelOk currentQueued [1] [1] := by
    refine ⟨⟨⟨⟨⟨rfl, rfl⟩, rfl, rfl⟩, by simp⟩, by simp; rfl⟩,
      ⟨⟨⟨⟨rfl, rfl⟩, rfl, rfl⟩, by simp⟩, by simp; rfl⟩, by simp, by simp⟩
  have hc : currentQueued.getCurrentTask 3 = some (some 1) := by decide
  refine ⟨hk, hc, ?_⟩
  obtain ⟨k', next, h1⟩ := getNextTask_some (g := ⟨false⟩) hk (by decide : _ < 3)
  obtain ⟨c, hc', rfl, h2, -⟩ := getNextTask_ready hk.ready h1
  rw [hc] at hc'
  cases hc'
  have h3 : currentQueued.choose ⟨false⟩ (some 1) [1] = (some 1, [1]) := by decide
  rw [h3] at h1 h2
  refine ⟨k', some 1, [1], h1, h2.ready, fun h4 => ?_⟩
  obtain ⟨-, h5⟩ | ⟨h5, -⟩ := h4.kept 1 (Or.inl (by simp))
  · exact h5 (by simp)
  · exact h5 rfl

end SierraTee
