import SierraTee.Dispatch.Loop
import SierraTee.Kernel.Kept

/-!
# Ending another task (`SW_SYSCALL_KILL` in `sw_syscall_imp.c`, `secure_api.c`)

* `exitTask_ended`  what `exit_task` does to the task;
* `kill_right_iff`  the tests of the code are right exactly if `KillFits`.
-/

namespace SierraTee
namespace Dispatch

def superUserId : Nat := 122

inductive KillOutcome where
  | ended (s : Secure)
  | refused (s : Secure)
  | fault

namespace Secure
variable (fuel : Nat) (s : Secure)

def setRetVal (t : TaskPtr) (v : Nat) : Secure :=
  s.setKernel (s.kernel.setTask t
    { s.kernel.task t with tls := { (s.kernel.task t).tls with retVal := v } })

/-- `SW_SYSCALL_KILL` for the task `id`; `src` is the sender of the command that the task works
on -/
def syscallKill (id src : Int) : Option KillOutcome := do
  let tmpTask ← s.kernel.getCurrentTask fuel
  let task ← s.kernel.getTask fuel id
  match task with
  | none => some .fault
  | some t =>
    let s := s.setRetVal t smcError
    match tmpTask with
    | none => some .fault
    | some c =>
      if (s.kernel.task t).uid = (s.kernel.task c).uid ∨
          (s.kernel.task t).gid = (s.kernel.task c).gid ∨
          (s.kernel.task t).uid = superUserId then
        (s.exitTask fuel (s.kernel.task t).taskId (s.kernel.task t).tls.retVal src).map .ended
      else some (.refused s)

end Secure

def Shares (k : Kernel) (c t : TaskPtr) : Prop :=
  (k.task t).uid = (k.task c).uid ∨ (k.task t).gid = (k.task c).gid

instance (k : Kernel) (c t : TaskPtr) : Decidable (Shares k c t) :=
  inferInstanceAs (Decidable (_ ∨ _))

def MayKill (k : Kernel) (c t : TaskPtr) : Prop := Shares k c t ∨ (k.task c).uid = superUserId

/-- the task is ended: it is suspended and will not be chosen to run, and it returns an error, also
to the normal world if it works on a command from there -/
structure Ended (s s' : Secure) (t : TaskPtr) : Prop where
  state : (s'.kernel.task t).state = .suspend
  notQueued : ¬ Queued s'.kernel t
  notCurrent : ¬ IsCurrent s'.kernel t
  retVal : (s'.kernel.task t).tls.retVal = smcError
  answer : (s.kernel.task t).tls.params 2 = cmdTypeNsToSecure →
    s'.secureApiSet = true ∧ s'.secureApiRetVal = smcError

/-- the request ends the task exactly if it exists and the caller may end it, and else it changes
nothing -/
def KillRight (s : Secure) (c : TaskPtr) (id : Int) : Option KillOutcome → Prop
  | some (.ended s') => ∃ t, Live s.kernel t ∧ ((s.kernel.task t).taskId : Int) = id ∧
      MayKill s.kernel c t ∧ Ended s s' t
  | some (.refused s') => s' = s ∧
      ∀ t, Live s.kernel t → ((s.kernel.task t).taskId : Int) = id → ¬ MayKill s.kernel c t
  | _ => False

def OwnCommand (k : Kernel) (t : TaskPtr) (src : Int) : Prop :=
  (k.task t).tls.params 2 = cmdTypeSecureToSecure ∧ ((k.task t).taskId : Int) = src

/-- the task exists; and either it has the user or the group of the caller and is not queued, and
does not work on a command of its own, or it has neither, none of the two is the super user and the
task is about to return an error anyway -/
def KillFits (k : Kernel) (c : TaskPtr) (id src : Int) : Prop :=
  ∃ t, Live k t ∧ ((k.task t).taskId : Int) = id ∧
    (Shares k c t ∧ ¬ Queued k t ∧ ¬ OwnCommand k t src ∨
      ¬ Shares k c t ∧ (k.task c).uid ≠ superUserId ∧ (k.task t).uid ≠ superUserId ∧
        (k.task t).tls.retVal = smcError)

section
variable {s s' : Secure} {all ts : List TaskPtr} {c t : TaskPtr} {fuel : Nat} {id src : Int} {v : Nat}

theorem setRetVal_task (u : TaskPtr) : ((s.setRetVal t v).kernel.task u).uid = (s.kernel.task u).uid ∧
    ((s.setRetVal t v).kernel.task u).gid = (s.kernel.task u).gid ∧
    ((s.setRetVal t v).kernel.task u).taskId = (s.kernel.task u).taskId ∧
    ((s.setRetVal t v).kernel.task u).tls.params = (s.kernel.task u).tls.params := by
  unfold Secure.setRetVal Secure.setKernel
  simp only [Kernel.setTask_task]
  split
  next h => rw [h]; exact ⟨rfl, rfl, rfl, rfl⟩
  next => exact ⟨rfl, rfl, rfl, rfl⟩

theorem setRetVal_retVal : ((s.setRetVal t v).kernel.task t).tls.retVal = v := by
  unfold Secure.setRetVal Secure.setKernel
  simp only [Kernel.setTask_task, if_true]

theorem setRetVal_ok (hk : KernelOk s.kernel all ts) : KernelOk (s.setRetVal t v).kernel all ts :=
  hk.setTask t rfl

theorem setRetVal_eq_iff : s.setRetVal t v = s ↔ (s.kernel.task t).tls.retVal = v := by
  constructor
  · intro h
    rw [← h]
    exact setRetVal_retVal
  · rintro rfl
    have h : s.kernel.setTask t (s.kernel.task t) = s.kernel := by
      unfold Kernel.setTask
      rw [Function.update_eq_self]
    exact congrArg s.setKernel h

/-! ## `exit_task` -/

theorem getTask_eq {k : Kernel} (hk : KernelOk k all ts) (ht : t ∈ all) (hf : all.length < fuel)
    (hid : ((k.task t).taskId : Int) = id) : k.getTask fuel id = some (some t) := by
  have h : k.getTask fuel id = _ := hk.tasks.find_some hf
  exact h.trans (congrArg some (hk.found ht hid h))

theorem scheduleTask_queued_iff {k k' : Kernel} {u : TaskPtr} (hk : KernelOk k all ts)
    (hu : u ∈ all) (hs : k.scheduleTask fuel u = some k') :
    Queued k' t ↔ Queued k t ∨ u = t := by
  have h1 := scheduleTask_ready hk.ready hs
  rw [h1.ready.queued_iff, hk.ready.queued_iff]
  split_ifs with h
  · refine ⟨Or.inl, fun h2 => h2.elim id fun e => ?_⟩
    rw [← e]
    exact (hasId_iff hk hu).mp h
  · rw [List.mem_append, List.mem_singleton, eq_comm (a := t)]

theorem otzIpiReturn_queued_iff (src : Int) (hk : KernelOk s.kernel all ts) (ht : t ∈ all)
    (hf : all.length < fuel) : ∃ k, s.otzIpiReturn fuel src = some (s.setKernel k) ∧
      k.task = s.kernel.task ∧ k.currentTaskId = s.kernel.currentTaskId ∧
      (Queued k t ↔ Queued s.kernel t ∨ ((s.kernel.task t).taskId : Int) = src) := by
  have hget : s.kernel.getTask fuel src = _ := hk.tasks.find_some hf
  have hfound := hk.getTask hget
  generalize hr : all.find? _ = r at hget hfound
  unfold Secure.otzIpiReturn
  rw [hget]
  cases r with
  | none =>
    refine ⟨s.kernel, rfl, rfl, rfl, ?_⟩
    rw [or_iff_left (hfound.2 rfl t ht)]
  | some u =>
    obtain ⟨hu, hid⟩ := hfound.1 u rfl
    have hts : ts.length < fuel := Nat.lt_of_le_of_lt hk.length_le hf
    obtain ⟨k, hs⟩ := scheduleTask_some hk.ready hts u
    have ho := scheduleTask_only hk.ready hs
    refine ⟨k, congrArg (Option.map _) hs, ho.task, ho.currentTaskId, ?_⟩
    rw [scheduleTask_queued_iff hk hu hs]
    refine or_congr_right ⟨fun e => by rw [← e]; exact hid, fun e => ?_⟩
    exact hk.ids u hu t ht (Int.ofNat.inj (hid.trans e.symm))

theorem setState_tls (k : Kernel) (x : TaskState) (u : TaskPtr) :
    ((k.setState t x).task u).tls = (k.task u).tls := by
  rw [Kernel.setState_task]
  split_ifs with h
  · rw [h]
  · rfl

theorem suspendTask_ended {k : Kernel} (hk : KernelOk k all ts) (ht : t ∈ all)
    (hf : all.length < fuel) (hid : ((k.task t).taskId : Int) = id) :
    ∃ k', k.suspendTask fuel id .suspend = some k' ∧ KernelOk k' all ts ∧
      (∀ u, (k'.task u).taskId = (k.task u).taskId ∧ (k'.task u).tls = (k.task u).tls) ∧
      (k'.task t).state = .suspend ∧ ¬ IsCurrent k' t := by
  have hget := getTask_eq hk ht hf hid
  obtain ⟨k', hs⟩ : ∃ k', k.suspendTask fuel id .suspend = some k' := by
    unfold Kernel.suspendTask
    rw [hget]
    show ∃ k', (if k.currentTaskId = id ∧ TaskState.suspend = .suspend then some _ else some _)
      = some k'
    split_ifs
    · exact ⟨_, rfl⟩
    · exact ⟨_, rfl⟩
  have h1 := suspendTask_found hk ht hid hs
  refine ⟨k', hs, suspendTask_kept hk hs, fun u => ?_, ?_, ?_⟩
  · rw [h1]
    split_ifs <;> exact ⟨Kernel.setState_taskId .., setState_tls ..⟩
  · rw [h1]
    split_ifs <;> simp [Kernel.setState_state]
  · intro hc
    rw [h1] at hc
    unfold IsCurrent at hc
    split_ifs at hc with h
    · exact absurd hc (by simp)
    · rw [Kernel.setState_taskId] at hc
      exact h ⟨hc.symm.trans hid, rfl⟩

theorem exitTask_ended (src : Int) (hk : KernelOk s.kernel all ts) (ht : t ∈ all) (hf : all.length < fuel)
    (hid : ((s.kernel.task t).taskId : Int) = id) :
    ∃ s', s.exitTask fuel id smcError src = some s' ∧
      (Ended s s' t ↔ ¬ Queued s.kernel t ∧ ¬ OwnCommand s.kernel t src) := by
  have hget := getTask_eq hk ht hf hid
  have hk1 := setRetVal_ok (t := t) (v := smcError) hk
  obtain ⟨-, -, htid, -⟩ := setRetVal_task (s := s) (t := t) (v := smcError) t
  obtain ⟨k, hs, hk2, hsame, hstate, hcur⟩ :=
    suspendTask_ended hk1 ht hf ((congrArg Nat.cast htid).trans hid)
  have hret : (k.task t).tls.retVal = smcError := by
    rw [(hsame t).2]
    exact setRetVal_retVal
  have hqueued : Queued k t ↔ Queued s.kernel t := by
    rw [hk2.ready.queued_iff, hk.ready.queued_iff]
  have hexit : s.exitTask fuel id smcError src
      = if (s.kernel.task t).tls.params 2 = cmdTypeNsToSecure
        then some ((s.setKernel k).setSecureApiRet smcError)
        else if (s.kernel.task t).tls.params 2 = cmdTypeSecureToSecure
          then (s.setKernel k).otzIpiReturn fuel src
          else some (s.setKernel k) := by
    unfold Secure.exitTask
    rw [hget]
    show (s.setRetVal t smcError).kernel.suspendTask fuel id .suspend >>= _ = _
    rw [hs]
    rfl
  rw [hexit]
  unfold OwnCommand
  by_cases h1 : (s.kernel.task t).tls.params 2 = cmdTypeNsToSecure
  · rw [if_pos h1]
    refine ⟨_, rfl, fun h => ⟨fun hq => h.notQueued (hqueued.mpr hq), fun h2 => ?_⟩, fun h => ?_⟩
    · exact absurd (h1.symm.trans h2.1) (by decide)
    · exact ⟨hstate, fun hq => h.1 (hqueued.mp hq), hcur, hret, fun _ => ⟨rfl, rfl⟩⟩
  · rw [if_neg h1]
    by_cases h2 : (s.kernel.task t).tls.params 2 = cmdTypeSecureToSecure
    · rw [if_pos h2]
      obtain ⟨k', hr, htask, hcurrent, hq⟩ :=
        otzIpiReturn_queued_iff (s := s.setKernel k) src hk2 ht hf
      rw [hr]
      have htid2 : ((k.task t).taskId : Int) = ((s.kernel.task t).taskId : Int) := by
        rw [(hsame t).1, htid]
      change Queued k' t ↔ Queued k t ∨ ((k.task t).taskId : Int) = src at hq
      rw [hqueued, htid2] at hq
      refine ⟨_, rfl, fun h => ?_, fun h => ?_⟩
      · have h3 := h.notQueued
        change ¬ Queued k' t at h3
        rw [hq, not_or] at h3
        exact ⟨h3.1, fun h4 => h3.2 h4.2⟩
      · refine ⟨?_, fun h3 => ?_, fun h3 => ?_, ?_, fun h3 => absurd h3 h1⟩
        · exact (congrArg (fun f => (f t).state) htask).trans hstate
        · exact (hq.mp h3).elim h.1 fun h4 => h.2 ⟨h2, h4⟩
        · change ((k'.task t).taskId : Int) = k'.currentTaskId at h3
          rw [htask, hcurrent] at h3
          exact hcur h3
        · exact (congrArg (fun f => (f t).tls.retVal) htask).trans hret
    · rw [if_neg h2]
      refine ⟨_, rfl, fun h => ⟨fun hq => h.notQueued (hqueued.mpr hq), fun h3 => h2 h3.1⟩,
        fun h => ?_⟩
      exact ⟨hstate, fun hq => h.1 (hqueued.mp hq), hcur, hret, fun h3 => absurd h3 h1⟩

/-! ## The request -/

theorem syscallKill_eq (hk : KernelOk s.kernel all ts) (hc : c ∈ all) (hcur : IsCurrent s.kernel c)
    (ht : t ∈ all) (hf : all.length < fuel) (hid : ((s.kernel.task t).taskId : Int) = id) :
    s.syscallKill fuel id src =
      if Shares s.kernel c t ∨ (s.kernel.task t).uid = superUserId then
        ((s.setRetVal t smcError).exitTask fuel id smcError src).map .ended
      else some (.refused (s.setRetVal t smcError)) := by
  have hgetc : s.kernel.getCurrentTask fuel = some (some c) := getTask_eq hk hc hf hcur
  have hgett := getTask_eq hk ht hf hid
  obtain ⟨ht1, ht2, ht3, -⟩ := setRetVal_task (s := s) (t := t) (v := smcError) t
  obtain ⟨hc1, hc2, -⟩ := setRetVal_task (s := s) (t := t) (v := smcError) c
  unfold Secure.syscallKill
  rw [hgetc, hgett]
  simp only [Option.bind_eq_bind, Option.bind_some, ht1, ht2, ht3, hc1, hc2, hid, setRetVal_retVal]
  exact if_congr or_assoc.symm rfl rfl

theorem killed_ended (src : Int) (hk : KernelOk s.kernel all ts) (ht : t ∈ all)
    (hf : all.length < fuel) (hid : ((s.kernel.task t).taskId : Int) = id) :
    ∃ s', (s.setRetVal t smcError).exitTask fuel id smcError src = some s' ∧
      (Ended s s' t ↔ ¬ Queued s.kernel t ∧ ¬ OwnCommand s.kernel t src) := by
  obtain ⟨-, -, h1, h2⟩ := setRetVal_task (s := s) (t := t) (v := smcError) t
  obtain ⟨s', hs, hended⟩ := exitTask_ended src (setRetVal_ok (t := t) (v := smcError) hk) ht hf
    ((congrArg Nat.cast h1).trans hid)
  have hown : OwnCommand (s.setRetVal t smcError).kernel t src ↔ OwnCommand s.kernel t src := by
    unfold OwnCommand
    rw [h1, h2]
  refine ⟨s', hs, ?_⟩
  rw [← hown]
  refine Iff.trans ⟨fun h => ?_, fun h => ?_⟩ hended
  · exact ⟨h.1, h.2, h.3, h.4, fun h3 => h.5 (by rwa [h2] at h3)⟩
  · exact ⟨h.1, h.2, h.3, h.4, fun h3 => h.5 (by rwa [h2])⟩

theorem kill_right_iff (hk : KernelOk s.kernel all ts) (hc : c ∈ all)
    (hcur : IsCurrent s.kernel c) (hf : all.length < fuel) :
    KillRight s c id (s.syscallKill fuel id src) ↔ KillFits s.kernel c id src := by
  have honly {t u : TaskPtr} (ht : t ∈ all) (hid : ((s.kernel.task t).taskId : Int) = id)
      (hu : Live s.kernel u) (hid' : ((s.kernel.task u).taskId : Int) = id) : u = t :=
    hk.ids u (hk.live_iff.mp hu) t ht (Int.ofNat.inj (hid'.trans hid.symm))
  have hget : s.kernel.getTask fuel id = _ := hk.tasks.find_some hf
  have hfound := hk.getTask hget
  generalize all.find? _ = r at hget hfound
  cases r with
  | none =>
    have hgetc : s.kernel.getCurrentTask fuel = some (some c) := getTask_eq hk hc hf hcur
    have h1 : s.syscallKill fuel id src = some .fault := by
      unfold Secure.syscallKill
      rw [hgetc, hget]
      rfl
    rw [h1]
    refine ⟨False.elim, fun ⟨t, hl, hid, _⟩ => ?_⟩
    exact hfound.2 rfl t (hk.live_iff.mp hl) hid
  | some t =>
    obtain ⟨ht, hid⟩ := hfound.1 t rfl
    have hl := hk.live_iff.mpr ht
    rw [syscallKill_eq hk hc hcur ht hf hid]
    have hfits : KillFits s.kernel c id src ↔
        (Shares s.kernel c t ∧ ¬ Queued s.kernel t ∧ ¬ OwnCommand s.kernel t src ∨
          ¬ Shares s.kernel c t ∧ (s.kernel.task c).uid ≠ superUserId ∧
            (s.kernel.task t).uid ≠ superUserId ∧
            (s.kernel.task t).tls.retVal = smcError) := by
      refine ⟨fun ⟨u, hu, hid', h⟩ => ?_, fun h => ⟨t, hl, hid, h⟩⟩
      rwa [← honly ht hid hu hid']
    rw [hfits]
    by_cases hallowed : Shares s.kernel c t ∨ (s.kernel.task t).uid = superUserId
    · rw [if_pos hallowed]
      obtain ⟨s', hs, hended⟩ := killed_ended src hk ht hf hid
      rw [hs]
      constructor
      · rintro ⟨u, hu, hid', hm, he⟩
        rw [honly ht hid hu hid'] at hm he
        refine Or.inl ⟨?_, hended.mp he⟩
        obtain h | h := hallowed
        · exact h
        · exact hm.elim (fun h3 => h3) fun h3 => Or.inl (h.trans h3.symm)
      · rintro (⟨h3, h4⟩ | ⟨h3, -, h4, -⟩)
        · exact ⟨t, hl, hid, Or.inl h3, hended.mpr h4⟩
        · exact absurd hallowed (not_or.mpr ⟨h3, h4⟩)
    · rw [if_neg hallowed]
      rw [not_or] at hallowed
      refine ⟨fun ⟨h1, h2⟩ => Or.inr ⟨hallowed.1, fun h => ?_, hallowed.2, ?_⟩, fun h => ?_⟩
      · exact h2 t hl hid (Or.inr h)
      · exact setRetVal_eq_iff.mp h1
      · obtain ⟨h, -⟩ | ⟨-, h1, -, h2⟩ := h
        · exact absurd h hallowed.1
        · refine ⟨setRetVal_eq_iff.mpr h2, fun u hu hid' hm => ?_⟩
          rw [honly ht hid hu hid'] at hm
          exact hm.elim hallowed.1 h1

end

/-- task 1 runs, and task 2 waits -/
def killSecure (u g u' g' : Nat) : Secure where
  kernel :=
    let k := { (newKernel.enterTask 1).enterTask 2 with currentTaskId := 1 }
    (k.setTask 1 { k.task 1 with uid := u, gid := g }).setTask 2
      { k.task 2 with uid := u', gid := g', state := .wait }
  paramsStack := fun _ => 0
  validParamsFlag := false
  cmd := none
  secureInterruptSet := false
  linuxReturnFlag := false
  linuxTaskId := 0
  secureApiSet := false
  secureApiRetVal := 0

theorem killSecure_ok (u g u' g' : Nat) : KernelOk (killSecure u g u' g').kernel [1, 2] [] where
  tasks := ⟨⟨⟨⟨rfl, rfl⟩, ⟨rfl, rfl⟩, rfl, rfl⟩, by simp⟩, by simp; exact ⟨rfl, rfl⟩⟩
  ready := ⟨⟨⟨rfl, rfl⟩, by simp⟩, by simp⟩
  listed := by simp
  ids := by
    intro t ht u hu h
    simp only [List.mem_cons, List.not_mem_nil, or_false] at ht hu
    obtain rfl | rfl := ht <;> obtain rfl | rfl := hu
    · rfl
    · exact absurd (show 1 = 2 from h) (by decide)
    · exact absurd (show 2 = 1 from h) (by decide)
    · rfl

theorem kill_right_sameGroup :
    KillRight (killSecure 10 5 11 5) 1 2 ((killSecure 10 5 11 5).syscallKill 3 2 0) := by
  have hk := killSecure_ok 10 5 11 5
  refine (kill_right_iff (c := 1) hk (by simp) rfl (by decide)).mpr ?_
  refine ⟨2, hk.live_iff.mpr (by simp), rfl, Or.inl ⟨Or.inr rfl, fun h => ?_, fun h => ?_⟩⟩
  · exact absurd (hk.ready.queued_iff.mp h) (by simp)
  · exact absurd h.1 (by decide)

/-- the super user of another group is refused -/
theorem superUser_refused : KernelOk (killSecure superUserId 5 11 6).kernel [1, 2] [] ∧
    IsCurrent (killSecure superUserId 5 11 6).kernel 1 ∧
    ¬ KillRight (killSecure superUserId 5 11 6) 1 2
      ((killSecure superUserId 5 11 6).syscallKill 3 2 0) := by
  have hk := killSecure_ok superUserId 5 11 6
  have hid : (((killSecure superUserId 5 11 6).kernel.task 2).taskId : Int) = 2 := rfl
  refine ⟨hk, rfl, fun h => ?_⟩
  rw [syscallKill_eq (c := 1) hk (by simp) rfl (by simp) (by decide) hid, if_neg (by decide)] at h
  exact h.2 2 (hk.live_iff.mpr (by simp)) rfl (Or.inr rfl)

end Dispatch
end SierraTee
