import SierraTee.Kernel.Kept
import SierraTee.Session.Open

/-!
# Closing a session (`secure_api.c`, `task.c`)

* `close_session_iff`, `kernel_task_closed`.
-/

namespace SierraTee
namespace Session
open Dispatch Rings

def swEnodata : Int := 61

/-- the outcomes of the mappings of a close request and what is in its buffers.  `sessionIdLater` is
the session id when it is read again, and `privateData` says which tasks have private data. -/
structure CloseEnv where
  mapCmd : Bool
  reqBufLen : UInt32
  mapReq : Bool
  mapResp : Bool
  svcId : Int
  sessionId : Int
  sessionIdLater : Int
  privateData : TaskPtr → Bool

structure CloseState where
  request : OpenState
  freed : List TaskPtr

namespace CloseState
variable (b : Build) (fuel : Nat) (e : CloseEnv) (c : CloseState)

/-- `sa_destroy_entry_point` with the private data of the task `t` -/
def exitTask (t : TaskPtr) : CloseState :=
  match serviceOf b e.svcId with
  | some _ => if e.privateData t then { c with freed := t :: c.freed } else c
  | none => { c with request := c.request.setErrno swEinval }

/-- `sa_close_session`, whose result is not looked at -/
def saCloseSession (id : Int) : Option CloseState := do
  match ← c.request.kernel.getTask fuel id with
  | none => some { c with request := c.request.setErrno swEnodata }
  | some _ =>
    let k ← c.request.kernel.destroyTask fuel id
    some { c with request := { c.request with kernel := k } }

/-- the request with the command and the buffers mapped; a task that is not there is read through
its null pointer -/
def closeMapped : Option CloseState := do
  let t ← ← c.request.kernel.getTask fuel e.sessionId
  let c ← (c.exitTask b e t).saCloseSession fuel e.sessionIdLater
  some { c with request := { c.request with cmdStatus := some .complete } }

def unmapAll : CloseState := { c with request := c.request.unmapAll }

end CloseState

section
variable (b : Build) (fuel : Nat) (e : CloseEnv) (k : Kernel) (errno : Int)

def closeSessionFromNs : Option (CloseState × Int) :=
  let st := openStart k errno
  if !e.mapCmd then some (⟨st, []⟩, swError)
  else
    let st := st.take .cmdMap
    if e.reqBufLen = 0 then some (⟨(st.setErrno swEinval).unmapAll, []⟩, swError)
    else if !e.mapReq then some (⟨st.unmapAll, []⟩, swError)
    else
      let st := st.take .reqMap
      if !e.mapResp then some (⟨st.unmapAll, []⟩, swError)
      else
        ((⟨st.take .respMap, []⟩ : CloseState).closeMapped b fuel e).map fun c =>
          (c.unmapAll, swOk)

/-- a session of the service, opened for the current guest; the uid of a task is the id of its
service -/
def OwnSession (svcId : Int) (t : TaskPtr) : Prop :=
  Live k t ∧ ((k.task t).uid : Int) = svcId ∧ (k.task t).guestNo = k.currentGuest

def NamesOwn (svcId id : Int) : Prop := ∃ t, OwnSession k svcId t ∧ ((k.task t).taskId : Int) = id

/-- only such sessions are destroyed, and without one the request fails and leaves everything as it
is -/
def Confined : Prop :=
  (∀ c ret, closeSessionFromNs b fuel e k errno = some (c, ret) →
    ∀ t, (Live k t ∧ ¬ Live c.request.kernel t) ∨ t ∈ c.freed → OwnSession k e.svcId t) ∧
  (¬ NamesOwn k e.svcId e.sessionId → ∃ c ret, closeSessionFromNs b fuel e k errno = some (c, ret) ∧
    ret ≠ swOk ∧ c.request.kernel = k ∧ c.freed = [] ∧ ∀ r, c.request.held r = false)

def CloseEnv.Mapped : Prop := e.mapCmd ∧ e.reqBufLen ≠ 0 ∧ e.mapReq ∧ e.mapResp

/-- the request cannot be mapped, or its id is that of an own session, also when it is read again
(unless there is no task then, or its end does not come) -/
def CloseFits : Prop :=
  e.Mapped → NamesOwn k e.svcId e.sessionId ∧
    ∀ t, Live k t → ((k.task t).taskId : Int) = e.sessionIdLater →
      OwnSession k e.svcId t ∨ k.destroyTask fuel e.sessionIdLater = none

end

/-! ## The end of a task -/

section
variable {k k' : Kernel} {all ts : List TaskPtr} {t : TaskPtr} {fuel : Nat} {id : Int}

theorem wakeWaiter_others (hh : (k.links.next .readyToRunList).kind = .ready)
    (ow : Option TaskPtr) : SameBut .ready k (k.wakeWaiter t ow) ∧
      ((k.wakeWaiter t ow).links.next .readyToRunList).kind = .ready := by
  cases ow with
  | none => exact ⟨SameBut.refl _ k, hh⟩
  | some w =>
    constructor
    · intro l hl
      have h1 : l ≠ .readyToRunList := fun h => hl (h ▸ rfl)
      have h2 : l ≠ .readyHead w := fun h => hl (h ▸ rfl)
      have h3 : l ≠ k.links.next .readyToRunList := fun h => hl (h ▸ hh)
      obtain ⟨h4, h5⟩ := insert_cell (k := k) h1 h3 h2
      exact ⟨h4, h5, Function.update_of_ne h2 ..⟩
    · show ((k.links.insert _ _ _).next _).kind = _
      rw [Links.insert_next, if_pos rfl]
      rfl

theorem wakeWaiters_others (hh : (k.links.next .readyToRunList).kind = .ready) (n : Nat) (l : Link)
    (hs : k.wakeWaiters t n l = some k') : SameBut .ready k k' := by
  induction n generalizing k l with
  | zero => cases hs
  | succ n ih =>
    obtain ⟨h1, h2⟩ := wakeWaiter_others (t := t) hh (k.data l)
    change (if _ then Kernel.wakeWaiters _ t n _ else _) = _ at hs
    split_ifs at hs
    · exact h1.trans (ih h2 _ hs)
    · cases hs
      exact h1

theorem wakeWaitList_others (hr : ReadyOk k ts) (hs : k.wakeWaitList fuel t = some k') :
    SameBut .ready k k' := by
  unfold Kernel.wakeWaitList at hs
  split_ifs at hs
  · cases hs
    exact SameBut.refl _ k
  · exact wakeWaiters_others (kindOf_ready.mem hr.ring.next_mem) _ _ hs

theorem destroyTask_live (hk : KernelOk k all ts) (hs : k.destroyTask fuel id = some k')
    (t : TaskPtr) : Live k' t ↔ Live k t ∧ ((k.task t).taskId : Int) ≠ id := by
  obtain ⟨r, hf, hs⟩ := Option.bind_eq_some_iff.mp hs
  rw [hk.live_iff]
  cases r with
  | none =>
    cases hs
    rw [hk.live_iff]
    exact ⟨fun h => ⟨h, (hk.getTask hf).2 rfl t h⟩, fun h => h.1⟩
  | some u =>
    obtain ⟨hu, hid⟩ := (hk.getTask hf).1 u rfl
    obtain ⟨k1, h1, hs⟩ := Option.bind_eq_some_iff.mp hs
    obtain ⟨k2, h2, hs⟩ := Option.bind_eq_some_iff.mp hs
    cases hs
    have s1 := (leaveReady_ready hk hu hid h1).1
    have htasks : TasksOk k2 all :=
      (wakeWaitList_others s1.ready h2).list kindOf_tasks (by decide) (s1.tasks hk.tasks)
    obtain ⟨us, vs, rfl⟩ := List.append_of_mem hu
    have hmid := List.nodup_cons.mp (List.nodup_middle.mp hk.tasks.nodup)
    have hrest : TasksOk (k2.freeTask u id) (us ++ vs) :=
      ⟨htasks.remove.ring, htasks.remove.data⟩
    rw [show Live (k2.freeTask u id) t ↔ t ∈ us ++ vs from hrest.onList_iff head_injective]
    constructor
    · intro ht
      refine ⟨List.mem_append.mpr ((List.mem_append.mp ht).imp_right (List.mem_cons_of_mem u)), ?_⟩
      intro h
      have hmem := List.mem_append.mpr ((List.mem_append.mp ht).imp_right (List.mem_cons_of_mem u))
      rw [hk.ids t hmem u hu (Int.ofNat.inj (h.trans hid.symm))] at ht
      exact hmid.1 ht
    · rintro ⟨ht, hne⟩
      obtain ht | ht := List.mem_append.mp ht
      · exact List.mem_append_left _ ht
      · obtain rfl | ht := List.mem_cons.mp ht
        · exact absurd hid hne
        · exact List.mem_append_right _ ht

end

/-! ## The request -/

section
variable {b : Build} {fuel : Nat} {e : CloseEnv} {k : Kernel} {errno : Int} {all ts : List TaskPtr}
  {t : TaskPtr} {c : CloseState}

variable (b fuel k errno) in
theorem unmapped_fails (h : ¬ e.Mapped) : ∃ c, closeSessionFromNs b fuel e k errno
    = some (c, swError) ∧ c.request.kernel = k ∧ c.freed = [] ∧ ∀ r, c.request.held r = false := by
  unfold closeSessionFromNs
  by_cases h1 : e.mapCmd = true
  · simp only [h1, Bool.not_true, Bool.false_eq_true, if_false]
    by_cases h2 : e.reqBufLen = 0
    · rw [if_pos h2]
      exact ⟨_, rfl, unmapAll_kernel _, rfl,
        unmapAll_none ((openStart k errno).take .cmdMap |>.setErrno swEinval)
          ⟨rfl, rfl, rfl, rfl, rfl, rfl, rfl⟩⟩
    · rw [if_neg h2]
      by_cases h3 : e.mapReq = true
      · have h4 : e.mapResp = false := by
          rw [← Bool.not_eq_true]
          exact fun h4 => h ⟨h1, h2, h3, h4⟩
        simp only [h3, h4, Bool.not_true, Bool.not_false, Bool.false_eq_true, if_false, if_true]
        exact ⟨_, rfl, unmapAll_kernel _, rfl,
          unmapAll_none ((openStart k errno).take .cmdMap |>.take .reqMap)
            ⟨rfl, rfl, rfl, rfl, rfl, rfl, rfl⟩⟩
      · simp only [h3, Bool.not_false, if_true]
        exact ⟨_, rfl, unmapAll_kernel _, rfl,
          unmapAll_none ((openStart k errno).take .cmdMap)
            ⟨rfl, rfl, rfl, rfl, rfl, rfl, rfl⟩⟩
  · simp only [h1, Bool.not_false, if_true]
    exact ⟨_, rfl, rfl, rfl, fun r => rfl⟩

def mappedClose (k : Kernel) (errno : Int) : CloseState :=
  ⟨((openStart k errno).take .cmdMap |>.take .reqMap).take .respMap, []⟩

variable (b fuel k errno) in
theorem mapped_runs (h : e.Mapped) : closeSessionFromNs b fuel e k errno
    = ((mappedClose k errno).closeMapped b fuel e).map fun c => (c.unmapAll, swOk) := by
  obtain ⟨h1, h2, h3, h4⟩ := h
  unfold closeSessionFromNs
  simp only [h1, h2, h3, h4, Bool.not_true, Bool.false_eq_true, if_false]
  rfl

theorem exitTask_kernel : (c.exitTask b e t).request.kernel = c.request.kernel := by
  unfold CloseState.exitTask
  split
  · split_ifs <;> rfl
  · rfl

theorem exitTask_freed {u : TaskPtr} (h : u ∈ (c.exitTask b e t).freed) : u = t ∨ u ∈ c.freed := by
  unfold CloseState.exitTask at h
  split at h
  · split_ifs at h
    · exact List.mem_cons.mp h
    · exact Or.inr h
  · exact Or.inr h

theorem saCloseSession_cases {c' : CloseState} {id : Int} (hk : KernelOk c.request.kernel all ts)
    (hs : c.saCloseSession fuel id = some c') : c'.freed = c.freed ∧
      (∀ t, Live c'.request.kernel t ↔
        Live c.request.kernel t ∧ ((c.request.kernel.task t).taskId : Int) ≠ id) ∧
      ∀ t, Live c.request.kernel t → ((c.request.kernel.task t).taskId : Int) = id →
        c.request.kernel.destroyTask fuel id ≠ none := by
  obtain ⟨r, hf, hs⟩ := Option.bind_eq_some_iff.mp hs
  cases r with
  | none =>
    cases hs
    have hno (t : TaskPtr) (ht : Live c.request.kernel t) :=
      (hk.getTask hf).2 rfl t (hk.live_iff.mp ht)
    exact ⟨rfl, fun t => ⟨fun h => ⟨h, hno t h⟩, fun h => h.1⟩, fun t ht hid => absurd hid (hno t ht)⟩
  | some u =>
    obtain ⟨k', h1, hs⟩ := Option.bind_eq_some_iff.mp hs
    cases hs
    refine ⟨rfl, destroyTask_live hk h1, fun _ _ _ => ?_⟩
    rw [h1]
    exact Option.some_ne_none k'

variable (c) in
theorem saCloseSession_some (id : Int) (hk : KernelOk c.request.kernel all ts)
    (hf : all.length < fuel) (h : ∀ t, Live c.request.kernel t →
      ((c.request.kernel.task t).taskId : Int) = id → c.request.kernel.destroyTask fuel id ≠ none) :
    ∃ c', c.saCloseSession fuel id = some c' := by
  have hget : c.request.kernel.getTask fuel id = _ := hk.tasks.find_some hf
  cases hr : all.find? fun t => (c.request.kernel.task t).taskId = id with
  | none =>
    rw [hr] at hget
    exact ⟨_, Option.bind_eq_some_iff.mpr ⟨_, hget, rfl⟩⟩
  | some u =>
    rw [hr] at hget
    obtain ⟨hu, hid⟩ := (hk.getTask hget).1 u rfl
    obtain ⟨k', hd⟩ := Option.ne_none_iff_exists'.mp (h u (hk.live_iff.mpr hu) hid)
    exact ⟨_, Option.bind_eq_some_iff.mpr ⟨_, hget, Option.bind_eq_some_iff.mpr ⟨_, hd, rfl⟩⟩⟩

theorem mapped_close (hm : e.Mapped) (hk : KernelOk k all ts) {ret : Int}
    (hs : closeSessionFromNs b fuel e k errno = some (c, ret)) : ret = swOk ∧ ∃ t, Live k t ∧
      ((k.task t).taskId : Int) = e.sessionId ∧ (∀ u ∈ c.freed, u = t) ∧
      (∀ u, Live c.request.kernel u ↔ Live k u ∧ ((k.task u).taskId : Int) ≠ e.sessionIdLater) ∧
      ∀ u, Live k u → ((k.task u).taskId : Int) = e.sessionIdLater →
        k.destroyTask fuel e.sessionIdLater ≠ none := by
  rw [mapped_runs b fuel k errno hm] at hs
  obtain ⟨c1, h1, hc⟩ := Option.map_eq_some_iff.mp hs
  obtain ⟨r, hf, h2⟩ := Option.bind_eq_some_iff.mp h1
  obtain ⟨t, rfl, h3⟩ := Option.bind_eq_some_iff.mp h2
  obtain ⟨c2, h4, h5⟩ := Option.bind_eq_some_iff.mp h3
  obtain rfl := Option.some.inj h5
  obtain ⟨rfl, rfl⟩ := Prod.mk.inj hc
  obtain ⟨hmem, hid⟩ := (hk.getTask hf).1 t rfl
  have hkernel : ((mappedClose k errno).exitTask b e t).request.kernel = k := exitTask_kernel
  obtain ⟨hfreed, hlive, hends⟩ := saCloseSession_cases (by rwa [hkernel]) h4
  rw [hkernel] at hlive hends
  refine ⟨rfl, t, hk.live_iff.mpr hmem, hid, fun u hu => ?_, fun u => ?_, hends⟩
  · have hu : u ∈ c2.freed := hu
    rw [hfreed] at hu
    exact (exitTask_freed hu).resolve_right List.not_mem_nil
  · show Live (OpenState.unmapAll _).kernel u ↔ _
    rw [unmapAll_kernel]
    exact hlive u

/-- **A close request is confined to the caller's own sessions** exactly if it fits. -/
theorem close_session_iff (b : Build) (e : CloseEnv) (errno : Int) (hk : KernelOk k all ts)
    (hf : all.length < fuel) : Confined b fuel e k errno ↔ CloseFits fuel e k := by
  by_cases hm : e.Mapped
  · constructor
    · rintro ⟨honly, hfails⟩ -
      have hown : NamesOwn k e.svcId e.sessionId := by
        by_contra hno
        obtain ⟨c, ret, hrun, hret, -⟩ := hfails hno
        exact hret (mapped_close hm hk hrun).1
      refine ⟨hown, fun t ht hid => ?_⟩
      by_contra hcon
      obtain ⟨hnot, hends⟩ := not_or.mp hcon
      obtain ⟨u, ⟨hu, -⟩, hidu⟩ := hown
      have hget : k.getTask fuel e.sessionId = some (some u) := by
        have hget : k.getTask fuel e.sessionId = _ := hk.tasks.find_some hf
        rwa [hk.found (hk.live_iff.mp hu) hidu hget] at hget
      have hkernel : ((mappedClose k errno).exitTask b e u).request.kernel = k := exitTask_kernel
      obtain ⟨c, hc⟩ := saCloseSession_some ((mappedClose k errno).exitTask b e u)
        e.sessionIdLater (by rwa [hkernel]) hf (fun _ _ _ => by rwa [hkernel])
      have hclose : (mappedClose k errno).closeMapped b fuel e = some _ :=
        Option.bind_eq_some_iff.mpr ⟨_, hget, Option.bind_eq_some_iff.mpr
          ⟨u, rfl, Option.bind_eq_some_iff.mpr ⟨c, hc, rfl⟩⟩⟩
      have hrun := mapped_runs b fuel k errno hm
      rw [hclose, Option.map_some] at hrun
      obtain ⟨-, -, -, -, -, hlive, -⟩ := mapped_close hm hk hrun
      exact hnot (honly _ _ hrun t (Or.inl ⟨ht, fun h => ((hlive t).mp h).2 hid⟩))
    · intro h
      obtain ⟨⟨u, hown, hidu⟩, hlater⟩ := h hm
      refine ⟨fun c ret hrun t ht => ?_, fun hno => absurd ⟨u, hown, hidu⟩ hno⟩
      obtain ⟨-, v, hv, hidv, hfreed, hlive, hends⟩ := mapped_close hm hk hrun
      obtain ⟨hlt, hdead⟩ | hfr := ht
      · have hid : ((k.task t).taskId : Int) = e.sessionIdLater := by
          by_contra hne
          exact hdead ((hlive t).mpr ⟨hlt, hne⟩)
        exact (hlater t hlt hid).resolve_right (hends t hlt hid)
      · rw [hfreed t hfr, hk.ids v (hk.live_iff.mp hv) u (hk.live_iff.mp hown.1)
          (Int.ofNat.inj (hidv.trans hidu.symm))]
        exact hown
  · refine iff_of_true ⟨fun c ret hrun t ht => ?_, fun _ => ?_⟩ fun h => absurd h hm
    · obtain ⟨c', hrun', hkernel, hfreed, -⟩ :=
        unmapped_fails b fuel k errno hm
      rw [hrun] at hrun'
      cases hrun'
      rw [hkernel, hfreed] at ht
      obtain ⟨h1, h2⟩ | h := ht
      · exact absurd h1 h2
      · cases h
    · obtain ⟨c, hrun, h1, h2, h3⟩ :=
        unmapped_fails b fuel k errno hm
      exact ⟨c, _, hrun, by decide, h1, h2, h3⟩

end

/-! ## Two requests -/

/-- task 1 is a session of the echo service, and task 2 a task of the kernel -/
def sessionKernel : Kernel :=
  (({ newKernel with
      task := fun t => if t = 1 then { newTask 1 with uid := 2, guestNo := 0 } else newTask t }
    : Kernel).enterTask 1).enterTask 2

theorem sessionKernel_ok : KernelOk sessionKernel [1, 2] [] where
  tasks := ⟨⟨⟨⟨rfl, rfl⟩, ⟨rfl, rfl⟩, rfl, rfl⟩, by simp⟩, by simp; exact ⟨rfl, rfl⟩⟩
  ready := ⟨⟨⟨rfl, rfl⟩, by simp⟩, by simp⟩
  listed := by simp
  ids := by decide

/-- a close request of the echo service for the session `id` -/
def echoClose (id : Int) : CloseEnv where
  mapCmd := true
  reqBufLen := 4
  mapReq := true
  mapResp := true
  svcId := 2
  sessionId := id
  sessionIdLater := id
  privateData := fun _ => false

theorem close_session_own :
    Confined ⟨true, true, true, true, true, true, true⟩ 3 (echoClose 1) sessionKernel 0 := by
  refine (close_session_iff _ _ _ sessionKernel_ok (by decide)).mpr fun _ => ?_
  have hown : OwnSession sessionKernel 2 1 :=
    ⟨sessionKernel_ok.live_iff.mpr (by decide), rfl, rfl⟩
  refine ⟨⟨1, hown, rfl⟩, fun t ht hid => Or.inl ?_⟩
  rwa [sessionKernel_ok.ids t (sessionKernel_ok.live_iff.mp ht) 1 (by decide) (Int.ofNat.inj hid)]

/-- a task of the kernel is destroyed -/
theorem kernel_task_closed :
    ¬ Confined ⟨true, true, true, true, true, true, true⟩ 3 (echoClose 2) sessionKernel 0 := by
  intro h
  have hno : ¬ NamesOwn sessionKernel 2 2 := by
    rintro ⟨t, ⟨ht, hu, -⟩, hid⟩
    obtain rfl := sessionKernel_ok.ids t (sessionKernel_ok.live_iff.mp ht) 2 (by decide)
      (Int.ofNat.inj hid)
    exact absurd hu (by decide)
  obtain ⟨c, ret, hrun, hret, -⟩ := h.2 hno
  exact hret (mapped_close ⟨rfl, by decide, rfl, rfl⟩ sessionKernel_ok hrun).1

end Session
end SierraTee
