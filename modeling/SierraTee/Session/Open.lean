import SierraTee.Session.Services

/-!
# Opening a session (`secure_api.c`, `task.c`, `dispatcher_task.c`)

`create_task` with its allocations and its way back.
-/

namespace SierraTee
namespace Session
open Dispatch

/-! ## `create_task` -/

namespace OpenState
variable (e : OpenEnv) (st : OpenState) (cfg : SaConfig)

/-- the end of `create_task` after a failure: whether the local storage is mapped, and whether the
task has a stack and local storage -/
def handleErr1 (mapTls taskSp tls : Bool) : OpenState :=
  let st := if mapTls then st.give .tlsMap else st
  let st := if taskSp then st.give .stack else st
  let st := if cfg.data then st.give .data else st
  let st := if tls then st.give .tls else st
  (st.give .task).giveTaskId cfg.taskId

def newSwTask (tls sp : Nat) : SwTask where
  taskId := cfg.taskId
  entryAddr := cfg.entryPoint
  state := .suspend
  mode := cfg.mode
  taskSp := sp
  taskSpSize := cfg.stackSize
  tls := ⟨tls, fun _ => 0, 0⟩
  regs := ⟨fun _ => 0, 0, 0, 0, 0⟩
  notifyQueue := cfg.taskId
  uid := cfg.serviceUuid
  gid := cfg.gid
  guestNo := cfg.guestNo

/-- a task at `t` with local storage at `tls`, from its stack on -/
def createTaskStack (t : TaskPtr) (tls : Nat) : OpenState × Int :=
  match e.allocStack with
  | none => ((st.setErrno swEnomem).handleErr1 cfg true false true, swError)
  | some sp =>
    let st := st.take .stack
    if cfg.mode = .kern ∧ !e.allocHeap then
      ((st.setErrno swEnomem).handleErr1 cfg true true true, swError)
    else
      let st := if cfg.mode = .kern then st.take .heap else st
      ({ st with
          kernel := st.kernel.createTask t (newSwTask cfg tls sp)
          response := some cfg.taskId }, swOk)

/-- a task at `t`, from its local storage on -/
def createTaskTls (t : TaskPtr) : OpenState × Int :=
  match e.allocTls with
  | none => ((st.setErrno swEnomem).handleErr1 cfg false e.freshSp false, swError)
  | some tls =>
    if !e.reserveTls then
      (((st.take .tlsPage).setErrno swEnomem).handleErr1 cfg false e.freshSp false, swError)
    else
      let st := st.take .tls
      if !e.mapTls then ((st.setErrno e.mapErrno).handleErr1 cfg false e.freshSp true, swError)
      else (st.take .tlsMap).createTaskStack e cfg t tls

def createTask : OpenState × Int :=
  let st := { st with response := some (-1) }
  if e.denied then (st.setErrno swEacces, swError)
  else if !cfg.allowMultipleInstance ∧ e.otherInstance then (st.setErrno swEacces, swError)
  else
    match e.mallocTask with
    | none => (st.setErrno swEnomem, swError)
    | some t => (st.take .task).createTaskTls e cfg t

/-! ## the request -/

def unmapOne (r : OpenRes) : OpenState := if st.held r then st.give r else st

/-- `ret_func` of `open_session_from_ns`: a pointer is set if it has been mapped -/
def unmapAll : OpenState := ((st.unmapOne .reqMap).unmapOne .respMap).unmapOne .cmdMap

/-- the session is opened, with the command and the buffers mapped -/
def openMapped (b : Build) : Option (OpenState × Int) :=
  (saCreateEntryPoint e st b).map fun r =>
    let cfg := { r.2.1 with guestNo := st.kernel.currentGuest }
    let x := if r.2.2 = swOk then r.1.createTask e cfg else (r.1, r.2.2)
    if x.2 = swOk then
      ({ x.1 with
          retRespBufLen := some 4
          cmdStatus := some .complete }, x.2)
    else
      ({ saDestroyEntryPoint x.1 b e.svcIdLater r.2.1.data with
          cmdStatus := some .incomplete }, x.2)

end OpenState

theorem unmapOne_held (st : OpenState) (x r : OpenRes) :
    (st.unmapOne x).held r = (if r = x then false else st.held r) := by
  unfold OpenState.unmapOne OpenState.give
  by_cases hr : r = x
  · subst hr
    by_cases hx : st.held r = true
    · rw [if_pos hx, if_pos rfl]
      exact Function.update_self ..
    · rw [if_neg hx, if_pos rfl]
      exact Bool.eq_false_iff.mpr hx
  · rw [if_neg hr]
    by_cases hx : st.held x = true
    · rw [if_pos hx]
      exact Function.update_of_ne hr ..
    · rw [if_neg hx]

theorem unmapAll_held (st : OpenState) (r : OpenRes) : st.unmapAll.held r =
    (if r = .cmdMap then false else if r = .respMap then false else if r = .reqMap then false
      else st.held r) := by
  unfold OpenState.unmapAll
  rw [unmapOne_held, unmapOne_held, unmapOne_held]

theorem unmapOne_badFree (st : OpenState) (x : OpenRes) : (st.unmapOne x).badFree = st.badFree := by
  unfold OpenState.unmapOne OpenState.give
  split_ifs with hx
  · simp [hx]
  · rfl

theorem unmapAll_badFree (st : OpenState) : st.unmapAll.badFree = st.badFree := by
  unfold OpenState.unmapAll
  rw [unmapOne_badFree, unmapOne_badFree, unmapOne_badFree]

theorem unmapAll_kernel (st : OpenState) : st.unmapAll.kernel = st.kernel := by
  unfold OpenState.unmapAll OpenState.unmapOne OpenState.give
  split_ifs <;> rfl

theorem unmapAll_errno (st : OpenState) : st.unmapAll.errno = st.errno := by
  unfold OpenState.unmapAll OpenState.unmapOne OpenState.give
  split_ifs <;> rfl

theorem unmapAll_response (st : OpenState) : st.unmapAll.response = st.response := by
  unfold OpenState.unmapAll OpenState.unmapOne OpenState.give
  split_ifs <;> rfl

theorem unmapAll_none (st : OpenState) (h : st.held .data = false ∧ st.held .task = false ∧
    st.held .tlsPage = false ∧ st.held .tls = false ∧ st.held .tlsMap = false ∧
    st.held .stack = false ∧ st.held .heap = false) (r : OpenRes) :
    st.unmapAll.held r = false := by
  obtain ⟨h1, h2, h3, h4, h5, h6, h7⟩ := h
  rw [unmapAll_held]
  cases r <;> first | rfl | assumption

section
variable (b : Build) (e : OpenEnv) (k : Kernel) (errno : Int)

def openStart : OpenState where
  kernel := k
  held := fun _ => false
  badFree := false
  errno := errno
  response := none
  cmdStatus := none
  retRespBufLen := none

/-- `open_session_from_ns`; the result that it starts with is 0 -/
def openSessionFromNs : Option (OpenState × Int) :=
  let st := openStart k errno
  if !e.mapCmd then some (st, 0)
  else
    let st := st.take .cmdMap
    if e.respBufLen = 0 then some ((st.setErrno swEinval).unmapAll, 0)
    else if !e.mapResp then some (st.unmapAll, 0)
    else
      let st := st.take .respMap
      if !e.mapReq then some (st.unmapAll, 0)
      else
        let st := st.take .reqMap
        if e.svcId = svcInvalid then some ((st.setErrno swEinval).unmapAll, 0)
        else (st.openMapped e b).map fun r => (r.1.unmapAll, r.2)

def openRequest : Option (OpenState × Nat) :=
  (openSessionFromNs b e k errno).map fun r =>
    (r.1, apiAnswer (if r.2 = swError then r.1.errno else r.2))

def Opened (st : OpenState) : Prop :=
  ∃ s t x, serviceOf b e.svcId = some s ∧ x.uid = s.serviceUuid ∧ x.guestNo = k.currentGuest ∧
    st.response = some (x.taskId : Int) ∧
    st.kernel = ({ k with
      taskIdPool := if s.takesId then Function.update k.taskIdPool x.taskId true
        else k.taskIdPool } : Kernel).createTask t x

/-- the request is answered, with success exactly when the session is open; after a failure the
kernel is as before and nothing is held; nothing is freed that is not held -/
def AllOrNothing : Prop :=
  ∃ st answer, openRequest b e k errno = some (st, answer) ∧
    (answer = smcSuccess ↔ Opened b e k st) ∧
    (answer ≠ smcSuccess → st.kernel = k ∧ ∀ r, st.held r = false) ∧ st.badFree = false

/-! ## the requests that are handled so -/

/-- the service `s` can be started, or its start fails where all is undone.  The private data is
freed in `create_task` and once more by `sa_destroy_entry_point`, if the service is still known
then (`again`). -/
def ServiceFits (s : ServiceInit) (again : Bool) : Prop :=
  (s.takesId → (getNextAsidVal k).isSome) ∧
  if s.hasData ∧ !e.mallocData then s.checksData ∧ !s.takesId
  else if e.denied ∨ (!s.allowMultipleInstance ∧ e.otherInstance) then
    !s.takesId ∧ !s.hasData ∧ !again
  else if e.mallocTask = none then !s.takesId ∧ (s.hasData → again)
  else if e.allocTls = none ∨ !e.reserveTls ∨ !e.mapTls then
    (e.allocTls.isSome → e.reserveTls) ∧ s.takesId ∧ (s.hasData → !again) ∧ !e.freshSp ∧
      (e.allocTls.isSome → again → apiAnswer e.mapErrno ≠ smcSuccess)
  else if e.allocStack = none ∨ (s.mode = .kern ∧ !e.allocHeap) then
    s.takesId ∧ (s.hasData → !again)
  else True

/-- the command and its buffers can be mapped, the request is complete, and the service is one
that is not known, or fits -/
def OpenFits : Prop :=
  e.mapCmd ∧ e.respBufLen ≠ 0 ∧ e.mapResp ∧ e.mapReq ∧ e.svcId ≠ svcInvalid ∧
    match serviceOf b e.svcId with
    | none => (serviceOf b e.svcIdLater).isSome →
        !e.configData ∧ apiAnswer errno ≠ smcSuccess
    | some s => ServiceFits e k s (serviceOf b e.svcIdLater).isSome

end

end Session
end SierraTee
