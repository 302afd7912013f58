import SierraTee.Kernel.TaskIds
import SierraTee.Dispatch.Loop

/-!
# Services and their configuration (`board_config.c`, `board_test.c`, `secure_api.c`)

Before the task of a service is created its init function fills a configuration: it takes a task id
and allocates the private data.  The init functions differ in what is in `ServiceInit`.
-/

namespace SierraTee
open Function
namespace Session
open Dispatch

def swOk : Int := 0
def swError : Int := -1
def swEacces : Int := 13

/-! ## init functions -/

/-- what an init function puts in the configuration, whether it calls `get_next_asid_val`, and
whether it allocates private data and checks for it -/
structure ServiceInit where
  serviceUuid : Nat
  mode : TaskMode
  allowMultipleInstance : Bool
  takesId : Bool
  hasData : Bool
  checksData : Bool
  stackSize : Nat

def taskStackSize : Nat := 4096
def taskHeapSize : Nat := 65536

def dispatchTaskInit : ServiceInit := ⟨1, .kern, true, true, true, true, taskStackSize⟩
def echoTaskInit : ServiceInit := ⟨2, .user, true, true, true, true, taskStackSize⟩
def drmTaskInit : ServiceInit := ⟨3, .user, false, true, true, true, taskStackSize⟩
def cryptoTaskInit : ServiceInit := ⟨4, .user, true, true, true, true, taskStackSize⟩
def kernelIntegrityCheckTaskInit : ServiceInit := ⟨7, .user, true, false, false, false, taskStackSize⟩
def linuxTaskInit : ServiceInit := ⟨8, .kern, true, true, true, false, taskStackSize⟩
def shellCmdProcessInit : ServiceInit := ⟨9, .kern, true, true, true, true, taskStackSize⟩
def testSuiteTaskInit : ServiceInit := ⟨10, .kern, true, true, true, true, taskStackSize⟩
def ffmpegTestTaskInit : ServiceInit := ⟨11, .user, false, true, false, false, taskHeapSize⟩
def testSuiteUserInit : ServiceInit := ⟨13, .user, true, true, true, true, taskStackSize⟩
def heapTestTaskInit : ServiceInit := ⟨14, .user, true, true, false, false, taskStackSize⟩
def intContxtSwitchTaskInit : ServiceInit := ⟨15, .kern, true, true, false, false, taskStackSize⟩
def testShmInit : ServiceInit := ⟨16, .user, true, true, true, true, taskStackSize⟩

/-- the options that a service can depend on: `FIX_TASK_IMPLEMENTATION`, `CONFIG_CRYPTO` and so on -/
structure Build where
  fixTask : Bool
  crypto : Bool
  kim : Bool
  shell : Bool
  testTasks : Bool
  ffmpeg : Bool
  testSuite : Bool

/-- the services that `sa_create_entry_point` and `sa_destroy_entry_point` know -/
def serviceOf (b : Build) (svcId : Int) : Option ServiceInit :=
  if svcId = 2 then some echoTaskInit
  else if b.fixTask ∧ svcId = 3 then some drmTaskInit
  else if b.crypto ∧ svcId = 4 then some cryptoTaskInit
  else if svcId = 1 then some dispatchTaskInit
  else if b.kim ∧ svcId = 7 then some kernelIntegrityCheckTaskInit
  else if svcId = 8 then some linuxTaskInit
  else if b.shell ∧ svcId = 9 then some shellCmdProcessInit
  else if b.testTasks ∧ svcId = 14 then some heapTestTaskInit
  else if b.testTasks ∧ svcId = 16 then some testShmInit
  else if b.testTasks ∧ svcId = 13 then some testSuiteUserInit
  else if b.ffmpeg ∧ svcId = 11 then some ffmpegTestTaskInit
  else if b.testSuite ∧ svcId = 15 then some intContxtSwitchTaskInit
  else if b.testSuite ∧ svcId = 10 then some testSuiteTaskInit
  else none

/-- the fields of `sa_config_t` that `create_task` reads; of `data` whether it is set -/
structure SaConfig where
  serviceUuid : Nat
  mode : TaskMode
  gid : Nat
  allowMultipleInstance : Bool
  taskId : Nat
  stackSize : Nat
  entryPoint : Nat
  data : Bool
  guestNo : Int

def commonGroupId : Nat := 1

/-! ## what a request holds -/

/-- what a request takes besides the task id; `tlsPage` is the physical page of a local storage whose
address cannot be reserved -/
inductive OpenRes where
  | cmdMap | respMap | reqMap | data | task | tlsPage | tls | tlsMap | stack | heap
  deriving DecidableEq

inductive CmdStatus where
  | complete | incomplete

/-- the kernel with what the request holds, whether something has been freed that it did not hold,
the error number of the dispatcher, and what has been written to the command and the response -/
structure OpenState where
  kernel : Kernel
  held : OpenRes → Bool
  badFree : Bool
  errno : Int
  response : Option Int
  cmdStatus : Option CmdStatus
  retRespBufLen : Option Nat

namespace OpenState
variable (st : OpenState)

def take (r : OpenRes) : OpenState := { st with held := update st.held r true }

def give (r : OpenRes) : OpenState :=
  { st with
    held := update st.held r false
    badFree := st.badFree || !st.held r }

def setErrno (n : Int) : OpenState := { st with errno := n }

def takeTaskId (id : Nat) : OpenState :=
  { st with kernel := { st.kernel with
      taskIdPool := update st.kernel.taskIdPool id true } }

def giveTaskId (id : Nat) : OpenState :=
  { st with
    kernel := { st.kernel with taskIdPool := update st.kernel.taskIdPool id false }
    badFree := st.badFree || !st.kernel.taskIdPool id }

end OpenState

/-! ## entry points -/

/-- the entries of the pool that the byte index of `get_next_asid_val` reaches -/
def asidPool (k : Kernel) (a : UInt8) : Bool := k.taskIdPool a.toNat

/-- `get_next_asid_val`, which goes on for ever if no id is free -/
def getNextAsidVal (k : Kernel) : Option Nat :=
  (SierraTee.getNextAsidVal (asidPool k)).map UInt8.toNat

/-- the outcomes of the allocations and checks of a request.  `svcIdLater` is the request word when
it is read again after a failure, `configData` and `freshSp` say whether the memory of the
configuration and of the task has a pointer in it before it is set, and `mapErrno` is the error
number after a mapping that fails.  `sw_alloc_tls` gets the page of `allocTls` and reserves it. -/
structure OpenEnv where
  mapCmd : Bool
  respBufLen : UInt32
  mapResp : Bool
  mapReq : Bool
  svcId : Int
  svcIdLater : Int
  entryPoint : Nat
  configData : Bool
  mallocData : Bool
  /-- the dispatcher is in exec mode 1 and `get_permission` is `-1` -/
  denied : Bool
  /-- `check_multiple_instance` finds a task of the service -/
  otherInstance : Bool
  mallocTask : Option TaskPtr
  freshSp : Bool
  allocTls : Option Nat
  reserveTls : Bool
  mapTls : Bool
  mapErrno : Int
  allocStack : Option Nat
  allocHeap : Bool

section
variable (e : OpenEnv) (st : OpenState)

def ServiceInit.config (s : ServiceInit) (id : Nat) (data : Bool) : SaConfig where
  serviceUuid := s.serviceUuid
  mode := s.mode
  gid := commonGroupId
  allowMultipleInstance := s.allowMultipleInstance
  taskId := id
  stackSize := s.stackSize
  entryPoint := e.entryPoint
  data := data
  guestNo := -1

/-- the part of an init function behind the task id; without the check a null pointer is written
through -/
def ServiceInit.initData (s : ServiceInit) (id : Nat) : Option (OpenState × SaConfig × Int) :=
  if s.hasData then
    if e.mallocData then some (st.take .data, s.config e id true, swOk)
    else if s.checksData then some (st.setErrno swEnomem, s.config e id false, swError)
    else none
  else some (st, s.config e id false, swOk)

def ServiceInit.init (s : ServiceInit) : Option (OpenState × SaConfig × Int) :=
  if s.takesId then
    (getNextAsidVal st.kernel).bind fun id => s.initData e (st.takeTaskId id) id
  else s.initData e st 0

def unsetConfig : SaConfig where
  serviceUuid := 0
  mode := .user
  gid := 0
  allowMultipleInstance := false
  taskId := 0
  stackSize := 0
  entryPoint := 0
  data := e.configData
  guestNo := 0

def saCreateEntryPoint (b : Build) : Option (OpenState × SaConfig × Int) :=
  match serviceOf b e.svcId with
  | some s => s.init e st
  | none => some (st, unsetConfig e, swError)

/-- `sa_destroy_entry_point` with the private data `data` -/
def saDestroyEntryPoint (b : Build) (svcId : Int) (data : Bool) : OpenState :=
  match serviceOf b svcId with
  | some _ => if data then st.give .data else st
  | none => st.setErrno swEinval

end

end Session
end SierraTee
