import SierraTee.Lib.Runs
import SierraTee.Kernel.Lifecycle

/-!
# The dispatcher and the two worlds (`dispatcher_task.c`, `secure_api.c`, `sw_wait.h`, `monitor.S`)

One pass of the loop of `dispatch_task` goes up to its call of `schedule`.
-/

namespace SierraTee
open Function
namespace Dispatch
open Runs

/-! ## Commands (`otz_common.h`, `otz_id.h`, `smc_id.h`) -/

def callTrustzoneApi : Nat := 1

def cmdTypeNsToSecure : Nat := 1
def cmdTypeSecureToSecure : Nat := 3

def svcInvalid : Nat := 0
def svcGlobal : Nat := 1

def globalCmdInvalid : Nat := 0
def globalCmdBootAck : Nat := 1
def globalCmdOpenSession : Nat := 2
def globalCmdCloseSession : Nat := 3
def globalCmdRegisterNotify : Nat := 4
def globalCmdUnregisterNotify : Nat := 5
def globalCmdResumeAsync : Nat := 6

def smcSuccess : Nat := 0
def smcPending : Nat := 1
def smcError : Nat := 3
def smcEinvalArg : Nat := 4
def smcEnomem : Nat := 7

def swEio : Int := 5
def swEnomem : Int := 12
def swEinval : Int := 22

def apiAnswer (ret : Int) : Nat :=
  if ret = swEnomem then smcEnomem
  else if ret = swEio then smcError
  else if ret = swEinval then smcEinvalArg
  else smcSuccess

structure SmcCmd where
  id : Nat
  context : Int
  srcContext : Int

structure ApiContext where
  svcId : Nat
  taskId : Int
  cmdId : Nat
  cmdType : Nat

/-- there is no command if it cannot be mapped -/
def getApiContext (params : Nat → Nat) : Option SmcCmd → ApiContext
  | none => ⟨svcInvalid, 0, globalCmdInvalid, params 2⟩
  | some cmd => ⟨cmd.id / 1024 % 1024, cmd.context, cmd.id % 1024, params 2⟩

inductive LoopBranch where
  | interrupt | linux | bootAck | service | resume | start | invalid | nothing
  deriving DecidableEq

def ApiContext.branch (c : ApiContext) : LoopBranch :=
  if c.svcId = svcGlobal ∧ c.cmdId = globalCmdBootAck then .bootAck
  else if c.svcId = svcGlobal ∧ (c.cmdId = globalCmdOpenSession ∨ c.cmdId = globalCmdCloseSession ∨
      c.cmdId = globalCmdRegisterNotify ∨ c.cmdId = globalCmdUnregisterNotify) then .service
  else if c.svcId = svcGlobal ∧ c.cmdId = globalCmdResumeAsync then .resume
  else if c.svcId ≠ svcInvalid ∧ c.taskId ≠ 0 ∧ c.cmdId ≠ globalCmdInvalid then .start
  else .invalid

/-! ## The secure world -/

structure Secure where
  kernel : Kernel
  paramsStack : Nat → Nat
  validParamsFlag : Bool
  /-- the command that `params_stack[1]` points to -/
  cmd : Option SmcCmd
  secureInterruptSet : Bool
  linuxReturnFlag : Bool
  linuxTaskId : Int
  /-- `g_dispatch_data` -/
  secureApiSet : Bool
  secureApiRetVal : Nat

namespace Secure
variable (fuel : Nat) (g : GuestConfig) (s : Secure)

def setSecureApiRet (v : Nat) : Secure := { s with secureApiSet := true, secureApiRetVal := v }

def setKernel (k : Kernel) : Secure := { s with kernel := k }

def context : ApiContext := getApiContext s.paramsStack s.cmd

def branch : LoopBranch :=
  if s.secureInterruptSet then .interrupt
  else if s.linuxReturnFlag then .linux
  else if s.validParamsFlag ∧ s.paramsStack 0 = callTrustzoneApi then s.context.branch
  else .nothing

def take : Secure := { s with validParamsFlag := false }

/-- a task that does not exist is the null pointer -/
def resumeAsyncTask (id : Int) : Option Secure := do
  let r ← s.kernel.getTask fuel id
  let t ← r
  let k ← s.kernel.swWakeup fuel g (s.kernel.task t).notifyQueue .immediate
  some (s.setKernel k)

def startTask (id : Int) (params : Option (Nat → Nat)) : Option Secure :=
  (s.kernel.startTask fuel id params).map s.setKernel

/-- what the pass does in the branch; `ret` is the result of the function that it calls -/
def passIn (ret : Int) : LoopBranch → Option Secure
  | .interrupt => some { s with secureInterruptSet := false }
  | .linux => s.startTask fuel s.linuxTaskId none
  | .bootAck => some (s.take.setSecureApiRet smcSuccess)
  | .service =>
    if s.context.cmdType = cmdTypeNsToSecure then some (s.take.setSecureApiRet (apiAnswer ret))
    else some s.take
  | .resume =>
    if s.context.cmdType = cmdTypeNsToSecure ∧ s.context.taskId ≠ 0 then
      s.take.resumeAsyncTask fuel g s.context.taskId
    else some s.take
  | .start => s.take.startTask fuel s.context.taskId (some s.paramsStack)
  | .invalid => some (s.take.setSecureApiRet 0)
  | .nothing => some s

def pass (ret : Int) : Option Secure := s.passIn fuel g ret s.branch

def cmdTypeOf (id : Int) : Option Nat := do
  let r ← s.kernel.getTask fuel id
  let t ← r
  some ((s.kernel.task t).tls.params 2)

/-- the task that has sent the command goes on -/
def otzIpiReturn (src : Int) : Option Secure := do
  match ← s.kernel.getTask fuel src with
  | some t => (s.kernel.scheduleTask fuel t).map s.setKernel
  | none => some s

/-- `exit_task` for a task that returns `v`; `src` is the sender of its command -/
def exitTask (id : Int) (v : Nat) (src : Int) : Option Secure := do
  let r ← s.kernel.getTask fuel id
  let t ← r
  let x := s.kernel.task t
  let k ← (s.kernel.setTask t { x with tls := { x.tls with retVal := v } }).suspendTask fuel id
    .suspend
  let s := s.setKernel k
  if x.tls.params 2 = cmdTypeNsToSecure then some (s.setSecureApiRet v)
  else if x.tls.params 2 = cmdTypeSecureToSecure then s.otzIpiReturn fuel src
  else some s

/-- the first round of `sw_wait_event_async`, with `SMC_PENDING` -/
def waitEventAsync (q : QueuePtr) (i : ItemPtr) : Option Secure :=
  (s.kernel.swAtomicQueueAddAndState fuel q i .wait).map fun k =>
    (s.setKernel k).setSecureApiRet smcPending

/-- `otz_ipi`; the command is at the address `p` -/
def otzIpi (p : Nat) (cmd : SmcCmd) : Option Secure :=
  (s.kernel.suspendTask fuel cmd.srcContext .wait).map fun k =>
    { s.setKernel k with
      paramsStack := fun n => if n = 0 then callTrustzoneApi else if n = 1 then p
        else if n = 2 then cmdTypeSecureToSecure else 0
      validParamsFlag := true
      cmd := some cmd }

end Secure

/-! ## The two worlds -/

inductive NsContext where
  | running
  | inRequest (r : Nat)
  | preempted
  deriving DecidableEq

inductive LoopPc where
  /-- at the top, behind its call of `schedule`, and in `return_secure_api` -/
  | top | check | returning
  deriving DecidableEq

/-- the fields from `requests` on are a history, which the code does not have -/
structure System where
  secure : Secure
  loop : LoopPc
  /-- the linux task is to return to the normal world -/
  linuxStarted : Bool
  ns : NsContext
  /-- `r0` of the saved context -/
  nsR0 : Nat
  requests : Nat
  /-- the request that the parameters are from -/
  source : Option Nat
  /-- the last request that a task has been started or resumed for -/
  serves : Int → Option Nat
  /-- the request that the answer has been set for -/
  setFor : Option Nat
  /-- the task has not finished the command that it has been started for -/
  busy : Int → Bool
  /-- the session that a request is about -/
  about : Nat → Option Int
  /-- a command for the session has been sent and has not got its final answer -/
  outstanding : Int → Bool

def ApiContext.about (c : ApiContext) : Option Int :=
  match c.branch with
  | .start | .resume => some c.taskId
  | _ => none

inductive SysOp where
  /-- `tz_api` -/
  | request (p : Nat → Nat) (cmd : Option SmcCmd)
  /-- `ns_fiq_handler` -/
  | fiq (r0 : Nat)
  /-- the dispatcher: a pass, its look at the answer, and its return from `return_secure_api` -/
  | pass (ret : Int)
  | check
  | returned
  /-- `non_secure_return_path`, called by the linux task -/
  | linuxReturn
  /-- a task completes, or is killed -/
  | exit (id : Int) (v : Nat) (src : Int)
  /-- the current task waits -/
  | waitAsync (q : QueuePtr) (i : ItemPtr)
  | ipi (p : Nat) (cmd : SmcCmd)
  /-- anything else in the kernel; tasks are started by the dispatcher only -/
  | kernel (op : Kernel.LifeOp)

def isStart : Kernel.LifeOp → Bool
  | .kernel (.startTask _ _) => true
  | _ => false

namespace System
variable (fuel : Nat) (g : GuestConfig) (s : System)

def setSecure (x : Secure) : System := { s with secure := x }

/-- the session `id` has an outstanding command, if the command is to start it -/
def sent (c : ApiContext) : System :=
  if c.branch = .start then { s with outstanding := update s.outstanding c.taskId true }
  else s

def request (p : Nat → Nat) (cmd : Option SmcCmd) : System :=
  { s.sent (getApiContext p cmd) with
    secure := { s.secure with paramsStack := p, validParamsFlag := true, cmd := cmd }
    ns := .inRequest s.requests
    nsR0 := p 0
    requests := s.requests + 1
    source := some s.requests
    about := update s.about s.requests (getApiContext p cmd).about }

def fiq (r0 : Nat) : System :=
  { s with secure := { s.secure with linuxReturnFlag := true }, ns := .preempted, nsR0 := r0 }

def serve (id : Int) : System := { s with serves := update s.serves id s.source }

def begin (id : Int) : System :=
  if (s.secure.kernel.getTask fuel id).join.isSome then
    { s.serve id with busy := update s.busy id true }
  else s

def passed : LoopBranch → System
  | .interrupt => { s with ns := .running, nsR0 := 0 }
  | .linux => { s with linuxStarted := true }
  | .bootAck | .invalid => { s with setFor := s.source }
  | .service =>
    if s.secure.context.cmdType = cmdTypeNsToSecure then { s with setFor := s.source } else s
  | .resume => s.serve s.secure.context.taskId
  | .start => s.begin fuel s.secure.context.taskId
  | .nothing => s

def pass (ret : Int) : Option System :=
  (s.secure.pass fuel g ret).map fun x =>
    { (s.passed fuel s.secure.branch).setSecure x with loop := .check }

/-- the answer `v` to the request of the context is given; a final one ends the command -/
def answered (v : Nat) : System :=
  match s.setFor.bind s.about with
  | some id =>
    if v = smcPending then s
    else { s with outstanding := update s.outstanding id false }
  | none => s

def check : System :=
  if s.secure.secureApiSet then
    { s.answered s.secure.secureApiRetVal with
      loop := .returning
      ns := .running
      nsR0 := s.secure.secureApiRetVal }
  else { s with loop := .top }

def returned : System :=
  { s with secure := { s.secure with secureApiSet := false }, loop := .top }

def linuxReturn : System :=
  { s with
    secure := { s.secure with linuxReturnFlag := false }
    linuxStarted := false
    ns := .running }

def exited (id : Int) (cmdType : Option Nat) : System :=
  if cmdType = some cmdTypeNsToSecure then
    { s with busy := update s.busy id false, setFor := s.serves id }
  else
    { s with
      busy := update s.busy id false
      outstanding := update s.outstanding id false }

def exit (id : Int) (v : Nat) (src : Int) : Option System :=
  (s.secure.exitTask fuel id v src).map
    (s.exited id (s.secure.cmdTypeOf fuel id)).setSecure

def waitAsync (q : QueuePtr) (i : ItemPtr) : Option System :=
  (s.secure.waitEventAsync fuel q i).map fun x =>
    { s with secure := x, setFor := s.serves s.secure.kernel.currentTaskId }

def ipi (p : Nat) (cmd : SmcCmd) : Option System :=
  (s.secure.otzIpi fuel p cmd).map fun x =>
    { (s.sent x.context) with secure := x, source := none }

def ended : Kernel.LifeOp → System
  | .kernel (.destroyTask id) => { s with busy := update s.busy id false }
  | _ => s

def kernelOp (op : Kernel.LifeOp) : Option System :=
  if isStart op then none
  else (s.secure.kernel.life g (fuel, op)).map fun k => (s.ended op).setSecure (s.secure.setKernel k)

def secureStep : SysOp → Option System
  | .request _ _ | .fiq _ => none
  | .pass ret => if s.loop = .top then s.pass fuel g ret else none
  | .check => if s.loop = .check then some s.check else none
  | .returned => if s.loop = .returning then some s.returned else none
  | .linuxReturn => if s.linuxStarted then some s.linuxReturn else none
  | .exit id v src => s.exit fuel id v src
  | .waitAsync q i => s.waitAsync fuel q i
  | .ipi p cmd => s.ipi fuel p cmd
  | .kernel op => s.kernelOp fuel g op

def normalStep : SysOp → Option System
  | .request p cmd => if p 0 = callTrustzoneApi then some (s.request p cmd) else none
  | .fiq r0 => some (s.fiq r0)
  | _ => none

/-- an operation with as many rounds as it gets for its loops -/
def step (a : Nat × SysOp) : Option System :=
  if s.ns = .running then s.normalStep a.2 else s.secureStep a.1 g a.2

/-- the value that `return_secure_api` is executed with in a step -/
def returns (op : SysOp) : Option Nat :=
  match op with
  | .pass _ => if s.loop = .top ∧ s.secure.branch = .interrupt then some 0 else none
  | .check => if s.loop = .check ∧ s.secure.secureApiSet then some s.secure.secureApiRetVal else none
  | _ => none

end System

end Dispatch
end SierraTee
