import SierraTee.Kernel.Schedule

/-!
# From start to end of a task (`task.c`, `cpu_task.c`, `sw_wait.c`, `sw_timer_functions.c`)

A task is put in the list of tasks, set to its entry function and queued; others wait for its end.
-/

namespace SierraTee
open Rings

def archSysMode : Nat := 0x1f
def archUsrMode : Nat := 0x10
def irqBit : Nat := 0x80

def cpuTaskRegsInit (x : SwTask) : SwTaskCpuRegs where
  regs := fun n => if n = 0 then x.taskId else if n = 1 then x.tls.addr else 0
  lr := 0
  pc := x.entryAddr
  sp := x.taskSp + x.taskSpSize
  spsr := (if x.mode = .kern then archSysMode else archUsrMode) ||| irqBit

/-- what `start_task` does to the task itself; without parameters they are cleared -/
def SwTask.start (x : SwTask) (params : Option (Nat → Nat)) : SwTask :=
  { x with
    regs := cpuTaskRegsInit x
    tls := { x.tls with params := params.getD fun _ => 0 } }

namespace Kernel
variable (fuel : Nat) (g : GuestConfig) (k : Kernel)

/-- `create_task` behind its allocations; `x` is the new task -/
def createTask (t : TaskPtr) (x : SwTask) : Kernel :=
  let k := (((k.linkInit (.head t)).linkInit (.readyHead t)).linkInit (.waitHead t)).linkInit
    (.taskWaitList t)
  (k.enterTask t).setTask t { x with state := .suspend }

def startTask (id : Int) (params : Option (Nat → Nat)) : Option Kernel := do
  match ← k.getTask fuel id with
  | some t => (k.setTask t ((k.task t).start params)).scheduleTask fuel t
  | none => some k

/-! ## Wait queues -/

/-- a new element for the current task -/
def newQueueItem (i : ItemPtr) : Option Kernel := do
  let c ← k.getCurrentTask fuel
  let k := k.linkInit (.item i)
  some { k with itemTask := Function.update k.itemTask i c }

def swNoLockPendingQueueAdd (q : QueuePtr) (i : ItemPtr) : Kernel :=
  (k.setLinkData (.item i) i).addLink (.elementsList q) (.item i) .tail

def swSetTaskState (s : TaskState) : Option Kernel := k.suspendTask fuel k.currentTaskId s

def swAtomicQueueAddAndState (q : QueuePtr) (i : ItemPtr) (s : TaskState) : Option Kernel :=
  let k := if k.linkEmpty (.item i) then k.swNoLockPendingQueueAdd q i else k
  k.swSetTaskState fuel s

def swWaitDone (i : ItemPtr) : Kernel :=
  if k.linkEmpty (.item i) then k else (k.removeLink (.item i)).linkInit (.item i)

/-! ## Sleeping -/

/-- up to the call of `schedule` -/
def swSleep : Option Kernel :=
  ({ k with sleepTimers := k.currentTaskId :: k.sleepTimers } : Kernel).suspendTask fuel
    k.currentTaskId .wait

/-- the timer with the task id `id` -/
def wakeUpFromSleep (id : Int) : Option Kernel := do
  let k ← k.scheduleTaskId fuel id
  some { k with sleepTimers := k.sleepTimers.erase id }

/-! ## The end of a task -/

def addToWaitList : Option TaskPtr → Option TaskPtr → Kernel
  | some t, some w => (k.setLinkData (.waitHead t) w).addLink (.taskWaitList t) (.waitHead t) .head
  | _, _ => k

def syscallWait (id : Int) : Option Kernel := do
  let c ← k.getCurrentTask fuel
  let t ← k.getTask fuel id
  let k := k.addToWaitList t c
  let c ← c
  k.suspendTask fuel (k.task c).taskId .suspend

def leaveReady (id : Int) : Option Kernel := do
  match ← k.findTask fuel .readyToRunList id with
  | some u =>
    let k := k.removeLink (.readyHead u)
    some { k with data := Function.update k.data (.readyHead u) none }
  | none => some k

/-- `waiting_task` is queued; the state that is set is that of the task that ends -/
def wakeWaiter (t : TaskPtr) : Option TaskPtr → Kernel
  | some w => (k.setState t .readyToRun).scheduleTaskNext w
  | none => k

/-- the loop over the tasks that wait for the end of `t`, with `n` rounds -/
def wakeWaiters (k : Kernel) (t : TaskPtr) : Nat → Link → Option Kernel
  | 0, _ => none
  | n + 1, l =>
    let k := k.wakeWaiter t (k.data l)
    let l := k.links.next l
    if (k.data l).isSome then wakeWaiters k t n l else some k

def wakeWaitList (t : TaskPtr) : Option Kernel :=
  if k.linkEmpty (.taskWaitList t) then some k
  else k.wakeWaiters t fuel (.taskWaitList t)

def freeTask (t : TaskPtr) (id : Int) : Kernel :=
  { k.removeLink (.head t) with taskIdPool := Function.update k.taskIdPool id false }

def destroyTask (id : Int) : Option Kernel := do
  match ← k.getTask fuel id with
  | none => some k
  | some t =>
    let k ← k.leaveReady fuel id
    let k ← k.wakeWaitList fuel t
    some (k.freeTask t id)

/-! ## Runs -/

/-- the operations on tasks; each of them is made with the interrupts off -/
inductive KernelOp where
  | scheduleTask (t : TaskPtr)
  | scheduleTaskId (id : Int)
  | suspendTask (id : Int) (s : TaskState)
  | scheduleTaskFunction (i : ItemPtr) (f : WakeFlag)
  | getNextTask
  | scheduler
  | startTask (id : Int) (params : Option (Nat → Nat))
  | destroyTask (id : Int)

/-- an operation with as many rounds as it gets for its loops -/
def step (a : Nat × KernelOp) : Option Kernel :=
  match a.2 with
  | .scheduleTask t => k.scheduleTask a.1 t
  | .scheduleTaskId id => k.scheduleTaskId a.1 id
  | .suspendTask id s => k.suspendTask a.1 id s
  | .scheduleTaskFunction i f => k.scheduleTaskFunction a.1 g i f
  | .getNextTask => (k.getNextTask a.1 g).map Prod.fst
  | .scheduler => k.scheduler a.1 g
  | .startTask id params => k.startTask a.1 id params
  | .destroyTask id => k.destroyTask a.1 id

inductive LifeOp where
  | kernel (op : KernelOp)
  | createTask (t : TaskPtr) (x : SwTask)
  | newQueueItem (i : ItemPtr)
  | queueAdd (q : QueuePtr) (i : ItemPtr) (s : TaskState)
  | waitDone (i : ItemPtr)
  | sleep
  | timer (id : Int)
  | wait (id : Int)

def life (a : Nat × LifeOp) : Option Kernel :=
  match a.2 with
  | .kernel op => k.step g (a.1, op)
  | .createTask t x => some (k.createTask t x)
  | .newQueueItem i => k.newQueueItem a.1 i
  | .queueAdd q i s => k.swAtomicQueueAddAndState a.1 q i s
  | .waitDone i => some (k.swWaitDone i)
  | .sleep => k.swSleep a.1
  | .timer id => k.wakeUpFromSleep a.1 id
  | .wait id => k.syscallWait a.1 id

end Kernel

end SierraTee
