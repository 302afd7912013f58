import SierraTee.Kernel.Task

/-!
# Scheduling (`global.c`, `scheduler.c`, `sw_wait.c`)

The ready list and the states of its tasks, the choice of the next task, and the switch to it.
-/

namespace SierraTee
open Rings

namespace Kernel
variable (fuel : Nat) (g : GuestConfig) (k : Kernel)

/-! ## The ready list -/

def scheduleTask (t : TaskPtr) : Option Kernel := do
  match ← k.findTask fuel .readyToRunList (k.task t).taskId with
  | some _ => some k
  | none =>
    some ((k.setLinkData (.readyHead t) t).addLink .readyToRunList (.readyHead t) .tail)

def scheduleTaskNext (t : TaskPtr) : Kernel :=
  (k.setLinkData (.readyHead t) t).addLink .readyToRunList (.readyHead t) .head

def scheduleTaskId (id : Int) : Option Kernel := do
  match ← k.getTask fuel id with
  | some t => (k.setState t .readyToRun).scheduleTask fuel t
  | none => some k

def suspendTask (id : Int) (s : TaskState) : Option Kernel := do
  match ← k.getTask fuel id with
  | some t =>
    let k := k.setState t s
    if k.currentTaskId = id ∧ s = .suspend then some { k with currentTaskId := -1 } else some k
  | none => some k

/-! ## The scheduler -/

def guestOk (t : TaskPtr) : Bool :=
  !g.multiGuests || (k.task t).guestNo = -1 || (k.task t).guestNo = k.currentGuest

def runnable (t : TaskPtr) : Bool :=
  (k.task t).state ≠ .wait && (k.task t).state ≠ .suspend && k.guestOk g t

def stayWith : Option TaskPtr → Option TaskPtr
  | some c => if k.runnable g c then some c else none
  | none => none

def requeue : Option TaskPtr → Option Kernel
  | none => some k
  | some c => do
    match ← k.findTask fuel .readyToRunList (k.task c).taskId with
    | some _ => some k
    | none => if k.runnable g c then k.scheduleTask fuel c else some k

def takeFirst (l : Link) : Option (Kernel × Option TaskPtr) :=
  match k.data l with
  | none => if g.multiGuests then none else some (k.removeLink l, none)
  | some t => if k.guestOk g t then some (k.removeLink l, some t) else some (k, none)

def getNextTask : Option (Kernel × Option TaskPtr) := do
  let current ← k.getCurrentTask fuel
  if k.linkEmpty .readyToRunList then some (k, k.stayWith g current)
  else
    let (k', next) ← k.takeFirst g (k.links.next .readyToRunList)
    let k' ← k'.requeue fuel g current
    some (k', next)

def saveTaskContextRegs : Option TaskPtr → Kernel
  | some t => k.setTask t { k.task t with regs := k.swiRegs }
  | none => k

def restoreTaskContextRegs : Option TaskPtr → Kernel
  | some t => { k with swiRegs := (k.task t).regs }
  | none => k

def taskContextSwitch (new old : Option TaskPtr) : Kernel :=
  (k.saveTaskContextRegs old).restoreTaskContextRegs new

/-- `next_task->state` and `update_current_task` -/
def setRunning : Option TaskPtr → Kernel
  | some t => { k.setState t .running with currentTaskId := (k.task t).taskId }
  | none => k

def scheduler : Option Kernel := do
  let current ← k.getCurrentTask fuel
  let (k', next) ← k.getNextTask fuel g
  if current = next then some k' else some ((k'.setRunning next).taskContextSwitch next current)

/-! ## Wakeups -/

inductive WakeFlag where
  | wakeUp | immediate
  deriving DecidableEq

def scheduleTaskFunction (i : ItemPtr) (f : WakeFlag) : Option Kernel := do
  let t ← k.itemTask i
  let k := k.setState t .readyToRun
  match f with
  | .immediate => (k.scheduleTaskNext t).scheduler fuel g
  | .wakeUp => k.scheduleTask fuel t

def wakeItem (f : WakeFlag) : Option ItemPtr → Option Kernel
  | some i => k.scheduleTaskFunction fuel g i f
  | none => some k

def swWakeup (q : QueuePtr) (f : WakeFlag) : Option Kernel := do
  let l ← search k.links (.elementsList q) (fun l => (k.data l).isSome) fuel
    (k.links.next (.elementsList q))
  k.wakeItem fuel g f (l.bind k.data)

/-! ## Runs -/

inductive SchedOp where
  | scheduleTask (t : TaskPtr)
  | scheduleTaskNext (t : TaskPtr)
  | scheduleTaskId (id : Int)
  | suspendTask (id : Int) (s : TaskState)
  | scheduleTaskFunction (i : ItemPtr) (f : WakeFlag)
  | getNextTask
  | scheduler

def sched (a : Nat × SchedOp) : Option Kernel :=
  match a.2 with
  | .scheduleTask t => k.scheduleTask a.1 t
  | .scheduleTaskNext t => some (k.scheduleTaskNext t)
  | .scheduleTaskId id => k.scheduleTaskId a.1 id
  | .suspendTask id s => k.suspendTask a.1 id s
  | .scheduleTaskFunction i f => k.scheduleTaskFunction a.1 g i f
  | .getNextTask => (k.getNextTask a.1 g).map Prod.fst
  | .scheduler => k.scheduler a.1 g

end Kernel

/-- with the calls of `sw_wakeup_all` that are under way: the queue, the flag, and the link of the
element whose function has been called last -/
structure SchedState where
  kernel : Kernel
  loops : List (QueuePtr × Kernel.WakeFlag × Link)

inductive SchedCall where
  | op (a : Kernel.SchedOp)
  | swWakeup (q : QueuePtr) (f : Kernel.WakeFlag)
  | swWakeupAll (q : QueuePtr) (f : Kernel.WakeFlag)
  /-- the function of an element has returned, and the loop of the call `c` goes on -/
  | goOn (c : Nat)

/-- a call, or one round of a loop: other calls can come between the rounds -/
def schedCall (g : GuestConfig) (s : SchedState) (a : Nat × SchedCall) : Option SchedState :=
  match a.2 with
  | .op x => (s.kernel.sched g (a.1, x)).map fun k => { s with kernel := k }
  | .swWakeup q f => (s.kernel.swWakeup a.1 g q f).map fun k => { s with kernel := k }
  | .swWakeupAll q f => some { s with loops := s.loops ++ [(q, f, .elementsList q)] }
  | .goOn c => s.loops[c]?.bind fun x =>
    let l := s.kernel.links.next x.2.2
    if l = .elementsList x.1 then some { s with loops := s.loops.eraseIdx c }
    else (s.kernel.wakeItem a.1 g x.2.1 (s.kernel.data l)).map fun k =>
      { kernel := k, loops := s.loops.set c (x.1, x.2.1, l) }

end SierraTee
