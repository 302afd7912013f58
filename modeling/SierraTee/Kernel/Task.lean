import SierraTee.Lib.Ring

/-!
# The state of the kernel (`sw_link.h`, `task.h`, `global.h`)

A call that does not come back, in a loop over a broken list, has the result `none`, and so has
one that is not given enough rounds for its loops.
-/

namespace SierraTee
open Function Rings

abbrev TaskPtr := Nat
abbrev QueuePtr := Nat
abbrev ItemPtr := Nat

inductive Link where
  /-- the list heads of `global_val` -/
  | taskList
  | readyToRunList
  /-- the links of `struct sw_task` -/
  | head (t : TaskPtr)
  | readyHead (t : TaskPtr)
  | waitHead (t : TaskPtr)
  | taskWaitList (t : TaskPtr)
  /-- `elements_list` of `struct task_pending_queue` -/
  | elementsList (q : QueuePtr)
  /-- `head` of `struct task_queue_item` -/
  | item (i : ItemPtr)
  /-- `LINK_POISON_NEXT` and `LINK_POISON_PREV` -/
  | poisonNext
  | poisonPrev
  deriving DecidableEq

inductive TaskState where
  | suspend | wait | readyToRun | running
  deriving DecidableEq

inductive TaskMode where
  | user | kern
  deriving DecidableEq

structure SwTaskCpuRegs where
  regs : Nat → Nat
  sp : Nat
  lr : Nat
  spsr : Nat
  pc : Nat

structure SwTls where
  /-- where it is -/
  addr : Nat
  params : Nat → Nat
  retVal : Nat

structure SwTask where
  taskId : Nat
  entryAddr : Nat
  state : TaskState
  mode : TaskMode
  taskSp : Nat
  taskSpSize : Nat
  tls : SwTls
  regs : SwTaskCpuRegs
  notifyQueue : QueuePtr
  uid : Nat
  gid : Nat
  guestNo : Int

structure Kernel where
  links : Links Link
  /-- `data` of every link; `none` is the null pointer -/
  data : Link → Option Nat
  task : TaskPtr → SwTask
  /-- `data` of every wait-queue element -/
  itemTask : ItemPtr → Option TaskPtr
  currentTaskId : Int
  taskIdPool : Int → Bool
  /-- the task ids that the pending sleep timers have as their data -/
  sleepTimers : List Int
  /-- the registers of what was interrupted -/
  swiRegs : SwTaskCpuRegs
  /-- `get_current_guest_no()` -/
  currentGuest : Int

/-- `CONFIG_MULTI_GUESTS_SUPPORT` -/
structure GuestConfig where
  multiGuests : Bool

inductive LinkPos where
  | head | tail

namespace Kernel
variable (k : Kernel)

/-! ## `sw_link.h` -/

def linkInit (l : Link) : Kernel :=
  { k with links := k.links.init l, data := update k.data l none }

def setLinkData (l : Link) (p : Nat) : Kernel :=
  { k with data := update k.data l (some p) }

def linkEmpty (l : Link) : Bool := k.links.next l = l

def removeLink (l : Link) : Kernel :=
  { k with links := k.links.unlink l .poisonNext .poisonPrev }

def addLink (h l : Link) : LinkPos → Kernel
  | .head => { k with links := k.links.insert h l (k.links.next h) }
  | .tail => { k with links := k.links.insert (k.links.prev h) l h }

/-! ## Tasks -/

def setTask (t : TaskPtr) (x : SwTask) : Kernel := { k with task := update k.task t x }

def setState (t : TaskPtr) (s : TaskState) : Kernel :=
  k.setTask t { k.task t with state := s }

section
variable (t u : TaskPtr) (x : SwTask) (s : TaskState)

theorem setTask_task : (k.setTask t x).task u = if u = t then x else k.task u :=
  update_apply ..

theorem setState_task : (k.setState t s).task u
    = if u = t then { k.task t with state := s } else k.task u :=
  setTask_task ..

theorem setState_state : ((k.setState t s).task u).state = if u = t then s else (k.task u).state := by
  rw [setState_task]
  split_ifs <;> rfl

theorem setState_taskId : ((k.setState t s).task u).taskId = (k.task u).taskId := by
  rw [setState_task]
  split_ifs with h
  · rw [h]
  · rfl

end

/-- a task enters the list of tasks, as `create_task` does it -/
def enterTask (t : TaskPtr) : Kernel :=
  (k.setLinkData (.head t) t).addLink .taskList (.head t) .tail

/-- the first task from the head `h` on, through the data of the links, with the id; the list of
tasks and the ready list are searched like this -/
def findTask (fuel : Nat) (h : Link) (id : Int) : Option (Option TaskPtr) :=
  (search k.links h (fun l => (k.data l).any fun t => (k.task t).taskId = id) fuel
    (k.links.next h)).map fun l => l.bind k.data

def getTask (fuel : Nat) (id : Int) : Option (Option TaskPtr) := k.findTask fuel .taskList id

def getCurrentTask (fuel : Nat) : Option (Option TaskPtr) := k.getTask fuel k.currentTaskId

end Kernel

/-- a task as `create_task` leaves it, with the id `t` -/
def newTask (t : TaskPtr) : SwTask where
  taskId := t
  entryAddr := 0
  state := .suspend
  mode := .kern
  taskSp := 0
  taskSpSize := 0
  tls := ⟨0, fun _ => 0, 0⟩
  regs := ⟨fun _ => 0, 0, 0, 0, 0⟩
  notifyQueue := t
  uid := 0
  gid := 0
  guestNo := -1

/-- every link is as `link_init` leaves it, and no task runs -/
def newKernel : Kernel where
  links := ⟨fun l => l, fun l => l⟩
  data := fun _ => none
  task := newTask
  itemTask := fun _ => none
  currentTaskId := -1
  taskIdPool := fun _ => false
  sleepTimers := []
  swiRegs := ⟨fun _ => 0, 0, 0, 0, 0⟩
  currentGuest := 0

end SierraTee
