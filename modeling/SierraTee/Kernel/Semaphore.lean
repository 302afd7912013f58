import SierraTee.Kernel.Pending
import SierraTee.Lib.Exclusive
import SierraTee.Lib.Runs
import SierraTee.Lib.Word

/-!
# Semaphores (`sw_semaphores.c`, `sw_semaphores_asm.S`)

The tasks may be of any type, and any of them may take the next step unless it is in the `WAIT`
state.
-/

namespace SierraTee
open Exclusive Word

structure Semaphore (A : Type*) where
  counterParam : Cell A Nat
  count : Nat
  condition : Bool
  initParam : Bool
  waitQueue : TaskPendingQueue A

/-- `_sw_semaphore_init` for a name that is not in the list -/
def swSemaphoreInit {A : Type*} (value : Nat) : Semaphore A where
  counterParam := ⟨value, fun _ => false⟩
  count := value
  condition := value == 0
  initParam := true
  waitQueue := .empty

/-- `_sw_acquire_semaphore` and `_sw_release_semaphore` -/
inductive SemOp where
  | acquire | release
  deriving DecidableEq

inductive SemPc (A : Type*) where
  | idle
  /-- the test of `init_param` -/
  | entry (o : SemOp)
  /-- `cpu_acquire_semaphore` and `cpu_release_semaphore`; `v` is the value that was loaded -/
  | ldrex (o : SemOp)
  | strex (o : SemOp) (v : Nat)
  /-- `sem->condition = (sem->counter_param == 0)`: the load, and the store of `b` -/
  | condition (o : SemOp)
  | setCondition (o : SemOp) (b : Bool)
  /-- `sw_wait_event` -/
  | wait (o : SemOp) (w : WaitPoint)
  /-- `sw_wakeup`: the first element is read, and then the function of `f` is called -/
  | wakeup (o : SemOp)
  | wake (o : SemOp) (f : A)
  deriving DecidableEq

inductive SemEvent (A : Type*) where
  | stored (o : SemOp) (t : A)
  | returned (o : SemOp) (t : A)
  deriving DecidableEq

/-- the history has the newest event first -/
structure SemState (A : Type*) where
  sem : Semaphore A
  pc : A → SemPc A
  history : List (SemEvent A)

inductive SemAction where
  | call (o : SemOp)
  /-- the next access of the task; `fails` is for a store that fails for no reason and for an
  allocation -/
  | step (fails : Bool)

namespace SemState
variable {A : Type*} [DecidableEq A] (s : SemState A) (t : A)

def goto (p : SemPc A) : SemState A := { s with pc := Function.update s.pc t p }

def setCounter (c : Cell A Nat) : SemState A := { s with sem := { s.sem with counterParam := c } }

def setCondition (b : Bool) : SemState A := { s with sem := { s.sem with condition := b } }

def setQueue (q : TaskPendingQueue A) : SemState A := { s with sem := { s.sem with waitQueue := q } }

def log (e : SemEvent A) : SemState A := { s with history := e :: s.history }

def counter : Nat := s.sem.counterParam.word

def refused : SemOp → Bool
  | .acquire => s.counter == 0
  | .release => s.counter == s.sem.count

def waitCondition : SemOp → Bool
  | .acquire => s.counter != 0
  | .release => s.sem.condition

end SemState

namespace SemPc
variable {A : Type*}

def refused : SemOp → SemPc A
  | .acquire => .wait .acquire .test
  | .release => .condition .release

def stored : SemOp → SemPc A
  | .acquire => .condition .acquire
  | .release => .wakeup .release

def afterCondition : SemOp → SemPc A
  | .acquire => .wakeup .acquire
  | .release => .wait .release .test

end SemPc

def SemOp.update : SemOp → Nat → Nat
  | .acquire, v => sub32 v 1
  | .release, v => u32 (v + 1)

namespace SemState
variable {A : Type*} [DecidableEq A] (s : SemState A) (t : A)

/-- one access of the task at its program point -/
def instr (fails : Bool) : SemPc A → Option (SemState A)
  | .idle => none
  | .entry o => some (s.goto t (if s.sem.initParam = false then .idle else .ldrex o))
  | .ldrex o =>
    some ((s.setCounter (s.sem.counterParam.ldrex t)).goto t
      (if s.refused o then .refused o else .strex o s.counter))
  | .strex o v =>
    if s.sem.counterParam.succeeds t fails then
      some (((s.setCounter (s.sem.counterParam.strex t (o.update v) fails)).log (.stored o t)).goto t
        (.stored o))
    else some ((s.setCounter (s.sem.counterParam.strex t (o.update v) fails)).goto t (.ldrex o))
  | .condition o => some (s.goto t (.setCondition o (s.counter == 0)))
  | .setCondition o b => some ((s.setCondition b).goto t (.afterCondition o))
  | .wait o w =>
    (swWaitEvent s.sem.waitQueue t (s.waitCondition o) fails w).map fun r =>
      (s.setQueue r.1).goto t (r.2.elim (.ldrex o) (.wait o))
  | .wakeup o =>
    some (s.sem.waitQueue.elementsList.head?.elim ((s.log (.returned o t)).goto t .idle) fun f =>
      s.goto t (.wake o f))
  | .wake o f =>
    some (((s.setQueue (s.sem.waitQueue.scheduleTaskFunction f)).log (.returned o t)).goto t .idle)

def call (o : SemOp) : Option (SemState A) :=
  if s.pc t = .idle then some (s.goto t (.entry o)) else none

end SemState

/-- one step of a task -/
def semStep {A : Type*} [DecidableEq A] (s : SemState A) (a : A × SemAction) :
    Option (SemState A) :=
  match a.2 with
  | .call o => s.call a.1 o
  | .step fails => s.instr a.1 fails (s.pc a.1)

/-- no task is in the functions of a new semaphore -/
def newSemState {A : Type*} (value : Nat) : SemState A :=
  ⟨swSemaphoreInit value, fun _ => .idle, []⟩

end SierraTee
