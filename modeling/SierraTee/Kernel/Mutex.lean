import SierraTee.Lib.Runs
import SierraTee.Lib.Exclusive

/-!
# Mutexes (`sw_semaphores.c`, `sw_semaphores_asm.S`)
-/

namespace SierraTee
open Exclusive

def otzFree : Nat := 0
def otzLocked : Nat := 1

def taskIdStart : Nat := 0x11

/-- an id that `get_next_asid_val` gives to a task as long as one from `TASK_ID_START` on is left -/
abbrev TaskId := { n : Nat // taskIdStart ≤ n }

structure Mutex where
  lockParam : Cell TaskId Nat
  initParam : Bool
  ownerId : Nat

def swMutexInit : Mutex where
  lockParam := ⟨otzFree, fun _ => false⟩
  initParam := true
  ownerId := 0

inductive MutexPc where
  | idle
  /-- `_sw_acquire_mutex`, with `cpu_acquire_mutex` and `sw_wait_event` -/
  | acquire | acquireLdrex | acquireStrex | acquireWait | acquireSleep | acquireOwner
  /-- `_sw_acquire_mutex_nowait`, with `cpu_acquire_mutex_nowait` -/
  | nowait | nowaitLdrex | nowaitStrex | nowaitOwner
  /-- `_sw_release_mutex`, with `cpu_release_mutex` -/
  | release | releaseLdrex | releaseStrex | releaseWakeup | releaseOwner
  deriving DecidableEq

inductive MutexEvent where
  | acquired (t : TaskId)
  | released (t : TaskId)
  deriving DecidableEq

/-- the history has the newest event first -/
structure MutexState where
  mutex : Mutex
  pc : TaskId → MutexPc
  history : List MutexEvent

inductive MutexAction where
  | acquire | nowait | release
  /-- the next instruction of the task; `fails` is for a store that fails for no reason and for an
  allocation -/
  | step (fails : Bool)
  deriving DecidableEq

namespace MutexState
variable (s : MutexState) (t : TaskId)

def goto (p : MutexPc) : MutexState := { s with pc := Function.update s.pc t p }

def setLock (c : Cell TaskId Nat) : MutexState := { s with mutex := { s.mutex with lockParam := c } }

def setOwner (n : Nat) : MutexState := { s with mutex := { s.mutex with ownerId := n } }

def log (e : MutexEvent) : MutexState := { s with history := e :: s.history }

def lock : Cell TaskId Nat := s.mutex.lockParam

def load (v : Nat) (eq ne : MutexPc) : MutexState :=
  (s.setLock (s.lock.ldrex t)).goto t (if s.lock.word = v then eq else ne)

/-- one instruction of the task at its program point -/
def instr (fails : Bool) : MutexPc → Option MutexState
  | .idle => none
  | .acquire =>
    if s.mutex.initParam = false then some (s.goto t .idle)
    else if s.mutex.ownerId = t then some (s.goto t .idle)
    else some (s.goto t .acquireLdrex)
  | .acquireLdrex => some (s.load t 0 .acquireStrex .acquireWait)
  | .acquireStrex =>
    some ((s.setLock (s.lock.strex t otzLocked fails)).goto t
      (if s.lock.succeeds t fails then .acquireOwner else .acquireLdrex))
  | .acquireWait =>
    some (s.goto t (if s.lock.word ≠ 0 ∨ fails then .acquireLdrex else .acquireSleep))
  | .acquireSleep => some (s.goto t (if s.lock.word ≠ 0 then .acquireLdrex else .acquireSleep))
  | .acquireOwner => some (((s.setOwner t).log (.acquired t)).goto t .idle)
  | .nowait =>
    -- an error is set, but `SW_OK` is returned
    if s.mutex.initParam = false then some ((s.log (.acquired t)).goto t .idle)
    else some (s.goto t .nowaitLdrex)
  | .nowaitLdrex => some (s.load t 0 .nowaitStrex .idle)
  | .nowaitStrex =>
    some ((s.setLock (s.lock.strex t otzLocked fails)).goto t
      (if s.lock.succeeds t fails then .nowaitOwner else .idle))
  | .nowaitOwner => some (((s.setOwner t).log (.acquired t)).goto t .idle)
  | .release =>
    if s.mutex.initParam = false ∨ s.mutex.ownerId ≠ t then some (s.goto t .idle)
    else some (s.goto t .releaseLdrex)
  | .releaseLdrex => some (s.load t 1 .releaseStrex .releaseWakeup)
  | .releaseStrex =>
    -- `r1` is 0 if the store has succeeded; it is compared with 1, and the loop goes on
    if s.lock.succeeds t fails then
      some (((s.setLock (s.lock.strex t otzFree fails)).log (.released t)).goto t .releaseLdrex)
    else some ((s.setLock (s.lock.strex t otzFree fails)).goto t .releaseWakeup)
  | .releaseWakeup => some (s.goto t .releaseOwner)
  | .releaseOwner => some ((s.setOwner 0).goto t .idle)

def call (p : MutexPc) : Option MutexState := if s.pc t = .idle then some (s.goto t p) else none

end MutexState

/-- one step of a task -/
def mutexStep (s : MutexState) (a : TaskId × MutexAction) : Option MutexState :=
  match a.2 with
  | .acquire => s.call a.1 .acquire
  | .nowait => s.call a.1 .nowait
  | .release => s.call a.1 .release
  | .step fails => s.instr a.1 fails (s.pc a.1)

/-- no task is in the functions of a new mutex -/
def newMutexState : MutexState := ⟨swMutexInit, fun _ => .idle, []⟩

end SierraTee
