import Mathlib.Logic.Function.Basic

/-!
# `otz_smc_call` under concurrent clients (`otz_client_main.c`)

Any number of calls, each between its caller's `mutex_lock` and `mutex_unlock`, take steps at
their allocation, lock and wait points.  The pointer `smc_cmd` is one variable for all of them:
in the source it is `static`.

Each `kmalloc` gives a block of its own, so that a use of a freed block is seen.
-/

namespace SierraTee
open Function

def smcPending : Int := 1
def eNomem : Int := -12
def eRestartsys : Int := -512

/-- `struct otz_smc_cmd` -/
structure OtzSmcCmd where
  id : UInt32
  context : UInt32
  encId : UInt32
  srcId : UInt32
  srcContext : UInt32
  reqBufPhys : UInt32
  reqBufLen : UInt32
  respBufPhys : UInt32
  respBufLen : UInt32
  retRespBufLen : UInt32
  metaDataPhys : UInt32
  devFileId : UInt32
  deriving DecidableEq

/-- the callers: a command, opening and closing a session, and the two that hold no mutex, the
registration of the notification data and the release of the device -/
inductive Caller where
  | sendCmd | sesOpen | sesClose | notify
  deriving DecidableEq

/-- the arguments of `otz_smc_call`; buffers by their physical address, 0 for NULL -/
structure SmcArgs where
  devFileId : UInt32
  svcId : UInt32
  cmdId : UInt32
  context : UInt32
  encId : UInt32
  pid : UInt32
  cmdBuf : UInt32
  cmdLen : UInt32
  respBuf : UInt32
  respLen : UInt32
  metaData : UInt32
  /-- `ret_resp_len` is not NULL -/
  wantsLen : Bool

def smcId (svcId cmdId : UInt32) : UInt32 := (svcId <<< 10) ||| cmdId

/-- `OTZ_SVC_GLOBAL` with `OTZ_GLOBAL_CMD_ID_RESUME_ASYNC_TASK` -/
def resumeId : UInt32 := smcId 1 6

def SmcArgs.fill (a : SmcArgs) : OtzSmcCmd where
  id := smcId a.svcId a.cmdId
  context := a.context
  encId := a.encId
  srcId := smcId a.svcId a.cmdId
  srcContext := a.pid
  reqBufPhys := a.cmdBuf
  reqBufLen := a.cmdLen
  respBufPhys := a.respBuf
  respBufLen := a.respLen
  retRespBufLen := 0
  metaDataPhys := a.metaData
  devFileId := a.devFileId

def OtzSmcCmd.resume (m : OtzSmcCmd) : OtzSmcCmd := { m with srcId := resumeId, id := resumeId }

def OtzSmcCmd.answer (m : OtzSmcCmd) (len : UInt32) : OtzSmcCmd := { m with retRespBufLen := len }

inductive SmcPc where
  /-- not called yet -/
  | outside
  /-- before `kmalloc` -/
  | entered
  /-- before `mutex_lock(&smc_lock)` -/
  | filled
  | inSmc
  /-- the SMC has returned `SMC_PENDING` -/
  | pending
  | waiting
  /-- before `mutex_lock(arg_lock)` -/
  | woken
  /-- before the second `mutex_lock(&smc_lock)` -/
  | resumed
  | inSmc2
  /-- before the test of `ret` -/
  | ended (ret : Int)
  | done (ret : Int)
  | left
  deriving DecidableEq

structure SmcCall where
  caller : Caller
  args : SmcArgs
  pc : SmcPc
  /-- the block of `smc_cmd_phys` -/
  block : Option Nat
  /-- `*ret_resp_len` -/
  retRespLen : UInt32

inductive BlockState where
  | unused
  | allocated (cmd : OtzSmcCmd)
  | freed
  deriving DecidableEq

inductive UseKind where
  | fill | hand | handAgain | resume | readLen | free
  deriving DecidableEq

structure BlockUse where
  call : Nat
  kind : UseKind
  block : Option Nat
  found : BlockState

structure Driver where
  /-- the static pointer -/
  smcCmd : Option Nat
  heap : Nat → BlockState
  smcLock : Bool
  lock : Caller → Bool
  call : Nat → SmcCall
  uses : List BlockUse

namespace Driver

def at? (s : Driver) : Option Nat → BlockState
  | none => .unused
  | some b => s.heap b

def use (s : Driver) (c : Nat) (kind : UseKind) (p : Option Nat) : Driver :=
  { s with uses := ⟨c, kind, p, s.at? p⟩ :: s.uses }

def modify (s : Driver) (p : Option Nat) (f : OtzSmcCmd → OtzSmcCmd) : Driver :=
  match p with
  | none => s
  | some b =>
    match s.heap b with
    | .allocated m => { s with heap := update s.heap b (.allocated (f m)) }
    | _ => s

def setCall (s : Driver) (c : Nat) (x : SmcCall) : Driver :=
  { s with call := update s.call c x }

def setPc (s : Driver) (c : Nat) (pc : SmcPc) : Driver := s.setCall c { s.call c with pc := pc }

def setLock (s : Driver) (k : Caller) (held : Bool) : Driver :=
  { s with lock := update s.lock k (held && k ≠ .notify) }

def kfree (s : Driver) (c : Nat) : Driver :=
  match s.smcCmd with
  | none => s
  | some b =>
    let u := s.use c .free (some b)
    { u with heap := update u.heap b .freed }

def readLen (s : Driver) (c : Nat) (ret : Int) : Driver :=
  if ret = 0 ∧ (s.call c).args.wantsLen then
    let len := match s.at? s.smcCmd with
      | .allocated m => m.retRespBufLen
      | _ => 0
    (s.use c .readLen s.smcCmd).setCall c { s.call c with retRespLen := len }
  else s

/-- the command of a pending call becomes `RESUME_ASYNC_TASK` -/
def resume (s : Driver) (c : Nat) : Driver :=
  ((s.use c .resume s.smcCmd).modify s.smcCmd OtzSmcCmd.resume).setPc c .resumed

end Driver

inductive SmcAction where
  | enter (c : Nat) (caller : Caller) (args : SmcArgs)
  | kmalloc (c : Nat) (result : Option Nat)
  | smcLock (c : Nat)
  /-- the SMC returns `ret`, and `len` as the response length -/
  | smc (c : Nat) (ret : Int) (len : UInt32)
  | pend (c : Nat)
  | wake (c : Nat) (interrupted : Bool)
  | relock (c : Nat)
  | finish (c : Nat)
  | leave (c : Nat)

open Driver

/-- one step of one call -/
def smcStep (s : Driver) : SmcAction → Option Driver
  | .enter c caller args =>
    if (s.call c).pc = .outside ∧ s.lock caller = false then
      some ((s.setLock caller true).setCall c ⟨caller, args, .entered, none, 0⟩)
    else none
  | .kmalloc c result =>
    if (s.call c).pc = .entered then
      match result with
      | none => some ({ s with smcCmd := none }.setPc c (.done eNomem))
      | some b =>
        if s.heap b = .unused then
          let x := s.call c
          let s1 := { s with
            smcCmd := some b
            heap := update s.heap b (.allocated x.args.fill) }
          some ((s1.use c .fill (some b)).setCall c
            { x with pc := .filled, block := some b, retRespLen := 0 })
        else none
    else none
  | .smcLock c =>
    if s.smcLock then none
    else if (s.call c).pc = .filled then some ({ s with smcLock := true }.setPc c .inSmc)
    else if (s.call c).pc = .resumed then some ({ s with smcLock := true }.setPc c .inSmc2)
    else none
  | .smc c ret len =>
    let p := (s.call c).block
    if (s.call c).pc = .inSmc then
      let s1 := (s.use c .hand p).modify p fun m => m.answer len
      some ({ s1 with smcLock := false }.setPc c
        (if ret = smcPending then .pending else .ended ret))
    else if (s.call c).pc = .inSmc2 then
      let s1 := (s.use c .handAgain p).modify p fun m => m.answer len
      some ({ s1 with smcLock := false }.setPc c (.ended ret))
    else none
  | .pend c =>
    if (s.call c).pc = .pending then
      if (s.call c).caller = .sendCmd then some ((s.setLock .sendCmd false).setPc c .waiting)
      else some (s.resume c)
    else none
  | .wake c interrupted =>
    if (s.call c).pc = .waiting then
      some (s.setPc c (if interrupted then .ended eRestartsys else .woken))
    else none
  | .relock c =>
    if (s.call c).pc = .woken ∧ s.lock .sendCmd = false then
      some ((s.setLock .sendCmd true).resume c)
    else none
  | .finish c =>
    match (s.call c).pc with
    | .ended ret => some (((s.readLen c ret).kfree c).setPc c (.done ret))
    | _ => none
  | .leave c =>
    match (s.call c).pc with
    | .done _ => some ((s.setLock (s.call c).caller false).setPc c .left)
    | _ => none

def noArgs : SmcArgs := ⟨0, 0, 0, 0, 0, 0, 0, 0, 0, 0, 0, false⟩

/-- the driver before any call -/
def newDriver : Driver where
  smcCmd := none
  heap := fun _ => .unused
  smcLock := false
  lock := fun _ => false
  call := fun _ => ⟨.notify, noArgs, .outside, none, 0⟩
  uses := []

end SierraTee
