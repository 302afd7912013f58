import SierraTee.Monitor.Machine

/-!
# `save_context` and `restore_context` (`monitor.S`)
-/

namespace SierraTee
open FlatMemory

/-- the `#ifdef`s of the build -/
structure Build where
  /-- `CONFIG_NEON_SUPPORT` -/
  neon : Bool
  /-- `OTZONE_ASYNC_NOTIFY_SUPPORT` -/
  asyncNotify : Bool

/-! ## The monitor's data -/

/-- what the monitor reads and writes: its stack, the two contexts, the pointers to them and
single variables -/
inductive Area where
  | stack | nsCtx | sCtx | nsSysCurrent | sSysCurrent | paramsStack | validParamsFlag
  | paramsOutStack | nsPreemptFlag | nsSwitchFlag | linuxReturnFlag | nsNotifyPending
  deriving DecidableEq

def Area.size : Area → Nat
  | .stack => 16
  | .nsCtx | .sCtx => 124
  | .paramsStack => 4
  | _ => 1

inductive World where
  | normal | secure
  deriving DecidableEq

namespace World

def other : World → World
  | normal => secure
  | secure => normal

def ctx : World → Area
  | normal => .nsCtx
  | secure => .sCtx

def current : World → Area
  | normal => .nsSysCurrent
  | secure => .sSysCurrent

end World

/-- where the linker and `malloc` have put them -/
structure Layout where
  base : Area → Word
  globalVal : Word
  apart : ∀ a b, a ≠ b → Apart (base a) a.size (base b) b.size

def Layout.offset (L : Layout) (a : Area) : Word := L.base a - L.globalVal

def saveCtxtTempOffset : Word := 0x10

/-- `NEON_OFFSET`, behind the 29 words of `core_context` and the 20 of `cp15_context` -/
def neonOffset : Word := 200

def pendingNsNotify (b : Build) : Word := if b.neon then 492 else 216

def fpexcEn : Word := 0x40000000
def mvfr0ASimdMask : Word := 0xf
def aSimdRegBank : Word := 2

def sysContextCoreShift : Nat := 8

/-! ## The routines -/

/-- `GET_CORE_CONTEXT` with the variable at `p` -/
def getCoreContext (p : Word) (m : Machine) : Machine :=
  let m := m.push [.r 1]
  let m := m.moveFrom (.r 1) .mpidr
  let m := m.andImm (.r 1) (.r 1) 3
  let m := m.movImm (.r 0) p
  let m := m.ldr (.r 0) (.r 0) 0
  let m := m.addImm (.r 0) (.r 0) (m.get (.r 1) <<< sysContextCoreShift)
  m.pop [.r 1]

def saveBanked (mode : CpuMode) (m : Machine) : Machine :=
  ((m.cps mode).mrsSpsr (.r 1)).stmiaW (.r 0) [.r 1, .sp, .lr]

def saveCore (m : Machine) : Machine :=
  let m := m.mov (.r 4) (.r 0)
  let m := m.pop [.r 0, .r 1, .r 2, .r 3]
  let m := m.stmia (.r 4) [.r 0, .r 1, .r 2, .r 3]
  let m := m.mov (.r 3) (.r 4)
  let m := m.addImm (.r 4) (.r 4) saveCtxtTempOffset
  let m := m.mov (.r 0) (.r 4)
  let m := m.mov (.r 2) .lr
  let m := m.pop [.r 4, .lr]
  let m := m.stmiaW (.r 0) [.r 4, .r 5, .r 6, .r 7, .r 8, .r 9, .r 10, .r 11, .r 12]
  let m := m.mrsSpsr (.r 1)
  let m := m.stmiaW (.r 0) [.r 1, .lr]
  m.mov .lr (.r 2)

def saveBanks (m : Machine) : Machine :=
  let m := saveBanked .svc m
  let m := (m.cps .sys).stmiaW (.r 0) [.sp, .lr]
  let m := saveBanked .abt m
  let m := saveBanked .und m
  let m := saveBanked .irq m
  m.cps .mon

/-- the control registers of an enabled unit and `d0` to `d15` -/
def saveFpuLow (m : Machine) : Machine :=
  let m := m.moveFrom (.r 2) .fpscr
  let m := m.moveFrom (.r 4) .fpsid
  let m := m.moveFrom (.r 5) .mvfr0
  let m := m.stmiaW (.r 3) [.r 1, .r 2, .r 4]
  let m := m.vstmW (.r 3) 0 15
  m.andImm (.r 5) (.r 5) mvfr0ASimdMask

def saveFpu (m : Machine) : Machine :=
  let m := saveFpuLow m
  if m.get (.r 5) = aSimdRegBank then m.vstmW (.r 3) 16 31 else m

/-- the `CONFIG_NEON_SUPPORT` part of `save_context` -/
def saveNeon (m : Machine) : Machine :=
  let m := m.addImm (.r 3) (.r 3) neonOffset
  let m := m.moveFrom (.r 1) .fpexc
  if m.get (.r 1) &&& fpexcEn = 0 then m else saveFpu m

def saveContext (b : Build) (m : Machine) : Machine :=
  let m := saveBanks (saveCore m)
  let m := if b.neon then saveNeon m else m
  m.ret

def restoreFpuLow (m : Machine) : Machine :=
  let m := m.vldmW (.r 0) 0 15
  let m := m.moveFrom (.r 4) .mvfr0
  m.andImm (.r 4) (.r 4) mvfr0ASimdMask

/-- the registers of an enabled unit; `FPSID` is read-only, so that the `fmxr FPSID, r3` at the end
has no effect -/
def restoreFpu (m : Machine) : Machine :=
  let m := restoreFpuLow m
  let m := if m.get (.r 4) = aSimdRegBank then m.vldmW (.r 0) 16 31 else m
  m.moveTo .fpscr (.r 2)

/-- `r1` to `r3` from the saved control registers, and `FPEXC` -/
def restoreFpexc (m : Machine) : Machine :=
  let m := m.push [.r 0]
  let m := m.addImm (.r 0) (.r 0) neonOffset
  let m := m.ldmiaW (.r 0) [.r 1, .r 2, .r 3]
  m.moveTo .fpexc (.r 1)

/-- the `CONFIG_NEON_SUPPORT` part of `restore_context` -/
def restoreNeon (m : Machine) : Machine :=
  let m := restoreFpexc m
  let m := if m.get (.r 1) &&& fpexcEn = 0 then m else restoreFpu m
  m.pop [.r 0]

def restoreBanked (mode : CpuMode) (m : Machine) : Machine :=
  ((m.cps mode).ldmiaW (.r 0) [.r 1, .sp, .lr]).msrSpsr (.r 1)

def restoreCore (m : Machine) : Machine :=
  let m := m.mov (.r 4) (.r 0)
  let m := m.ldmiaW (.r 4) [.r 0, .r 1, .r 2, .r 3]
  let m := m.push [.r 0, .r 1]
  let m := m.mov (.r 0) (.r 4)
  let m := m.ldmiaW (.r 0) [.r 4, .r 5, .r 6, .r 7, .r 8, .r 9, .r 10, .r 11, .r 12]
  let m := m.ldmiaW (.r 0) [.r 1, .lr]
  m.msrSpsr (.r 1)

def restoreBanks (m : Machine) : Machine :=
  let m := restoreBanked .svc m
  let m := (m.cps .sys).ldmiaW (.r 0) [.sp, .lr]
  let m := restoreBanked .abt m
  let m := restoreBanked .und m
  let m := restoreBanked .irq m
  m.cps .mon

def restoreContext (b : Build) (m : Machine) : Machine :=
  let m := m.push [.lr]
  let m := if b.neon then restoreNeon m else m
  let m := restoreBanks (restoreCore m)
  (m.pop [.r 0, .r 1]).popPc

/-- the context that `p` points to is saved; the next instruction is at `k` -/
def saveCurrent (b : Build) (p k : Word) (m : Machine) : Machine :=
  (getCoreContext p m).bl k (saveContext b)

def restoreCurrent (b : Build) (p k : Word) (m : Machine) : Machine :=
  (getCoreContext p m).bl k (restoreContext b)

end SierraTee
