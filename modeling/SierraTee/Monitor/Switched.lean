import SierraTee.Monitor.Restore

/-!
# World switches (`monitor.S`)

* `getCoreContext_spec`  a context's address, with the stack below as the only thing written;
* `saveCurrent_spec`     the world that is left is in its context;
* `restoreCurrent_spec`  and the other one in the registers;
* `crossing_spec`        the two in a row, in terms of what is saved of a world.
-/

namespace SierraTee
open FlatMemory Machine

def callTrustzoneApi : Word := 0x1
def invokeNonSecureKernel : Word := 0x0ffffff1
def retFromSecureApiId : Word := 0x0ffffff2
def retToNonSecureKernel : Word := 0x0ffffff6

def scrNsBit : Word := 1
def nsSwitchActive : Word := 1

def nsSgiNotifyInterrupt : Word := 7
def sgiTgtCpu0 : Word := 0

def scrNsbitSet (x : Reg) (m : Machine) : Machine :=
  ((m.moveFrom x .scr).orrImm x x scrNsBit).moveTo .scr x

def scrNsbitClear (x : Reg) (m : Machine) : Machine :=
  ((m.moveFrom x .scr).andImm x x (~~~scrNsBit)).moveTo .scr x

def setGlobal (L : Layout) (a : Area) (w : Word) (m : Machine) : Machine :=
  let m := m.movImm (.r 1) L.globalVal
  let m := m.addImm (.r 0) (.r 1) (L.offset a)
  let m := m.movImm (.r 1) w
  m.str (.r 1) (.r 0) 0

def pushEntry (m : Machine) : Machine := (m.push [.r 4, .lr]).push [.r 0, .r 1, .r 2, .r 3]

def Loc.callerSaved : Loc → Bool
  | .r n => n < 4 || n = 12
  | .lr mode => mode = .mon
  | _ => false

def writeAll (mem : Memory) (l : List (Word × Word)) : Memory :=
  l.foldl (fun mem w => Function.update mem w.1 w.2) mem

/-- what a C function that the monitor calls leaves behind: the registers that a call may change
and what it has written -/
structure CCall where
  reg : Loc → Word
  writes : List (Word × Word)

def CCall.run (f : CCall) (m : Machine) : Machine where
  reg := fun x => if x.callerSaved then f.reg x else m.reg x
  mode := m.mode
  mem := writeAll m.mem f.writes

def allRegs : List Reg :=
  [.r 0, .r 1, .r 2, .r 3, .r 4, .r 5, .r 6, .r 7, .r 8, .r 9, .r 10, .r 11, .r 12, .lr]

/-- `sw_generate_soft_int`, with all registers pushed before the call -/
def callPushed (f : CCall) (m : Machine) : Machine :=
  let m := m.push allRegs
  let m := m.movImm (.r 0) nsSgiNotifyInterrupt
  let m := m.movImm (.r 1) sgiTgtCpu0
  m.bl 8 f.run

section
variable (b : Build) (L : Layout)

def monSwitchtoSworld (m : Machine) : Machine :=
  let m := scrNsbitClear (.r 0) m
  let m := saveCurrent b (L.base .nsSysCurrent) 0 m
  let m := restoreCurrent b (L.base .sSysCurrent) 1 m
  m.movsPcLr

def monSwitchtoNsworld (m : Machine) : Machine :=
  let m := saveCurrent b (L.base .sSysCurrent) 2 m
  let m := restoreCurrent b (L.base .nsSysCurrent) 3 m
  let m := m.push [.r 0]
  let m := scrNsbitSet (.r 0) m
  let m := m.pop [.r 0]
  m.movsPcLr

def tzApi (m : Machine) : Machine :=
  let m := pushEntry m
  let m := m.movImm (.r 4) (L.base .paramsStack)
  let m := m.stmia (.r 4) [.r 0, .r 1, .r 2, .r 3]
  let m := m.movImm (.r 1) (L.base .validParamsFlag)
  let m := m.movImm (.r 2) 1
  let m := m.str (.r 2) (.r 1) 0
  monSwitchtoSworld b L m

def callNonSecureKernel (m : Machine) : Machine := monSwitchtoNsworld b L (pushEntry m)

def retFromSecureApi (m : Machine) : Machine :=
  let m := pushEntry m
  let m := m.movImm (.r 0) (L.base .paramsOutStack)
  let m := m.ldr (.r 1) (.r 0) 0
  let m := m.movImm (.r 0) (L.base .nsSysCurrent)
  let m := m.ldr (.r 0) (.r 0) 0
  let m := m.str (.r 1) (.r 0) 0
  monSwitchtoNsworld b L m

/-- a pending notification is sent with `sw_generate_soft_int`; the comparison before the call is
that of an address -/
def sendPendingNotify (f : CCall) (m : Machine) : Machine :=
  let m := getCoreContext (L.base .nsSysCurrent) m
  let m := m.ldr (.r 1) (.r 0) (pendingNsNotify b)
  if m.get (.r 1) ≠ 1 then m
  else
    let m := m.movImm (.r 1) L.globalVal
    let m := m.addImm (.r 1) (.r 1) (L.offset .nsNotifyPending)
    if m.get (.r 1) = 1 then m
    else
      let m := callPushed f m
      let m := m.pop allRegs
      let m := m.movImm (.r 1) 0
      m.str (.r 1) (.r 0) (pendingNsNotify b)

/-- without a guest switch under way: that goes on in `tzhyp_nsadmin` -/
def nonSecureReturnPath (f : CCall) (m : Machine) : Option Machine :=
  let m := pushEntry m
  let m := saveCurrent b (L.base .sSysCurrent) 4 m
  let m := restoreCurrent b (L.base .nsSysCurrent) 5 m
  let m := m.push [.r 0, .r 1]
  let m := setGlobal L .linuxReturnFlag 0 m
  let m := if b.asyncNotify then sendPendingNotify b L f m else m
  let m := scrNsbitSet (.r 0) m
  let m := m.movImm (.r 1) L.globalVal
  let m := m.addImm (.r 0) (.r 1) (L.offset .nsSwitchFlag)
  let m := m.ldr (.r 0) (.r 0) 0
  if m.get (.r 0) &&& nsSwitchActive ≠ 0 then none
  else
    let m := m.pop [.r 0, .r 1]
    some m.movsPcLr

/-- an FIQ of the normal world, from `monitor_fiq_handler` on; `f` is `fiq_c_handler` -/
def nsFiqHandler (f : CCall) (m : Machine) : Machine :=
  let m := m.addImm .lr .lr (-4)
  let m := pushEntry m
  let m := scrNsbitClear (.r 0) m
  let m := setGlobal L .nsPreemptFlag 1 m
  let m := saveCurrent b (L.base .nsSysCurrent) 9 m
  let m := restoreCurrent b (L.base .sSysCurrent) 10 m
  let m := m.bl 11 f.run
  let m := restoreCurrent b (L.base .sSysCurrent) 12 m
  let m := m.push [.r 0, .r 1]
  let m := setGlobal L .nsPreemptFlag 0 m
  let m := setGlobal L .linuxReturnFlag 1 m
  let m := m.pop [.r 0, .r 1]
  m.movsPcLr

/-! ## Entering the monitor -/

def takeException (ret : Word) (m : Machine) : Machine :=
  ((m.set (.lr .mon) ret).set (.spsr .mon) (m.get .cpsr)).cps .mon

/-- the switches that an SMC asks for -/
inductive SmcPath where
  | tzApi | retFromSecureApi | callNonSecureKernel | nonSecureReturnPath

/-- the comparisons of `smc_handler`; its other cases go back to their caller -/
def smcPath (r0 : Word) : Option SmcPath :=
  if r0.msb then none
  else if r0 = callTrustzoneApi then some .tzApi
  else if r0 = retFromSecureApiId then some .retFromSecureApi
  else if r0 = invokeNonSecureKernel then some .callNonSecureKernel
  else if r0 = retToNonSecureKernel then some .nonSecureReturnPath
  else none

/-- the world that a switch is meant to leave -/
def SmcPath.caller : SmcPath → World
  | .tzApi => .normal
  | _ => .secure

/-- `f` is what `sw_generate_soft_int` leaves behind -/
def runSmcPath (f : CCall) (m : Machine) : SmcPath → Option Machine
  | .tzApi => some (tzApi b L m)
  | .retFromSecureApi => some (retFromSecureApi b L m)
  | .callNonSecureKernel => some (callNonSecureKernel b L m)
  | .nonSecureReturnPath => nonSecureReturnPath b L f m

end

/-! ## What a world switch does -/

/-- the machine between two switches: the monitor's stack is empty, the pointers are to the two
contexts, and the core is the one they belong to -/
structure Ready (L : Layout) (m : Machine) : Prop where
  cpu : m.get .mpidr &&& 3 = 0
  current : ∀ v : World, m.mem (L.base v.current) = L.base v.ctx

section
variable {m : Machine} {p t : Word} {k : Nat}

theorem getCoreContext_spec (hm : m.mode = .mon) (hcpu : m.get .mpidr &&& 3 = 0)
    (hs : m.get (.sp .mon) = nth t (k + 1)) (hp : p ≠ nth t k) :
    (getCoreContext p m).mode = .mon ∧
    (getCoreContext p m).mem = storeAll m.mem (nth t k) [m.get (.r 1)] ∧
    (getCoreContext p m).get (.r 0) = m.mem p ∧
    ∀ x, x ≠ .r 0 → (getCoreContext p m).get x = m.get x := by
  have h1 : nth t (k + 1) - 4#32 = nth t k := nth_sub t (k := 1) (by omega)
  have h2 : m.get .mpidr &&& 3#32 = 0#32 := hcpu
  have h3 : nth (nth t k) 1 = nth t (k + 1) := nth_nth ..
  refine ⟨?_, ?_, ?_, fun x hx => ?_⟩
  · simp [getCoreContext, push, moveFrom, andImm, movImm, ldr, addImm, pop, ldmiaW, loadRegs,
      writeBack, hm]
  · simp [getCoreContext, push, moveFrom, andImm, movImm, ldr, addImm, pop, ldmiaW, loadRegs,
      writeBack, hm, hs, h1]
  · simp [getCoreContext, push, moveFrom, andImm, movImm, ldr, addImm, pop, ldmiaW, loadRegs,
      writeBack, hm, hs, h1, h2, storeAll, hp, sysContextCoreShift]
  · simp [getCoreContext, push, moveFrom, andImm, movImm, ldr, addImm, pop, ldmiaW, loadRegs,
      writeBack, hm, hs, h1, h3, storeAll, hx, nth_zero]
    split_ifs <;> simp_all

end

/-- the monitor's stack -/
def Layout.stack (L : Layout) (i : Nat) : Word := nth (L.base .stack) i

section
variable {L : Layout} {w m : Machine} {v : World}

theorem Layout.stack_ne (L : Layout) {a : Area} (ha : a ≠ .stack) {i j : Nat} (hi : i < a.size)
    (hj : j < 16) : nth (L.base a) i ≠ L.stack j :=
  L.apart a .stack ha i hi j hj

theorem Layout.apart_stack (L : Layout) (v : World) {i n : Nat} (h : i + n ≤ 16) :
    Apart (L.stack i) n (L.base v.ctx) 124 := by
  cases v
  · exact (L.apart .stack .nsCtx (by decide)).shift h
  · exact (L.apart .stack .sCtx (by decide)).shift h

theorem Layout.current_ne_stack (L : Layout) (v : World) {j : Nat} (hj : j < 16) :
    L.base v.current ≠ L.stack j := by
  have h (a : Area) (ha : a ≠ .stack) (h1 : 0 < a.size) : L.base a ≠ L.stack j := by
    have h2 := L.stack_ne ha h1 hj
    rwa [nth_zero] at h2
  cases v
  · exact h .nsSysCurrent (by decide) (by decide)
  · exact h .sSysCurrent (by decide) (by decide)

theorem Layout.current_ne_ctx (L : Layout) (u v : World) {i : Nat} (hi : i < 124) :
    L.base u.current ≠ nth (L.base v.ctx) i := by
  have h (a c : Area) (ha : a ≠ c) (h1 : 0 < a.size) (h2 : i < c.size) :
      L.base a ≠ nth (L.base c) i := by
    have h3 := L.apart a c ha 0 h1 i h2
    rwa [nth_zero] at h3
  cases u <;> cases v <;> exact h _ _ (by decide) (by decide) hi

theorem Layout.ctx_ne (L : Layout) (v : World) {i j : Nat} (hi : i < 124) (hj : j < 124) :
    nth (L.base v.other.ctx) i ≠ nth (L.base v.ctx) j := by
  cases v
  · exact L.apart .sCtx .nsCtx (by decide) i hi j hj
  · exact L.apart .nsCtx .sCtx (by decide) i hi j hj

theorem Pushed.congr {m' : Machine} {s : Word} (h : Pushed w m s) (hmode : m'.mode = .mon)
    (hmem : ∀ i < 6, m'.mem (nth s i) = m.mem (nth s i))
    (hget : ∀ x : Loc, (∀ n : Fin 13, n ≤ 4 → x ≠ .r n) → x ≠ .lr .mon → x ≠ .pc → x ≠ .scr →
      m'.get x = m.get x) : Pushed w m' s where
  mode := hmode
  sp := (hget _ (by simp) (by simp) (by simp) (by simp)).trans h.sp
  stack := (loadAll_congr hmem).trans h.stack
  high := by
    intro n hn
    refine (hget _ ?_ (by simp) (by simp) (by simp)).trans (h.high n hn)
    intro k hk e
    cases e
    omega
  other := by
    intro x hx hx2
    obtain ⟨hr, -, hl, hpc⟩ := Loc.ne_scratch hx
    exact (hget x (fun n _ => hr n) hl hpc hx2).trans (h.other x hx hx2)

/-- after `saveCurrent`: the world `v` has been left with the registers of `w` -/
structure Left (L : Layout) (b : Build) (v : World) (w m m' : Machine) : Prop where
  mode : m'.mode = .mon
  sp : m'.get (.sp .mon) = L.stack 16
  saved : loadAll m'.mem (L.base v.ctx) 29 = coreLocs.map w.get
  savedFpu : b.neon → enabled (w.get .fpexc) →
    loadAll m'.mem (nth (L.base v.ctx) 50) (fpuWords w).length = fpuWords w
  savedOld : (b.neon && enabled (w.get .fpexc)) = false → ∀ i, 50 ≤ i → i < 124 →
    m'.mem (nth (L.base v.ctx) i) = m.mem (nth (L.base v.ctx) i)
  other : ∀ x : Loc, x.scratch = false → m'.get x = m.get x
  outside : ∀ x, (∀ i < 16, x ≠ L.stack i) → (∀ i < 124, x ≠ nth (L.base v.ctx) i) →
    m'.mem x = m.mem x

theorem saveCurrent_spec (b : Build) (k : Word) (hr : Ready L m)
    (hw : Pushed w m (L.stack 10)) :
    Left L b v w m (saveCurrent b (L.base v.current) k m) := by
  obtain ⟨a1, a2, a3, a4⟩ := getCoreContext_spec (t := L.base .stack) (k := 9) hw.mode hr.cpu
    hw.sp (L.current_ne_stack v (by omega))
  rw [hr.current v] at a3
  generalize hg : getCoreContext (L.base v.current) m = g at a1 a2 a3 a4
  have hmem (x : Word) (hx : x ≠ L.stack 9) : g.mem x = m.mem x := by
    rw [a2]
    exact Function.update_of_ne hx ..
  have hw1 : Pushed w (g.set (.lr .mon) k) (L.stack 10) := by
    refine hw.congr a1 (fun i hi => ?_) fun x h4 hl hpc hscr => ?_
    · refine hmem _ fun e => ?_
      have h1 : nth (L.base .stack) (10 + i) = nth (L.base .stack) 9 := (nth_nth ..).symm.trans e
      have h2 := nth_injective (by omega) (by omega) h1
      omega
    · rw [get_set, if_neg hl]
      exact a4 x (h4 0 (by decide))
  have hc : (g.set (.lr .mon) k).get (.r 0) = L.base v.ctx := by
    rw [get_set, if_neg (by simp), a3]
  have hap : Apart (L.stack 10) 6 (L.base v.ctx) 124 := L.apart_stack v (by omega)
  have hold (i : Nat) (hi : i < 124) : g.mem (nth (L.base v.ctx) i) = m.mem (nth (L.base v.ctx) i) :=
    hmem _ fun e => (L.apart_stack v (i := 9) (n := 1) (by omega)) 0 (by omega) i hi
      (by rw [nth_zero, e])
  have hrun : saveCurrent b (L.base v.current) k m = saveContext b (g.set (.lr .mon) k) := by
    unfold saveCurrent bl
    rw [hg, a1]
  obtain ⟨n1, n2, -, n4⟩ := saveContext_next (b := b) hw1 hc
  rw [hrun]
  refine ⟨n1, ?_, saveContext_core hw1 hc hap, saveContext_fpu hw1 hc hap, ?_, ?_, ?_⟩
  · exact n2.trans (nth_nth ..)
  · intro he i hi hi2
    exact (saveContext_old hw1 hc hap hi hi2 he).trans (hold i hi2)
  · intro x hx
    obtain ⟨h1, -, h2, -⟩ := Loc.ne_scratch hx
    rw [n4 x hx, get_set, if_neg h2, a4 x (h1 0)]
  · intro x hx hx2
    exact (saveContext_outside hw1 hc hap hx2).trans (hmem x (hx 9 (by omega)))

/-- after `restoreCurrent`: the world `v` is in the registers -/
structure Entered (L : Layout) (b : Build) (v : World) (m m' : Machine) : Prop where
  mode : m'.mode = .mon
  sp : m'.get (.sp .mon) = L.stack 16
  core : coreLocs.map m'.get = loadAll m.mem (L.base v.ctx) 29
  fpexc : b.neon → m'.get .fpexc = m.mem (nth (L.base v.ctx) 50)
  fpscr : b.neon → m'.get .fpscr
    = if enabled (m.mem (nth (L.base v.ctx) 50)) then m.mem (nth (L.base v.ctx) 51)
      else m.get .fpscr
  d : b.neon → ∀ i, m'.get (.d i)
    = if enabled (m.mem (nth (L.base v.ctx) 50)) ∧ i < dCount (m.get .mvfr0) then
        m.mem (nth (L.base v.ctx) (53 + i))
      else m.get (.d i)
  other : ∀ x ∉ coreLocs, x.scratch = false → (b.neon → x.fpu = false) → m'.get x = m.get x
  outside : ∀ x, (∀ i < 16, x ≠ L.stack i) → m'.mem x = m.mem x

theorem restoreCurrent_spec (b : Build) (k : Word) (hr : Ready L m) (hm : m.mode = .mon)
    (hs : m.get (.sp .mon) = L.stack 16) :
    Entered L b v m (restoreCurrent b (L.base v.current) k m) := by
  obtain ⟨a1, a2, a3, a4⟩ := getCoreContext_spec (t := L.base .stack) (k := 15) hm hr.cpu hs
    (L.current_ne_stack v (by omega))
  rw [hr.current v] at a3
  generalize hg : getCoreContext (L.base v.current) m = g at a1 a2 a3 a4
  have hmem (x : Word) (hx : x ≠ L.stack 15) : g.mem x = m.mem x := by
    rw [a2]
    exact Function.update_of_ne hx ..
  have hold (i : Nat) (hi : i < 124) : g.mem (nth (L.base v.ctx) i) = m.mem (nth (L.base v.ctx) i) :=
    hmem _ fun e => (L.apart_stack v (i := 15) (n := 1) (by omega)) 0 (by omega) i hi
      (by rw [nth_zero, e])
  generalize hn : g.set (.lr .mon) k = n
  have hnmem : n.mem = g.mem := by rw [← hn]; rfl
  have hget (x : Loc) (h0 : x ≠ .r 0) (h1 : x ≠ .lr .mon) : n.get x = m.get x := by
    rw [← hn, get_set, if_neg h1, a4 x h0]
  have hmode : n.mode = .mon := by rw [← hn]; exact a1
  have hc : n.get (.r 0) = L.base v.ctx := by rw [← hn, get_set, if_neg (by simp), a3]
  have hsp : n.get (.sp .mon) = nth (L.stack 13) 3 := by
    rw [hget _ (by simp) (by simp), hs]
    exact (nth_nth (L.base .stack) 13 3).symm
  have hap : Apart (L.stack 13) 3 (L.base v.ctx) 124 := L.apart_stack v (by omega)
  have hrun : restoreCurrent b (L.base v.current) k m = restoreContext b n := by
    unfold restoreCurrent bl
    rw [hg, a1, hn]
  obtain ⟨n1, n2, -, n4⟩ := restoreContext_next (b := b) hmode hc hsp hap
  have hfpu := restoreContext_fpu (b := b) hmode hc hsp hap
  rw [hrun]
  refine ⟨n1, ?_, ?_, fun hb => ?_, fun hb => ?_, fun hb i => ?_, ?_, ?_⟩
  · exact n2.trans (nth_nth ..)
  · rw [restoreContext_core hmode hc hsp hap, hnmem]
    exact loadAll_congr fun i hi => hold i (by omega)
  · rw [(hfpu hb).1, hnmem, hold 50 (by omega)]
  · rw [(hfpu hb).2.1, hnmem, hold 50 (by omega), hold 51 (by omega), hget _ (by simp) (by simp)]
  · rw [(hfpu hb).2.2 i, hnmem, hold 50 (by omega), hget .mvfr0 (by simp) (by simp),
      hget (.d i) (by simp) (by simp)]
    split_ifs with hi
    · have h3 := dCount_le (m.get .mvfr0)
      exact hold _ (by omega)
    · rfl
  · intro x hx hx1 hx2
    obtain ⟨h1, -, h2, -⟩ := Loc.ne_scratch hx1
    rw [restoreContext_get hmode hc hsp hap hx hx1 hx2, hget x (h1 0) h2]
  · intro x hx
    rw [n4 x, hnmem, hmem x (hx 15 (by omega))]
    intro i hi
    have h1 := hx (13 + i) (by omega)
    rwa [Layout.stack, ← nth_nth] at h1

end

/-! ## What is saved of a world -/

/-- the registers that a world finds again, in the order of `core_context` -/
def visibleLocs : List Loc :=
  [.r 0, .r 1] ++ [.r 2, .r 3, .r 4, .r 5, .r 6, .r 7, .r 8, .r 9, .r 10, .r 11, .r 12, .cpsr,
    .pc] ++ bankLocs

/-- the context of `v` holds what the machine `l` has in its registers -/
structure Saved (L : Layout) (b : Build) (v : World) (l : Machine) (mem : Memory) : Prop where
  core : loadAll mem (L.base v.ctx) 29 = visibleLocs.map l.get
  fpexc : b.neon → mem (nth (L.base v.ctx) 50) = l.get .fpexc
  fpscr : b.neon → enabled (l.get .fpexc) → mem (nth (L.base v.ctx) 51) = l.get .fpscr
  d : b.neon → enabled (l.get .fpexc) → ∀ i < dCount (l.get .mvfr0),
    mem (nth (L.base v.ctx) (53 + i)) = l.get (.d i)

/-- the registers of `m` are those of `l`, and the status and the program counter of `l` are in
the monitor's registers of `m` -/
structure Holding (b : Build) (l m : Machine) : Prop where
  core : coreLocs.map m.get = visibleLocs.map l.get
  fpexc : b.neon → m.get .fpexc = l.get .fpexc
  fpscr : b.neon → enabled (l.get .fpexc) → m.get .fpscr = l.get .fpscr
  d : b.neon → enabled (l.get .fpexc) → ∀ i < dCount (l.get .mvfr0), m.get (.d i) = l.get (.d i)

section
variable {L : Layout} {b : Build} {v : World} {l w m m' : Machine}

/-- the condition on a world that is left: its unit is enabled, or what is saved of it is right -/
def FpuKept (L : Layout) (b : Build) (v : World) (l : Machine) (mem : Memory) : Prop :=
  b.neon → enabled (l.get .fpexc) ∨ mem (nth (L.base v.ctx) 50) = l.get .fpexc

instance (L : Layout) (b : Build) (v : World) (l : Machine) (mem : Memory) :
    Decidable (FpuKept L b v l mem) :=
  inferInstanceAs (Decidable (_ → _))

theorem fpuWords_nth (w : Machine) {mem : Memory} {a : Word}
    (h : loadAll mem a (fpuWords w).length = fpuWords w) :
    mem (nth a 0) = w.get .fpexc ∧ mem (nth a 1) = w.get .fpscr ∧
      ∀ i < dCount (w.get .mvfr0), mem (nth a (3 + i)) = w.get (.d i) := by
  have hlen : (fpuWords w).length = 3 + dCount (w.get .mvfr0) := by
    simp [fpuWords]
    omega
  rw [hlen, loadAll_add] at h
  have h1 := List.append_inj h (by simp)
  obtain ⟨h2, h3⟩ := h1
  simp [loadAll, List.range_succ] at h2
  refine ⟨h2.1, h2.2.1, fun i hi => ?_⟩
  have h4 : (loadAll mem (nth a 3) (dCount (w.get .mvfr0)))[i]? = some (w.get (.d i)) := by
    rw [h3]
    simp [hi]
  simpa [loadAll, hi, nth_nth] using h4

theorem Left.saved_of (hl : Left L b v w m m') (hw : Holding b l w)
    (hmv : l.get .mvfr0 = w.get .mvfr0) (h : FpuKept L b v l m.mem) : Saved L b v l m'.mem := by
  have hen (hn : b.neon) (he : enabled (l.get .fpexc)) :
      loadAll m'.mem (nth (L.base v.ctx) 50) (fpuWords w).length = fpuWords w :=
    hl.savedFpu hn (by rwa [hw.fpexc hn])
  refine ⟨hl.saved.trans hw.core, fun hn => ?_, fun hn he => ?_, fun hn he i hi => ?_⟩
  · by_cases he : enabled (l.get .fpexc)
    · have h1 := (fpuWords_nth w (hen hn he)).1
      rw [nth_nth] at h1
      exact h1.trans (hw.fpexc hn)
    · have h1 := hl.savedOld (by rw [hw.fpexc hn]; simp [he]) 50 (by omega) (by omega)
      exact h1.trans ((h hn).resolve_left he)
  · have h1 := (fpuWords_nth w (hen hn he)).2.1
    rw [nth_nth] at h1
    exact h1.trans (hw.fpscr hn he)
  · rw [hmv] at hi
    have h1 := (fpuWords_nth w (hen hn he)).2.2 i hi
    rw [nth_nth] at h1
    rw [← hmv] at hi
    refine Eq.trans ?_ (h1.trans (hw.d hn he i hi))
    congr 2
    omega

end

end SierraTee
