import SierraTee.Lib.FlatMemory

/-!
# The machine below the monitor

The part of an ARMv7 core that the monitor code reads and writes, and the instructions it is made
of, each a function on the state.
-/

namespace SierraTee
open FlatMemory

instance neZero_regs : NeZero 13 := ⟨by decide⟩

inductive CpuMode where
  | svc | sys | abt | und | irq | mon
  deriving DecidableEq

inductive Loc where
  | r (n : Fin 13)
  | sp (mode : CpuMode)
  | lr (mode : CpuMode)
  | spsr (mode : CpuMode)
  | pc
  | cpsr
  | scr
  | mpidr
  | fpexc
  | fpscr
  | fpsid
  | mvfr0
  /-- the halves of the D registers -/
  | d (i : Nat)
  deriving DecidableEq

structure Machine where
  reg : Loc → Word
  mode : CpuMode
  mem : Memory

inductive Reg where
  | r (n : Fin 13)
  | sp
  | lr

namespace Machine

def get (m : Machine) (x : Loc) : Word := m.reg x

def set (m : Machine) (x : Loc) (w : Word) : Machine :=
  { m with reg := Function.update m.reg x w }

def setMem (m : Machine) (mem : Memory) : Machine := { m with mem := mem }

def cps (m : Machine) (mode : CpuMode) : Machine := { m with mode := mode }

def loc (m : Machine) : Reg → Loc
  | .r n => .r n
  | .sp => .sp m.mode
  | .lr => .lr m.mode

section
variable (m : Machine) (x y : Loc) (w : Word) (mem : Memory) (mode : CpuMode)

@[simp] theorem get_set : (m.set x w).get y = if y = x then w else m.get y :=
  Function.update_apply ..

@[simp] theorem mem_set : (m.set x w).mem = m.mem := rfl

@[simp] theorem mode_set : (m.set x w).mode = m.mode := rfl

@[simp] theorem get_setMem : (m.setMem mem).get x = m.get x := rfl

@[simp] theorem mem_setMem : (m.setMem mem).mem = mem := rfl

@[simp] theorem mode_setMem : (m.setMem mem).mode = m.mode := rfl

@[simp] theorem get_cps : (m.cps mode).get x = m.get x := rfl

@[simp] theorem mem_cps : (m.cps mode).mem = m.mem := rfl

@[simp] theorem mode_cps : (m.cps mode).mode = mode := rfl

@[simp] theorem loc_r (n : Fin 13) : m.loc (.r n) = .r n := rfl

@[simp] theorem loc_sp : m.loc .sp = .sp m.mode := rfl

@[simp] theorem loc_lr : m.loc .lr = .lr m.mode := rfl

end

/-! ## Instructions -/

def mov (m : Machine) (x y : Reg) : Machine := m.set (m.loc x) (m.get (m.loc y))

def movImm (m : Machine) (x : Reg) (w : Word) : Machine := m.set (m.loc x) w

def addImm (m : Machine) (x y : Reg) (w : Word) : Machine := m.set (m.loc x) (m.get (m.loc y) + w)

def andImm (m : Machine) (x y : Reg) (w : Word) : Machine := m.set (m.loc x) (m.get (m.loc y) &&& w)

def orrImm (m : Machine) (x y : Reg) (w : Word) : Machine := m.set (m.loc x) (m.get (m.loc y) ||| w)

def moveFrom (m : Machine) (x : Reg) (y : Loc) : Machine := m.set (m.loc x) (m.get y)

def moveTo (m : Machine) (x : Loc) (y : Reg) : Machine := m.set x (m.get (m.loc y))

def mrsSpsr (m : Machine) (x : Reg) : Machine := m.moveFrom x (.spsr m.mode)

def msrSpsr (m : Machine) (x : Reg) : Machine := m.moveTo (.spsr m.mode) x

def ldr (m : Machine) (x y : Reg) (off : Word) : Machine :=
  m.set (m.loc x) (m.mem (m.get (m.loc y) + off))

def str (m : Machine) (x y : Reg) (off : Word) : Machine :=
  m.setMem (Function.update m.mem (m.get (m.loc y) + off) (m.get (m.loc x)))

def stmia (m : Machine) (x : Reg) (l : List Reg) : Machine :=
  m.setMem (storeAll m.mem (m.get (m.loc x)) (l.map fun y => m.get (m.loc y)))

def writeBack (m : Machine) (x : Reg) (n : Nat) : Machine :=
  m.set (m.loc x) (nth (m.get (m.loc x)) n)

def stmiaW (m : Machine) (x : Reg) (l : List Reg) : Machine :=
  (m.stmia x l).writeBack x l.length

def loadRegs (m : Machine) (a : Word) : List Reg → Nat → Machine
  | [], _ => m
  | x :: l, i => (m.set (m.loc x) (m.mem (nth a i))).loadRegs a l (i + 1)

def ldmiaW (m : Machine) (x : Reg) (l : List Reg) : Machine :=
  (m.writeBack x l.length).loadRegs (m.get (m.loc x)) l 0

def push (m : Machine) (l : List Reg) : Machine :=
  let sp := m.get (.sp m.mode) - BitVec.ofNat 32 (4 * l.length)
  (m.setMem (storeAll m.mem sp (l.map fun y => m.get (m.loc y)))).set (.sp m.mode) sp

def pop (m : Machine) (l : List Reg) : Machine := m.ldmiaW .sp l

def dregs (m : Machine) (lo hi : Nat) : List Word :=
  (List.range (2 * (hi + 1 - lo))).map fun i => m.get (.d (2 * lo + i))

def vstmW (m : Machine) (x : Reg) (lo hi : Nat) : Machine :=
  (m.setMem (storeAll m.mem (m.get (m.loc x)) (m.dregs lo hi))).writeBack x (2 * (hi + 1 - lo))

/-- the halves of the D registers from number `i` on, `n` of them, from consecutive words -/
def loadDregs (m : Machine) (a : Word) (i : Nat) : Nat → Machine
  | 0 => m
  | n + 1 => (m.loadDregs a i n).set (.d (i + n)) (m.mem (nth a n))

def vldmW (m : Machine) (x : Reg) (lo hi : Nat) : Machine :=
  (m.writeBack x (2 * (hi + 1 - lo))).loadDregs (m.get (m.loc x)) (2 * lo) (2 * (hi + 1 - lo))

/-- `bl f`, where `link` is the address of the next instruction -/
def bl (m : Machine) (link : Word) (f : Machine → Machine) : Machine := f (m.set (.lr m.mode) link)

def ret (m : Machine) : Machine := m.set .pc (m.get (.lr m.mode))

def popPc (m : Machine) : Machine :=
  (m.set .pc (m.mem (m.get (.sp m.mode)))).writeBack .sp 1

def movsPcLr (m : Machine) : Machine :=
  (m.set .pc (m.get (.lr m.mode))).set .cpsr (m.get (.spsr m.mode))

section
variable (m : Machine) (x : Reg) (y : Loc) (a : Word) (lo hi i n : Nat)

@[simp] theorem mem_loadRegs (l : List Reg) : (m.loadRegs a l i).mem = m.mem := by
  induction l generalizing m i with
  | nil => rfl
  | cons z l ih => exact ih (m.set _ _) (i + 1)

@[simp] theorem mode_loadRegs (l : List Reg) : (m.loadRegs a l i).mode = m.mode := by
  induction l generalizing m i with
  | nil => rfl
  | cons z l ih => exact ih (m.set _ _) (i + 1)

theorem loc_set (z : Loc) (w : Word) : (m.set z w).loc = m.loc := by
  funext u
  cases u <;> rfl

theorem get_loadRegs_of_notMem {l : List Reg} (hy : y ∉ l.map m.loc) :
    (m.loadRegs a l i).get y = m.get y := by
  induction l generalizing m i with
  | nil => rfl
  | cons z l ih =>
    simp only [List.map_cons, List.mem_cons, not_or] at hy
    show ((m.set (m.loc z) _).loadRegs a l (i + 1)).get y = m.get y
    rw [ih _ _ (by rw [loc_set]; exact hy.2), get_set, if_neg hy.1]

theorem get_loadRegs {l : List Reg} (h : (l.map m.loc).Nodup) :
    (l.map fun z => (m.loadRegs a l i).get (m.loc z))
      = (List.range l.length).map fun j => m.mem (nth a (i + j)) := by
  induction l generalizing m i with
  | nil => rfl
  | cons z l ih =>
    rw [List.map_cons, List.nodup_cons] at h
    have h1 := ih (m.set (m.loc z) (m.mem (nth a i))) (i + 1) (by rw [loc_set]; exact h.2)
    rw [loc_set] at h1
    show ((m.set (m.loc z) _).loadRegs a l (i + 1)).get (m.loc z) :: _ = _
    rw [get_loadRegs_of_notMem _ _ _ _ (by rw [loc_set]; exact h.1), get_set, if_pos rfl,
      List.length_cons, List.range_succ_eq_map, List.map_cons, List.map_map]
    refine congrArg _ (h1.trans (List.map_congr_left fun j _ => ?_))
    show m.mem (nth a (i + 1 + j)) = m.mem (nth a (i + (j + 1)))
    rw [Nat.add_assoc, Nat.add_comm 1 j]

theorem get_writeBack (hy : y ≠ m.loc x) : (m.writeBack x n).get y = m.get y := by
  rw [writeBack, get_set, if_neg hy]

theorem mem_vstmW : (m.vstmW x lo hi).mem = storeAll m.mem (m.get (m.loc x)) (m.dregs lo hi) := rfl

theorem get_vstmW (hy : y ≠ m.loc x) : (m.vstmW x lo hi).get y = m.get y :=
  get_writeBack _ x y _ hy

@[simp] theorem mem_loadDregs : (m.loadDregs a i n).mem = m.mem := by
  induction n with
  | zero => rfl
  | succ n ih => exact ih

@[simp] theorem mode_loadDregs : (m.loadDregs a i n).mode = m.mode := by
  induction n with
  | zero => rfl
  | succ n ih => exact ih

theorem get_loadDregs (hy : ∀ j, y ≠ .d j) : (m.loadDregs a i n).get y = m.get y := by
  induction n with
  | zero => rfl
  | succ n ih =>
    show ((m.loadDregs a i n).set (.d (i + n)) _).get y = _
    rw [get_set, if_neg (hy _), ih]

theorem get_d_loadDregs (j : Nat) : (m.loadDregs a i n).get (.d j)
    = if i ≤ j ∧ j < i + n then m.mem (nth a (j - i)) else m.get (.d j) := by
  induction n with
  | zero =>
    rw [if_neg (by omega)]
    rfl
  | succ n ih =>
    show ((m.loadDregs a i n).set (.d (i + n)) _).get (.d j) = _
    rw [get_set, ih]
    by_cases hj : j = i + n
    · rw [hj, if_pos rfl, if_pos (by omega), Nat.add_sub_cancel_left]
    · have h1 : Loc.d j ≠ Loc.d (i + n) := by simpa using hj
      rw [if_neg h1]
      split_ifs <;> first | rfl | omega

end

end Machine

end SierraTee
