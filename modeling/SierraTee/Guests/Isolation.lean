import SierraTee.Lib.Runs
import Mathlib.Data.List.FinRange

/-!
# Switching between guests (`tzhyp_sched.c`, `tzhyp_switch.S`, `sw_gic.c`, `tzhyp_devices.c`)

Twenty of a guest's registers of coprocessor 15 go to the words of its context, one after the other;
the other registers stay as the running guest left them.  The enable registers of the interrupt
distributor are read as a whole, cleared through one port, and set again through another.

`tzhyp_schedule_guest` saves the running guest and restores the next one.  The enable registers
hold the interrupts of the secure world as well: a switch puts back the secure interrupts that
were enabled when the next guest was saved, or when the context of guest 0 was copied to it.

* `restore_save`           what one macro stores the other loads, and no other register changes;
* `swGicDistSaveRegs_spec`, `swGicDistRestoreRegs_spec`   the loops over the enable registers;
* `resumed_iff`            a guest gets back what it had when it was switched out exactly when its
                           other registers were not changed meanwhile;
* `guests_isolated_iff`    a run isolates the guests exactly when this is so at each switch, and the
                           next guest has been saved with the secure interrupts that are enabled
                           then;
* `secure_interrupt_lost`  the switch after a timer of the secure world has been enabled.
-/

namespace SierraTee
open Function
namespace Tzhyp

/-! ## registers of coprocessor 15 -/

structure Cp15Reg where
  opc1 : Fin 8
  crn : Fin 16
  crm : Fin 16
  opc2 : Fin 8
  deriving DecidableEq

namespace Cp15Reg

def csselr : Cp15Reg := ⟨2, 0, 0, 0⟩
def sctlr : Cp15Reg := ⟨0, 1, 0, 0⟩
def actlr : Cp15Reg := ⟨0, 1, 0, 1⟩
def ttbr0 : Cp15Reg := ⟨0, 2, 0, 0⟩
def ttbr1 : Cp15Reg := ⟨0, 2, 0, 1⟩
def ttbcr : Cp15Reg := ⟨0, 2, 0, 2⟩
def dacr : Cp15Reg := ⟨0, 3, 0, 0⟩
def dfsr : Cp15Reg := ⟨0, 5, 0, 0⟩
def ifsr : Cp15Reg := ⟨0, 5, 0, 1⟩
def dfar : Cp15Reg := ⟨0, 6, 0, 0⟩
def ifar : Cp15Reg := ⟨0, 6, 0, 2⟩
def par : Cp15Reg := ⟨0, 7, 4, 0⟩
def prrr : Cp15Reg := ⟨0, 10, 2, 0⟩
def nmrr : Cp15Reg := ⟨0, 10, 2, 1⟩
def vbar : Cp15Reg := ⟨0, 12, 0, 0⟩
def fcseidr : Cp15Reg := ⟨0, 13, 0, 0⟩
def contextidr : Cp15Reg := ⟨0, 13, 0, 1⟩
def tpidrurw : Cp15Reg := ⟨0, 13, 0, 2⟩
def tpidruro : Cp15Reg := ⟨0, 13, 0, 3⟩
def tpidrprw : Cp15Reg := ⟨0, 13, 0, 4⟩

end Cp15Reg

open Cp15Reg

abbrev Cp15File := Cp15Reg → UInt32

/-- the words of a `cp15_context` -/
abbrev Cp15Context := Nat → UInt32

/-- `save_cp15_context` reads the registers in this order -/
def saveOrder : List Cp15Reg :=
  [csselr, sctlr, actlr, ttbr0, ttbr1, ttbcr, dacr, dfsr, ifsr, dfar, ifar, par, prrr, nmrr, vbar,
    fcseidr, contextidr, tpidrurw, tpidruro, tpidrprw]

/-- `restore_cp15_context` writes them in this one -/
def restoreOrder : List Cp15Reg :=
  [csselr, sctlr, actlr, ttbr0, ttbr1, ttbcr, dacr, dfsr, ifsr, dfar, ifar, par, prrr, nmrr, vbar,
    fcseidr, contextidr, tpidrurw, tpidruro, tpidrprw]

def storeRegs (regs : Cp15File) : List Cp15Reg → Nat → Cp15Context → Cp15Context
  | [], _, ctx => ctx
  | r :: rs, n, ctx => storeRegs regs rs (n + 1) (update ctx n (regs r))

def loadRegs (ctx : Cp15Context) : List Cp15Reg → Nat → Cp15File → Cp15File
  | [], _, regs => regs
  | r :: rs, n, regs => loadRegs ctx rs (n + 1) (update regs r (ctx n))

def saveCp15Context (regs : Cp15File) (ctx : Cp15Context) : Cp15Context :=
  storeRegs regs saveOrder 0 ctx

def restoreCp15Context (ctx : Cp15Context) (regs : Cp15File) : Cp15File :=
  loadRegs ctx restoreOrder 0 regs

section
variable {regs regs' : Cp15File} {ctx : Cp15Context} {rs : List Cp15Reg} {r : Cp15Reg} {n k : Nat}

theorem storeRegs_before (h : k < n) : storeRegs regs rs n ctx k = ctx k := by
  induction rs generalizing n ctx with
  | nil => rfl
  | cons r rs ih =>
    rw [storeRegs, ih (by omega), update_of_ne (by omega)]

theorem loadRegs_of_notMem (h : r ∉ rs) : loadRegs ctx rs n regs r = regs r := by
  induction rs generalizing n regs with
  | nil => rfl
  | cons r' rs ih =>
    obtain ⟨hne, hr⟩ := not_or.mp (mt List.mem_cons.mpr h)
    rw [loadRegs, ih hr, update_of_ne hne]

theorem loadRegs_storeRegs (h : r ∈ rs) :
    loadRegs (storeRegs regs rs n ctx) rs n regs' r = regs r := by
  induction rs generalizing n ctx regs' with
  | nil => exact absurd h List.not_mem_nil
  | cons r' rs ih =>
    rw [storeRegs, loadRegs]
    by_cases hr : r ∈ rs
    · exact ih hr
    · obtain rfl : r = r' := (List.mem_cons.mp h).resolve_right hr
      rw [loadRegs_of_notMem hr, update_self, storeRegs_before (Nat.lt_succ_self n),
        update_self]

theorem restore_save : restoreCp15Context (saveCp15Context regs ctx) regs' r =
    if r ∈ saveOrder then regs r else regs' r := by
  split_ifs with h
  · exact loadRegs_storeRegs h
  · exact loadRegs_of_notMem h

end

/-! ## enable registers of the distributor -/

/-- `GIC_ITLINES`: the distributor has one more enable register -/
def gicItlines : Nat := 2

/-- the words of the enable registers; a bit that is set is an enabled interrupt -/
abbrev Enables := Fin (gicItlines + 1) → BitVec 32

/-- a write to a register from `GIC_DIST_INT_SET_EN_BASE_OFF` on -/
def setEnable (e : Enables) (r : Fin (gicItlines + 1)) (w : BitVec 32) : Enables :=
  update e r (e r ||| w)

/-- a write to a register from `GIC_DIST_INT_CLR_EN_BASE_OFF` on -/
def clrEnable (e : Enables) (r : Fin (gicItlines + 1)) (w : BitVec 32) : Enables :=
  update e r (e r &&& ~~~w)

/-- one round of `sw_gic_dist_save_regs`: the context and the registers -/
def saveRound (st : Enables × Enables) (r : Fin (gicItlines + 1)) : Enables × Enables :=
  (update st.1 r (st.2 r), clrEnable st.2 r (st.2 r))

def swGicDistSaveRegs (ctx e : Enables) : Enables × Enables :=
  (List.finRange (gicItlines + 1)).foldl saveRound (ctx, e)

def swGicDistRestoreRegs (ctx e : Enables) : Enables :=
  (List.finRange (gicItlines + 1)).foldl (fun e r => setEnable e r (ctx r)) e

section
variable {ctx e : Enables} {rs : List (Fin (gicItlines + 1))}

theorem clrEnable_self (e : Enables) (r : Fin (gicItlines + 1)) : clrEnable e r (e r) r = 0 := by
  rw [clrEnable, update_self]
  ext i
  simp

variable (ctx e) in
theorem saveRounds (hrs : rs.Nodup) (r : Fin (gicItlines + 1)) :
    (rs.foldl saveRound (ctx, e)).1 r = (if r ∈ rs then e r else ctx r) ∧
      (rs.foldl saveRound (ctx, e)).2 r = if r ∈ rs then 0 else e r := by
  induction rs generalizing ctx e with
  | nil => exact ⟨rfl, rfl⟩
  | cons r' rs ih =>
    obtain ⟨hr', hrs⟩ := List.nodup_cons.mp hrs
    obtain ⟨h1, h2⟩ := ih (update ctx r' (e r')) (clrEnable e r' (e r')) hrs
    rw [List.foldl_cons]
    show (rs.foldl saveRound (_, _)).1 r = _ ∧ (rs.foldl saveRound (_, _)).2 r = _
    rw [h1, h2]
    by_cases hr : r = r'
    · subst hr
      simp only [hr', if_false, List.mem_cons, true_or, if_true]
      exact ⟨update_self .., clrEnable_self e r⟩
    · have hne : clrEnable e r' (e r') r = e r := update_of_ne hr _ _
      have hctx : update ctx r' (e r') r = ctx r := update_of_ne hr _ _
      simp only [hne, hctx, List.mem_cons, hr, false_or, and_self]

theorem swGicDistSaveRegs_spec : swGicDistSaveRegs ctx e = (e, fun _ => 0) := by
  have h := saveRounds ctx e (List.nodup_finRange (gicItlines + 1))
  apply Prod.ext
  · funext r
    exact (h r).1.trans (if_pos (List.mem_finRange r))
  · funext r
    exact (h r).2.trans (if_pos (List.mem_finRange r))

theorem restoreRounds (r : Fin (gicItlines + 1)) (hr : r ∉ rs) :
    rs.foldl (fun e r => setEnable e r (ctx r)) e r = e r := by
  induction rs generalizing e with
  | nil => rfl
  | cons r' rs ih =>
    obtain ⟨hne, hr⟩ := not_or.mp (mt List.mem_cons.mpr hr)
    rw [List.foldl_cons, ih hr]
    exact update_of_ne hne _ _

theorem restoreRounds_mem (hrs : rs.Nodup) (r : Fin (gicItlines + 1)) (hr : r ∈ rs) :
    rs.foldl (fun e r => setEnable e r (ctx r)) e r = e r ||| ctx r := by
  induction rs generalizing e with
  | nil => exact absurd hr List.not_mem_nil
  | cons r' rs ih =>
    obtain ⟨hr', hrs⟩ := List.nodup_cons.mp hrs
    rw [List.foldl_cons]
    by_cases hmem : r ∈ rs
    · have hne : r ≠ r' := fun h => hr' (h ▸ hmem)
      rw [ih hrs hmem]
      congr 1
      exact update_of_ne hne _ _
    · obtain rfl : r = r' := (List.mem_cons.mp hr).resolve_right hmem
      rw [restoreRounds r hmem]
      exact update_self ..

theorem swGicDistRestoreRegs_spec :
    swGicDistRestoreRegs ctx e = fun r => e r ||| ctx r := by
  funext r
  exact restoreRounds_mem (List.nodup_finRange _) r (List.mem_finRange r)

theorem swGicDistRestoreRegs_cleared : swGicDistRestoreRegs ctx (fun _ => 0) = ctx := by
  rw [swGicDistRestoreRegs_spec]
  funext r
  show 0#32 ||| ctx r = ctx r
  exact BitVec.zero_or

end

/-! ## Guests -/

open Runs

/-! ## one switch -/

structure SystemContext where
  cp15 : Cp15Context
  icdiser : Enables

/-- the processor and the contexts of `n + 1` guests; `nsSwitch` is the flag that asks for a flush
of the address translation -/
structure Guests (n : Nat) where
  nsWorld : Fin (n + 1) → SystemContext
  nsSysCurrent : Fin (n + 1)
  cp15 : Cp15File
  enable : Enables
  nsSwitch : Bool

section
variable {n : Nat}

/-- `ns_sys_current + 1`, or the first guest behind the boundary -/
def nextGuest (i : Fin (n + 1)) : Fin (n + 1) :=
  if h : i.val + 1 < n + 1 then ⟨i.val + 1, h⟩ else 0

def tzhypSysregsSwitch (s : Guests n) (cur next : Fin (n + 1)) : Guests n :=
  let saved := { s.nsWorld cur with cp15 := saveCp15Context s.cp15 (s.nsWorld cur).cp15 }
  let world := update s.nsWorld cur saved
  { s with
    nsWorld := world
    cp15 := restoreCp15Context (world next).cp15 s.cp15
    nsSwitch := true }

/-- `tzhyp_device_switch` on the processor `cpu` -/
def tzhypDeviceSwitch (cpu : Nat) (s : Guests n) (cur next : Fin (n + 1)) : Guests n :=
  if cpu = 0 then
    let r := swGicDistSaveRegs (s.nsWorld cur).icdiser s.enable
    let world := update s.nsWorld cur { s.nsWorld cur with icdiser := r.1 }
    { s with
      nsWorld := world
      enable := swGicDistRestoreRegs (world next).icdiser r.2 }
  else s

/-- `tzhyp_schedule_guest`, which runs on the first processor; the check of
`SCHEDULE_HIGH_PRIORITY_GUEST` can only put a switch off and is not built in -/
def tzhypScheduleGuest (s : Guests n) : Guests n :=
  let next := nextGuest s.nsSysCurrent
  tzhypDeviceSwitch 0
    (tzhypSysregsSwitch { s with nsSysCurrent := next } s.nsSysCurrent next) s.nsSysCurrent next

def Guests.live (s : Guests n) : SystemContext where
  cp15 := saveCp15Context s.cp15 (s.nsWorld s.nsSysCurrent).cp15
  icdiser := s.enable

def Guests.savedWorld (s : Guests n) : Fin (n + 1) → SystemContext :=
  update s.nsWorld s.nsSysCurrent s.live

theorem tzhypDeviceSwitch_spec (s : Guests n) (cur next : Fin (n + 1)) :
    tzhypDeviceSwitch 0 s cur next =
      { s with
        nsWorld := update s.nsWorld cur { s.nsWorld cur with icdiser := s.enable }
        enable := (update s.nsWorld cur
          { s.nsWorld cur with icdiser := s.enable } next).icdiser } := by
  unfold tzhypDeviceSwitch
  rw [if_pos rfl, swGicDistSaveRegs_spec]
  simp only [swGicDistRestoreRegs_cleared]

/-- **What a switch does**: the running guest is saved, and all the registers are those of the
next guest's context. -/
theorem tzhypScheduleGuest_spec (s : Guests n) :
    tzhypScheduleGuest s =
      { nsWorld := s.savedWorld
        nsSysCurrent := nextGuest s.nsSysCurrent
        cp15 := restoreCp15Context (s.savedWorld (nextGuest s.nsSysCurrent)).cp15 s.cp15
        enable := (s.savedWorld (nextGuest s.nsSysCurrent)).icdiser
        nsSwitch := true } := by
  unfold tzhypScheduleGuest
  rw [tzhypDeviceSwitch_spec]
  generalize nextGuest s.nsSysCurrent = next
  unfold tzhypSysregsSwitch
  simp only [update_self, update_idem]
  have hcp15 : (update s.nsWorld s.nsSysCurrent
      { s.nsWorld s.nsSysCurrent with
        cp15 := saveCp15Context s.cp15 (s.nsWorld s.nsSysCurrent).cp15 } next).cp15
      = (s.savedWorld next).cp15 := by
    unfold Guests.savedWorld
    by_cases h : next = s.nsSysCurrent
    · rw [h, update_self, update_self]
      rfl
    · rw [update_of_ne h, update_of_ne h]
  rw [hcp15]
  rfl

/-! ## runs -/

def irqGicStart : Nat := 32

/-- `base_irq`, the first interrupt number rounded down to a register -/
def baseIrq : Nat := (irqGicStart - 1) / 32 * 32

def intMaskBit (intNum : Nat) : BitVec 32 := 1#32 <<< (intNum % 32)

def swGicMaskInterrupt (intNum : Nat) (e : Enables) : Enables :=
  if intNum < baseIrq then e
  else if h : (intNum - baseIrq) / 32 < gicItlines + 1 then
    clrEnable e ⟨(intNum - baseIrq) / 32, h⟩ (intMaskBit intNum)
  else e

def swGicUnmaskInterrupt (intNum : Nat) (e : Enables) : Enables :=
  if intNum < baseIrq then e
  else if h : (intNum - baseIrq) / 32 < gicItlines + 1 then
    setEnable e ⟨(intNum - baseIrq) / 32, h⟩ (intMaskBit intNum)
  else e

/-- `tzhyp_guest_context_init`: guest 0 is saved, which leaves all interrupts disabled, and its
context is copied to the other guests -/
def tzhypGuestContextInit (cp15 : Cp15File) (enable : Enables) (reset : Cp15Context)
    (icdiser : Enables) : Guests n where
  nsWorld := fun _ => ⟨saveCp15Context cp15 reset, (swGicDistSaveRegs icdiser enable).1⟩
  nsSysCurrent := 0
  cp15 := cp15
  enable := (swGicDistSaveRegs icdiser enable).2
  nsSwitch := false

/-- what happens: a switch, the running guest changes its registers or its interrupts, or the
secure world masks or unmasks an interrupt -/
inductive GuestAct where
  | schedule
  | guestCp15 (regs : Cp15File)
  | guestEnable (e : Enables)
  | mask (intNum : Nat)
  | unmask (intNum : Nat)

/-- a state with what each guest had when it was switched out last -/
structure GuestHistory (n : Nat) where
  hyp : Guests n
  lastOut : Fin (n + 1) → Option (Cp15File × Enables)

/-- a guest does not reach the bits of the interrupts of group 0, which are set in `secure` -/
def mixEnables (secure old new : Enables) : Enables :=
  fun r => (old r &&& secure r) ||| (new r &&& ~~~secure r)

variable (secure : Enables)

def guestStep (s : GuestHistory n) : GuestAct → Option (GuestHistory n)
  | .schedule => some
    { hyp := tzhypScheduleGuest s.hyp
      lastOut := update s.lastOut s.hyp.nsSysCurrent (some (s.hyp.cp15, s.hyp.enable)) }
  | .guestCp15 regs => some { s with hyp := { s.hyp with cp15 := regs } }
  | .guestEnable e => some
    { s with hyp := { s.hyp with enable := mixEnables secure s.hyp.enable e } }
  | .mask k => some { s with hyp := { s.hyp with enable := swGicMaskInterrupt k s.hyp.enable } }
  | .unmask k => some { s with hyp := { s.hyp with enable := swGicUnmaskInterrupt k s.hyp.enable } }

/-- the first state of a run -/
def bootGuests (cp15 : Cp15File) (enable : Enables) (reset : Cp15Context) (icdiser : Enables) :
    GuestHistory n :=
  ⟨tzhypGuestContextInit cp15 enable reset icdiser, fun _ => none⟩

/-- the guest that runs has the registers and the interrupts of group 1 that it had when it was
switched out -/
def Resumed (s : GuestHistory n) : Prop :=
  ∀ x, s.lastOut s.hyp.nsSysCurrent = some x →
    s.hyp.cp15 = x.1 ∧ ∀ r, s.hyp.enable r &&& ~~~secure r = x.2 r &&& ~~~secure r

/-- a switch resumes the next guest and leaves the interrupts of group 0 -/
def IsolatesGuests (s : GuestHistory n) (a : GuestAct) : Prop :=
  a = .schedule → ∀ s', guestStep secure s a = some s' →
    Resumed secure s' ∧ ∀ r, s'.hyp.enable r &&& secure r = s.hyp.enable r &&& secure r

def RestSame (s : GuestHistory n) : Prop :=
  ∀ x, s.lastOut (nextGuest s.hyp.nsSysCurrent) = some x →
    ∀ r, r ∉ saveOrder → s.hyp.cp15 r = x.1 r

/-- and if it is another guest, it has been saved with the interrupts of group 0 that are enabled
now -/
def SavedWithSame (s : GuestHistory n) (a : GuestAct) : Prop :=
  a = .schedule → nextGuest s.hyp.nsSysCurrent ≠ s.hyp.nsSysCurrent → RestSame s ∧
    ∀ r, (s.hyp.nsWorld (nextGuest s.hyp.nsSysCurrent)).icdiser r &&& secure r
      = s.hyp.enable r &&& secure r

def ContextsHold (s : GuestHistory n) : Prop :=
  ∀ g x, g ≠ s.hyp.nsSysCurrent → s.lastOut g = some x →
    (∃ ctx, (s.hyp.nsWorld g).cp15 = saveCp15Context x.1 ctx) ∧ (s.hyp.nsWorld g).icdiser = x.2

variable {secure}

theorem contextsHold_boot (cp15 : Cp15File) (enable : Enables) (reset : Cp15Context)
    (icdiser : Enables) :
    ContextsHold (bootGuests cp15 enable reset icdiser : GuestHistory n) := by
  intro g x _ h
  exact absurd h (by simp [bootGuests])

theorem ContextsHold.saved {s s' : GuestHistory n} (h : ContextsHold s)
    (hs : guestStep secure s .schedule = some s') (g : Fin (n + 1)) {x : Cp15File × Enables}
    (hx : s'.lastOut g = some x) :
    (∃ ctx, (s.hyp.savedWorld g).cp15 = saveCp15Context x.1 ctx) ∧
      (s.hyp.savedWorld g).icdiser = x.2 := by
  obtain rfl := Option.some.inj hs
  have hx' : update s.lastOut s.hyp.nsSysCurrent (some (s.hyp.cp15, s.hyp.enable)) g
      = some x := hx
  by_cases hg : g = s.hyp.nsSysCurrent
  · subst hg
    rw [update_self] at hx'
    obtain rfl := Option.some.inj hx'
    rw [Guests.savedWorld, update_self]
    exact ⟨⟨_, rfl⟩, rfl⟩
  · rw [update_of_ne hg] at hx'
    rw [Guests.savedWorld, update_of_ne hg]
    exact h g x hg hx'

theorem ContextsHold.step {s s' : GuestHistory n} {a : GuestAct} (h : ContextsHold s)
    (hs : guestStep secure s a = some s') : ContextsHold s' := by
  cases a with
  | schedule =>
    intro g x _ hx
    have hw : s'.hyp.nsWorld = s.hyp.savedWorld := by
      obtain rfl := Option.some.inj hs
      show (tzhypScheduleGuest s.hyp).nsWorld = _
      rw [tzhypScheduleGuest_spec]
    rw [hw]
    exact h.saved hs g hx
  | guestCp15 regs =>
    obtain rfl := Option.some.inj hs
    exact h
  | guestEnable e =>
    obtain rfl := Option.some.inj hs
    exact h
  | mask k =>
    obtain rfl := Option.some.inj hs
    exact h
  | unmask k =>
    obtain rfl := Option.some.inj hs
    exact h

theorem resumed_iff {s s' : GuestHistory n} (h : ContextsHold s)
    (hs : guestStep secure s .schedule = some s') :
    Resumed secure s' ↔ (nextGuest s.hyp.nsSysCurrent ≠ s.hyp.nsSysCurrent → RestSame s) := by
  have hsaved {x : Cp15File × Enables} := h.saved (x := x) hs (nextGuest s.hyp.nsSysCurrent)
  obtain rfl := Option.some.inj hs
  have hcur : (tzhypScheduleGuest s.hyp).nsSysCurrent = nextGuest s.hyp.nsSysCurrent := by
    rw [tzhypScheduleGuest_spec]
  have hcp15 {x : Cp15File × Enables} (r : Cp15Reg) (hx : ∃ ctx,
      (s.hyp.savedWorld (nextGuest s.hyp.nsSysCurrent)).cp15 = saveCp15Context x.1 ctx) :
      (tzhypScheduleGuest s.hyp).cp15 r = if r ∈ saveOrder then x.1 r else s.hyp.cp15 r := by
    obtain ⟨ctx, hctx⟩ := hx
    rw [tzhypScheduleGuest_spec, hctx]
    exact restore_save
  have hlast (hne : nextGuest s.hyp.nsSysCurrent ≠ s.hyp.nsSysCurrent) :
      update s.lastOut s.hyp.nsSysCurrent (some (s.hyp.cp15, s.hyp.enable))
        (nextGuest s.hyp.nsSysCurrent) = s.lastOut (nextGuest s.hyp.nsSysCurrent) :=
    update_of_ne hne ..
  constructor
  · intro hres hne x hx r hr
    have hx' := (hlast hne).trans hx
    have h1 : (tzhypScheduleGuest s.hyp).cp15 = x.1 :=
      (hres x ((congrArg _ hcur).trans hx')).1
    rw [← h1, hcp15 r (hsaved hx').1, if_neg hr]
  · intro hrest x hx
    replace hx := (congrArg _ hcur).symm.trans hx
    obtain ⟨hctx, hicd⟩ := hsaved hx
    constructor
    · funext r
      show (tzhypScheduleGuest s.hyp).cp15 r = x.1 r
      rw [hcp15 r hctx]
      split_ifs with hr
      · rfl
      · by_cases hne : nextGuest s.hyp.nsSysCurrent = s.hyp.nsSysCurrent
        · rw [hne] at hx
          change update s.lastOut _ _ _ = _ at hx
          rw [update_self] at hx
          cases hx
          rfl
        · exact hrest hne x ((hlast hne).symm.trans hx) r hr
    · intro r
      show (tzhypScheduleGuest s.hyp).enable r &&& _ = _
      rw [tzhypScheduleGuest_spec]
      show (s.hyp.savedWorld (nextGuest s.hyp.nsSysCurrent)).icdiser r &&& _ = _
      rw [hicd]

theorem isolatesGuests_iff {s : GuestHistory n} (h : ContextsHold s) (a : GuestAct) :
    IsolatesGuests secure s a ↔ SavedWithSame secure s a := by
  have henable : (tzhypScheduleGuest s.hyp).enable
      = (s.hyp.savedWorld (nextGuest s.hyp.nsSysCurrent)).icdiser := by
    rw [tzhypScheduleGuest_spec]
  constructor
  · intro hi ha hne
    subst ha
    obtain ⟨hres, hsame⟩ := hi rfl _ rfl
    refine ⟨(resumed_iff h rfl).mp hres hne, fun r => ?_⟩
    have hkept : (tzhypScheduleGuest s.hyp).enable r &&& secure r
        = s.hyp.enable r &&& secure r := hsame r
    rw [henable, Guests.savedWorld, update_of_ne hne] at hkept
    exact hkept
  · intro hi ha s' hs
    subst ha
    refine ⟨(resumed_iff h hs).mpr fun hne => (hi rfl hne).1, fun r => ?_⟩
    obtain rfl := Option.some.inj hs
    show (tzhypScheduleGuest s.hyp).enable r &&& secure r = _
    rw [henable, Guests.savedWorld]
    by_cases hne : nextGuest s.hyp.nsSysCurrent = s.hyp.nsSysCurrent
    · rw [hne, update_self]
      rfl
    · rw [update_of_ne hne]
      exact (hi rfl hne).2 r

/-- **Isolation of guests** over any run from the start: every switch resumes the next guest as it
was switched out and leaves the secure interrupts as they are, if and only if every guest that is
switched in finds the registers that are not saved as it left them, and has been saved with the secure
interrupts that are enabled then. -/
theorem guests_isolated_iff (secure : Enables) (cp15 : Cp15File) (enable : Enables)
    (reset : Cp15Context) (icdiser : Enables) (l : List GuestAct) :
    Along (guestStep secure) (IsolatesGuests secure)
        (bootGuests cp15 enable reset icdiser : GuestHistory n) l ↔
      Along (guestStep secure) (SavedWithSame secure)
        (bootGuests cp15 enable reset icdiser : GuestHistory n) l :=
  along_iff ContextsHold (fun _ _ _ h _ hs => h.step hs) (fun _ a h => isolatesGuests_iff h a)
    (contextsHold_boot cp15 enable reset icdiser) l

end

def tickTimerIrq : Nat := 70

def onlyTickTimer : Enables := fun r => if r = 2 then intMaskBit tickTimerIrq else 0

/-- **The defect**: with two guests, the timer that the secure world has enabled is off after a
switch. -/
theorem secure_interrupt_lost :
    ¬ ∀ (n : Nat) (secure : Enables) (cp15 : Cp15File) (enable : Enables) (reset : Cp15Context)
      (icdiser : Enables) (l : List GuestAct),
      Along (guestStep secure) (IsolatesGuests secure)
        (bootGuests cp15 enable reset icdiser : GuestHistory n) l := by
  intro h
  have hrun := h 1 onlyTickTimer (fun _ => 0) (fun _ => 0) (fun _ => 0) (fun _ => 0)
    [.unmask tickTimerIrq, .schedule]
  have hkept := (hrun.2.1 rfl _ rfl).2 2
  revert hkept
  decide +kernel

end Tzhyp
end SierraTee
