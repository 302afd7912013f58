import SierraTee.Pages.HandedOut
import SierraTee.Paging.Blocks
import SierraTee.Shm.Attach

/-!
# The stacks of tasks (`task.c`)

A stack is a run of physical pages and the virtual pages at them, one more than it needs; the page
at the low end is for the detection of an overflow and is to be left without a mapping.

The pages for second-level tables that the pool may take are given with each allocation.
-/

namespace SierraTee
open Function Bitmap FlatMemory PageTables Runs

/-- a stack that is alive; `phy` and `vir` are where its pages begin, which only a task with a user
mode has in its fields -/
structure Stack where
  user : Bool
  /-- `task_sp_size` -/
  size : Word
  /-- `task_sp` -/
  sp : Word
  phy : Word
  vir : Word
  deriving DecidableEq

structure StackState where
  info : MemInfo
  pt : PageTables
  live : List Stack

def newSize (size : Word) : Word := pageUp size + 0x1000

def giveVir (vir size : Word) (info : MemInfo) : MemInfo :=
  (swVirFreeReserve vir size info).toOption.getD info

def givePhy (phy size : Word) (info : MemInfo) : MemInfo :=
  (swPhyAddrFree phy size info).toOption.getD info

def undoStack (vir phy size : Word) (info : MemInfo) : MemInfo :=
  let info := if vir ≠ 0 then giveVir vir size info else info
  if phy ≠ 0 then givePhy phy size info else info

def reserveStack (c : PageConfig) (size : Word) (info : MemInfo) : Except MemInfo (MemInfo × Word) :=
  let p := swPhyPageAlloc size info
  if p.2 = 0 then .error p.1
  else match swVirAddrReserve (securePhyToVir c p.2) size p.1 with
    | .error _ => .error (undoStack 0 p.2 size p.1)
    | .ok info => .ok (info, p.2)

def MmuConfig.mapUserMemory (m : MmuConfig) (pt : PageTables) (va pa size ptf : Word) :
    Option (PageTables × Int) :=
  if pageAligned size ∧ pageAligned va ∧ pageAligned pa then
    (m.mapLoop (userEntry m ptf) (size.toNat / pageBytes) pt va pa size).map fun pt => (pt, 0)
  else some (pt, -1)

/-- `unmap_user_memory`, which has the body of the other one -/
def MmuConfig.unmapUserMemory (m : MmuConfig) (pt : PageTables) (va size : Word) :
    Option (PageTables × Int) := m.unmapSecureMemory pt va size

section
variable (m : MmuConfig) (s : StackState)

/-- `alloc_kernel_stack`, with `sp_ptr` or `NULL` -/
def allocKernelStack (size : Word) : Option (StackState × Word) :=
  match reserveStack m (newSize size) s.info with
  | .error info => some ({ s with info := info }, 0)
  | .ok (info, phy) =>
    let vir := securePhyToVir m phy
    (m.mapSecureMemory s.pt (vir + 0x1000) (phy + 0x1000) (pageUp size) ptfProtKrw).map fun x =>
      if x.2 = 0 ∧ vir + 0x1000 ≠ 0 then
        ({ info := info, pt := x.1, live := ⟨false, size, vir + 0x1000, phy, vir⟩ :: s.live },
          vir + 0x1000)
      else ({ s with info := undoStack vir phy (newSize size) info, pt := x.1 }, 0)

def freeKernelStack (sp size : Word) : Option (MemInfo × PageTables) :=
  let phy := walkVirToPhy m s.pt sp - 0x1000
  let vir := sp - 0x1000
  (m.unmapSecureMemory s.pt sp (pageUp size)).map fun x =>
    (givePhy phy (newSize size) (giveVir vir (newSize size) s.info), x.1)

/-- `alloc_user_stack` for a task with the size `task_sp_size`; the physical address is that of the
second page from here on -/
def allocUserStack (userMode : Bool) (size : Word) : Option (StackState × Word) :=
  match reserveStack m (newSize size) s.info with
  | .error info => some ({ s with info := info }, 0)
  | .ok (info, phy) =>
    let vir := securePhyToVir m phy
    (m.mapUserMemory s.pt vir (phy + 0x1000) (pageUp size)
        (if userMode then ptfProtUrw else ptfProtKrw)).map fun x =>
      if x.2 = 0 ∧ vir ≠ 0 then
        ({ info := info, pt := x.1, live := ⟨true, size, vir, phy, vir⟩ :: s.live }, vir)
      else ({ s with info := undoStack vir (phy + 0x1000) (newSize size) info, pt := x.1 }, 0)

def freeUserStack (k : Stack) : Option (MemInfo × PageTables) :=
  (m.unmapUserMemory s.pt k.sp (pageUp k.size)).map fun x =>
    (givePhy k.phy (newSize k.size) (giveVir k.vir (newSize k.size) s.info), x.1)

end

/-- an allocation is with what the allocators have for the pool -/
inductive StackCall where
  | allocKernel (size : Word) (reserve : List (L2Ptr × Word))
  | allocUser (userMode : Bool) (size : Word) (reserve : List (L2Ptr × Word))
  | free (k : Stack)

def StackState.withReserve (s : StackState) (reserve : List (L2Ptr × Word)) : StackState :=
  { s with pt := s.pt.withReserve reserve }

def freeStack (m : MmuConfig) (s : StackState) (k : Stack) : Option StackState :=
  (if k.user then freeUserStack m s k else freeKernelStack m s k.sp k.size).map fun x =>
    { info := x.1, pt := x.2, live := s.live.erase k }

def stackStep (m : MmuConfig) (s : StackState) : StackCall → Option StackState
  | .allocKernel size reserve => (allocKernelStack m (s.withReserve reserve) size).map Prod.fst
  | .allocUser userMode size reserve =>
    (allocUserStack m (s.withReserve reserve) userMode size).map Prod.fst
  | .free k => if k ∈ s.live then freeStack m s k else none

/-! ## The property -/

namespace Stack
variable (k : Stack)

def base : PageSide → Word
  | .phy => k.phy
  | .vir => k.vir

def Owns (side : PageSide) (a : Word) : Prop := InRange (k.base side) (newSize k.size) a

def Guarded (c : PageConfig) (pt : PageTables) : Prop :=
  ∀ a, InRange (k.sp - 0x1000) 0x1000 a → k.Owns .vir a ∧ physOf c pt a = none

def Backed (c : PageConfig) (pt : PageTables) : Prop :=
  ∀ a, InRange k.sp k.size a → ∃ b, physOf c pt a = some b ∧ k.Owns .phy b

def Reserved (info : MemInfo) (side : PageSide) (i : Nat) : Prop :=
  info.pageOf side (k.base side) ≤ i ∧ i < info.pageOf side (k.base side) + reqCnt (newSize k.size)

instance (info : MemInfo) (side : PageSide) (i : Nat) : Decidable (k.Reserved info side i) :=
  inferInstanceAs (Decidable (_ ∧ _))

def Returned (m : MmuConfig) (s : StackState) : Prop :=
  ∃ t, stackStep m s (.free k) = some t ∧ ∀ side i, i < 8 * (s.info.area side).memBmapLen.toNat →
    (k.Reserved s.info side i → s.info.bits side i = true) ∧
      t.info.bits side i = (s.info.bits side i && !decide (k.Reserved s.info side i))

end Stack

/-- what is asked of the live stacks -/
structure GuardsKept (m : MmuConfig) (s : StackState) : Prop where
  guarded : ∀ k ∈ s.live, k.Guarded m s.pt
  backed : ∀ k ∈ s.live, k.Backed m s.pt
  returned : ∀ k ∈ s.live, k.Returned m s
  apart : s.live.Pairwise fun k k' => ∀ side a, ¬ (k.Owns side a ∧ k'.Owns side a)

/-! ## What the calls have to be like -/

def MemInfo.Holds (info : MemInfo) (side : PageSide) (e : Handed) (a : Word) : Prop :=
  info.offset side e.addr ≤ info.offset side a ∧
    info.offset side a < info.offset side e.addr + e.len

def MemInfo.OfRest (info : MemInfo) (others : PageSide → List Handed) (a : Word) : Prop :=
  (∃ e ∈ others .vir, info.Holds .vir e a) ∨
    (info.area .vir).memregionSize.toNat ≤ info.offset .vir a

/-- what the pool may take is the rest of the kernel's, and comes in place -/
structure Supplied (m : MmuConfig) (others : PageSide → List Handed) (s : StackState)
    (reserve : List (L2Ptr × Word)) : Prop where
  ok : PoolOk m (s.pt.withReserve reserve)
  stocked : Stocked m (s.pt.withReserve reserve)
  next : ∀ x ∈ reserve, m.NextOk (s.pt.withReserve reserve) x
  static : ∀ x ∈ reserve, m.isStatic x.1 = true → ∀ a, InPageAt x.2 a → s.info.OfRest others a
  held : ∀ x ∈ reserve, m.isStatic x.1 = false → ∃ e ∈ others .vir,
    ∀ a, pageOf a = pageOf x.2 → s.info.Holds .vir e a

/-- the run for a stack is in its region, and its size is not too large for an `int` -/
structure RunFits (info : MemInfo) (size : Word) (start : Nat) : Prop where
  small : (pageUp size).toNat + 4096 < 2 ^ 31
  run : info.Inside .phy start (reqCnt (newSize size))

def Reservable (c : PageConfig) (info : MemInfo) (size phy : Word) : Prop :=
  ∃ t, swVirAddrReserve (securePhyToVir c phy) (newSize size)
    (swPhyPageAlloc (newSize size) info).1 = .ok t

/-- they are in their region, a free takes the address of the run, the stack has a page besides the
one below it, and a section of virtual addresses has the physical addresses of a section -/
structure PlaceFits (c : PageConfig) (info : MemInfo) (size phy : Word) : Prop where
  pos : 0 < (pageUp size).toNat
  inside : info.outside .phy phy = false
  range : (swPhyPageAlloc (newSize size) info).1.RangeFits .vir (securePhyToVir c phy) (newSize size)
  sp : securePhyToVir c phy + 0x1000 ≠ 0
  whole : (∃ a, BySection (securePhyToVir c phy + 0x1000) (securePhyToVir c phy + 0x1000)
    (pageUp size) a) → c.offset.toNat % sectionBytes = 0

/-- and there are no pages for the stack of a task with a user mode -/
def StackFits (m : MmuConfig) (others : PageSide → List Handed) (s : StackState) : StackCall → Prop
  | .allocKernel size reserve => Supplied m others s reserve ∧
    CountersFit (6 * ((pageUp size).toNat / pageBytes)) s.pt ∧
    ∀ start, s.info.scan .phy (newSize size) = some start → s.info.addrOf .phy start ≠ 0 →
      RunFits s.info size start ∧
        (Reservable m s.info size (s.info.addrOf .phy start) →
          PlaceFits m s.info size (s.info.addrOf .phy start))
  | .allocUser _ size reserve => Supplied m others s reserve ∧
    ∀ start, s.info.scan .phy (newSize size) = some start → s.info.addrOf .phy start ≠ 0 →
      RunFits s.info size start ∧
        ¬ Reservable m s.info size (s.info.addrOf .phy start)
  | .free _ => True

section
variable {c : PageConfig} {s : StackState} {info t : MemInfo} {side other : PageSide} {size a b : Word}
  {out : PageSide → List Handed} {k : Stack} {start i n p : Nat}

/-! ## Sizes -/

theorem newSize_toNat (h : (pageUp size).toNat + 4096 < 2 ^ 31) :
    (newSize size).toNat = (pageUp size).toNat + 4096 := by
  have h1 : (0x1000 : Word).toNat = 4096 := rfl
  unfold newSize
  rw [BitVec.toNat_add]
  omega

theorem newSize_aligned (size : Word) : (newSize size).toNat % 4096 = 0 := by
  have h1 : (0x1000 : Word).toNat = 4096 := rfl
  have h2 := pageUp_aligned size
  unfold newSize
  rw [BitVec.toNat_add]
  omega

theorem pageUp_newSize (size : Word) : pageUp (newSize size) = newSize size := by
  have h := newSize_aligned size
  unfold pageUp
  rw [if_neg]
  rw [not_not, pageMask_eq_zero]
  exact h

theorem reqCnt_newSize (size : Word) : 4096 * reqCnt (newSize size) = (newSize size).toNat := by
  have h := newSize_aligned size
  rw [reqCnt_eq, pageUp_newSize]
  omega

theorem sizeFits_newSize (h : (pageUp size).toNat + 4096 < 2 ^ 31) : SizeFits (newSize size) := by
  unfold SizeFits
  rw [pageUp_newSize, newSize_toNat h]
  exact h

theorem le_pageUp (h : 0 < (pageUp size).toNat) : size.toNat ≤ (pageUp size).toNat := by
  have h1 := size.isLt
  rw [pageUp_toNat] at h ⊢
  omega

theorem SizeFits.sizeCnt (h : SizeFits size) : sizeCnt size = reqCnt size := by
  have h1 : (pageUp size).toInt = (pageUp size).toNat := by
    unfold SizeFits at h
    rw [BitVec.toInt_eq_toNat_cond, if_pos (by omega)]
  rw [reqCnt_eq]
  unfold SierraTee.sizeCnt
  rw [h1]
  split_ifs <;> omega

theorem SizeFits.tmpCnt (h : SizeFits size) (info : MemInfo) (side : PageSide) (addr : Word) :
    info.tmpCnt side addr size = reqCnt size := by
  have h1 := pageOf_lt info side addr
  have hmsb : (pageUp size).msb = false := BitVec.msb_eq_false_iff_two_mul_lt.mpr (by
    unfold SizeFits at h
    omega)
  have h2 : ((pageUp size).sshiftRight 12).toNat = reqCnt size := by
    rw [BitVec.toNat_sshiftRight_of_msb_false hmsb, Nat.shiftRight_eq_div_pow, reqCnt_eq]
  have h3 := reqCnt_lt size
  unfold MemInfo.tmpCnt MemInfo.upTo
  rw [BitVec.toNat_add, BitVec.toNat_ofNat, h2]
  omega

/-! ## Frees -/

theorem giveVir_eq (h : SizeFits size) (hout : info.outside .vir a = false) :
    giveVir a size info = info.givePages .vir (info.pageOf .vir a) (reqCnt size) := by
  unfold giveVir swVirFreeReserve
  rw [if_neg (Bool.eq_false_iff.mp hout), h.sizeCnt]
  rfl

theorem givePhy_eq (h : SizeFits size) (hout : info.outside .phy a = false) :
    givePhy a size info = info.givePages .phy (info.pageOf .phy a) (reqCnt size) := by
  unfold givePhy swPhyAddrFree MemInfo.giveRange
  rw [if_neg (Bool.eq_false_iff.mp hout), h.tmpCnt]
  rfl

theorem bits_give (hl : Laid info)
    (hin : ∀ i, p ≤ i → i < p + n → i < 8 * (info.area side).memBmapLen.toNat)
    (hi : i < 8 * (info.area other).memBmapLen.toNat) : (info.givePages side p n).bits other i
      = (info.bits other i && !decide (other = side ∧ p ≤ i ∧ i < p + n)) := by
  by_cases hs : other = side
  · subst hs
    rw [bits_givePages_self, Bool.and_comm]
    simp only [true_and]
  · have h1 := hl.phy
    have h2 := hl.vir
    rw [bits_givePages, Bool.and_comm]
    congr 2
    refine decide_eq_decide.mpr (iff_of_false (fun h3 => ?_) fun h3 => hs h3.1)
    cases side with
    | phy =>
      cases other with
      | phy => exact hs rfl
      | vir =>
        have h4 := hin (32 * (info.area .vir).bmap + i - 32 * (info.area .phy).bmap)
          (by omega) (by omega)
        omega
    | vir =>
      cases other with
      | phy => omega
      | vir => exact hs rfl

/-! ## Reservations -/

theorem reserveStack_ok {x : MemInfo × Word} (h : reserveStack c (newSize size) info = .ok x) :
    ∃ start, info.scan .phy (newSize size) = some start ∧ info.addrOf .phy start ≠ 0 ∧
      x.2 = info.addrOf .phy start ∧ swVirAddrReserve (securePhyToVir c x.2) (newSize size)
        (info.takePages .phy start (reqCnt (newSize size))) = .ok x.1 := by
  unfold reserveStack at h
  dsimp only at h
  cases hscan : info.scan .phy (newSize size) with
  | none =>
    rw [phyPageAlloc_none hscan, if_pos rfl] at h
    cases h
  | some start =>
    rw [phyPageAlloc_some hscan] at h
    split_ifs at h with h0
    split at h
    · cases h
    · rename_i t ht
      cases h
      exact ⟨start, rfl, h0, rfl, ht⟩

theorem clear_of_take (h : (info.takePages side p n).bits other i = false) :
    info.bits other i = false := by
  by_contra h1
  rw [bits_takePages_mono (Bool.not_eq_false _ ▸ h1)] at h
  cases h

/-- what is left of a reservation that failed: what was handed out before, and no virtual page has
been given back -/
structure FailedTake (info : MemInfo) (out : PageSide → List Handed) (t : MemInfo) : Prop where
  hands : HandsOk ⟨t, out⟩
  same : SameLayout info t
  clear : ∀ i, i < 8 * (info.area .vir).memBmapLen.toNat → t.bits .vir i = false →
    info.bits .vir i = false

theorem FailedTake.take (hok : HandsOk ⟨info, out⟩) (p n : Nat) :
    FailedTake info out (info.takePages .phy p n) :=
  ⟨hok.of_bits (sameLayout_takePages info .phy p n) fun _ _ _ _ _ hi => bits_takePages_mono hi,
    sameLayout_takePages info .phy p n, fun _ _ => clear_of_take⟩

theorem FailedTake.giveBack (hok : HandsOk ⟨info, out⟩)
    (hscan : info.scan .phy (newSize size) = some start) (h0 : info.addrOf .phy start ≠ 0)
    (hfit : RunFits info size start) : FailedTake info out (givePhy (info.addrOf .phy start) (newSize size)
      (info.takePages .phy start (reqCnt (newSize size)))) := by
  obtain ⟨hsmall, hrun⟩ := hfit
  have htake := FailedTake.take hok start (reqCnt (newSize size))
  cases hout : (info.takePages .phy start (reqCnt (newSize size))).outside .phy
    (info.addrOf .phy start) with
  | true =>
    unfold givePhy swPhyAddrFree
    rw [if_pos hout]
    exact htake
  | false =>
    have hhand := hok.handRun (scan_some hscan).1 hrun (scan_start hscan)
    unfold Hands.handRun Hands.hand at hhand
    rw [if_neg h0] at hhand
    have hmem : (⟨info.addrOf .phy start, newSize size, 4096 * reqCnt (newSize size)⟩ : Handed) ∈
        update out .phy (⟨info.addrOf .phy start, newSize size,
          4096 * reqCnt (newSize size)⟩ :: out .phy) .phy := by
      rw [update_self]
      exact List.mem_cons_self
    have hback := hhand.back .phy hmem (Nat.le_refl (reqCnt (newSize size)))
    unfold Hands.back at hback
    dsimp only at hback
    rw [update_self, List.erase_cons_head, update_idem,
      update_eq_self] at hback
    rw [givePhy_eq (sizeFits_newSize hsmall) hout]
    refine ⟨hback, htake.same.trans (sameLayout_givePages _ _ _ _), fun i hi h1 =>
      htake.clear i hi ?_⟩
    have hroom : ∀ x, info.pages x < 8 * (info.area x).memBmapLen.toNat := hok.laid.room
    have hstart := pageOf_addrOf info .phy start
    have hpage := htake.same.pageOf .phy (info.addrOf .phy start)
    have hin : ∀ j, (info.takePages .phy start (reqCnt (newSize size))).pageOf .phy
          (info.addrOf .phy start) ≤ j → j < (info.takePages .phy start
            (reqCnt (newSize size))).pageOf .phy (info.addrOf .phy start) + reqCnt (newSize size) →
        j < 8 * ((info.takePages .phy start (reqCnt (newSize size))).area .phy).memBmapLen.toNat := by
      intro j h2 h3
      rw [hpage, hstart] at h2 h3
      rw [htake.same.len]
      have h4 := Inside_le hrun (by omega)
      have h5 := hroom .phy
      have h6 := Nat.mod_le start (2 ^ 20)
      omega
    have hlt : i < 8 * ((info.takePages .phy start (reqCnt (newSize size))).area .vir).memBmapLen.toNat := by
      rw [htake.same.len]
      exact hi
    rw [bits_give (hok.laid.of_same htake.same) hin hlt, decide_eq_false fun h2 => absurd h2.1 (by decide),
      Bool.not_false, Bool.and_true] at h1
    exact h1

theorem reserveStack_error (hok : HandsOk ⟨info, out⟩)
    (hfit : ∀ start, info.scan .phy (newSize size) = some start → info.addrOf .phy start ≠ 0 →
      RunFits info size start) (h : reserveStack c (newSize size) info = .error t) :
    FailedTake info out t := by
  unfold reserveStack at h
  dsimp only at h
  cases hscan : info.scan .phy (newSize size) with
  | none =>
    rw [phyPageAlloc_none hscan, if_pos rfl] at h
    cases h
    exact ⟨hok, SameLayout.refl info, fun _ _ h => h⟩
  | some start =>
    rw [phyPageAlloc_some hscan] at h
    split_ifs at h with h0
    · cases h
      exact FailedTake.take hok start _
    · split at h
      · cases h
        unfold undoStack
        rw [if_neg (not_not.mpr rfl), if_pos h0]
        exact FailedTake.giveBack hok hscan h0 (hfit start hscan h0)
      · cases h

end

end SierraTee
