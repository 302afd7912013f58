import SierraTee.Paging.Tables

/-!
# The page tables through the MMU (`page_table.c`)

`PageTables` has its functions for tables that the kernel finds where it looks for them.  Here each
access of the kernel goes through the tables themselves, and the counters have 32 bits.
-/

namespace SierraTee
open FlatMemory

/-- what does not change, with the MMU -/
structure MmuConfig extends PageConfig where
  /-- `is_mmu_enabled` -/
  mmuEnabled : Bool
  /-- the physical page that `sw_vir_page_alloc` picks for a virtual one -/
  frame : Word → Word

instance : Coe MmuConfig PageConfig := ⟨MmuConfig.toPageConfig⟩

/-- the domain is that of the kernel, and the page is one of the secure world which it may write -/
def Attrs.kernelWrites (x : Attrs) : Bool := x.ns = 0 ∧ x.dom = 0 ∧ (x.ap = 1 ∨ x.ap = 2 ∨ x.ap = 3)

def physOf (c : PageConfig) (pt : PageTables) (a : Word) : Option Word :=
  (pt.translate c a).map Prod.fst

/-- `secure_vir_to_phy`, which asks the hardware; behind a fault there is nothing in PAR but the
last 12 bits -/
def walkVirToPhy (c : PageConfig) (pt : PageTables) (va : Word) : Word :=
  (physOf c pt va).getD 0 &&& 0xFFFFF000 ||| va &&& 0xFFF

def uintAdd (a b : Nat) : Nat := (a + b) % 2 ^ 32

namespace MmuConfig
open PageTables
variable (m : MmuConfig) (pt : PageTables) (e : CpuPtEntry)

/-- the address in the memory of the tables at which an access arrives; `none` is an abort -/
def reach (a : Word) : Option Word :=
  if m.mmuEnabled then
    (pt.translate m a).bind fun x =>
      if x.2.kernelWrites then some (securePhyToVir m x.1) else none
  else some a

def store (a w : Word) : Option PageTables := (m.reach pt a).map fun p => pt.store p w

def entry (i : BitVec 12) : Option Word := (m.reach pt (nth m.pgd i.toNat)).map pt.mem

def setEntry (i : BitVec 12) (w : Word) : Option PageTables := m.store pt (nth m.pgd i.toNat) w

/-- `sw_memset` of a table, which lies in one page -/
def clearTable (base : Word) : Option PageTables := (m.reach pt base).map pt.clearTable

/-! ## Sections -/

def mapSectionEntry : Option (PageTables × Int) :=
  (m.entry pt (l1Index e.va)).bind fun w =>
    if descType w = pageDescTypeFault then
      (m.setEntry pt (l1Index e.va) (sectionEntry e)).map fun pt => (pt, 0)
    else if descType w = pageDescTypeSection then some (pt, 0)
    else some (pt, -1)

def unmapSectionEntry (va : Word) : Option PageTables :=
  (m.entry pt (l1Index va)).bind fun w =>
    if descType w = pageDescTypeSection then m.setEntry pt (l1Index va) 0 else some pt

/-! ## The pool -/

def takeTable (r : L2Ptr) : PageTables :=
  { pt with
    blkUsed := Function.update pt.blkUsed r (uintAdd (pt.blkUsed r) 1)
    blkUsedAll := uintAdd pt.blkUsedAll 1 }

def tablePhy (base : Word) : Word := if m.mmuEnabled then walkVirToPhy m pt base else base

def allocL2SecurePageTable : Option (PageTables × Word × Word) :=
  match pt.refs with
  | [] =>
    match pt.reserve with
    | [] => none
    | x :: reserve =>
      let pt := takeTable ((pt.withReserve reserve).addPage x.1 x.2) x.1
      (m.clearTable pt x.2).map fun pt' => (pt', x.2, m.tablePhy pt x.2)
  | _ :: _ => (pt.findFree pt.refs).bind fun x =>
    let pt := takeTable pt x.1
    (m.clearTable pt (pt.slotBase x.1 x.2)).map fun pt' =>
      (pt', pt.slotBase x.1 x.2, m.tablePhy pt (pt.slotBase x.1 x.2))

/-! ## Small pages -/

def mapL2 (base : Word) : Option PageTables :=
  (pt.counterOf base).bind fun x =>
    m.store (pt.setPage x.1 x.2 (uintAdd (pt.page x.1 x.2) 1)) (nth base (l2Index e.va).toNat)
      (smallPageEntry e)

def mapNewTable : Option PageTables :=
  (m.allocL2SecurePageTable pt).bind fun x =>
    (m.setEntry x.1 (l1Index e.va) (coarseEntry x.2.2 e)).bind fun pt => m.mapL2 pt e x.2.1

def mapOldTable (w : Word) : Option PageTables :=
  (m.setEntry pt (l1Index e.va) (setDomain w e)).bind fun pt =>
    m.mapL2 pt e (tableOf m (setDomain w e))

def mapSmallPage : Option (PageTables × Int) :=
  (m.entry pt (l1Index e.va)).bind fun w =>
    if descType w = pageDescTypeFault then (m.mapNewTable pt e).map fun pt => (pt, 0)
    else if descType w = pageDescTypeCoarse then (m.mapOldTable pt e w).map fun pt => (pt, 0)
    else some (pt, -1)

/-- a page of the heap comes with a physical one, to which it is mapped with `skip` set -/
def mapNewPage (r : L2Ptr) (base : Word) : Option PageTables :=
  if m.isStatic r then some pt
  else (m.mapSmallPage pt (secureEntry m ptfProtKrw base (m.frame base))).map Prod.fst

def joinPage (r : L2Ptr) (base : Word) : PageTables :=
  { pt.addPage r base with blkAllocated := uintAdd pt.blkAllocated 4 }

def growPool : Option PageTables :=
  if uintSub pt.blkAllocated pt.blkUsedAll ≤ 2 then
    match pt.reserve with
    | [] => none
    | x :: reserve =>
      (m.mapNewPage (pt.withReserve reserve) x.1 x.2).map fun pt => joinPage pt x.1 x.2
  else some pt

def mapSmallPageEntry : Option (PageTables × Int) :=
  (m.mapSmallPage pt e).bind fun x =>
    if x.2 = 0 then (m.growPool x.1).map fun pt => (pt, 0) else some x

def releaseTable (i : BitVec 12) (r : L2Ptr) (j : Fin 4) : Option PageTables :=
  let pt := pt.setPage r j (uintSub (pt.page r j) 1)
  if pt.page r j = 0 then
    (m.setEntry pt i 0).map fun pt =>
      { pt with
        blkUsed := Function.update pt.blkUsed r (uintSub (pt.blkUsed r) 1)
        blkUsedAll := uintSub pt.blkUsedAll 1 }
  else some pt

/-- with `n` pages that it can give back one in the other -/
def unmapSmallPageEntry (n : Nat) (pt : PageTables) (va : Word) : Option (PageTables × Int) :=
  (m.entry pt (l1Index va)).bind fun w =>
    if descType w = pageDescTypeCoarse then
      (m.store pt (nth (tableOf m w) (l2Index va).toNat) 0).bind fun pt =>
        match pt.findRef (tableOf m w) with
        | none => some (pt, -1)
        | some x => (m.releaseTable pt (l1Index va) x.1 x.2).bind fun pt =>
          if pt.shrinks x.1 then
            if m.isStatic x.1 then some (pt.dropPage x.1, 0)
            else
              match n with
              | 0 => none
              | n + 1 =>
                (unmapSmallPageEntry n (pt.dropPage x.1) (pt.pageBase x.1)).map fun y => (y.1, 0)
          else some (pt, 0)
    else some (pt, -1)

/-! ## Ranges -/

def mapLoop (entryAt : Word → Word → CpuPtEntry) :
    Nat → PageTables → Word → Word → Word → Option PageTables
  | 0, pt, _, _, size => if size = 0 then some pt else none
  | n + 1, pt, va, pa, size =>
    if size = 0 then some pt
    else if BitVec.ofNat 32 sectionBytes ≤ size ∧ sectionAligned va ∧ sectionAligned pa then
      (m.mapSectionEntry pt (entryAt va pa)).bind fun x =>
        mapLoop entryAt n x.1 (va + BitVec.ofNat 32 sectionBytes)
          (pa + BitVec.ofNat 32 sectionBytes) (size - BitVec.ofNat 32 sectionBytes)
    else
      (m.mapSmallPageEntry pt (entryAt va pa)).bind fun x =>
        mapLoop entryAt n x.1 (va + BitVec.ofNat 32 pageBytes) (pa + BitVec.ofNat 32 pageBytes)
          (size - BitVec.ofNat 32 pageBytes)

def mapSecureMemory (va pa size ptf : Word) : Option (PageTables × Int) :=
  if pageAligned size ∧ pageAligned va ∧ pageAligned pa then
    (m.mapLoop (secureEntry m ptf) (size.toNat / pageBytes) pt va pa size).map fun pt => (pt, 0)
  else some (pt, -1)

def unmapLoop : Nat → PageTables → Word → Word → Option PageTables
  | 0, pt, _, size => if size = 0 then some pt else none
  | n + 1, pt, va, size =>
    if size = 0 then some pt
    else if BitVec.ofNat 32 sectionBytes ≤ size ∧ sectionAligned va then
      (m.unmapSectionEntry pt va).bind fun pt =>
        unmapLoop n pt (va + BitVec.ofNat 32 sectionBytes) (size - BitVec.ofNat 32 sectionBytes)
    else
      (m.unmapSmallPageEntry pt.refs.length pt va).bind fun x =>
        unmapLoop n x.1 (va + BitVec.ofNat 32 pageBytes) (size - BitVec.ofNat 32 pageBytes)

def unmapSecureMemory (va size : Word) : Option (PageTables × Int) :=
  if pageAligned size ∧ pageAligned va then
    (m.unmapLoop (size.toNat / pageBytes) pt va size).map fun pt => (pt, 0)
  else some (pt, -1)

end MmuConfig

end SierraTee
