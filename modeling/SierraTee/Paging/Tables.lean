import SierraTee.Lib.Runs
import SierraTee.Paging.Descriptor

/-!
# The secure page table (`page_table.c`)

The functions for one entry, with a second-level table from the pool, and what the hardware makes of
an address.
-/

namespace SierraTee
open Function FlatMemory

def pageBytes : Nat := 4096
def sectionBytes : Nat := 1048576
def l2PageTableSize : Nat := 1024

/-- a pointer to a `second_level_pages` -/
abbrev L2Ptr := Nat

def uintSub (a b : Nat) : Nat := if b ≤ a then a - b else a + 2 ^ 32 - b

/-- what does not change -/
structure PageConfig where
  /-- `get_secure_ptd()` -/
  pgd : Word
  /-- virtual minus physical addresses of the kernel, 0 without the MMU -/
  offset : Word
  /-- a pointer into `static_l2_ref` -/
  isStatic : L2Ptr → Bool
  /-- `CONFIG_SW_MULTICORE` -/
  multicore : Bool

structure PageTables where
  mem : Memory
  /-- `l2_pages.list`, and the fields of its elements -/
  refs : List L2Ptr
  pageBase : L2Ptr → Word
  page : L2Ptr → Fin 4 → Nat
  blkUsed : L2Ptr → Nat
  /-- the fields of `l2_pages` -/
  blkAllocated : Nat
  blkUsedAll : Nat
  /-- the elements with their pages that come next: the static ones, and when the heap is there
  those of `sw_malloc_private` and `sw_vir_page_alloc` -/
  reserve : List (L2Ptr × Word)

def securePhyToVir (c : PageConfig) (pa : Word) : Word := pa + c.offset
def secureVirToPhy (c : PageConfig) (va : Word) : Word := va - c.offset

def tableOf (c : PageConfig) (w : Word) : Word := securePhyToVir c (w &&& pageDescPageTblMask)

namespace PageTables
variable (c : PageConfig) (pt : PageTables) (e : CpuPtEntry)

def entry (i : BitVec 12) : Word := pt.mem (nth c.pgd i.toNat)

def store (a w : Word) : PageTables := { pt with mem := update pt.mem a w }

def setEntry (i : BitVec 12) (w : Word) : PageTables := pt.store (nth c.pgd i.toNat) w

/-! ## Sections -/

/-- `SW_ERROR` is -1 -/
def mapSectionEntry : PageTables × Int :=
  if descType (pt.entry c (l1Index e.va)) = pageDescTypeFault then
    (pt.setEntry c (l1Index e.va) (sectionEntry e), 0)
  else if descType (pt.entry c (l1Index e.va)) = pageDescTypeSection then (pt, 0)
  else (pt, -1)

def unmapSectionEntry (va : Word) : PageTables :=
  if descType (pt.entry c (l1Index va)) = pageDescTypeSection then
    pt.setEntry c (l1Index va) 0
  else pt

/-! ## The pool -/

def slotBase (r : L2Ptr) (j : Fin 4) : Word := pt.pageBase r + BitVec.ofNat 32 (l2PageTableSize * j)

def findFree : List L2Ptr → Option (L2Ptr × Fin 4)
  | [] => none
  | r :: l =>
    if pt.blkUsed r = 4 then findFree l
    else match (List.finRange 4).find? fun j => pt.page r j = 0 with
      | some j => some (r, j)
      | none => findFree l

def withReserve (reserve : List (L2Ptr × Word)) : PageTables := { pt with reserve := reserve }

def addPage (r : L2Ptr) (base : Word) : PageTables :=
  { pt with
    refs := pt.refs ++ [r]
    pageBase := update pt.pageBase r base
    page := update pt.page r fun _ => 0
    blkUsed := update pt.blkUsed r 0 }

def takeTable (r : L2Ptr) : PageTables :=
  { pt with
    blkUsed := update pt.blkUsed r (pt.blkUsed r + 1)
    blkUsedAll := pt.blkUsedAll + 1 }

/-- `sw_memset` of a table -/
def clearTable (base : Word) : PageTables :=
  { pt with mem := storeAll pt.mem base (List.replicate (l2PageTableSize / 4) 0) }

/-- the first page of all is static; `none` if the index of the table is not set -/
def allocL2SecurePageTable : Option (PageTables × Word) :=
  match pt.refs with
  | [] =>
    match pt.reserve with
    | [] => none
    | x :: reserve =>
      some ((((pt.withReserve reserve).addPage x.1 x.2).takeTable x.1).clearTable x.2, x.2)
  | _ :: _ => (pt.findFree pt.refs).map fun x =>
    ((pt.takeTable x.1).clearTable (pt.slotBase x.1 x.2), pt.slotBase x.1 x.2)

def findRef (base : Word) : Option (L2Ptr × Fin 4) :=
  (pt.refs.find? fun r => pt.pageBase r ≤ base ∧ base < pt.pageBase r + 4096).map fun r =>
    (r, Fin.ofNat 4 ((base - pt.pageBase r).toNat / l2PageTableSize))

/-- the counter that `map_small_page_entry` increments: that of the table, else of the last element -/
def counterOf (base : Word) : Option (L2Ptr × Fin 4) :=
  (pt.findRef base).or (pt.refs.getLast?.map fun r => (r, 0))

def setPage (r : L2Ptr) (j : Fin 4) (n : Nat) : PageTables :=
  { pt with page := update pt.page r (update (pt.page r) j n) }

/-! ## Small pages -/

def mapL2 (base : Word) : Option PageTables :=
  (pt.counterOf base).map fun x =>
    (pt.setPage x.1 x.2 (pt.page x.1 x.2 + 1)).store (nth base (l2Index e.va).toNat)
      (smallPageEntry e)

def mapNewTable : Option PageTables :=
  pt.allocL2SecurePageTable.bind fun x =>
    (x.1.setEntry c (l1Index e.va) (coarseEntry (secureVirToPhy c x.2) e)).mapL2 e x.2

def mapOldTable : Option PageTables :=
  let w := setDomain (pt.entry c (l1Index e.va)) e
  (pt.setEntry c (l1Index e.va) w).mapL2 e (tableOf c w)

def mapSmallPage : Option (PageTables × Int) :=
  if descType (pt.entry c (l1Index e.va)) = pageDescTypeFault then
    (pt.mapNewTable c e).map fun pt => (pt, 0)
  else if descType (pt.entry c (l1Index e.va)) = pageDescTypeCoarse then
    (pt.mapOldTable c e).map fun pt => (pt, 0)
  else some (pt, -1)

/-- the mapping that `map_secure_memory` makes; `ptf` are the flags -/
def secureEntry (ptf : Word) (va pa : Word) : CpuPtEntry where
  va := va
  pa := pa
  dom := 0
  ap := ptf.extractLsb' 0 3
  xn := ~~~ptf.extractLsb' 3 1
  tex := 1
  c := 1
  b := 1
  ns := 0
  ng := 0
  s := if c.multicore then 1 else 0

def ptfProtKrw : Word := 1

/-- a page of the heap is mapped by `map_kernel_data_memory`, with `skip` set -/
def mapNewPage (r : L2Ptr) (base : Word) : Option PageTables :=
  if c.isStatic r then some pt
  else (pt.mapSmallPage c (secureEntry c ptfProtKrw base (secureVirToPhy c base))).map Prod.fst

def joinPage (r : L2Ptr) (base : Word) : PageTables :=
  { pt.addPage r base with blkAllocated := pt.blkAllocated + 4 }

/-- the pool gets another page when there are two free tables or less; `none` if there is no page -/
def growPool : Option PageTables :=
  if uintSub pt.blkAllocated pt.blkUsedAll ≤ 2 then
    match pt.reserve with
    | [] => none
    | x :: reserve =>
      ((pt.withReserve reserve).mapNewPage c x.1 x.2).map fun (pt : PageTables) =>
        pt.joinPage x.1 x.2
  else some pt

def mapSmallPageEntry : Option (PageTables × Int) :=
  (pt.mapSmallPage c e).bind fun x =>
    if x.2 = 0 then (x.1.growPool c).map fun pt => (pt, 0) else some x

def releaseTable (i : BitVec 12) (r : L2Ptr) (j : Fin 4) : PageTables :=
  let pt := pt.setPage r j (uintSub (pt.page r j) 1)
  if pt.page r j = 0 then
    { pt.setEntry c i 0 with
      blkUsed := update pt.blkUsed r (uintSub (pt.blkUsed r) 1)
      blkUsedAll := uintSub pt.blkUsedAll 1 }
  else pt

def dropPage (r : L2Ptr) : PageTables :=
  { pt with refs := pt.refs.erase r, blkAllocated := uintSub pt.blkAllocated 4 }

def shrinks (r : L2Ptr) : Bool := pt.blkUsed r = 0 ∧ uintSub pt.blkAllocated pt.blkUsedAll > 5

/-- `unmap_small_page_entry`, with `n` pages that it can give back one in the other; a page of the
heap is unmapped by `unmap_kernel_memory` -/
def unmapSmallPageEntry (n : Nat) (pt : PageTables) (va : Word) : Option (PageTables × Int) :=
  let w := pt.entry c (l1Index va)
  if descType w = pageDescTypeCoarse then
    let pt := pt.store (nth (tableOf c w) (l2Index va).toNat) 0
    match pt.findRef (tableOf c w) with
    | none => some (pt, -1)
    | some x =>
      let pt := pt.releaseTable c (l1Index va) x.1 x.2
      if pt.shrinks x.1 then
        if c.isStatic x.1 then some (pt.dropPage x.1, 0)
        else
          match n with
          | 0 => none
          | n + 1 => (unmapSmallPageEntry n (pt.dropPage x.1) (pt.pageBase x.1)).map fun y => (y.1, 0)
      else some (pt, 0)
  else some (pt, -1)

/-! ## Ranges -/

/-- an address at the start of a page or of a section -/
def pageAligned (a : Word) : Bool := a &&& 0xFFF = 0
def sectionAligned (a : Word) : Bool := a &&& 0xFFFFF = 0

/-- the loop of `map_secure_memory`, with `n` rounds; the results are not looked at -/
def mapLoop (ptf : Word) : Nat → PageTables → Word → Word → Word → Option PageTables
  | 0, pt, _, _, size => if size = 0 then some pt else none
  | n + 1, pt, va, pa, size =>
    if size = 0 then some pt
    else if BitVec.ofNat 32 sectionBytes ≤ size ∧ sectionAligned va ∧ sectionAligned pa then
      mapLoop ptf n (pt.mapSectionEntry c (secureEntry c ptf va pa)).1
        (va + BitVec.ofNat 32 sectionBytes) (pa + BitVec.ofNat 32 sectionBytes)
        (size - BitVec.ofNat 32 sectionBytes)
    else
      (pt.mapSmallPageEntry c (secureEntry c ptf va pa)).bind fun x =>
        mapLoop ptf n x.1 (va + BitVec.ofNat 32 pageBytes) (pa + BitVec.ofNat 32 pageBytes)
          (size - BitVec.ofNat 32 pageBytes)

def mapSecureMemory (va pa size ptf : Word) : Option (PageTables × Int) :=
  if pageAligned size ∧ pageAligned va ∧ pageAligned pa then
    (pt.mapLoop c ptf (size.toNat / pageBytes) va pa size).map fun pt => (pt, 0)
  else some (pt, -1)

def unmapLoop : Nat → PageTables → Word → Word → Option PageTables
  | 0, pt, _, size => if size = 0 then some pt else none
  | n + 1, pt, va, size =>
    if size = 0 then some pt
    else if BitVec.ofNat 32 sectionBytes ≤ size ∧ sectionAligned va then
      unmapLoop n (pt.unmapSectionEntry c va) (va + BitVec.ofNat 32 sectionBytes)
        (size - BitVec.ofNat 32 sectionBytes)
    else
      (pt.unmapSmallPageEntry c pt.refs.length va).bind fun x =>
        unmapLoop n x.1 (va + BitVec.ofNat 32 pageBytes) (size - BitVec.ofNat 32 pageBytes)

def unmapSecureMemory (va size : Word) : Option (PageTables × Int) :=
  if pageAligned size ∧ pageAligned va then
    (pt.unmapLoop c (size.toNat / pageBytes) va size).map fun pt => (pt, 0)
  else some (pt, -1)

/-! ## The hardware -/

def translateL2 (w d va : Word) : Option (Word × Attrs) :=
  if d.extractLsb' 1 1 = 1#1 then
    some (d.extractLsb' 12 20 ++ va.extractLsb' 0 12, smallAttrs w d)
  else if d.extractLsb' 0 1 = 1#1 then
    some (d.extractLsb' 16 16 ++ va.extractLsb' 0 16, largeAttrs w d)
  else none

def translateL1 (w va : Word) : Word × Attrs :=
  if w.extractLsb' 18 1 = 0#1 then (w.extractLsb' 20 12 ++ va.extractLsb' 0 20, sectionAttrs w)
  else (w.extractLsb' 24 8 ++ va.extractLsb' 0 24, { sectionAttrs w with dom := 0 })

def l2Entry (va : Word) : Word :=
  pt.mem (nth (tableOf c (pt.entry c (l1Index va))) (l2Index va).toNat)

def translate (va : Word) : Option (Word × Attrs) :=
  if descType (pt.entry c (l1Index va)) = pageDescTypeSection then
    some (translateL1 (pt.entry c (l1Index va)) va)
  else if descType (pt.entry c (l1Index va)) = pageDescTypeCoarse then
    translateL2 (pt.entry c (l1Index va)) (pt.l2Entry c va) va
  else none

end PageTables

end SierraTee
