import SierraTee.Buddy.Ordered
import SierraTee.Shm.Attach
import SierraTee.Paging.Walk

/-!
# The heap of a task (`sw_heap.c`)

* `heapStep_kept`  every call that names a live block or no block keeps the counter;
* `freeKeeps_iff`  a free keeps the counter exactly when it names a live block.

A heap identifier is that of a task, or 0 for the common heap.
-/

namespace SierraTee
open Word FlatMemory

/-- `struct sw_heap_info` -/
structure SwHeapInfo where
  buddyPool : SwBuddyPool
  numBlocksAlloc : Nat
  heapVirAddr : Word
  heapPhyAddr : Word

inductive HeapErrno where
  | einval | enomem | ebusy

def PageError.errno : PageError → HeapErrno
  | .einval => .einval
  | .enomem => .enomem

namespace PageTables
variable (c : PageConfig)

/-- the error of `unmap_small_page_entry`, but for those of a page that the pool gives back -/
def unmapPageErrno (pt : PageTables) (va : Word) : Option HeapErrno :=
  let w := pt.entry c (l1Index va)
  if descType w ≠ pageDescTypeCoarse then some .einval
  else if ((pt.store (nth (tableOf c w) (l2Index va).toNat) 0).findRef (tableOf c w)).isNone then
    some .enomem
  else none

/-- the last error in the loop of `unmap_secure_memory`, which goes on behind it -/
def unmapLoopErrno : Nat → PageTables → Word → Word → Option HeapErrno → Option HeapErrno
  | 0, _, _, _, errno => errno
  | n + 1, pt, va, size, errno =>
    if size = 0 then errno
    else if BitVec.ofNat 32 sectionBytes ≤ size ∧ sectionAligned va then
      unmapLoopErrno n (pt.unmapSectionEntry c va) (va + BitVec.ofNat 32 sectionBytes)
        (size - BitVec.ofNat 32 sectionBytes) errno
    else
      (pt.unmapSmallPageEntry c pt.refs.length va).elim errno fun x =>
        unmapLoopErrno n x.1 (va + BitVec.ofNat 32 pageBytes) (size - BitVec.ofNat 32 pageBytes)
          ((pt.unmapPageErrno c va).or errno)

end PageTables

structure HeapState where
  /-- `get_heap_info`: the common heap, or that in the local storage of a task -/
  heapInfo : Int → Option SwHeapInfo
  /-- `get_task` finds the task -/
  isTask : Int → Bool
  swMemInfo : MemInfo
  pt : PageTables
  errno : Option HeapErrno

namespace HeapState
variable (c : PageConfig) (s : HeapState) (heapId : Int)

def setErrno (e : HeapErrno) : HeapState := { s with errno := some e }

def setHeap (h : SwHeapInfo) : HeapState :=
  { s with heapInfo := Function.update s.heapInfo heapId (some h) }

/-! ## Blocks -/

/-- with the address, or 0 -/
def swMallocPrivate (size : Nat) : Nat × HeapState :=
  match s.heapInfo heapId with
  | none => (0, s.setErrno .einval)
  | some h =>
    let r := swBuddyAlloc h.buddyPool size
    (r.1, s.setHeap heapId { h with
      buddyPool := r.2
      numBlocksAlloc := if 0 < r.1 then u32 (h.numBlocksAlloc + 1) else h.numBlocksAlloc })

/-- `none` when `sw_buddy_free` crashes -/
def swFreePrivate (ptr : Nat) : Option HeapState :=
  match s.heapInfo heapId with
  | none => some (s.setErrno .einval)
  | some h => (swBuddyFree h.buddyPool ptr).map fun pool =>
    -- whether the pool had a block at the address is not known here
    s.setHeap heapId { h with buddyPool := pool, numBlocksAlloc := sub32 h.numBlocksAlloc 1 }

/-! ## The end of a heap -/

def settle : Except PageError MemInfo → HeapState × Word
  | .ok info => ({ s with swMemInfo := info }, swOk)
  | .error e => (s.setErrno e.errno, swError)

/-- `unmap_kernel_memory`, and `unmap_user_memory` with the secure table; the page bitmaps of the
tables themselves are left out -/
def unmap (va size : Word) : Option (HeapState × Word) :=
  (s.pt.unmapSecureMemory c va size).map fun x =>
    if x.2 = 0 then
      ({ s with
          pt := x.1
          errno := s.pt.unmapLoopErrno c (size.toNat / pageBytes) va size s.errno }, swOk)
    else ({ s with pt := x.1 }.setErrno .einval, swError)

def virAddrFree (addr size : Word) : Option (HeapState × Word) :=
  let phyAddr := walkVirToPhy c s.pt addr
  let x := s.settle (swVirAddrFree addr size phyAddr s.swMemInfo)
  if x.2 ≠ swOk then some x
  else
    let t := if s.swMemInfo.outside .phy phyAddr then x.1.setErrno .enomem else x.1
    (t.unmap c addr (pageUp size)).map fun y => (y.1, swOk)

def checkBusy (h : SwHeapInfo) : HeapState :=
  if h.numBlocksAlloc ≠ 0 then s.setErrno .ebusy else s

def freePrivateHeap : Option (HeapState × Word) :=
  match s.heapInfo heapId with
  | none => some (s.setErrno .einval, swError)
  | some h =>
    -- the result of the check is overwritten
    (s.checkBusy h).virAddrFree c (BitVec.ofNat 32 h.buddyPool.poolStart)
      (BitVec.ofNat 32 h.buddyPool.poolSize)

/-- the pages of a user heap are given back; `ret` is the result so far -/
def freeUserPages (h : SwHeapInfo) (ret : Word) : Option (HeapState × Word) :=
  let size := BitVec.ofNat 32 h.buddyPool.poolSize
  (if s.isTask heapId then s.unmap c h.heapVirAddr size else some (s, swOk)).map fun x =>
    let y := x.1.settle (swVirFreeReserve h.heapVirAddr size x.1.swMemInfo)
    let z := y.1.settle (swPhyAddrFree h.heapPhyAddr size y.1.swMemInfo)
    (z.1, if x.2 = swOk ∧ y.2 = swOk ∧ z.2 = swOk then ret else swError)

def freeUserHeap : Option (HeapState × Word) :=
  match s.heapInfo heapId with
  | none => some (s.setErrno .einval, swError)
  | some h =>
    let ret := if h.numBlocksAlloc ≠ 0 ∨ !s.isTask heapId then swError else swOk
    if h.heapPhyAddr = 0 then some (s.checkBusy h, ret)
    else (s.checkBusy h).freeUserPages c heapId h ret

end HeapState

/-! ## Sequences of calls -/

inductive HeapCall where
  | mallocPrivate (heapId : Int) (size : Nat)
  | freePrivate (heapId : Int) (ptr : Nat)

/-- one call; `none` when it crashes -/
def heapStep (s : HeapState) : HeapCall → Option HeapState
  | .mallocPrivate heapId size => some (s.swMallocPrivate heapId size).2
  | .freePrivate heapId ptr => s.swFreePrivate heapId ptr

/-! ## The counter of a heap -/

open SwBuddyPool Runs

/-- a heap that was just allocated; the size is an `int` -/
def FreshHeap (h : SwHeapInfo) : Prop :=
  h.numBlocksAlloc = 0 ∧ ∃ poolStart minAllocSize heapSize : Nat,
    minAllocSize < 2 ^ 32 ∧ heapSize < 2 ^ 31 ∧
    poolStart + (heapSize + getManageArea heapSize minAllocSize) < 2 ^ 32 ∧
    swBuddyInit poolStart (heapSize + getManageArea heapSize minAllocSize) minAllocSize heapSize
      = .ok h.buddyPool

/-- the counter of the heap and that of the pool are the number of the blocks in use -/
def CountsBlocks (h : SwHeapInfo) : Prop :=
  h.numBlocksAlloc = h.buddyPool.allocTree.toList.length ∧
    h.buddyPool.allocCnt = h.buddyPool.allocTree.toList.length

structure HeapKept (g : Geometry) (h : SwHeapInfo) : Prop where
  tidy : Tidy g h.buddyPool
  books : Books h.buddyPool
  order : BTree.InOrder h.buddyPool.addr h.buddyPool.allocTree
  count : h.numBlocksAlloc = h.buddyPool.allocTree.toList.length
  size_pos : 0 < h.buddyPool.poolSize
  size_lt : h.buddyPool.poolSize + pageSize < 2 ^ 31

section
variable {g : Geometry} {h : SwHeapInfo}

theorem HeapKept.counts (hk : HeapKept g h) : CountsBlocks h :=
  ⟨hk.count, (hk.books.accounted hk.tidy.1).allocCnt⟩

/-! ## One heap -/

def SwHeapInfo.malloc (h : SwHeapInfo) (size : Nat) : SwHeapInfo :=
  { h with
    buddyPool := (swBuddyAlloc h.buddyPool size).2
    numBlocksAlloc :=
      if 0 < (swBuddyAlloc h.buddyPool size).1 then u32 (h.numBlocksAlloc + 1)
      else h.numBlocksAlloc }

def SwHeapInfo.free (h : SwHeapInfo) (pool : SwBuddyPool) : SwHeapInfo :=
  { h with buddyPool := pool, numBlocksAlloc := sub32 h.numBlocksAlloc 1 }

theorem poolSize_of_shape {s t : SwBuddyPool} (e : t.shape = s.shape) : t.poolSize = s.poolSize := by
  show t.shape.poolSize = s.shape.poolSize
  rw [e]

theorem HeapKept.malloc {size : Nat} (hk : HeapKept g h)
    (hok : NoWrapSize h.buddyPool (.alloc size)) : HeapKept g (h.malloc size) := by
  have hgrown := hk.tidy.grown hok
  have htidy : Tidy g (swBuddyAlloc h.buddyPool size).2 := poolStep_regional hk.tidy hok rfl
  have hpool : (swBuddyAlloc h.buddyPool size).2.poolSize = h.buddyPool.poolSize :=
    poolSize_of_shape hgrown.shape
  refine ⟨htidy, hk.books.alloc hk.tidy hok, hgrown.inOrder hk.order, ?_, ?_, ?_⟩
  · have hlen := hgrown.length
    have hword := htidy.1.tree_length
    have hcount := hk.count
    show (if 0 < (swBuddyAlloc h.buddyPool size).1 then u32 (h.numBlocksAlloc + 1)
      else h.numBlocksAlloc) = (swBuddyAlloc h.buddyPool size).2.allocTree.toList.length
    split
    · rename_i hpos
      rw [if_pos hpos] at hlen
      rw [u32_of_lt (by omega)]
      omega
    · rename_i hzero
      rw [if_neg hzero] at hlen
      omega
  · exact hpool ▸ hk.size_pos
  · exact hpool ▸ hk.size_lt

theorem HeapKept.free {ptr : Nat} {pool : SwBuddyPool} (hk : HeapKept g h)
    (hl : LiveBlock h.buddyPool ptr) (hr : swBuddyFree h.buddyPool ptr = some pool) :
    HeapKept g (h.free pool) := by
  have hok : NoWrapSize h.buddyPool (.free ptr) := Or.inr trivial
  have hstep : poolStep h.buddyPool (.free ptr) = some pool := hr
  have hpool : pool.poolSize = h.buddyPool.poolSize :=
    poolSize_of_shape (swBuddyFree_shape hr)
  refine ⟨poolStep_regional hk.tidy hok hstep, poolStep_books hk.tidy hk.books hok hstep,
    poolStep_inOrder hk.tidy hk.order hok hstep, ?_, ?_, ?_⟩
  · have hlen := hk.tidy.free_length hk.order hl hr
    have hcount := hk.count
    show sub32 h.numBlocksAlloc 1 = pool.allocTree.toList.length
    rw [sub32_of_le (by omega)]
    omega
  · exact hpool ▸ hk.size_pos
  · exact hpool ▸ hk.size_lt

/-! ## A new heap -/

theorem swBuddyInit_poolSize {g : Geometry} {s : SwBuddyPool} {poolStart minAllocSize heapSize : Nat}
    (hm : g.Manages s) (hsize : heapSize < 2 ^ 31)
    (hinit : swBuddyInit poolStart (heapSize + getManageArea heapSize minAllocSize) minAllocSize
      heapSize = .ok s) : 0 < s.poolSize ∧ s.poolSize + pageSize < 2 ^ 31 := by
  obtain ⟨memStart, memSize, maxBin, hfix⟩ := swBuddyInit_fixed hinit
  have hpool : s.poolSize = u32 (heapSize + getManageArea heapSize minAllocSize) :=
    congrArg SwBuddyPool.poolSize hfix
  have hmin : minAllocSize = 2 ^ g.minShift :=
    (congrArg SwBuddyPool.minAllocSize hfix).symm.trans hm.minAllocSize
  have hmax : heapSize = 2 ^ (g.minShift + g.depth) :=
    (congrArg SwBuddyPool.maxAllocSize hfix).symm.trans hm.maxAllocSize
  have hpos : 0 < heapSize := by
    rw [hmax]
    exact Nat.two_pow_pos _
  have hlog : g.minShift + g.depth < 31 := by
    rw [hmax] at hsize
    exact (Nat.pow_lt_pow_iff_right (by omega)).mp hsize
  have hle : heapSize ≤ 2 ^ 30 := by
    rw [hmax]
    exact Nat.pow_le_pow_right (by omega) (by omega)
  have hbins := g.bins
  have hdepth : g.depth < 20 := by
    unfold maxBins maxBuddyBinShift minBuddyBinShift at hbins
    omega
  have harea := (@getManageArea_bounds g.minShift (g.minShift + g.depth) (by omega) (by omega)
    (by omega)).2
  rw [← hmax, ← hmin] at harea
  rw [hpool, u32_of_lt (by omega)]
  unfold pageSize
  omega

theorem FreshHeap.kept (hf : FreshHeap h) : ∃ g, HeapKept g h := by
  obtain ⟨hzero, poolStart, minAllocSize, heapSize, hmin, hsize, hpool, hinit⟩ := hf
  obtain ⟨g, -, -, h0⟩ := swBuddyInit_contained hmin hpool hinit
  obtain ⟨memStart, memSize, maxBin, hfix⟩ := swBuddyInit_fixed hinit
  have htree : h.buddyPool.allocTree = .nil := tree_of_fixed hfix
  obtain ⟨hpos, hlt⟩ := swBuddyInit_poolSize h0.manages hsize hinit
  refine ⟨g, ⟨h0.regional, Or.inr h0⟩, swBuddyInit_books hinit, ?_, ?_, hpos, hlt⟩
  · rw [htree]
    exact List.Pairwise.nil
  · rw [htree]
    exact hzero

end

/-! ## Runs -/

/-- requests for which no block gets behind `2 ^ 32`, and frees of live blocks -/
def HeapFits (s : HeapState) : HeapCall → Prop
  | .mallocPrivate heapId size =>
    ∀ h, s.heapInfo heapId = some h → NoWrapSize h.buddyPool (.alloc size)
  | .freePrivate heapId ptr => ∀ h, s.heapInfo heapId = some h → LiveBlock h.buddyPool ptr

def HeapsKept (s : HeapState) : Prop :=
  ∀ heapId h, s.heapInfo heapId = some h → ∃ g, HeapKept g h

section
variable {s t : HeapState} {heapId : Int} {h : SwHeapInfo}

theorem swMallocPrivate_heap (hh : s.heapInfo heapId = some h) (size : Nat) :
    (s.swMallocPrivate heapId size).2 = s.setHeap heapId (h.malloc size) := by
  rw [HeapState.swMallocPrivate, hh]
  rfl

theorem swFreePrivate_heap (hh : s.heapInfo heapId = some h) (ptr : Nat) :
    s.swFreePrivate heapId ptr
      = (swBuddyFree h.buddyPool ptr).map fun pool => s.setHeap heapId (h.free pool) := by
  rw [HeapState.swFreePrivate, hh]
  rfl

theorem HeapsKept.setHeap {g : Geometry} (hs : HeapsKept s) (hk : HeapKept g h) :
    HeapsKept (s.setHeap heapId h) := by
  apply (Function.forall_update_iff s.heapInfo fun _ x => ∀ k, x = some k → ∃ g, HeapKept g k).mpr
  exact ⟨fun k e => Option.some.inj e ▸ ⟨g, hk⟩, fun i _ => hs i⟩

theorem heapStep_kept {c : HeapCall} (hs : HeapsKept s) (hok : HeapFits s c)
    (hstep : heapStep s c = some t) : HeapsKept t := by
  cases c with
  | mallocPrivate heapId size =>
    obtain rfl := Option.some.inj hstep
    cases hh : s.heapInfo heapId with
    | none =>
      rw [HeapState.swMallocPrivate, hh]
      exact hs
    | some h =>
      obtain ⟨g, hk⟩ := hs heapId h hh
      rw [swMallocPrivate_heap hh]
      exact hs.setHeap (hk.malloc (hok h hh))
  | freePrivate heapId ptr =>
    change s.swFreePrivate heapId ptr = some t at hstep
    cases hh : s.heapInfo heapId with
    | none =>
      rw [HeapState.swFreePrivate, hh] at hstep
      cases hstep
      exact hs
    | some h =>
      obtain ⟨g, hk⟩ := hs heapId h hh
      rw [swFreePrivate_heap hh] at hstep
      obtain ⟨pool, hpool, rfl⟩ := Option.map_eq_some_iff.mp hstep
      exact hs.setHeap (hk.free (hok h hh) hpool)

theorem heapRun_kept {calls : List HeapCall}
    (h0 : ∀ heapId h, s.heapInfo heapId = some h → FreshHeap h)
    (hok : Along heapStep HeapFits s calls) (hrun : run heapStep s calls = some t) :
    HeapsKept t :=
  run_invariant HeapsKept (fun _ _ _ hs hc hstep => heapStep_kept hs hc hstep)
    (fun heapId h hh => (h0 heapId h hh).kept) hok hrun

/-! ## A further free -/

/-- a free that returns, keeps the counter and changes nothing if there is no block -/
def FreeKeeps (s : HeapState) (heapId : Int) (h : SwHeapInfo) (ptr : Nat) : Prop :=
  ∃ t, s.swFreePrivate heapId ptr = some t ∧
    (∀ k, t.heapInfo heapId = some k → CountsBlocks k) ∧ (¬LiveBlock h.buddyPool ptr → t = s)

theorem setHeap_self (s : HeapState) (heapId : Int) (h : SwHeapInfo) :
    (s.setHeap heapId h).heapInfo heapId = some h := Function.update_self ..

theorem freeKeeps_iff {g : Geometry} (hk : HeapKept g h) (hh : s.heapInfo heapId = some h)
    (hend : h.buddyPool.memStart + 2 * h.buddyPool.maxAllocSize ≠ 2 ^ 32) (ptr : Nat) :
    FreeKeeps s heapId h ptr ↔ LiveBlock h.buddyPool ptr := by
  unfold FreeKeeps
  rw [swFreePrivate_heap hh]
  constructor
  · rintro ⟨t, hr, hcounts, -⟩
    obtain ⟨pool, hpool, rfl⟩ := Option.map_eq_some_iff.mp hr
    by_contra hdead
    have h0 : ptr ≠ 0 := by
      rintro rfl
      rw [swBuddyFree, if_pos rfl] at hpool
      cases hpool
    obtain rfl := Option.some.inj ((swBuddyFree_dead h0 hdead).symm.trans hpool)
    have hcount : sub32 h.numBlocksAlloc 1 = h.buddyPool.allocTree.toList.length :=
      (hcounts _ (setHeap_self s heapId _)).1
    have hlen := hk.tidy.1.tree_length
    rw [hk.count] at hcount
    unfold sub32 at hcount
    split at hcount <;> omega
  · intro hl
    obtain ⟨pool, hpool⟩ := hk.tidy.free_returns hk.order hend hl
    refine ⟨_, by rw [hpool]; rfl, fun k hfound => ?_, fun hdead => absurd hl hdead⟩
    rw [setHeap_self] at hfound
    cases hfound
    exact (hk.free hl hpool).counts

end

end SierraTee
