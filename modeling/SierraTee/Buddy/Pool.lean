import SierraTee.Buddy.Math
import SierraTee.Buddy.Tree

/-!
# The buddy allocator (`sw_buddy.c`)

Addresses and sizes are 32-bit words.  `none` is a run that leaves the C program: a write
through the null parent of a list header, or an access behind the `free_area` array.

The descriptors of free and live blocks live in the `area` array; the free lists and the
allocation tree hold their indices.
-/

namespace SierraTee
open Word

def pageSize : Nat := 4096
def maxBuddyBinShift : Nat := 31
def minBuddyBinShift : Nat := 12
def maxBins : Nat := maxBuddyBinShift - minBuddyBinShift + 1

/-- `sizeof(struct sw_area)`: four pointers and three words -/
def sizeofSwArea : Nat := 28

/-- `struct sw_area` without its links -/
structure SwArea where
  memAddr : Nat
  blockSize : Nat
  bin : Nat

/-- an entry of `free_area`: the list behind the header, and the header's `cnt` -/
structure FreeArea where
  chain : List Nat
  cnt : Nat

/-- `struct sw_buddy_pool` -/
structure SwBuddyPool where
  area : Nat → SwArea
  totalAreaCnt : Nat
  nextFreeIndex : Nat
  allocCnt : Nat
  allocTree : BTree
  memStart : Nat
  memSize : Nat
  poolStart : Nat
  poolSize : Nat
  maxAllocSize : Nat
  minAllocSize : Nat
  currHeapSize : Nat
  maxBin : Nat
  freeArea : Nat → FreeArea

namespace SwBuddyPool
variable (s : SwBuddyPool)

def addr (i : Nat) : Nat := (s.area i).memAddr

def bin (i : Nat) : Nat := (s.area i).bin

def chain (b : Nat) : List Nat := (s.freeArea b).chain

def setArea (i : Nat) (a : SwArea) : SwBuddyPool := { s with area := Function.update s.area i a }

def setFree (b : Nat) (f : FreeArea) : SwBuddyPool :=
  { s with freeArea := Function.update s.freeArea b f }

/-- `add_sorted_btree_node(&free_area[b], i)` and the count of the bin up by one -/
def putFree (b i : Nat) : SwBuddyPool :=
  s.setFree b ⟨Chain.addSorted s.addr i (s.chain b), u32 ((s.freeArea b).cnt + 1)⟩

/-- `remove_btree_node` on the list of bin `b` and the count of the bin down by one -/
def takeFree (b i : Nat) : SwBuddyPool :=
  s.setFree b ⟨Chain.remove s.addr i (s.chain b), sub32 (s.freeArea b).cnt 1⟩

def binSize (b : Nat) : Nat := u32 (s.minAllocSize <<< b)

end SwBuddyPool

def isFreeNode (s : SwBuddyPool) (i : Nat) : Bool := (s.area i).memAddr == 0

/-- descriptor `i` is cleared, and the next scan starts at `next` -/
def claimNode (s : SwBuddyPool) (i next : Nat) : SwBuddyPool :=
  { s with area := Function.update s.area i ⟨0, 0, 0⟩, nextFreeIndex := next }

/-- `get_free_node`: scan from `next_free_index` on, then from the start -/
def getFreeNode (s : SwBuddyPool) : Option (Nat × SwBuddyPool) :=
  match (List.range' s.nextFreeIndex (s.totalAreaCnt - s.nextFreeIndex)).find? (isFreeNode s) with
  | some i => some (i, claimNode s i (if i + 1 ≠ s.totalAreaCnt then i + 1 else 0))
  | none =>
    match (List.range s.nextFreeIndex).find? (isFreeNode s) with
    | some i => some (i, claimNode s i (i + 1))
    | none => none

def getManageArea (heapSize minAllocSize : Nat) : Nat :=
  let tempLen := heapSize >>> logOf2 minAllocSize
  let manageAreaLen := u32 (tempLen * sizeofSwArea)
  if manageAreaLen % pageSize ≠ 0 then
    u32 (manageAreaLen / pageSize * pageSize + pageSize)
  else manageAreaLen

/-! ## taking a block -/

/-- the walk of `get_contiguous_block`: `first`, `prev` and the count of the candidate run.
A node that continues the run is looked at once more (`continue` does not advance), so two
steps for each node are enough. -/
def contiguousWalk (s : SwBuddyPool) (numBlocks : Nat) :
    Nat → List Nat → Option (Nat × Nat) → Nat → Option Nat × Nat
  | 0, _, run, count => (run.map Prod.fst, count)
  | _ + 1, [], run, count => (run.map Prod.fst, count)
  | fuel + 1, cur :: l, none, count => contiguousWalk s numBlocks fuel l (some (cur, cur)) count
  | fuel + 1, cur :: l, some (first, prev), count =>
    if u32 (s.addr prev + s.maxAllocSize) = s.addr cur then
      if count + 1 = numBlocks then (some first, count + 1)
      else contiguousWalk s numBlocks fuel (cur :: l) (some (first, cur)) (count + 1)
    else contiguousWalk s numBlocks fuel l (some (cur, cur)) 1

def getContiguousBlock (s : SwBuddyPool) (numBlocks bin : Nat) : Option Nat × SwBuddyPool :=
  if s.maxBin < bin then (none, s)
  else if s.chain bin = [] then (none, s)
  else if (s.freeArea bin).cnt < numBlocks then (none, s)
  else
    match contiguousWalk s numBlocks (2 * (s.chain bin).length) (s.chain bin) none 1 with
    | (none, _) => (none, s)
    | (some first, count) =>
      if count ≠ numBlocks then (none, s)
      else
        let taken := ((s.chain bin).dropWhile (· != first)).take count
        (some first, taken.foldl (fun t i => t.takeFree bin i) s)

def isEmptyBin (s : SwBuddyPool) (bin : Nat) : Bool := (s.chain bin).isEmpty

/-- the inner loop of `get_free_buddy`, from `idx2` down: the upper half of `node` goes to the
bin below.  Without a free descriptor the block is given up. -/
def splitLoop (s : SwBuddyPool) (node bin : Nat) : Nat → Option Nat × SwBuddyPool
  | 0 => (none, s)
  | idx + 1 =>
    if idx + 1 ≤ bin then (none, s)
    else
      match getFreeNode s with
      | none => (none, s)
      | some (freenode, s1) =>
        let blockSize := s1.binSize idx
        let s2 := (s1.setArea freenode ⟨u32 (s1.addr node + blockSize), blockSize, idx⟩).putFree
          idx freenode
        if bin = idx then
          (some node, s2.setArea node ⟨s2.addr node, s2.binSize idx, idx⟩)
        else splitLoop s2 node bin idx

def getFreeBuddy (s : SwBuddyPool) (bin : Nat) : Option Nat × SwBuddyPool :=
  match (List.range' bin (s.maxBin + 1 - bin)).find? (fun b => !isEmptyBin s b) with
  | none => (none, s)
  | some idx =>
    match s.chain idx with
    | [] => (none, s)
    | node :: _ =>
      if idx = bin then (some node, s.takeFree idx node)
      else splitLoop (s.takeFree idx node) node bin idx

/-! ## giving a block back -/

/-- two neighbours leave bin `idx`; `kept` becomes their union in the next bin, and the
descriptor `gone` is free again -/
def mergePair (s : SwBuddyPool) (idx freenode mergeNode kept gone : Nat) : SwBuddyPool :=
  let s1 := (s.takeFree idx freenode).takeFree idx mergeNode
  let s2 := s1.setArea gone { s1.area gone with memAddr := 0 }
  (s2.setArea kept ⟨s2.addr kept, s2.binSize (idx + 1), idx + 1⟩).putFree (idx + 1) kept

/-- the loop of `return_to_free_area` from bin `idx` on.  Only the first block of a bin is
tried, with the block that follows it in memory. -/
def mergeLoop (s : SwBuddyPool) (tempNode idx : Nat) : Nat → Option SwBuddyPool
  | 0 => some s
  | fuel + 1 =>
    match s.chain idx with
    | [] => some s
    | freenode :: _ =>
      let buddy := u32 (s.addr freenode + s.binSize idx)
      -- address 0 is found in the header, which has no parent to be unlinked from
      if buddy = 0 then none
      else
        match Chain.search s.addr buddy (s.chain idx) with
        | none => if tempNode = freenode then some s else mergeLoop s tempNode (idx + 1) fuel
        | some mergeNode =>
          if maxBins ≤ idx + 1 then none
          else
            let kept := if buddy < s.addr freenode then mergeNode else freenode
            let gone := if buddy < s.addr freenode then freenode else mergeNode
            let s1 := mergePair s idx freenode mergeNode kept gone
            if idx + 1 = s.maxBin then some s1 else mergeLoop s1 tempNode (idx + 1) fuel

def returnToFreeArea (s : SwBuddyPool) (freenode bin : Nat) : Option SwBuddyPool :=
  let s1 := (s.setArea freenode ⟨s.addr freenode, s.binSize bin, bin⟩).putFree bin freenode
  if bin = s.maxBin then some s1
  else mergeLoop s1 freenode bin (s.maxBin + 1 - bin)

/-! ## the calls -/

inductive InitError where
  | einval
  | enodata
  /-- the top bin lies behind the end of `free_area` -/
  | overrun

/-- the last loop of `sw_buddy_init`: one block of `max_alloc_size` after the other -/
def initBlocks (s : SwBuddyPool) (memStart maxBin : Nat) : Nat → Except InitError SwBuddyPool
  | 0 => .ok s
  | tnodeCnt + 1 =>
    match getFreeNode s with
    | none => .error .enodata
    | some (freenode, s1) =>
      if maxBins ≤ maxBin then .error .overrun
      else
        initBlocks ((s1.setArea freenode ⟨memStart, s1.maxAllocSize, maxBin⟩).putFree maxBin
          freenode) (u32 (memStart + s1.maxAllocSize)) maxBin tnodeCnt

def blankPool (poolStart poolSize minAllocSize maxAllocSize memStart memSize maxBin : Nat) :
    SwBuddyPool where
  area := fun _ => ⟨0, 0, 0⟩
  totalAreaCnt := maxAllocSize >>> logOf2 minAllocSize
  nextFreeIndex := 0
  allocCnt := 0
  allocTree := .nil
  memStart := memStart
  memSize := u32 memSize
  poolStart := poolStart
  poolSize := u32 poolSize
  maxAllocSize := maxAllocSize
  minAllocSize := minAllocSize
  currHeapSize := u32 memSize
  maxBin := maxBin
  freeArea := fun _ => ⟨[], 0⟩

def swBuddyInit (poolStart poolSize minAllocSize maxAllocSize : Nat) :
    Except InitError SwBuddyPool :=
  if !isPowOf2 minAllocSize then .error .einval
  else if !isPowOf2 maxAllocSize then .error .einval
  else
    let minAllocShift := logOf2 minAllocSize
    let maxAllocShift := logOf2 maxAllocSize
    let totalAreaCnt := maxAllocSize >>> minAllocShift
    let manageAreaLen := getManageArea maxAllocSize minAllocSize
    let nodes := maxAllocSize >>> maxAllocShift
    let totalNodes := if 0 < nodes then nodes else 1
    let maxBin :=
      if 0 < nodes then u32 (sub32 maxAllocShift minAllocShift + 1) else logOf2 totalAreaCnt
    if maxBins < u32 (sub32 maxAllocShift minAllocShift + 1) then .error .einval
    else
      let memSize := (poolSize + 2 ^ 64 - manageAreaLen) % 2 ^ 64
      let memStart := u32 (poolStart + manageAreaLen)
      if memSize = 0 then .error .einval
      else
        initBlocks (blankPool poolStart poolSize minAllocSize maxAllocSize memStart memSize maxBin)
          memStart maxBin totalNodes

/-- `add_btree_node(&alloc_tree, node)`; the header already holds address 0 -/
def addAllocTree (s : SwBuddyPool) (node : Nat) : SwBuddyPool :=
  if s.addr node = 0 then s else { s with allocTree := BTree.add s.addr node s.allocTree }

def requestBin (s : SwBuddyPool) (size : Nat) : Nat :=
  logOf2 (nextPowOf2 size >>> logOf2 s.minAllocSize)

/-- the common end of `sw_buddy_alloc`: the node goes to the allocation tree -/
def takeBlock (s : SwBuddyPool) (node : Nat) : Nat × SwBuddyPool :=
  (s.addr node,
    { addAllocTree s node with
      currHeapSize := sub32 s.currHeapSize (s.area node).blockSize
      allocCnt := u32 (s.allocCnt + 1) })

/-- `sw_buddy_alloc`; the null pointer is 0 -/
def swBuddyAlloc (s : SwBuddyPool) (size : Nat) : Nat × SwBuddyPool :=
  if s.currHeapSize < size then (0, s)
  else
    let nextPowSize := nextPowOf2 size
    if s.currHeapSize < nextPowSize then (0, s)
    else if s.maxAllocSize < nextPowSize then
      match getContiguousBlock s (nextPowSize >>> s.maxBin) s.maxBin with
      | (none, s1) => (0, s1)
      | (some node, s1) =>
        takeBlock (s1.setArea node { s1.area node with blockSize := nextPowSize }) node
    else
      match getFreeBuddy s (requestBin s size) with
      | (none, s1) => (0, s1)
      | (some node, s1) => takeBlock s1 node

/-- the first half of `sw_buddy_free`: the node leaves the allocation tree -/
def dropBlock (s : SwBuddyPool) (node : Nat) : SwBuddyPool :=
  { s with
    currHeapSize := u32 (s.currHeapSize + (s.area node).blockSize)
    allocTree := BTree.remove s.addr node s.allocTree
    allocCnt := sub32 s.allocCnt 1 }

def swBuddyFree (s : SwBuddyPool) (ptr : Nat) : Option SwBuddyPool :=
  -- address 0 is found in the header, which has no parent to be unlinked from
  if ptr = 0 then none
  else
    match BTree.search s.addr ptr s.allocTree with
    | none => some s
    | some node => returnToFreeArea (dropBlock s node) node (s.bin node)

def getBuddyPtrSize (s : SwBuddyPool) (ptr : Nat) : Nat :=
  if ptr = 0 then 0
  else
    match BTree.search s.addr ptr s.allocTree with
    | none => 0
    | some node => (s.area node).blockSize

/-- a call of a client of the pool -/
inductive PoolCall where
  | alloc (size : Nat)
  | free (ptr : Nat)

/-- one call; `none` when it crashes -/
def poolStep (s : SwBuddyPool) : PoolCall → Option SwBuddyPool
  | .alloc size => some (swBuddyAlloc s size).2
  | .free ptr => swBuddyFree s ptr

end SierraTee
