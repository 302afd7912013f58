import SierraTee.Lib.Bitmap
import SierraTee.Lib.FlatMemory

/-!
# The page bitmaps (`mem_mng.c`)

The two sides are treated alike; a function of one side is the common one at that side.  Addresses
and sizes are words, and a size that the source has as an `int` is one with a sign.
-/

namespace SierraTee
open Bitmap FlatMemory

inductive PageSide where
  | phy | vir
  deriving DecidableEq

/-- the fields of `mem_info` for one side; `bmap` is the place of the bitmap in the memory -/
structure PageArea where
  bmap : Nat
  memBmapLen : Word
  addrStart : Word
  memregionSize : Word
  numPagFree : Word

/-- `mem_info`, and the memory from `get_mem_info_start` on -/
structure MemInfo where
  mem : Words
  area : PageSide → PageArea

inductive PageError where
  | einval | enomem

def pageUp (size : Word) : Word :=
  if size &&& 0xFFF ≠ 0 then (size &&& ~~~0xFFF) + 0x1000 else size

namespace MemInfo
variable (info : MemInfo) (side : PageSide)

/-! ## Pages -/

def takePage (i : Nat) : MemInfo where
  mem := setBit info.mem (info.area side).bmap i
  area := Function.update info.area side
    { info.area side with numPagFree := (info.area side).numPagFree - 1 }

def givePage (i : Nat) : MemInfo where
  mem := clearBit info.mem (info.area side).bmap i
  area := Function.update info.area side
    { info.area side with numPagFree := (info.area side).numPagFree + 1 }

def takePages (info : MemInfo) (side : PageSide) (s : Nat) : Nat → MemInfo
  | 0 => info
  | n + 1 => takePages (info.takePage side s) side (s + 1) n

def givePages (info : MemInfo) (side : PageSide) (s : Nat) : Nat → MemInfo
  | 0 => info
  | n + 1 => givePages (info.givePage side s) side (s + 1) n

def pageOf (addr : Word) : Nat := ((addr - (info.area side).addrStart) >>> 12).toNat

/-! ## Boot -/

/-- the loop that reserves the pages up to `stop`; `k` bounds the iterations, and one for each
page of the address space is enough -/
def reserveBoot (info : MemInfo) (side : PageSide) (stop : Word) : Nat → Word → Option MemInfo
  | 0, _ => none
  | k + 1, addr =>
    if addr < stop then
      reserveBoot (info.takePage side (info.pageOf side addr)) side stop k (addr + 0x1000)
    else some info

end MemInfo

/-- `sw_memset` of `count` bytes with 0; the bytes of a word are in little-endian order -/
def zeroBytes (m : Words) (count : Nat) : Words := fun w =>
  if 4 * w + 4 ≤ count then 0
  else if 4 * w < count then m w >>> (8 * (count - 4 * w)) <<< (8 * (count - 4 * w))
  else m w

def phyRegion (ramStart ramEnd : Word) : Word × Word :=
  let size := ramEnd - ramStart + 1
  let start :=
    if ramStart &&& 0xFFF ≠ 0 then ramStart + (0x1000 - (ramStart &&& 0xFFF)) else ramStart
  -- the start is aligned by now
  let size := if ramStart &&& 0xFFF ≠ 0 then size - (0x1000 - (start &&& 0xFFF)) else size
  (start, if size &&& 0xFFF ≠ 0 then size - (size &&& 0xFFF) else size)

def phyBmapLen (size : Word) : Word :=
  let len := (size >>> 15) + 1
  if len &&& 3 ≠ 0 then len + (4 - (len &&& 3)) else len

def meminfoStart (ramStart ramEnd codeStart : Word) (mem : Words) : MemInfo :=
  let size := ramEnd - ramStart + 1
  let region := phyRegion ramStart ramEnd
  let len := phyBmapLen region.2
  let virLen := (size >>> 15) + 1
  { mem := zeroBytes mem (len + virLen).toNat
    area := fun side => match side with
      | .phy => ⟨0, len, region.1, region.2, size >>> 12⟩
      | .vir => ⟨len.toNat / 4, virLen, codeStart, size, size >>> 12⟩ }

def bootFuel : Nat := 2 ^ 20 + 1

/-- `sw_meminfo_init`, for the addresses of the board and of the linker script -/
def swMeminfoInit (ramStart ramEnd codeStart codeEnd : Word) (mem : Words) : Option MemInfo :=
  let info := meminfoStart ramStart ramEnd codeStart mem
  let tot := codeEnd - codeStart + 0x100000
  let start := (info.area .phy).addrStart
  (info.reserveBoot .phy (start + tot) bootFuel start).bind fun info =>
    info.reserveBoot .vir (codeStart + tot) bootFuel codeStart

/-! ## Runs of free pages -/

def reqCnt (size : Word) : Nat := (pageUp size >>> 12).toNat

namespace MemInfo
variable (info : MemInfo) (side : PageSide)

def scanBound (n : Nat) : Nat := ((info.area side).memBmapLen <<< 3 - BitVec.ofNat 32 n).toNat

def scan (size : Word) : Option Nat :=
  if (info.area side).numPagFree.toNat < reqCnt size then none
  else firstClear info.mem (info.area side).bmap (reqCnt size) 0 (info.scanBound side (reqCnt size))

def addrOf (start : Nat) : Word := BitVec.ofNat 32 start <<< 12 + (info.area side).addrStart

end MemInfo

/-- with the address, or 0 -/
def swPhyPageAlloc (size : Word) (info : MemInfo) : MemInfo × Word :=
  (info.scan .phy size).elim (info, 0) fun start =>
    (info.takePages .phy start (reqCnt size), info.addrOf .phy start)

/-- with the address, or `NULL`; the pages are mapped behind this -/
def swVirPageAlloc (size : Word) (info : MemInfo) : MemInfo × Word :=
  (info.scan .vir size).elim (info, 0) fun start =>
    if (swPhyPageAlloc (pageUp size) info).2 = 0 then ((swPhyPageAlloc (pageUp size) info).1, 0)
    else ((swPhyPageAlloc (pageUp size) info).1.takePages .vir start (reqCnt size),
      info.addrOf .vir start)

/-! ## Reservations -/

def pgCnt (size : Word) : Word := (pageUp size).sshiftRight 12

def tempCnt (size : Word) : Nat := (pageUp size).toNat / 4096

namespace MemInfo
variable (info : MemInfo) (side : PageSide)

def outside (addr : Word) : Bool :=
  addr < (info.area side).addrStart ||
    (info.area side).addrStart + (info.area side).memregionSize < addr

def upTo (i n : Word) : Nat := (i + n).toNat - i.toNat

def avlCnt (addr size : Word) : Nat :=
  clearLength info.mem (info.area side).bmap (info.pageOf side addr)
    (upTo (BitVec.ofNat 32 (info.pageOf side addr)) (pgCnt size))

def addrReserve (addr size : Word) : Except PageError MemInfo :=
  if info.outside side addr then .error .einval
  else if info.avlCnt side addr size ≠ (pgCnt size).toNat then .error .einval
  else .ok (info.takePages side (info.pageOf side addr) (tempCnt size))

end MemInfo

def swPhyAddrReserve (addr size : Word) (info : MemInfo) : Except PageError MemInfo :=
  info.addrReserve .phy addr size

def swVirAddrReserve (addr size : Word) (info : MemInfo) : Except PageError MemInfo :=
  info.addrReserve .vir addr size

/-! ## Frees -/

/-- the iterations of `while(size > 0)` on an `int` -/
def sizeCnt (size : Word) : Nat := if 0 < (pageUp size).toInt then (pageUp size).toNat / 4096 else 0

def swVirFreeReserve (addr size : Word) (info : MemInfo) : Except PageError MemInfo :=
  if info.outside .vir addr then .error .einval
  else .ok (info.givePages .vir (info.pageOf .vir addr) (sizeCnt size))

namespace MemInfo
variable (info : MemInfo) (side : PageSide)

def tmpCnt (addr size : Word) : Nat :=
  upTo (BitVec.ofNat 32 (info.pageOf side addr)) ((pageUp size).sshiftRight 12)

def giveRange (addr size : Word) : MemInfo :=
  info.givePages side (info.pageOf side addr) (info.tmpCnt side addr size)

def outsideWords (addr : Word) : Bool :=
  addr < (info.area side).addrStart ||
    (info.area side).addrStart + (info.area side).memregionSize <<< 2 < addr

end MemInfo

def swPhyAddrFree (addr size : Word) (info : MemInfo) : Except PageError MemInfo :=
  if info.outside .phy addr then .error .enomem else .ok (info.giveRange .phy addr size)

/-- `phyAddr` is the result of `secure_vir_to_phy`; the pages are unmapped behind this -/
def swVirAddrFree (addr size phyAddr : Word) (info : MemInfo) : Except PageError MemInfo :=
  if info.outsideWords .vir addr then .error .enomem
  else
    -- the result for the physical pages is dropped
    .ok ((swPhyAddrFree phyAddr (pageUp size) (info.giveRange .vir addr size)).toOption.getD
      (info.giveRange .vir addr size))

/-! ## Sequences of calls -/

inductive MemCall where
  | phyPageAlloc (size : Word)
  | virPageAlloc (size : Word)
  | phyAddrReserve (addr size : Word)
  | virAddrReserve (addr size : Word)
  | virFreeReserve (addr size : Word)
  | phyAddrFree (addr size : Word)
  | virAddrFree (addr size phyAddr : Word)

def memCall (info : MemInfo) : MemCall → Except PageError MemInfo
  | .phyPageAlloc size => .ok (swPhyPageAlloc size info).1
  | .virPageAlloc size => .ok (swVirPageAlloc size info).1
  | .phyAddrReserve addr size => swPhyAddrReserve addr size info
  | .virAddrReserve addr size => swVirAddrReserve addr size info
  | .virFreeReserve addr size => swVirFreeReserve addr size info
  | .phyAddrFree addr size => swPhyAddrFree addr size info
  | .virAddrFree addr size phyAddr => swVirAddrFree addr size phyAddr info

def memStep (info : MemInfo) (c : MemCall) : Option MemInfo :=
  some ((memCall info c).toOption.getD info)

end SierraTee
