import SierraTee.Pages.MemInfo
import SierraTee.Paging.Tables

/-!
# Shared memory (`sw_shared_memory.c`)

A call that reads or writes through a null pointer has the result `none`.  An entry of the pool from 16
on is memory behind the pool.
-/

namespace SierraTee
open FlatMemory

/-- `struct sharedMem` -/
structure SharedMem where
  /-- the characters before the end of the name -/
  name : List (BitVec 8)
  id : Word
  creatorId : BitVec 16
  lastModify : BitVec 16
  flags : BitVec 16
  virAddr : Word
  phyAddr : Word
  size : Word
  status : Word
  /-- the calls of `sw_free_private` for it while it is in the list; a later call that reads it there
  reads freed memory -/
  frees : Nat

structure ShmState where
  /-- `shared_memory_ref` -/
  segs : List SharedMem
  /-- `shm_id_pool` -/
  pool : Nat → Bool
  /-- `sw_mem_info` -/
  info : MemInfo

def swError : Word := 0xFFFFFFFF
def swOk : Word := 0

def sharedMemInstance : Nat := 16
def maxNameLen : Nat := 255

/-- the flags of `shared_memory_flags` that are looked at -/
def shmFlagWrite : Word := 2
def shmFlagCtrl : Word := 8
def shmFlagCreate : Word := 16

/-- the commands of `shared_memory_commands` that do something -/
def shmCmdStat : Word := 5
def shmCmdSetCid : Word := 6
def shmCmdSetLid : Word := 7
def shmCmdSetFlag : Word := 8
def shmCmdSetStat : Word := 9
def shmCmdDestroy : Word := 10

/-! ## Names -/

def charAt (s : List (BitVec 8)) (i : Nat) : BitVec 8 := s.getD i 0

def swStrnlen (s : List (BitVec 8)) (n : Nat) : Nat := min (s.takeWhile (· ≠ 0)).length n

/-- what is left in a field of zeros -/
def swStrncpy (s : List (BitVec 8)) (n : Nat) : List (BitVec 8) := (s.takeWhile (· ≠ 0)).take n

/-- `sw_strncmp` does not find a difference in the next `n` characters -/
def swStrncmp (str1 str2 : List (BitVec 8)) (index : Nat) : Nat → Bool
  | 0 => true
  | n + 1 =>
    if charAt str1 index = 0 ∧ charAt str2 index = 0 then true
    else if charAt str1 index ≠ charAt str2 index ∧ charAt str1 0 ≠ 0 ∧ charAt str2 0 ≠ 0 then false
    else swStrncmp str1 str2 (index + 1) n

/-! ## The pool of ids -/

def idLoop (pool : Nat → Bool) (size : Word) : Nat → Nat → Nat → Nat × Nat
  | 0, id, count => (id, count)
  | k + 1, id, count =>
    if id < sharedMemInstance ∧ count * 4096 < size.toNat then
      idLoop pool size k (id + 1) (if pool id then 0 else count + 1)
    else (id, count)

def idSearch (pool : Nat → Bool) (size : Word) : Nat × Nat := idLoop pool size 15 1 0

def setIds (pool : Nat → Bool) (b : Bool) (id n : Nat) : Nat → Bool := fun i =>
  if id ≤ i ∧ i < id + n then b else pool i

/-! ## Creation -/

namespace ShmState
variable (s : ShmState)

/-- the segment with the name -/
def findName (name : List (BitVec 8)) : Option SharedMem :=
  s.segs.find? fun shm => swStrncmp shm.name name 0 (swStrnlen name maxNameLen)

def findId (id : Word) : Option SharedMem := s.segs.find? fun shm => shm.id = id

end ShmState

def MemInfo.orSame (info : MemInfo) (r : Except PageError MemInfo) : MemInfo := r.toOption.getD info

/-- `shmget_error`, up to the release of the descriptor -/
def shmgetError (virAddr phyAddr size : Word) (info : MemInfo) : MemInfo :=
  let info := if virAddr ≠ swError then info.orSame (swVirFreeReserve virAddr size info) else info
  if phyAddr ≠ 0 then info.orSame (swPhyAddrFree phyAddr size info) else info

def newSharedMem (task : Word) (name : List (BitVec 8)) (flags : Word) (id : Nat) : SharedMem where
  name := swStrncpy name maxNameLen
  id := BitVec.ofNat 32 id
  creatorId := task.setWidth 16
  lastModify := 0
  flags := flags.setWidth 16
  virAddr := 0
  phyAddr := 0
  size := 0
  status := 0
  frees := 0

/-- the part behind the search for ids, for `count` ids from `id` on -/
def shmAllocate (c : PageConfig) (task : Word) (name : List (BitVec 8)) (flags size : Word)
    (id count : Nat) (s : ShmState) : ShmState × Word :=
  let shm := newSharedMem task name flags id
  let p := swPhyPageAlloc size s.info
  if p.2 = 0 then ({ s with info := shmgetError 0 0 size p.1 }, swError)
  else
    let virAddr := securePhyToVir c p.2
    match swVirAddrReserve virAddr size p.1 with
    | .error _ => ({ s with info := shmgetError virAddr p.2 size p.1 }, swError)
    | .ok info =>
      ({ segs := s.segs ++ [{ shm with phyAddr := p.2, virAddr := virAddr, size := size }]
         pool := setIds s.pool true id count
         info := info }, shm.id)

/-- `_shm_create` by the task; `alloc` says whether there is memory for the descriptor.  Without enough
ids the last segment is freed, and stays in the list. -/
def shmCreate (c : PageConfig) (task : Word) (alloc : Bool) (name : List (BitVec 8))
    (size flags : Word) (s : ShmState) : Option (ShmState × Word) :=
  match s.findName name with
  | some shm => some (s, shm.id)
  | none =>
    if flags &&& shmFlagCreate = 0 then some (s, swError)
    else
      let size := pageUp size
      let r := idSearch s.pool size
      if size.toNat / 4096 ≠ r.2 then
        -- `shm` is the last segment of the list, or `NULL`
        s.segs.getLast?.map fun shm =>
          ({ s with
             segs := s.segs.dropLast ++ [{ shm with frees := shm.frees + 1 }]
             info := shmgetError shm.virAddr shm.phyAddr size s.info }, swError)
      -- `NULL` is not `SW_ERROR`, and `sw_memset` writes through it
      else if alloc then some (shmAllocate c task name flags size (r.1 - r.2) r.2 s) else none

/-! ## Control -/

namespace ShmState
variable (s : ShmState)

def update (id : Word) (f : SharedMem → SharedMem) : ShmState :=
  { s with segs := go s.segs }
where
  go : List SharedMem → List SharedMem
    | [] => []
    | shm :: l => if shm.id = id then f shm :: l else shm :: go l

def destroy (id : Word) (shm : SharedMem) : ShmState :=
  let info :=
    if shm.virAddr = swError then
      s.info.orSame (swVirFreeReserve shm.virAddr shm.size s.info)
    else s.info
  { segs := s.segs.eraseP fun shm => shm.id = id
    pool := setIds s.pool false id.toNat (shm.size.toNat / 4096)
    info :=
      if shm.phyAddr ≠ 0 then info.orSame (swPhyAddrFree shm.phyAddr shm.size info) else info }

def setField (id : Word) (buffer : Option Word) (f : SharedMem → Word → SharedMem) :
    ShmState × Word :=
  buffer.elim (s, swError) fun w => (s.update id fun shm => f shm w, swOk)

end ShmState

def granted (task : Word) (shm : SharedMem) (flags : Bool) : Bool :=
  task = shm.creatorId.setWidth 32 || flags

def hasCtrl (shm : SharedMem) : Bool := shm.flags.setWidth 32 &&& shmFlagCtrl ≠ 0

/-- `_shm_control` by the task; `buffer` is what the buffer holds, if it is not `NULL`, and the result
has what it holds then -/
def shmControl (task id cmdId : Word) (buffer : Option Word) (s : ShmState) :
    Option ((ShmState × Word) × Option Word) :=
  match s.findId id with
  | none => some ((s, swError), buffer)
  | some shm =>
    -- each of the first three cases falls through to the next one
    if cmdId = shmCmdSetCid ∧ granted task shm (hasCtrl shm) then
      some (s.setField id buffer fun shm w => { shm with creatorId := w.setWidth 16 }, buffer)
    else if (cmdId = shmCmdSetCid ∨ cmdId = shmCmdSetLid) ∧ granted task shm (shm.flags ≠ 0) then
      some (s.setField id buffer fun shm w => { shm with lastModify := w.setWidth 16 }, buffer)
    else if (cmdId = shmCmdSetCid ∨ cmdId = shmCmdSetLid ∨ cmdId = shmCmdSetFlag) ∧
        granted task shm (hasCtrl shm) then
      some (s.setField id buffer fun shm w => { shm with flags := w.setWidth 16 }, buffer)
    else if cmdId = shmCmdSetCid ∨ cmdId = shmCmdSetLid ∨ cmdId = shmCmdSetFlag ∨
        cmdId = shmCmdSetStat then
      buffer.map fun w => ((s.update id fun shm => { shm with status := w }, swOk), buffer)
    else if cmdId = shmCmdStat then buffer.map fun _ => ((s, swOk), some shm.status)
    else if cmdId = shmCmdDestroy then
      -- the loop over the ids ends when the size is a number of pages
      if shm.size.toNat % 4096 = 0 then some ((s.destroy id shm, swOk), buffer) else none
    else some ((s, swOk), buffer)

/-! ## The search for ids -/

def FreeIds (pool : Nat → Bool) (r n : Nat) : Prop := ∀ i, r ≤ i → i < r + n → pool i = false

structure FirstIds (pool : Nat → Bool) (n r : Nat) : Prop where
  pos : 0 < r
  bound : r + n ≤ sharedMemInstance
  free : FreeIds pool r n
  first : ∀ q, 0 < q → q < r → ¬ FreeIds pool q n

section
variable {pool : Nat → Bool} {size : Word} {k id count n r : Nat}

theorem idLoop_succ : idLoop pool size (k + 1) id count =
    if id < sharedMemInstance ∧ count * 4096 < size.toNat then
      idLoop pool size k (id + 1) (if pool id then 0 else count + 1)
    else (id, count) := rfl

theorem idLoop_spec (hfree : FreeIds pool (id - count) count) (hcount : count < id)
    (hid : id + k ≤ sharedMemInstance) :
    FreeIds pool ((idLoop pool size k id count).1 - (idLoop pool size k id count).2)
        (idLoop pool size k id count).2 ∧
      (idLoop pool size k id count).2 < (idLoop pool size k id count).1 ∧
      (idLoop pool size k id count).1 ≤ sharedMemInstance := by
  induction k generalizing id count with
  | zero => exact ⟨hfree, hcount, hid⟩
  | succ k ih =>
    rw [idLoop_succ]
    by_cases hgo : id < sharedMemInstance ∧ count * 4096 < size.toNat
    · simp only [if_pos hgo]
      cases hp : pool id with
      | true =>
        refine ih (fun i h1 h2 => ?_) (Nat.succ_pos id) (by omega)
        exact absurd h2 (Nat.not_lt.mpr h1)
      | false =>
        refine ih (fun i h1 h2 => ?_) (Nat.succ_lt_succ hcount) (by omega)
        have h3 : i < id + 1 := by
          simp only [Bool.false_eq_true, if_false] at h1 h2
          omega
        obtain h4 | rfl := Nat.lt_succ_iff_lt_or_eq.mp h3
        · refine hfree i ?_ ?_ <;> simp only [Bool.false_eq_true, if_false] at h1 <;> omega
        · exact hp
    · simp only [if_neg hgo]
      exact ⟨hfree, hcount, by omega⟩

theorem idLoop_complete (hsize : size.toNat = 4096 * n) (hr : FreeIds pool r n)
    (hbound : r + n ≤ sharedMemInstance) (hstart : id - count ≤ r) (hcount : count < id)
    (hle : count ≤ n) (hk : id + k = sharedMemInstance) : (idLoop pool size k id count).2 = n := by
  induction k generalizing id count with
  | zero =>
    show count = n
    omega
  | succ k ih =>
    rw [idLoop_succ]
    by_cases hgo : count * 4096 < size.toNat
    · rw [if_pos ⟨by omega, hgo⟩]
      cases hp : pool id with
      | true =>
        have h1 : id < r := by
          refine Nat.lt_of_not_le fun h2 => ?_
          have h3 := hr id h2 (by omega)
          rw [hp] at h3
          cases h3
        exact ih (by simp only [if_true]; omega) (Nat.succ_pos id) (Nat.zero_le n) (by omega)
      | false =>
        exact ih (by simp only [Bool.false_eq_true, if_false]; omega) (Nat.succ_lt_succ hcount)
          (by simp only [Bool.false_eq_true, if_false]; omega) (by omega)
    · rw [if_neg fun h => hgo h.2]
      show count = n
      omega

theorem idSearch_spec (pool : Nat → Bool) (size : Word) :
    FreeIds pool ((idSearch pool size).1 - (idSearch pool size).2) (idSearch pool size).2 ∧
      (idSearch pool size).2 < (idSearch pool size).1 ∧
      (idSearch pool size).1 ≤ sharedMemInstance := by
  refine idLoop_spec (fun i h1 h2 => ?_) Nat.one_pos (by decide)
  omega

/-- **The search for ids** finds a run just when there is one in the pool. -/
theorem idSearch_iff (hsize : size.toNat = 4096 * n) :
    (idSearch pool size).2 = n ↔ ∃ r, 0 < r ∧ r + n ≤ sharedMemInstance ∧ FreeIds pool r n := by
  constructor
  · intro h
    obtain ⟨h1, h2, h3⟩ := idSearch_spec pool size
    rw [h] at h1 h2
    exact ⟨_, Nat.sub_pos_of_lt h2, by omega, h1⟩
  · rintro ⟨r, h0, h1, h2⟩
    exact idLoop_complete hsize h2 h1 h0 Nat.one_pos (Nat.zero_le n) rfl

theorem idLoop_first (hsize : size.toNat = 4096 * n) (hcount : count < id) (hle : count ≤ n)
    (hfirst : ∀ q, 0 < q → q < id - count → ¬ FreeIds pool q n) :
    ∀ q, 0 < q → q < (idLoop pool size k id count).1 - (idLoop pool size k id count).2 →
      ¬ FreeIds pool q n := by
  induction k generalizing id count with
  | zero => exact hfirst
  | succ k ih =>
    rw [idLoop_succ]
    by_cases hgo : id < sharedMemInstance ∧ count * 4096 < size.toNat
    · simp only [if_pos hgo]
      have hlt : count < n := by
        have h1 := hgo.2
        omega
      cases hp : pool id with
      | true =>
        refine ih (Nat.succ_pos id) (Nat.zero_le n) fun q h1 h2 hfree => ?_
        by_cases h3 : q < id - count
        · exact hfirst q h1 h3 hfree
        · have h4 : q ≤ id := Nat.lt_succ_iff.mp h2
          have h5 := hfree id h4 (by omega)
          rw [hp] at h5
          cases h5
      | false =>
        refine ih (Nat.succ_lt_succ hcount) hlt fun q h1 h2 => hfirst q h1 ?_
        simp only [Bool.false_eq_true, if_false] at h2
        omega
    · simp only [if_neg hgo]
      exact hfirst

theorem idSearch_first (hsize : size.toNat = 4096 * n) (h : (idSearch pool size).2 = n) :
    FirstIds pool n ((idSearch pool size).1 - n) := by
  obtain ⟨h1, h2, h3⟩ := idSearch_spec pool size
  have h4 : ∀ q, 0 < q → q < (idSearch pool size).1 - (idSearch pool size).2 →
      ¬ FreeIds pool q n :=
    idLoop_first hsize Nat.one_pos (Nat.zero_le n) fun q h5 h6 => absurd h6 (by omega)
  rw [h] at h1 h2 h4
  exact ⟨by omega, by omega, h1, h4⟩

end

end SierraTee
