import SierraTee.Heap.Counter

/-!
# The end of a heap

* `freePrivateHeap_frees`  `free_private_heap` does not report a busy heap;
* `freeUserHeap_busy_iff`  `free_user_heap` does where the heap has no memory;
* `heapRun_counts_iff`     the counter and the end of a heap over all runs.
-/

namespace SierraTee
open Word FlatMemory SwBuddyPool Runs

/-- the answer of a busy heap: `SW_EBUSY` is set, and nothing else changes -/
def ReportsBusy (s : HeapState) (r : Option (HeapState × Word)) : Prop :=
  r = some (s.setErrno .ebusy, swError)

/-- a heap with blocks in use is not released -/
def KeepsBusy (s : HeapState) (h : SwHeapInfo) (r : Option (HeapState × Word)) : Prop :=
  h.buddyPool.allocTree.toList ≠ [] → ReportsBusy s r

namespace HeapState
variable {c : PageConfig} {s : HeapState} {heapId : Int} {h : SwHeapInfo}

theorem errno_of_page (e : PageError) : e.errno ≠ .ebusy := by
  cases e <;> exact fun he => by cases he

theorem settle_busy {r : Except PageError MemInfo}
    (hb : (s.settle r).1.errno = some .ebusy) :
    ∃ info, r = .ok info ∧ s.settle r = ({ s with swMemInfo := info }, swOk) := by
  cases r with
  | ok info => exact ⟨info, rfl, rfl⟩
  | error e => exact absurd (Option.some.inj hb) (errno_of_page e)

theorem unmap_memInfo {va size : Word} {x : HeapState × Word} (hx : s.unmap c va size = some x) :
    x.1.swMemInfo = s.swMemInfo := by
  obtain ⟨y, -, rfl⟩ := Option.map_eq_some_iff.mp hx
  split <;> rfl

theorem checkBusy_memInfo : (s.checkBusy h).swMemInfo = s.swMemInfo := by
  unfold checkBusy
  split <;> rfl

/-! ## `free_private_heap` -/

theorem virAddrFree_result {addr size : Word} {x : HeapState × Word}
    (hx : s.virAddrFree c addr size = some x) : x.2 = swOk ∨ x.1.errno = some .enomem := by
  unfold virAddrFree swVirAddrFree at hx
  dsimp only at hx
  split at hx
  · cases hx
    exact Or.inr rfl
  · rw [if_neg (fun h => h rfl)] at hx
    obtain ⟨y, -, rfl⟩ := Option.map_eq_some_iff.mp hx
    exact Or.inl rfl

theorem freePrivateHeap_frees (hh : s.heapInfo heapId = some h) :
    ¬ReportsBusy s (s.freePrivateHeap c heapId) := by
  intro hbusy
  unfold ReportsBusy freePrivateHeap at hbusy
  rw [hh] at hbusy
  dsimp only at hbusy
  rcases virAddrFree_result hbusy with he | he
  · change swError = swOk at he
    exact absurd he (by decide)
  · cases he

/-! ## `free_user_heap` -/

theorem sizeCnt_pos {n : Nat} (hpos : 0 < n) (hlt : n + pageSize < 2 ^ 31) :
    sizeCnt (BitVec.ofNat 32 n) ≠ 0 := by
  unfold pageSize at hlt
  have hn : (BitVec.ofNat 32 n).toNat = n := by
    rw [BitVec.toNat_ofNat, Nat.mod_eq_of_lt (by omega)]
  have hup := pageUp_toNat (BitVec.ofNat 32 n)
  rw [hn] at hup
  unfold sizeCnt
  generalize pageUp (BitVec.ofNat 32 n) = w at hup
  have hint : w.toInt = w.toNat := BitVec.toInt_eq_toNat_of_lt (by omega)
  rw [if_pos (by omega)]
  omega

theorem freeUserPages_frees {ret : Word} {x : HeapState × Word}
    (hx : s.freeUserPages c heapId h ret = some x) (hb : x.1.errno = some .ebusy) :
    (x.1.swMemInfo.area .vir).numPagFree = (s.swMemInfo.area .vir).numPagFree
      + BitVec.ofNat 32 (sizeCnt (BitVec.ofNat 32 h.buddyPool.poolSize)) := by
  unfold freeUserPages at hx
  dsimp only at hx
  obtain ⟨u, hu, rfl⟩ := Option.map_eq_some_iff.mp hx
  have hsame : u.1.swMemInfo = s.swMemInfo := by
    split at hu
    · exact unmap_memInfo hu
    · cases hu
      rfl
  generalize BitVec.ofNat 32 h.buddyPool.poolSize = size at *
  obtain ⟨info2, hphy, hz⟩ := settle_busy hb
  rw [hz] at hb
  obtain ⟨info1, hvir, hy⟩ := settle_busy hb
  rw [hz]
  rw [hy] at hphy
  dsimp only at hphy ⊢
  unfold swVirFreeReserve at hvir
  unfold swPhyAddrFree at hphy
  split at hvir
  · cases hvir
  split at hphy
  · cases hphy
  cases hvir
  cases hphy
  unfold MemInfo.giveRange
  rw [givePages_free, if_neg (fun e => by cases e), givePages_free, if_pos rfl, hsame]

theorem freeUserHeap_busy_iff (hh : s.heapInfo heapId = some h) (hn : h.numBlocksAlloc ≠ 0)
    (hpos : 0 < h.buddyPool.poolSize) (hlt : h.buddyPool.poolSize + pageSize < 2 ^ 31) :
    ReportsBusy s (s.freeUserHeap c heapId) ↔ h.heapPhyAddr = 0 := by
  unfold ReportsBusy freeUserHeap
  rw [hh]
  dsimp only
  rw [if_pos (Or.inl hn)]
  by_cases hphy : h.heapPhyAddr = 0
  · rw [if_pos hphy, checkBusy, if_pos hn]
    exact iff_of_true rfl hphy
  · rw [if_neg hphy]
    refine iff_of_false (fun hbusy => ?_) hphy
    have hfree := freeUserPages_frees hbusy rfl
    have hcnt := mt (ofNat_eq_zero_iff (sizeCnt_lt _)).mp (sizeCnt_pos hpos hlt)
    rw [checkBusy_memInfo] at hfree
    change (s.swMemInfo.area .vir).numPagFree = _ at hfree
    generalize (s.swMemInfo.area .vir).numPagFree = a at hfree
    generalize BitVec.ofNat 32 (sizeCnt _) = b at hfree hcnt
    bv_omega

end HeapState

/-! ## Runs -/

section
variable {s0 s : HeapState} {calls : List HeapCall} {heapId : Int} {h : SwHeapInfo}

theorem HeapKept.blocks_iff {g : Geometry} (hk : HeapKept g h) :
    h.numBlocksAlloc = 0 ↔ h.buddyPool.allocTree.toList = [] := by
  rw [hk.count]
  exact List.length_eq_zero_iff

/-- **The counter and the end of a heap**: after any run in which only live blocks were freed, the
counter is that of the blocks in use; a further free keeps it so, and changes nothing if there is no
block, exactly when it names a live block.  A busy heap is never kept by `free_private_heap`, and by
`free_user_heap` only where it has no memory. -/
theorem heapRun_counts_iff (h0 : ∀ heapId h, s0.heapInfo heapId = some h → FreshHeap h)
    (hok : Along heapStep HeapFits s0 calls) (hrun : run heapStep s0 calls = some s)
    (hh : s.heapInfo heapId = some h) :
    CountsBlocks h ∧
      (h.buddyPool.memStart + 2 * h.buddyPool.maxAllocSize ≠ 2 ^ 32 → ∀ ptr,
        FreeKeeps s heapId h ptr ↔ LiveBlock h.buddyPool ptr) ∧
      ∀ c, (KeepsBusy s h (s.freePrivateHeap c heapId) ↔ h.buddyPool.allocTree.toList = []) ∧
        (KeepsBusy s h (s.freeUserHeap c heapId) ↔
          h.buddyPool.allocTree.toList = [] ∨ h.heapPhyAddr = 0) := by
  obtain ⟨g, hk⟩ := heapRun_kept h0 hok hrun heapId h hh
  refine ⟨hk.counts, freeKeeps_iff hk hh, fun c => ⟨?_, ?_⟩⟩
  · constructor
    · intro hkeeps
      by_contra hne
      exact HeapState.freePrivateHeap_frees hh (hkeeps hne)
    · exact fun he hne => absurd he hne
  · by_cases he : h.buddyPool.allocTree.toList = []
    · exact iff_of_true (fun hne => absurd he hne) (Or.inl he)
    · have hbusy := HeapState.freeUserHeap_busy_iff (c := c) hh (mt hk.blocks_iff.mp he) hk.size_pos
        hk.size_lt
      rw [or_iff_right he, ← hbusy]
      exact ⟨fun hkeeps => hkeeps he, fun hb _ => hb⟩

/-- the heap of a task: eight pages with their management area -/
def eightPagesHeap : SwHeapInfo := ⟨eightPages, 0, 0x10000, 0x10000⟩

/-- task 1 has the heap, and no page is free -/
def oneHeap : HeapState where
  heapInfo i := if i = 1 then some eightPagesHeap else none
  isTask i := i = 1
  swMemInfo := ⟨fun _ => 0xFFFFFFFF, fun _ => ⟨0, 32, 0, 0x100000, 0⟩⟩
  pt := sectionTable 0
  errno := none

theorem oneHeap_fresh (heapId : Int) (h : SwHeapInfo) (hh : oneHeap.heapInfo heapId = some h) :
    FreshHeap h := by
  change (if heapId = 1 then some eightPagesHeap else none) = some h at hh
  split at hh
  · cases hh
    exact ⟨rfl, 0x10000, 4096, 32768, by decide, by decide, by decide +kernel, eightPages_init⟩
  · cases hh

theorem oneHeap_malloc : heapStep oneHeap (.mallocPrivate 1 4096)
    = some (oneHeap.setHeap 1 (eightPagesHeap.malloc 4096)) :=
  congrArg some (swMallocPrivate_heap rfl 4096)

theorem heapRun_counts_iff_oneHeap :
    ∃ s h, run heapStep oneHeap [.mallocPrivate 1 4096, .freePrivate 1 0x11000] = some s ∧
      s.heapInfo 1 = some h ∧ CountsBlocks h ∧
      ∀ ptr, FreeKeeps s 1 h ptr ↔ LiveBlock h.buddyPool ptr := by
  let h1 := eightPagesHeap.malloc 4096
  let s1 := oneHeap.setHeap 1 h1
  have hfree : (swBuddyFree h1.buddyPool 0x11000).isSome = true := by decide +kernel
  obtain ⟨pool, hpool⟩ := Option.isSome_iff_exists.mp hfree
  have hstep : heapStep s1 (.freePrivate 1 0x11000) = some (s1.setHeap 1 (h1.free pool)) := by
    refine (swFreePrivate_heap (setHeap_self oneHeap 1 h1) 0x11000).trans ?_
    rw [hpool]
    rfl
  have hrun : run heapStep oneHeap [.mallocPrivate 1 4096, .freePrivate 1 0x11000]
      = some (s1.setHeap 1 (h1.free pool)) := by
    rw [run_cons, oneHeap_malloc, Option.bind_some, run_cons, hstep]
    rfl
  have hok : Along heapStep HeapFits oneHeap [.mallocPrivate 1 4096, .freePrivate 1 0x11000] := by
    refine along_of_step (fun h hh => ?_) oneHeap_malloc (along_singleton fun h hh => ?_)
    · cases hh
      exact Or.inl (by decide +kernel)
    · rw [setHeap_self] at hh
      cases hh
      decide +kernel
  have hend : (h1.free pool).buddyPool.memStart + 2 * (h1.free pool).buddyPool.maxAllocSize
      ≠ 2 ^ 32 := by
    have hshape := swBuddyFree_shape hpool
    show pool.shape.memStart + 2 * pool.shape.maxAllocSize ≠ 2 ^ 32
    rw [hshape]
    decide +kernel
  have hall := heapRun_counts_iff oneHeap_fresh hok hrun (setHeap_self s1 1 _)
  exact ⟨_, _, hrun, setHeap_self s1 1 _, hall.1, hall.2.1 hend⟩

/-- **The defects**: a free of an address without a block sends the counter of an empty heap below
zero, and a heap with a block in use is released with the answer `SW_OK`. -/
theorem heapCounter_can_fail :
    (∃ s, oneHeap.swFreePrivate 1 0x50000 = some s ∧
      (s.heapInfo 1).map (fun h => (h.numBlocksAlloc, h.buddyPool.allocTree.toList))
        = some (4294967295, [])) ∧
    ¬FreeKeeps oneHeap 1 eightPagesHeap 0x50000 ∧
    ∃ s h, heapStep oneHeap (.mallocPrivate 1 4096) = some s ∧ s.heapInfo 1 = some h ∧
      h.numBlocksAlloc = 1 ∧
      (s.freePrivateHeap plainConfig 1).map (fun x =>
        (x.2, (x.1.swMemInfo.area .vir).numPagFree)) = some (swOk, 9) ∧
      ¬KeepsBusy s h (s.freePrivateHeap plainConfig 1) := by
  have hdead : ¬LiveBlock eightPages 0x50000 := by decide +kernel
  have hfree : oneHeap.swFreePrivate 1 0x50000
      = some (oneHeap.setHeap 1 (eightPagesHeap.free eightPages)) := by
    refine (swFreePrivate_heap rfl 0x50000).trans ?_
    rw [show swBuddyFree eightPagesHeap.buddyPool 0x50000 = some eightPages from
      swBuddyFree_dead (by decide) hdead]
    rfl
  have hbusy : (eightPagesHeap.malloc 4096).buddyPool.allocTree.toList ≠ [] := by decide +kernel
  refine ⟨⟨_, hfree, by decide +kernel⟩, ?_, _, _, oneHeap_malloc, setHeap_self oneHeap 1 _,
    by decide +kernel, by decide +kernel, fun hkeeps => ?_⟩
  · rintro ⟨t, ht, hcounts, -⟩
    rw [hfree] at ht
    cases ht
    have hcount := (hcounts _ (setHeap_self oneHeap 1 _)).1
    exact absurd hcount (by decide +kernel)
  · exact HeapState.freePrivateHeap_frees (setHeap_self oneHeap 1 _) (hkeeps hbusy)

end

end SierraTee
