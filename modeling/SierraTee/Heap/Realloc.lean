import SierraTee.Buddy.Resize
import SierraTee.Common.Memory
import SierraTee.Heap.Teardown

/-!
# Blocks of another size (`sw_realloc`)

The kernel and the user library have the same function, over the heap of the current task.

* `HeapKept.realloc_iff`  the data is kept exactly if the pool has a block beside the old one;
* `heapRun_realloc_iff`   the same behind every run;
* `oldBlock_lost`         the old block is freed when there is no new one.
-/

namespace SierraTee
open Word FlatMemory SwBuddyPool Runs Copies

namespace HeapState
variable (s : HeapState) (heapId : Int)

/-- `get_ptr_size`, `get_usr_ptr_size` -/
def getPtrSize (ptr : Nat) : Nat :=
  match s.heapInfo heapId with
  | none => 0
  | some h => getBuddyPtrSize h.buddyPool ptr

/-- `sw_realloc`; `heapId` is the current task, and `none` a crash in the free -/
def swRealloc (mem : Nat → UInt8) (ptr size : Nat) : Option (Nat × HeapState × (Nat → UInt8)) :=
  if ptr = 0 then
    let r := s.swMallocPrivate heapId size
    some (r.1, r.2, mem)
  else if size = 0 then (s.swFreePrivate heapId ptr).map fun t => (0, t, mem)
  else
    let r := s.swMallocPrivate heapId size
    let oldSize := r.2.getPtrSize heapId ptr
    -- the new address is not compared with 0
    let mem' := swMemcpy mem r.1 ptr (min oldSize size)
    (r.2.swFreePrivate heapId ptr).map fun t => (r.1, t, mem')

end HeapState

structure BlockKept (h k : SwHeapInfo) (mem mem' : Nat → UInt8) (ptr : Nat) : Prop where
  live : LiveBlock k.buddyPool ptr
  data : ∀ i < getBuddyPtrSize h.buddyPool ptr, mem' (ptr + i) = mem (ptr + i)

structure BlockMoved (h k : SwHeapInfo) (mem mem' : Nat → UInt8) (ptr p size : Nat) : Prop where
  size_le : size ≤ getBuddyPtrSize k.buddyPool p
  data : ∀ i < min (getBuddyPtrSize h.buddyPool ptr) size, mem' (p + i) = mem (ptr + i)
  live : ∀ a, LiveBlock k.buddyPool a ↔ a = p ∨ LiveBlock h.buddyPool a ∧ a ≠ ptr
  freed : ¬ LiveBlock k.buddyPool ptr
  count : k.numBlocksAlloc = h.numBlocksAlloc

/-- the answer of `sw_realloc` for a block of the heap `h` -/
def ReallocRight (s : HeapState) (heapId : Int) (h : SwHeapInfo) (mem : Nat → UInt8)
    (ptr size : Nat) : Prop :=
  ∃ p t mem' k, s.swRealloc heapId mem ptr size = some (p, t, mem') ∧
    t.heapInfo heapId = some k ∧
    (p = 0 ∧ BlockKept h k mem mem' ptr ∨ p ≠ 0 ∧ BlockMoved h k mem mem' ptr p size)

section
variable {g : Geometry} {s t : HeapState} {heapId : Int} {h : SwHeapInfo} {mem : Nat → UInt8}
  {ptr size : Nat}

theorem HeapKept.swRealloc_eq (hk : HeapKept g h) (hh : s.heapInfo heapId = some h)
    (hend : h.buddyPool.memStart + 2 * h.buddyPool.maxAllocSize ≠ 2 ^ 32)
    (hl : LiveBlock h.buddyPool ptr) (hsize : 0 < size)
    (hw : NoWrapSize h.buddyPool (.alloc size)) (mem : Nat → UInt8) :
    ∃ pool, swBuddyFree (h.malloc size).buddyPool ptr = some pool ∧
      BlockGiven (h.malloc size).buddyPool pool ptr ∧
      HeapKept g ((h.malloc size).free pool) ∧
      s.swRealloc heapId mem ptr size = some ((swBuddyAlloc h.buddyPool size).1,
        (s.setHeap heapId (h.malloc size)).setHeap heapId ((h.malloc size).free pool),
        swMemcpy mem (swBuddyAlloc h.buddyPool size).1 ptr
          (min (getBuddyPtrSize (h.malloc size).buddyPool ptr) size)) := by
  have hgrown := hk.tidy.grown hw
  have hk' := hk.malloc hw
  have hl' : LiveBlock (h.malloc size).buddyPool ptr := hgrown.live hl
  have hend' : (h.malloc size).buddyPool.memStart + 2 * (h.malloc size).buddyPool.maxAllocSize
      ≠ 2 ^ 32 := by
    show (swBuddyAlloc h.buddyPool size).2.shape.memStart
      + 2 * (swBuddyAlloc h.buddyPool size).2.shape.maxAllocSize ≠ 2 ^ 32
    rw [hgrown.shape]
    exact hend
  obtain ⟨pool, hpool⟩ := hk'.tidy.free_returns hk'.order hend' hl'
  refine ⟨pool, hpool, hk'.tidy.given hk'.order hl' hpool, hk'.free hl' hpool, ?_⟩
  have hmalloc : s.swMallocPrivate heapId size
      = ((swBuddyAlloc h.buddyPool size).1, s.setHeap heapId (h.malloc size)) := by
    rw [HeapState.swMallocPrivate, hh]
    rfl
  unfold HeapState.swRealloc
  rw [if_neg (hk.tidy.1.live_ne hl), if_neg (by omega), hmalloc]
  dsimp only
  rw [swFreePrivate_heap (setHeap_self s heapId _), hpool]
  unfold HeapState.getPtrSize
  rw [setHeap_self]
  rfl

theorem HeapKept.realloc_iff (hk : HeapKept g h) (hs : Indexed h.buddyPool)
    (hh : s.heapInfo heapId = some h)
    (hend : h.buddyPool.memStart + 2 * h.buddyPool.maxAllocSize ≠ 2 ^ 32)
    (hl : LiveBlock h.buddyPool ptr) (hsize : 0 < size)
    (hw : NoWrapSize h.buddyPool (.alloc size)) :
    ReallocRight s heapId h mem ptr size ↔ CanServe h.buddyPool size := by
  obtain ⟨pool, hpool, hgiven, hkept, heq⟩ := hk.swRealloc_eq hh hend hl hsize hw mem
  have hfreed : ¬ LiveBlock pool ptr := fun hlive => ((hgiven.live ptr).1 hlive).2 rfl
  rw [← hk.tidy.served_iff hs hw]
  constructor
  · rintro ⟨p, t, mem', k, he, hkt, hres⟩ h0
    cases heq.symm.trans he
    rw [setHeap_self] at hkt
    cases hkt
    rcases hres with ⟨-, hkeep⟩ | ⟨hp, -⟩
    · exact hfreed hkeep.live
    · exact hp h0
  · intro hp
    have htaken := hk.tidy.taken hk.order hw hp
    refine ⟨_, _, _, _, heq, setHeap_self _ heapId _, Or.inr ⟨hp, ?_, ?_, fun a => ?_, hfreed, ?_⟩⟩
    · have hnew : LiveBlock pool (swBuddyAlloc h.buddyPool size).1 :=
        (hgiven.live _).2 ⟨(htaken.live _).2 (Or.inl rfl), fun he => htaken.new (he ▸ hl)⟩
      show size ≤ getBuddyPtrSize pool _
      rw [hgiven.same _ hnew]
      exact htaken.size_le
    · have hl' : LiveBlock (h.malloc size).buddyPool ptr := (htaken.live ptr).2 (Or.inr hl)
      have hnew : LiveBlock (h.malloc size).buddyPool (swBuddyAlloc h.buddyPool size).1 :=
        (htaken.live _).2 (Or.inl rfl)
      have hk' := hk.malloc hw
      have hapart := hk'.tidy.live_apart hk'.order hl' hnew fun he => htaken.new (he ▸ hl)
      have hold : getBuddyPtrSize (h.malloc size).buddyPool ptr = getBuddyPtrSize h.buddyPool ptr :=
        htaken.same ptr hl
      have hbig : size ≤ getBuddyPtrSize (h.malloc size).buddyPool
          (swBuddyAlloc h.buddyPool size).1 := htaken.size_le
      intro i hi
      rw [hold] at hapart ⊢
      rw [swMemcpy_eq (by omega)]
      exact copyAt_inside hi
    · refine ((hgiven.live a).trans (and_congr_left' (htaken.live a))).trans ?_
      constructor
      · rintro ⟨h1 | h1, h2⟩
        · exact Or.inl h1
        · exact Or.inr ⟨h1, h2⟩
      · rintro (h1 | ⟨h1, h2⟩)
        · exact ⟨Or.inl h1, fun he => htaken.new (h1 ▸ he ▸ hl)⟩
        · exact ⟨Or.inr h1, h2⟩
    · have hgrow := (hk.tidy.grown hw).length
      have hk' := hk.malloc hw
      have hshrink := hk'.tidy.free_length hk'.order ((htaken.live ptr).2 (Or.inr hl)) hpool
      rw [if_pos (by omega)] at hgrow
      rw [hkept.count, hk.count]
      exact Nat.succ_injective (hshrink.trans hgrow)

/-! ## Runs -/

def HeapsIndexed (s : HeapState) : Prop :=
  ∀ heapId h, s.heapInfo heapId = some h → Indexed h.buddyPool

theorem HeapsIndexed.setHeap (hs : HeapsIndexed s) (hk : Indexed h.buddyPool) :
    HeapsIndexed (s.setHeap heapId h) := by
  apply (Function.forall_update_iff s.heapInfo fun _ x => ∀ k, x = some k →
    Indexed k.buddyPool).mpr
  exact ⟨fun k e => Option.some.inj e ▸ hk, fun i _ => hs i⟩

theorem heapStep_indexed {c : HeapCall} (hk : HeapsKept s) (hs : HeapsIndexed s)
    (hstep : heapStep s c = some t) : HeapsIndexed t := by
  cases c with
  | mallocPrivate heapId size =>
    obtain rfl := Option.some.inj hstep
    cases hh : s.heapInfo heapId with
    | none =>
      rw [HeapState.swMallocPrivate, hh]
      exact hs
    | some h =>
      obtain ⟨g, hg⟩ := hk heapId h hh
      rw [swMallocPrivate_heap hh]
      exact hs.setHeap (poolStep_indexed (c := .alloc size) hg.tidy (hs heapId h hh) rfl)
  | freePrivate heapId ptr =>
    change s.swFreePrivate heapId ptr = some t at hstep
    cases hh : s.heapInfo heapId with
    | none =>
      rw [HeapState.swFreePrivate, hh] at hstep
      cases hstep
      exact hs
    | some h =>
      obtain ⟨g, hg⟩ := hk heapId h hh
      rw [swFreePrivate_heap hh] at hstep
      obtain ⟨pool, hpool, rfl⟩ := Option.map_eq_some_iff.mp hstep
      exact hs.setHeap (poolStep_indexed (c := .free ptr) hg.tidy (hs heapId h hh) hpool)

theorem heapRun_indexed {calls : List HeapCall}
    (h0 : ∀ heapId h, s.heapInfo heapId = some h → FreshHeap h)
    (hok : Along heapStep HeapFits s calls) (hrun : run heapStep s calls = some t) :
    HeapsKept t ∧ HeapsIndexed t := by
  refine run_invariant (fun s => HeapsKept s ∧ HeapsIndexed s)
    (fun _ _ _ hs hc hstep =>
      ⟨heapStep_kept hs.1 hc hstep, heapStep_indexed hs.1 hs.2 hstep⟩)
    ⟨fun heapId h hh => (h0 heapId h hh).kept, fun heapId h hh => ?_⟩ hok hrun
  obtain ⟨-, poolStart, minAllocSize, heapSize, -, -, -, hinit⟩ := h0 heapId h hh
  exact swBuddyInit_indexed hinit

/-- **Reallocation**: behind any run, for a live block and a new size, the data is moved to a block
of the new size, or the old block stays, exactly if the pool has a block of the new size while the
old one is still held. -/
theorem heapRun_realloc_iff {s0 : HeapState} {calls : List HeapCall}
    (h0 : ∀ heapId h, s0.heapInfo heapId = some h → FreshHeap h)
    (hok : Along heapStep HeapFits s0 calls) (hrun : run heapStep s0 calls = some s)
    (hh : s.heapInfo heapId = some h)
    (hend : h.buddyPool.memStart + 2 * h.buddyPool.maxAllocSize ≠ 2 ^ 32)
    (hl : LiveBlock h.buddyPool ptr) (hsize : 0 < size)
    (hw : NoWrapSize h.buddyPool (.alloc size)) (mem : Nat → UInt8) :
    ReallocRight s heapId h mem ptr size ↔ CanServe h.buddyPool size := by
  obtain ⟨hkept, hindexed⟩ := heapRun_indexed h0 hok hrun
  obtain ⟨g, hk⟩ := hkept heapId h hh
  exact hk.realloc_iff (hindexed heapId h hh) hh hend hl hsize hw

end

/-- the first page of a new heap is asked for, and then to be two pages -/
theorem heapRun_realloc_iff_onePage :
    ∃ s h, run heapStep oneHeap [.mallocPrivate 1 4096] = some s ∧ s.heapInfo 1 = some h ∧
      (ReallocRight s 1 h (fun _ => 7) 0x11000 8192 ↔ CanServe h.buddyPool 8192) := by
  have hrun : run heapStep oneHeap [.mallocPrivate 1 4096]
      = some (oneHeap.setHeap 1 (eightPagesHeap.malloc 4096)) := by
    rw [run_cons, oneHeap_malloc]
    rfl
  have hfits : HeapFits oneHeap (.mallocPrivate 1 4096) := by
    intro h hh
    cases hh
    exact Or.inl (by decide +kernel)
  refine ⟨_, _, hrun, setHeap_self oneHeap 1 _, ?_⟩
  refine heapRun_realloc_iff oneHeap_fresh (along_singleton hfits) hrun (setHeap_self oneHeap 1 _)
    ?_ ?_ (by decide) (Or.inl ?_) _
  · decide +kernel
  · decide +kernel
  · decide +kernel

/-- **The defect**: the page cannot get as large as the whole heap, and is free behind the call. -/
theorem oldBlock_lost :
    ∃ s h, run heapStep oneHeap [.mallocPrivate 1 4096] = some s ∧ s.heapInfo 1 = some h ∧
      LiveBlock h.buddyPool 0x11000 ∧ ¬ ReallocRight s 1 h (fun _ => 7) 0x11000 32768 := by
  have hrun : run heapStep oneHeap [.mallocPrivate 1 4096]
      = some (oneHeap.setHeap 1 (eightPagesHeap.malloc 4096)) := by
    rw [run_cons, oneHeap_malloc]
    rfl
  have hcall : ((oneHeap.setHeap 1 (eightPagesHeap.malloc 4096)).swRealloc 1 (fun _ => 7) 0x11000
      32768).map (fun x => (x.1, (x.2.1.heapInfo 1).map fun k =>
        decide (LiveBlock k.buddyPool 0x11000))) = some (0, some false) := by decide +kernel
  refine ⟨_, _, hrun, setHeap_self oneHeap 1 _, by decide +kernel, ?_⟩
  rintro ⟨p, t, mem', k, he, hk, hres⟩
  rw [he] at hcall
  obtain ⟨hp, hlive⟩ := Prod.mk.inj (Option.some.inj hcall)
  rcases hres with ⟨-, hkeep⟩ | ⟨hne, -⟩
  · rw [hk] at hlive
    exact of_decide_eq_false (Option.some.inj hlive) hkeep.live
  · exact hne hp

end SierraTee
