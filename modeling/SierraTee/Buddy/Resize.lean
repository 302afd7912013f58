import SierraTee.Buddy.Atomic
import SierraTee.Buddy.Ordered

/-!
# A request while another block is held, and a free behind it

* `Tidy.served_iff`  the requests that get a block.
-/

namespace SierraTee
open Word SwBuddyPool Runs

/-- a bin has a block for the request, and there is a descriptor for every level by which it is too
large -/
def CanServe (s : SwBuddyPool) (size : Nat) : Prop :=
  Admits s size ∧ ∃ idx, FirstBin s size idx ∧ idx - requestBin s size ≤ (freeDescriptors s).card

/-- the block at `p` is new, and the other blocks are as they were -/
structure BlockTaken (s t : SwBuddyPool) (p size : Nat) : Prop where
  live : ∀ a, LiveBlock t a ↔ a = p ∨ LiveBlock s a
  new : ¬ LiveBlock s p
  size_le : size ≤ getBuddyPtrSize t p
  same : ∀ a, LiveBlock s a → getBuddyPtrSize t a = getBuddyPtrSize s a

/-- the block at `p` is free, and the other blocks are as they were -/
structure BlockGiven (s t : SwBuddyPool) (p : Nat) : Prop where
  live : ∀ a, LiveBlock t a ↔ LiveBlock s a ∧ a ≠ p
  same : ∀ a, LiveBlock t a → getBuddyPtrSize t a = getBuddyPtrSize s a

section
variable {g : Geometry} {s t : SwBuddyPool} {size ptr n i : Nat} {part : Nat → Nat → Prop}

/-! ## When a request is served -/

theorem served_iff (hcut : ∀ a k, part a (k + 1) → part a k ∧ a + g.size k < 2 ^ 32)
    (hm : g.Manages s) (hs : Indexed s) (hcurr : s.currHeapSize ≤ g.size g.depth)
    (hhead : Admits s size → ∀ idx n l, FirstBin s size idx → s.chain idx = n :: l →
      s.addr n ≠ 0 ∧ part (s.addr n) idx) :
    (swBuddyAlloc s size).1 ≠ 0 ↔ CanServe s size := by
  by_cases hadm : Admits s size
  swap
  · rw [swBuddyAlloc_refused hadm]
    exact iff_of_false (fun h => h rfl) fun h => hadm h.1
  rcases getFreeBuddy_cases s (requestBin s size) with
    ⟨hall, he⟩ | ⟨idx, n, l, hlo, hhi, hl, hfirst, -⟩
  · rw [swBuddyAlloc_admitted hm hcurr hadm he]
    refine iff_of_false (fun h => h rfl) ?_
    rintro ⟨-, idx, h, -⟩
    exact h.block (hall idx h.low h.high)
  · have hidx : FirstBin s size idx := ⟨hlo, hhi, hl ▸ List.cons_ne_nil n l, hfirst⟩
    obtain ⟨hn, hp⟩ := hhead hadm idx n l hidx hl
    have hr := getFreeBuddy_found hcut hm hs hidx hl hn hp
    have hserve : CanServe s size ↔ idx - requestBin s size ≤ (freeDescriptors s).card := by
      constructor
      · rintro ⟨-, j, hj, hle⟩
        rw [hidx.unique hj]
        exact hle
      · exact fun hle => ⟨hadm, idx, hidx, hle⟩
    rw [hserve]
    cases hfound : getFreeBuddy s (requestBin s size) with
    | mk o t =>
    rw [swBuddyAlloc_admitted hm hcurr hadm hfound]
    rw [hfound] at hr
    cases o with
    | none =>
      refine iff_of_false (fun h => h rfl) ?_
      exact Nat.not_le.2 (hr.fails.1 rfl)
    | some m =>
      refine iff_of_true (hr.address m rfl) ?_
      exact Nat.not_lt.1 fun h => nomatch hr.fails.2 h

theorem Tidy.served_iff (h : Tidy g s) (hs : Indexed s) (hw : NoWrapSize s (.alloc size)) :
    (swBuddyAlloc s size).1 ≠ 0 ↔ CanServe s size := by
  obtain ⟨part, hcut, hhead⟩ := h.heads hw
  exact SierraTee.served_iff hcut h.1.manages hs h.1.curr_le hhead

/-! ## The sizes of live blocks -/

theorem Tidy.ptrSize (h : Tidy g s) (ho : BTree.InOrder s.addr s.allocTree)
    (hi : i ∈ s.allocTree.toList) : getBuddyPtrSize s (s.addr i) = (s.area i).blockSize := by
  unfold getBuddyPtrSize
  rw [if_neg (h.1.core.addr_ne i (Or.inr hi)), BTree.search_complete ho hi]

structure BlockServed (s : SwBuddyPool) (x : Nat × SwBuddyPool) (n size : Nat) : Prop where
  addr : x.2.addr n = x.1
  tree : x.2.allocTree.toList.Perm (n :: s.allocTree.toList)
  same : ∀ i ∈ s.allocTree.toList, x.2.area i = s.area i
  apart : ∀ i ∈ s.allocTree.toList, x.2.addr i ≠ x.1
  size_le : size ≤ (x.2.area n).blockSize

theorem BuddyResult.served {free live : Nat → Nat → Prop} {bin : Nat}
    {r : Option Nat × SwBuddyPool} {x : Nat × SwBuddyPool}
    (hr : BuddyResult g free live part s bin r) (hfit : size ≤ g.size bin)
    (hx : r.1 = none ∧ x = (0, r.2) ∨ ∃ n, r.1 = some n ∧ x = takeBlock r.2 n) (hp : x.1 ≠ 0) :
    ∃ n, BlockServed s x n size := by
  obtain ⟨-, rfl⟩ | ⟨n, hn, rfl⟩ := hx
  · exact absurd rfl hp
  obtain ⟨hheld, -, hsize, -⟩ := hr.node n hn
  have htree := tree_of_fixed hr.fixed
  have hapart : ∀ i ∈ s.allocTree.toList, r.2.addr i ≠ r.2.addr n := by
    intro i hi
    rw [← htree] at hi
    exact ((hheld.apart i (Or.inr hi)).ne (g.size_pos _) (g.size_pos _)).symm
  have harea : (takeBlock r.2 n).2.area = r.2.area := by rw [hheld.takeBlock_eq]
  have haddr : (takeBlock r.2 n).2.addr = r.2.addr := by
    rw [hheld.takeBlock_eq]
    rfl
  refine ⟨n, congrFun haddr n, ?_, fun i hi => ?_, fun i hi => ?_, ?_⟩
  · rw [hheld.takeBlock_eq, ← htree]
    exact BTree.add_perm (by rwa [htree])
  · rw [harea]
    exact hr.same i hi
  · rw [haddr]
    exact hapart i hi
  · rw [harea, hsize]
    exact hfit

theorem Tidy.served (h : Tidy g s) (hok : NoWrapSize s (.alloc size))
    (hp : (swBuddyAlloc s size).1 ≠ 0) : ∃ n, BlockServed s (swBuddyAlloc s size) n size := by
  have hcurr := h.1.curr_le
  obtain he | ⟨h1, h2, hrest⟩ := swBuddyAlloc_cases h.1.manages hcurr size
  · rw [he] at hp
    exact absurd rfl hp
  · obtain ⟨hbin, hfit⟩ := h.1.manages.requestBin_spec size (h1.trans hcurr) (h2.trans hcurr)
    by_cases hf : g.Fits
    · exact (h.1.found hf hbin).served hfit hrest hp
    · have hin := h.2.resolve_left hf
      have hserved := hok.resolve_left (mt h.1.manages.fits_iff.mp hf)
      exact (hin.found hserved h1 h2).served hfit hrest hp

/-! ## The live blocks behind a call -/

theorem Tidy.taken (h : Tidy g s) (ho : BTree.InOrder s.addr s.allocTree)
    (hok : NoWrapSize s (.alloc size)) (hp : (swBuddyAlloc s size).1 ≠ 0) :
    BlockTaken s (swBuddyAlloc s size).2 (swBuddyAlloc s size).1 size := by
  obtain ⟨n, hn⟩ := h.served hok hp
  have ht : Tidy g (swBuddyAlloc s size).2 := poolStep_regional h hok rfl
  have hot := (h.grown hok).inOrder ho
  have hmem : n ∈ (swBuddyAlloc s size).2.allocTree.toList := hn.tree.symm.subset List.mem_cons_self
  have haddr : ∀ i ∈ s.allocTree.toList, (swBuddyAlloc s size).2.addr i = s.addr i :=
    fun i hi => congrArg SwArea.memAddr (hn.same i hi)
  refine ⟨fun a => ⟨?_, ?_⟩, ?_, ?_, ?_⟩
  · rintro ⟨i, hi, rfl⟩
    rcases List.mem_cons.1 (hn.tree.subset hi) with rfl | hi'
    · exact Or.inl hn.addr
    · exact Or.inr ⟨i, hi', (haddr i hi').symm⟩
  · rintro (rfl | ⟨i, hi, rfl⟩)
    · exact ⟨n, hmem, hn.addr⟩
    · exact ⟨i, hn.tree.symm.subset (List.mem_cons_of_mem n hi), haddr i hi⟩
  · rintro ⟨i, hi, he⟩
    exact hn.apart i hi ((haddr i hi).trans he)
  · rw [← hn.addr, ht.ptrSize hot hmem]
    exact hn.size_le
  · rintro a ⟨i, hi, rfl⟩
    have hi' := hn.tree.symm.subset (List.mem_cons_of_mem n hi)
    rw [h.ptrSize ho hi, ← haddr i hi, ht.ptrSize hot hi']
    exact congrArg SwArea.blockSize (hn.same i hi)

theorem Grown.live {x : Nat × SwBuddyPool} (h : Grown s x) {a : Nat} (hl : LiveBlock s a) :
    LiveBlock x.2 a := by
  obtain ⟨i, hi, rfl⟩ := hl
  refine ⟨i, ?_, h.same i hi⟩
  rcases h.tree with ⟨-, he⟩ | ⟨n, -, hne, he⟩
  · rw [he]
    exact hi
  · rw [he]
    exact (BTree.add_perm hne).symm.subset (List.mem_cons_of_mem n hi)

theorem Tidy.given (h : Tidy g s) (ho : BTree.InOrder s.addr s.allocTree)
    (hl : LiveBlock s ptr) (hr : swBuddyFree s ptr = some t) : BlockGiven s t ptr := by
  have h0 := h.1.live_ne hl
  obtain ⟨n, hs⟩ := hl.found ho
  obtain ⟨hn, hnaddr⟩ := BTree.search_some hs
  obtain ⟨htree, haddr⟩ := h.shrunk h0 hs hr
  have harea := h.free_area h0 hs hr
  rw [← htree] at harea
  have hok : NoWrapSize s (.free ptr) := Or.inr trivial
  have ht : Tidy g t := poolStep_regional h hok hr
  have hot : BTree.InOrder t.addr t.allocTree := poolStep_inOrder h ho hok hr
  have hperm : (n :: t.allocTree.toList).Perm s.allocTree.toList := by
    rw [htree]
    exact BTree.remove_perm hs
  have hne : ∀ i ∈ t.allocTree.toList, i ≠ n := by
    rintro i hi rfl
    exact (List.nodup_cons.1 (hperm.symm.nodup h.1.core.tree_nodup)).1 hi
  refine ⟨fun a => ⟨?_, ?_⟩, ?_⟩
  · rintro ⟨i, hi, rfl⟩
    have hi' := hperm.subset (List.mem_cons_of_mem n hi)
    refine ⟨⟨i, hi', (haddr i hi).symm⟩, fun he => hne i hi ?_⟩
    have hsi := BTree.search_complete ho hi'
    rw [← haddr i hi, he] at hsi
    exact Option.some.inj (hsi.symm.trans hs)
  · rintro ⟨⟨i, hi, rfl⟩, hne'⟩
    rcases List.mem_cons.1 (hperm.symm.subset hi) with rfl | hi'
    · exact absurd hnaddr hne'
    · exact ⟨i, hi', haddr i hi'⟩
  · rintro a ⟨i, hi, rfl⟩
    have hi' := hperm.subset (List.mem_cons_of_mem n hi)
    rw [ht.ptrSize hot hi, haddr i hi, h.ptrSize ho hi']
    exact congrArg SwArea.blockSize (harea i hi)

theorem Tidy.live_apart {p q : Nat} (h : Tidy g s) (ho : BTree.InOrder s.addr s.allocTree)
    (hp : LiveBlock s p) (hq : LiveBlock s q) (hne : p ≠ q) :
    p + getBuddyPtrSize s p ≤ q ∨ q + getBuddyPtrSize s q ≤ p := by
  obtain ⟨i, hi, rfl⟩ := hp
  obtain ⟨j, hj, rfl⟩ := hq
  rw [h.ptrSize ho hi, h.ptrSize ho hj, h.1.core.live_size i hi, h.1.core.live_size j hj]
  exact h.1.core.apart i j (Or.inr hi) (Or.inr hj) fun e => hne (congrArg s.addr e)

end

end SierraTee
