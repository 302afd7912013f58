import SierraTee.Buddy.Region

/-!
# The counters of the pool

* `Regional.chain_length`, `Regional.tree_length`   the lists are short, so the words do not wrap;
* `poolRun_accounts`  the counters over all runs.
-/

namespace SierraTee
open Word SwBuddyPool Runs

def Counted (s : SwBuddyPool) : Prop := ∀ b, (s.freeArea b).cnt = u32 (s.chain b).length

section
variable {g : Geometry} {s t : SwBuddyPool}

theorem u32_succ (n : Nat) : u32 (u32 n + 1) = u32 (n + 1) := by
  unfold u32
  omega

theorem sub32_succ (n : Nat) : sub32 (u32 (n + 1)) 1 = u32 n := by
  unfold sub32 u32
  split <;> omega

theorem Counted.putFree (h : Counted s) (b i : Nat) : Counted (s.putFree b i) := by
  intro c
  by_cases hc : c = b
  · have h1 : ((s.putFree b i).freeArea b).cnt = u32 ((s.freeArea b).cnt + 1) := by
      simp [SwBuddyPool.putFree, setFree]
    rw [hc, h1, h b, u32_succ, chain_putFree_self, (Chain.addSorted_perm i _).length_eq,
      List.length_cons]
  · rw [chain_putFree_ne s hc, ← h c]
    simp [SwBuddyPool.putFree, setFree, Function.update_of_ne hc]

theorem Counted.takeFree (h : Counted s) {b i : Nat}
    (hp : (i :: Chain.remove s.addr i (s.chain b)).Perm (s.chain b)) : Counted (s.takeFree b i) := by
  intro c
  by_cases hc : c = b
  · have h1 : ((s.takeFree b i).freeArea b).cnt = sub32 (s.freeArea b).cnt 1 := by
      simp [SwBuddyPool.takeFree, setFree]
    rw [hc, h1, h b, ← hp.length_eq, List.length_cons, sub32_succ, chain_takeFree_self]
  · rw [chain_takeFree_ne s hc, ← h c]
    simp [SwBuddyPool.takeFree, setFree, Function.update_of_ne hc]

theorem Counted.takeHead (h : Counted s) {b n : Nat} {l : List Nat} (hl : s.chain b = n :: l) :
    Counted (s.takeFree b n) := by
  apply h.takeFree
  rw [hl, Chain.remove_head]

theorem Counted.setArea (h : Counted s) (i : Nat) (a : SwArea) : Counted (s.setArea i a) := h

/-! ## the calls -/

theorem Counted.splitLoop (h : Counted s) (node bin idx : Nat) :
    Counted (splitLoop s node bin idx).2 := by
  induction idx generalizing s with
  | zero => exact h
  | succ k ih =>
    rw [SierraTee.splitLoop]
    split
    · exact h
    · cases hf : getFreeNode s with
      | none => exact h
      | some ft =>
        obtain ⟨f, u⟩ := ft
        obtain ⟨-, next, rfl⟩ := getFreeNode_some hf
        have h1 : Counted (claimNode s f next) := h
        simp only
        split
        · exact ((h1.setArea _ _).putFree _ _).setArea _ _
        · exact ih ((h1.setArea _ _).putFree _ _)

theorem Counted.getFreeBuddy (h : Counted s) (bin : Nat) : Counted (getFreeBuddy s bin).2 := by
  obtain ⟨-, he⟩ | ⟨idx, n, l, -, -, hl, -, he⟩ := getFreeBuddy_cases s bin
  · rw [he]
    exact h
  · rw [he]
    split
    · exact h.takeHead hl
    · exact (h.takeHead hl).splitLoop _ _ _

theorem Counted.mergePair (h : Counted s) {idx n m kept gone buddy : Nat} {l : List Nat}
    (hl : s.chain idx = n :: l) (hs : Chain.search s.addr buddy (s.chain idx) = some m)
    (hne : buddy ≠ s.addr n) : Counted (mergePair s idx n m kept gone) := by
  have hmn : m ≠ n := fun e => hne (by rw [← (Chain.search_some hs).2, e])
  have hs1 := search_takeHead hl hs hmn
  exact ((((h.takeHead hl).takeFree (Chain.remove_perm hs1)).setArea _ _).setArea _ _).putFree _ _

theorem mergePair_chain_other {idx n m kept gone b : Nat} (h1 : b ≠ idx) (h2 : b ≠ idx + 1) :
    (SierraTee.mergePair s idx n m kept gone).chain b = s.chain b := by
  unfold SierraTee.mergePair
  simp only
  rw [chain_putFree_ne _ h2, chain_setArea, chain_setArea, chain_takeFree_ne _ h1,
    chain_takeFree_ne _ h1]

theorem Geometry.Manages.buddy_ne (hm : g.Manages s) {b : Nat} (hb : b ≤ g.depth) (a : Nat) :
    u32 (a + s.binSize b) ≠ a := by
  have h1 := g.size_pos b
  have h2 := Geometry.size_lt_word hb
  rw [hm.binSize hb]
  unfold u32
  omega

theorem Counted.mergeLoop (h : Counted s) (hm : g.Manages s) (htop : s.chain (g.depth + 1) = [])
    {temp idx fuel : Nat} (hidx : idx ≤ g.depth + 1) (hr : mergeLoop s temp idx fuel = some t) :
    Counted t := by
  induction fuel generalizing s idx with
  | zero =>
    cases hr
    exact h
  | succ fuel ih =>
    rw [SierraTee.mergeLoop] at hr
    cases hl : s.chain idx with
    | nil =>
      rw [hl] at hr
      cases hr
      exact h
    | cons n l =>
      have hlow : idx ≤ g.depth := by
        by_contra hc
        obtain rfl : idx = g.depth + 1 := by omega
        rw [htop] at hl
        cases hl
      have hne := hm.buddy_ne hlow (s.addr n)
      rw [hl] at hr
      simp only at hr
      rw [← hl] at hr
      split at hr
      · cases hr
      · split at hr
        · split at hr
          · cases hr
            exact h
          · exact ih h hm htop (by omega) hr
        · rename_i m hs
          have hpair (kept gone : Nat) : Counted (SierraTee.mergePair s idx n m kept gone) :=
            h.mergePair hl hs hne
          split at hr
          · cases hr
          · split at hr
            · cases hr
              exact hpair _ _
            · rename_i hmax
              rw [hm.maxBin] at hmax
              refine ih (hpair _ _) (hm.of_fixed rfl) ?_ (by omega) hr
              rw [mergePair_chain_other (by omega) (by omega)]
              exact htop

theorem Regional.top_empty (h : Regional g s) {n : Nat} (hn : n ∈ s.allocTree.toList) :
    s.chain (g.depth + 1) = [] := by
  refine List.eq_nil_iff_forall_not_mem.2 fun i hi => ?_
  have hne : i ≠ n := fun e => h.core.unshared _ i hi (e ▸ hn)
  have h1 := h.core.apart i n (Or.inl ⟨_, hi⟩) (Or.inr hn) hne
  have h2 := h.core.free_ok _ i hi
  have h3 := h.core.live_ok n hn
  have h4 := g.size_pos (s.bin n)
  rw [h.core.chain_bin _ i hi] at h1
  unfold Geometry.Apart Intervals.Apart at h1
  unfold Geometry.InRegion Geometry.regionEnd at h2 h3
  omega

theorem mergeLoop_keeps {α : Type*} {f : SwBuddyPool → α}
    (hset : ∀ s i a, f (s.setArea i a) = f s) (hput : ∀ s b i, f (s.putFree b i) = f s)
    (htake : ∀ s b i, f (s.takeFree b i) = f s) {temp idx fuel : Nat}
    (hr : mergeLoop s temp idx fuel = some t) : f t = f s := by
  have hpair (s : SwBuddyPool) (idx n m kept gone : Nat) :
      f (SierraTee.mergePair s idx n m kept gone) = f s := by
    unfold SierraTee.mergePair
    rw [hput, hset, hset, htake, htake]
  induction fuel generalizing s idx with
  | zero =>
    cases hr
    rfl
  | succ fuel ih =>
    rw [SierraTee.mergeLoop] at hr
    split at hr
    · cases hr
      rfl
    · simp only at hr
      split at hr
      · cases hr
      · split at hr
        · split at hr
          · cases hr
            rfl
          · exact ih hr
        · split at hr
          · cases hr
          · split at hr
            · cases hr
              exact hpair ..
            · exact (ih hr).trans (hpair ..)

theorem returnToFreeArea_keeps {α : Type*} {f : SwBuddyPool → α}
    (hset : ∀ s i a, f (s.setArea i a) = f s) (hput : ∀ s b i, f (s.putFree b i) = f s)
    (htake : ∀ s b i, f (s.takeFree b i) = f s) {n k : Nat}
    (hr : returnToFreeArea s n k = some t) : f t = f s := by
  have hstart (a : SwArea) : f ((s.setArea n a).putFree k n) = f s := by rw [hput, hset]
  rw [returnToFreeArea] at hr
  split at hr
  · cases hr
    exact hstart _
  · exact (mergeLoop_keeps hset hput htake hr).trans (hstart _)

theorem returnToFreeArea_fixed {n k : Nat} (hr : returnToFreeArea s n k = some t) :
    t.fixed = s.fixed :=
  returnToFreeArea_keeps fixed_setArea fixed_putFree fixed_takeFree hr

/-! ## the invariant -/

structure Books (s : SwBuddyPool) : Prop where
  counted : Counted s
  allocCnt : s.allocCnt = u32 s.allocTree.toList.length

theorem Books.served (h : Books s) {free live part : Nat → Nat → Prop} {bin : Nat}
    {r : Option Nat × SwBuddyPool} {x : Nat × SwBuddyPool} (hc : Counted r.2)
    (hr : BuddyResult g free live part s bin r)
    (hx : r.1 = none ∧ x = (0, r.2) ∨ ∃ n, r.1 = some n ∧ x = takeBlock r.2 n) : Books x.2 := by
  have hcnt : r.2.allocCnt = u32 r.2.allocTree.toList.length := by
    show r.2.fixed.allocCnt = u32 r.2.fixed.allocTree.toList.length
    rw [hr.fixed]
    exact h.allocCnt
  obtain ⟨-, rfl⟩ | ⟨n, hn, rfl⟩ := hx
  · exact ⟨hc, hcnt⟩
  · obtain ⟨hheld, -⟩ := hr.node n hn
    rw [hheld.takeBlock_eq]
    refine ⟨hc, ?_⟩
    show u32 (r.2.allocCnt + 1) = u32 (BTree.add r.2.addr n r.2.allocTree).toList.length
    rw [hcnt, u32_succ, hheld.add_perm.length_eq, List.length_cons]

theorem Books.alloc (hb : Books s) (h : Tidy g s) {size : Nat} (hok : NoWrapSize s (.alloc size)) :
    Books (swBuddyAlloc s size).2 := by
  have hcurr := h.1.curr_le
  obtain he | ⟨h1, h2, hrest⟩ := swBuddyAlloc_cases h.1.manages hcurr size
  · rw [he]
    exact hb
  · obtain ⟨hbin, -⟩ := h.1.manages.requestBin_spec size (h1.trans hcurr) (h2.trans hcurr)
    have hc := hb.counted.getFreeBuddy (requestBin s size)
    by_cases hf : g.Fits
    · exact hb.served hc (h.1.found hf hbin) hrest
    · have hin := h.2.resolve_left hf
      have hserved := hok.resolve_left (mt h.1.manages.fits_iff.mp hf)
      exact hb.served hc (hin.found hserved h1 h2) hrest

theorem Books.free (hb : Books s) (h : Regional g s) {ptr : Nat}
    (hr : swBuddyFree s ptr = some t) : Books t := by
  rw [swBuddyFree] at hr
  split at hr
  · cases hr
  · split at hr
    · cases hr
      exact hb
    · rename_i n hs
      have hperm := BTree.remove_perm hs
      have htop := h.top_empty (BTree.search_some hs).1
      have hfix := returnToFreeArea_fixed hr
      refine ⟨?_, ?_⟩
      · have hc : Counted (dropBlock s n) := hb.counted
        rw [returnToFreeArea] at hr
        split at hr
        · cases hr
          exact (hc.setArea _ _).putFree _ _
        · rename_i hmax
          have hm : g.Manages (dropBlock s n) := h.manages.of_shape (dropBlock_shape s n)
          rw [hm.maxBin] at hmax
          have hbin : s.bin n ≤ g.depth + 1 :=
            (h.core.live_ok n (BTree.search_some hs).1).le_top
          refine ((hc.setArea _ _).putFree _ _).mergeLoop (hm.of_fixed rfl) ?_ hbin hr
          rw [chain_putFree_ne _ (by omega)]
          exact htop
      · show t.fixed.allocCnt = u32 t.fixed.allocTree.toList.length
        rw [hfix]
        show sub32 s.allocCnt 1 = u32 (BTree.remove s.addr n s.allocTree).toList.length
        rw [hb.allocCnt, ← hperm.length_eq, List.length_cons, sub32_succ]

theorem poolStep_books {c : PoolCall} (h : Tidy g s) (hb : Books s) (hok : NoWrapSize s c)
    (hstep : poolStep s c = some t) : Books t := by
  cases c with
  | alloc size =>
    obtain rfl := Option.some.inj hstep
    exact hb.alloc h hok
  | free ptr => exact hb.free h.1 hstep

/-! ## the lists are short -/

theorem Regional.chain_length (h : Regional g s) (b : Nat) : (s.chain b).length < 2 ^ 32 := by
  have hsum := Intervals.sum_length_le (s.chain b).toFinset s.addr (fun _ => g.size b) g.memStart
    g.regionEnd (fun i hi => h.core.free_ok b i (List.mem_toFinset.1 hi)) fun i hi j hj hij => by
      have hi' := List.mem_toFinset.1 hi
      have hj' := List.mem_toFinset.1 hj
      have h1 := h.core.apart i j (Or.inl ⟨b, hi'⟩) (Or.inl ⟨b, hj'⟩) hij
      rw [h.core.chain_bin b i hi', h.core.chain_bin b j hj'] at h1
      exact h1
  rw [Finset.sum_const_nat fun _ _ => rfl, List.toFinset_card_of_nodup (h.core.chain_nodup b)] at hsum
  have h1 : (s.chain b).length * 2 ^ g.minShift ≤ 2 ^ (g.depth + 1) * 2 ^ g.minShift := by
    calc (s.chain b).length * 2 ^ g.minShift
      _ ≤ (s.chain b).length * g.size b :=
        Nat.mul_le_mul_left _ (Nat.pow_le_pow_right (by omega) (by omega))
      _ ≤ g.size (g.depth + 1) := by
        unfold Geometry.regionEnd at hsum
        omega
      _ = 2 ^ (g.depth + 1) * 2 ^ g.minShift := by
        unfold Geometry.size
        rw [Nat.pow_add, Nat.mul_comm]
  have h2 := Nat.le_of_mul_le_mul_right h1 (Nat.two_pow_pos _)
  have h3 : 2 ^ (g.depth + 1) < 2 ^ 32 := by
    have h4 := g.bins
    unfold maxBins maxBuddyBinShift minBuddyBinShift at h4
    exact Nat.pow_lt_pow_right (by omega) (by omega)
  omega

theorem Regional.tree_length (h : Regional g s) : s.allocTree.toList.length < 2 ^ 32 := by
  have h1 : s.allocTree.toList.length ≤ liveSize s := by
    unfold liveSize
    have hlen : (s.allocTree.toList.map fun i => (s.area i).blockSize).length
        = s.allocTree.toList.length := List.length_map _
    rw [← hlen]
    refine List.length_le_sum_of_one_le _ fun x hx => ?_
    obtain ⟨i, hi, rfl⟩ := List.mem_map.mp hx
    rw [h.core.live_size i hi]
    exact g.size_pos _
  have h2 := h.account
  have h3 := Geometry.size_lt_word (le_refl g.depth)
  omega

/-! ## runs -/

theorem swBuddyFree_unknown {ptr : Nat} (h0 : ptr ≠ 0)
    (h : ∀ n ∈ s.allocTree.toList, s.addr n ≠ ptr) : swBuddyFree s ptr = some s := by
  rw [swBuddyFree, if_neg h0]
  cases hs : BTree.search s.addr ptr s.allocTree with
  | none => rfl
  | some n =>
    obtain ⟨h1, h2⟩ := BTree.search_some hs
    exact absurd h2 (h n h1)

/-- the counters of the pool fit its lists, its tree and each other -/
structure Accounted (s : SwBuddyPool) : Prop where
  heap : s.currHeapSize + liveSize s = s.memSize
  allocCnt : s.allocCnt = s.allocTree.toList.length
  cnt : ∀ b, (s.freeArea b).cnt = (s.chain b).length

theorem Books.accounted (hb : Books s) (h : Regional g s) : Accounted s := by
  refine ⟨?_, ?_, fun b => ?_⟩
  · rw [h.manages.memSize]
    exact h.account
  · rw [hb.allocCnt, u32_of_lt h.tree_length]
  · rw [hb.counted b, u32_of_lt (h.chain_length b)]

theorem initBlocks_books {memStart maxBin : Nat} (hb : Books s) (n : Nat)
    (h : initBlocks s memStart maxBin n = .ok t) : Books t := by
  induction n generalizing s memStart with
  | zero =>
    cases h
    exact hb
  | succ n ih =>
    rw [initBlocks] at h
    split at h
    · cases h
    · rename_i f u hf
      obtain ⟨-, next, rfl⟩ := getFreeNode_some hf
      split at h
      · cases h
      · have hc : Counted (claimNode s f next) := hb.counted
        refine ih ⟨(hc.setArea _ _).putFree _ _, ?_⟩ h
        exact hb.allocCnt

theorem swBuddyInit_books {poolStart poolSize minAllocSize maxAllocSize : Nat}
    (h : swBuddyInit poolStart poolSize minAllocSize maxAllocSize = .ok s) : Books s := by
  rw [swBuddyInit] at h
  split at h
  · cases h
  · split at h
    · cases h
    · simp only at h
      split at h
      · cases h
      · split at h
        · cases h
        · refine initBlocks_books ⟨fun b => ?_, ?_⟩ _ h
          · rfl
          · rfl

/-- **The counters** in a run in which no block gets behind `2 ^ 32`; a free of an address that is not
allocated changes nothing. -/
theorem poolRun_accounts {poolStart minAllocSize heapSize : Nat} {s0 s : SwBuddyPool}
    {calls : List PoolCall} (hmin : minAllocSize < 2 ^ 32)
    (hpool : poolStart + (heapSize + getManageArea heapSize minAllocSize) < 2 ^ 32)
    (hinit : swBuddyInit poolStart (heapSize + getManageArea heapSize minAllocSize) minAllocSize
      heapSize = .ok s0)
    (hok : Along poolStep NoWrapSize s0 calls) (hrun : run poolStep s0 calls = some s) :
    Accounted s ∧ ∀ ptr, ptr ≠ 0 → (∀ n ∈ s.allocTree.toList, s.addr n ≠ ptr) →
      swBuddyFree s ptr = some s := by
  obtain ⟨g, -, -, h0⟩ := swBuddyInit_contained hmin hpool hinit
  have hb := run_invariant (fun u => Tidy g u ∧ Books u) (fun u c v hu hc hstep =>
    ⟨poolStep_regional hu.1 hc hstep, poolStep_books hu.1 hu.2 hc hstep⟩)
    ⟨⟨h0.regional, Or.inr h0⟩, swBuddyInit_books hinit⟩ hok hrun
  exact ⟨hb.2.accounted hb.1.1, fun ptr h1 h2 => swBuddyFree_unknown h1 h2⟩

theorem poolRun_accounts_eightPages :
    ∃ s, run poolStep eightPages (fragmentingCalls ++ [.free 0x11000]) = some s ∧ Accounted s := by
  have hrun : (run poolStep eightPages (fragmentingCalls ++ [.free 0x11000])).isSome = true := by
    decide +kernel
  obtain ⟨s, hs⟩ := Option.isSome_iff_exists.1 hrun
  obtain ⟨g, -, -, h0⟩ := swBuddyInit_contained (by decide) (by decide +kernel) eightPages_init
  have hfits : eightPages.memStart + 2 * eightPages.maxAllocSize < 2 ^ 32 := by decide +kernel
  have hok : Along poolStep NoWrapSize eightPages (fragmentingCalls ++ [.free 0x11000]) :=
    h0.regional.along_noWrap (h0.manages.fits_iff.mp hfits) _
  exact ⟨s, hs, (poolRun_accounts (by decide) (by decide +kernel) eightPages_init hok hs).1⟩

def nullCalls : List PoolCall :=
  [.alloc 8192, .alloc 4096, .alloc 8192, .free 0xFFFF6000, .alloc 16384, .free 0xFFFFC000,
    .alloc 16384]

/-- **The defect**: a block at address 0 is counted, and is not in the tree. -/
theorem phantom_null :
    ¬ ∀ (poolStart minAllocSize heapSize : Nat) (s0 s : SwBuddyPool) (calls : List PoolCall),
      poolStart + (heapSize + getManageArea heapSize minAllocSize) < 2 ^ 32 →
      swBuddyInit poolStart (heapSize + getManageArea heapSize minAllocSize) minAllocSize heapSize
        = .ok s0 →
      Along poolStep FreesLive s0 calls → run poolStep s0 calls = some s →
      s.currHeapSize + liveSize s = s.memSize ∨ s.allocCnt = s.allocTree.toList.length := by
  intro hall
  have hlive : Along poolStep FreesLive lastPages nullCalls := by decide +kernel
  have hbooks : (run poolStep lastPages nullCalls).map (fun s =>
      decide (s.currHeapSize + liveSize s = s.memSize ∨ s.allocCnt = s.allocTree.toList.length))
      = some false := by decide +kernel
  obtain ⟨s, hs, hp⟩ := Option.map_eq_some_iff.1 hbooks
  exact of_decide_eq_false hp (hall _ _ _ lastPages s nullCalls (by decide +kernel)
    lastPages_init hlive hs)

end
end SierraTee
