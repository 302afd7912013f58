import SierraTee.Buddy.Safety
import Mathlib.Algebra.BigOperators.Ring.List

/-!
# The blocks do not overlap

The pool hands out the phantom like any other block, so its blocks are cut out of twice the
memory, the REGION of the block that `sw_buddy_init` puts into the top bin.

* `Regional.alloc`, `Regional.free`   every call keeps this if the region is below `2 ^ 32`;
* `poolRun_regional`  a run keeps it if the region is, or if no request is served from the phantom;
* `poolRun_separate`  what this means for the ranges of the blocks.
-/

namespace SierraTee
open Word SwBuddyPool Runs

namespace Geometry
variable (g : Geometry)

def regionEnd : Nat := g.memStart + g.size (g.depth + 1)

def InRegion (a k : Nat) : Prop := g.memStart ≤ a ∧ a + g.size k ≤ g.regionEnd

def Fits : Prop := g.regionEnd < 2 ^ 32

variable {g}

theorem regionEnd_eq : g.regionEnd = g.memEnd + g.size g.depth := by
  unfold regionEnd memEnd
  rw [g.size_succ]
  omega

theorem InRegion.le_top {a k : Nat} (h : g.InRegion a k) : k ≤ g.depth + 1 := by
  by_contra hc
  have h1 := g.size_lt (show g.depth + 1 < k by omega)
  unfold InRegion regionEnd at h
  omega

theorem InRegion.cut {a k : Nat} (h : g.InRegion a (k + 1)) :
    g.InRegion a k ∧ g.InRegion (a + g.size k) k := by
  have hs := g.size_succ k
  unfold InRegion at *
  omega

theorem Fits.cut (hf : g.Fits) (a k : Nat) (h : g.InRegion a (k + 1)) :
    g.InRegion a k ∧ g.InRegion (a + g.size k) k ∧ a + g.size k < 2 ^ 32 := by
  obtain ⟨h1, h2⟩ := h.cut
  refine ⟨h1, h2, ?_⟩
  have h3 := h2.2
  unfold Fits at hf
  omega

theorem Inside.inRegion {a k : Nat} (h : g.Inside a k) : g.InRegion a k := by
  have h1 := regionEnd_eq (g := g)
  unfold Inside at h
  unfold InRegion
  omega

theorem Free.inRegion {a k : Nat} (h : g.Free a k) : g.InRegion a k := by
  have h1 := regionEnd_eq (g := g)
  have h2 := memEnd_pos (g := g)
  obtain ⟨h, -⟩ | ⟨rfl, rfl⟩ | ⟨rfl, rfl⟩ := h
  · exact h.inRegion
  · exact ⟨h2.le, h1.ge⟩
  · exact ⟨le_refl _, le_refl _⟩

theorem Manages.binSize_fits {s : SwBuddyPool} (h : g.Manages s) (hf : g.Fits) {b : Nat}
    (hb : b ≤ g.depth + 1) : s.binSize b = g.size b := by
  have h1 : g.size b ≤ g.size (g.depth + 1) := g.size_le hb
  rw [SwBuddyPool.binSize, h.minAllocSize, Nat.shiftLeft_eq, ← Nat.pow_add]
  refine u32_of_lt ?_
  unfold Fits regionEnd at hf
  unfold size at *
  omega

end Geometry

structure Regional (g : Geometry) (s : SwBuddyPool) : Prop where
  manages : g.Manages s
  core : Core g g.InRegion g.InRegion s
  account : s.currHeapSize + liveSize s = g.size g.depth

section
variable {g : Geometry} {s t : SwBuddyPool}

theorem Contained.regional (h : Contained g s) : Regional g s :=
  ⟨h.manages, h.core.mono (fun _ _ _ hf => hf.inRegion) fun _ _ hl => hl.inRegion, h.account⟩

/-! ## `sw_buddy_alloc` -/

theorem size_dvd (g : Geometry) (k : Nat) : g.size 0 ∣ g.size k := by
  unfold Geometry.size
  exact Nat.pow_dvd_pow 2 (by omega)

theorem Regional.granular (h : Regional g s) : g.size 0 ∣ s.currHeapSize := by
  have h1 : g.size 0 ∣ liveSize s := by
    refine List.dvd_sum fun x hx => ?_
    obtain ⟨i, hi, rfl⟩ := List.mem_map.mp hx
    rw [h.core.live_size i hi]
    exact size_dvd g _
  have h2 := h.account ▸ size_dvd g g.depth
  exact (Nat.dvd_add_left h1).mp h2

theorem Geometry.Manages.requestBin_fits (hm : g.Manages s) (size : Nat)
    (hsize : size ≤ g.size g.depth) (hle : nextPowOf2 size ≤ s.currHeapSize)
    (hdvd : g.size 0 ∣ s.currHeapSize) :
    g.size (requestBin s size) ≤ s.currHeapSize := by
  obtain ⟨k, he, -, hbin⟩ := hm.requestBin_pow hsize
  rw [he] at hle
  rw [hbin]
  by_cases hkm : g.minShift ≤ k
  · unfold Geometry.size
    rw [Nat.add_sub_cancel' hkm]
    exact hle
  · have h0 : k - g.minShift = 0 := by omega
    rw [h0]
    exact Nat.le_of_dvd (Nat.lt_of_lt_of_le (Nat.two_pow_pos k) hle) hdvd

theorem Regional.takeBlock {n k : Nat} (hm : g.Manages s) (h : Core g g.InRegion g.InRegion s)
    (hn : Held g s n k) (hk : s.bin n = k) (hsz : (s.area n).blockSize = g.size k)
    (hin : g.InRegion (s.addr n) k) (hacc : s.currHeapSize + liveSize s = g.size g.depth)
    (hle : g.size k ≤ s.currHeapSize) :
    Regional g (takeBlock s n).2 ∧ n ∈ (takeBlock s n).2.allocTree.toList ∧
      (takeBlock s n).2.addr n = (takeBlock s n).1 ∧
      ((takeBlock s n).2.area n).blockSize = g.size k := by
  obtain ⟨hcore, hrest⟩ := h.taken hn hk hsz hin
  refine ⟨⟨hm.of_shape ?_, hcore, hn.account_take hsz hacc hle⟩, hrest⟩
  rw [hn.takeBlock_eq]
  rfl

theorem Regional.of_fixed (h : Regional g s) (hc : Core g g.InRegion g.InRegion t)
    (hfix : t.fixed = s.fixed) (hsame : ∀ i ∈ s.allocTree.toList, t.area i = s.area i) :
    Regional g t :=
  ⟨h.manages.of_fixed hfix, hc, account_of_fixed h.account hfix hsame⟩

theorem Regional.served (h : Regional g s) {bin size : Nat} {r : Option Nat × SwBuddyPool}
    {x : Nat × SwBuddyPool} (hr : BuddyResult g g.InRegion g.InRegion g.InRegion s bin r)
    (hfit : size ≤ g.size bin) (hleft : g.size bin ≤ s.currHeapSize)
    (hx : r.1 = none ∧ x = (0, r.2) ∨ ∃ n, r.1 = some n ∧ x = SierraTee.takeBlock r.2 n) :
    Regional g x.2 ∧ (x.1 ≠ 0 → ∃ n ∈ x.2.allocTree.toList, x.2.addr n = x.1 ∧
      size ≤ (x.2.area n).blockSize) := by
  obtain ⟨-, rfl⟩ | ⟨n, hn, rfl⟩ := hx
  · exact ⟨h.of_fixed hr.core hr.fixed hr.same, fun hc => absurd rfl hc⟩
  · obtain ⟨r1, r2, r3, r4⟩ := hr.node n hn
    obtain ⟨t1, t2, t3, t4⟩ := Regional.takeBlock (h.manages.of_fixed hr.fixed) hr.core r1 r2 r3 r4
      (account_of_fixed h.account hr.fixed hr.same) (by rw [curr_of_fixed hr.fixed]; exact hleft)
    exact ⟨t1, fun _ => ⟨n, t2, t3, by rw [t4]; exact hfit⟩⟩

theorem Regional.curr_le (h : Regional g s) : s.currHeapSize ≤ g.size g.depth := by
  have := h.account
  omega

theorem Regional.found (h : Regional g s) (hf : g.Fits) {bin : Nat} (hbin : bin ≤ g.depth) :
    BuddyResult g g.InRegion g.InRegion g.InRegion s bin (getFreeBuddy s bin) := by
  refine getFreeBuddy_spec hf.cut h.manages h.core hbin ?_
  intro idx n l _ _ hl _
  exact h.core.free_ok idx n (by rw [hl]; exact List.mem_cons_self)

theorem Regional.alloc (h : Regional g s) (hf : g.Fits) (size : Nat) :
    Regional g (swBuddyAlloc s size).2 ∧
      ((swBuddyAlloc s size).1 ≠ 0 → ∃ n ∈ (swBuddyAlloc s size).2.allocTree.toList,
        (swBuddyAlloc s size).2.addr n = (swBuddyAlloc s size).1 ∧
        size ≤ ((swBuddyAlloc s size).2.area n).blockSize) := by
  have hcurr := h.curr_le
  obtain he | ⟨h1, h2, hrest⟩ := swBuddyAlloc_cases h.manages hcurr size
  · rw [he]
    exact ⟨h, fun hc => absurd rfl hc⟩
  · obtain ⟨hbin, hfit⟩ := h.manages.requestBin_spec size (h1.trans hcurr) (h2.trans hcurr)
    have hleft := h.manages.requestBin_fits size (h1.trans hcurr) h2 h.granular
    exact h.served (h.found hf hbin) hfit hleft hrest

/-! ## `sw_buddy_free` -/

structure Rejoined (g : Geometry) (s t : SwBuddyPool) : Prop where
  core : Core g g.InRegion g.InRegion t
  fixed : t.fixed = s.fixed
  same : ∀ i ∈ s.allocTree.toList, t.area i = s.area i

theorem Rejoined.trans {u : SwBuddyPool} (h1 : Rejoined g s t) (h2 : Rejoined g t u) :
    Rejoined g s u :=
  ⟨h2.core, h2.fixed.trans h1.fixed, fun i hi =>
    (h2.same i (by rw [tree_of_fixed h1.fixed]; exact hi)).trans (h1.same i hi)⟩

theorem mergeLoop_region (hf : g.Fits) (hm : g.Manages s) (h : Core g g.InRegion g.InRegion s)
    (temp idx fuel : Nat) : ∃ t, mergeLoop s temp idx fuel = some t ∧ Rejoined g s t := by
  induction fuel generalizing s idx with
  | zero => exact ⟨s, rfl, h, rfl, fun _ _ => rfl⟩
  | succ fuel ih =>
    cases hl : s.chain idx with
    | nil =>
      refine ⟨s, ?_, h, rfl, fun _ _ => rfl⟩
      rw [mergeLoop, hl]
    | cons n l =>
      have hn : n ∈ s.chain idx := hl ▸ List.mem_cons_self
      have hin := h.free_ok idx n hn
      have hpos := g.size_pos idx
      have hbuddy : u32 (s.addr n + s.binSize idx) = s.addr n + g.size idx := by
        rw [hm.binSize_fits hf hin.le_top]
        have h1 := hin.2
        unfold Geometry.Fits at hf
        exact u32_of_lt (by omega)
      rw [mergeLoop, hl]
      simp only [hbuddy]
      rw [← hl, if_neg (by omega)]
      cases hs : Chain.search s.addr (s.addr n + g.size idx) (s.chain idx) with
      | none =>
        simp only
        split
        · exact ⟨s, rfl, h, rfl, fun _ _ => rfl⟩
        · exact ih hm h (idx + 1)
      | some m =>
        obtain ⟨hmem, haddr⟩ := Chain.search_some hs
        have hunion : g.InRegion (s.addr n) (idx + 1) := by
          have h1 := h.free_ok idx m hmem
          have h2 := g.size_succ idx
          rw [haddr] at h1
          unfold Geometry.InRegion at *
          omega
        have hle : ¬ s.addr n + g.size idx < s.addr n := by omega
        have hbins := g.bins
        have htop := hunion.le_top
        simp only
        rw [if_neg (by omega : ¬ maxBins ≤ idx + 1), if_neg hle, if_neg hle]
        have hr := h.merge hm hl hs rfl hunion
        have hone : Rejoined g s (mergePair s idx n m n m) :=
          ⟨hr.core, hr.fixed, fun i hi => hr.same i (fun e => h.unshared _ n hn (e ▸ hi))
            fun e => h.unshared _ m hmem (e ▸ hi)⟩
        split
        · exact ⟨_, rfl, hone⟩
        · obtain ⟨t, ht, h1⟩ := ih (hm.of_fixed hr.fixed) hr.core (idx + 1)
          exact ⟨t, ht, hone.trans h1⟩

theorem returnToFreeArea_region {n k : Nat} (hf : g.Fits) (hm : g.Manages s)
    (h : Core g g.InRegion g.InRegion s) (hn : Held g s n k) (hin : g.InRegion (s.addr n) k) :
    ∃ t, returnToFreeArea s n k = some t ∧ Rejoined g s t := by
  have hcore := h.setArea hn.unlisted ⟨s.addr n, s.binSize k, k⟩
  have hheld := hn.setArea_self ⟨s.addr n, s.binSize k, k⟩ rfl
  have hput := hcore.putFree hheld (bin_setArea_self s n _) (fun hk => by
    rw [area_setArea_self]
    exact hm.binSize hk) (by rw [addr_setArea_self]; exact hin)
  have hone : Rejoined g s ((s.setArea n ⟨s.addr n, s.binSize k, k⟩).putFree k n) :=
    ⟨hput, rfl, fun i hi => area_setArea_ne s (fun e : i = n => hn.unlisted (Or.inr (e ▸ hi))) _⟩
  rw [returnToFreeArea]
  split
  · exact ⟨_, rfl, hone⟩
  · obtain ⟨t, ht, h1⟩ := mergeLoop_region hf (hm.of_fixed hone.fixed) hput n k (s.maxBin + 1 - k)
    exact ⟨t, ht, hone.trans h1⟩

theorem Regional.free {ptr : Nat} (h : Regional g s) (hf : g.Fits) (h0 : ptr ≠ 0) :
    ∃ t, swBuddyFree s ptr = some t ∧ Regional g t := by
  rw [swBuddyFree, if_neg h0]
  cases hs : BTree.search s.addr ptr s.allocTree with
  | none => exact ⟨s, rfl, h⟩
  | some n =>
    have hn : n ∈ s.allocTree.toList := (BTree.search_some hs).1
    have hperm := BTree.remove_perm hs
    have hm : g.Manages (dropBlock s n) := h.manages.of_shape (dropBlock_shape s n)
    obtain ⟨hcore, hheld⟩ := h.core.drop hs
    obtain ⟨t, ht, hr⟩ := returnToFreeArea_region hf hm hcore hheld (h.core.live_ok n hn)
    refine ⟨t, ht, hm.of_fixed hr.fixed, hr.core, account_of_fixed ?_ hr.fixed hr.same⟩
    have hsize : liveSize s = (s.area n).blockSize + liveSize (dropBlock s n) := by
      rw [liveSize, ← (hperm.map _).sum_eq]
      rfl
    have hacc := h.account
    have hw := Geometry.size_lt_word (le_refl g.depth)
    show u32 (s.currHeapSize + (s.area n).blockSize) + _ = _
    rw [u32_of_lt (by omega)]
    omega

/-! ## Runs -/

/-- a call with no block behind `2 ^ 32`: the region ends before, or the phantom is not used -/
def NoWrapSize (s : SwBuddyPool) (c : PoolCall) : Prop :=
  s.memStart + 2 * s.maxAllocSize < 2 ^ 32 ∨ ServedInside s c

theorem Geometry.Manages.fits_iff (h : g.Manages s) :
    s.memStart + 2 * s.maxAllocSize < 2 ^ 32 ↔ g.Fits := by
  unfold Geometry.Fits Geometry.regionEnd
  rw [h.memStart, h.maxAllocSize, g.size_succ]
  omega

/-- in a region that ends behind `2 ^ 32` the phantom is not used -/
def Tidy (g : Geometry) (s : SwBuddyPool) : Prop := Regional g s ∧ (g.Fits ∨ Contained g s)

theorem Regional.step (h : Regional g s) (hf : g.Fits) {c : PoolCall} (hc : c ≠ .free 0) :
    ∃ t, poolStep s c = some t ∧ Regional g t := by
  cases c with
  | alloc size => exact ⟨_, rfl, (h.alloc hf size).1⟩
  | free ptr => exact h.free hf fun e => hc (by rw [e])

theorem poolStep_regional {c : PoolCall} (h : Tidy g s) (hok : NoWrapSize s c)
    (hstep : poolStep s c = some t) : Tidy g t := by
  by_cases hf : g.Fits
  · refine ⟨?_, Or.inl hf⟩
    obtain ⟨u, hu, h1⟩ := h.1.step hf (fun e : c = .free 0 => by rw [e] at hstep; cases hstep)
    obtain rfl := Option.some.inj (hu.symm.trans hstep)
    exact h1
  · have hc := h.2.resolve_left hf
    have hserved := hok.resolve_left (mt h.1.manages.fits_iff.mp hf)
    have ht : Contained g t := by
      cases c with
      | alloc size =>
        obtain rfl := Option.some.inj hstep
        exact (hc.alloc hserved).1
      | free ptr => exact hc.free hstep
    exact ⟨ht.regional, Or.inr ht⟩

theorem poolRun_regional {calls : List PoolCall} (h : Contained g s)
    (hok : Along poolStep NoWrapSize s calls) (hrun : run poolStep s calls = some t) : Tidy g t :=
  run_invariant (Tidy g) (fun _ _ _ hs hc hstep => poolStep_regional hs hc hstep)
    ⟨h.regional, Or.inr h⟩ hok hrun

theorem Regional.along_noWrap (h : Regional g s) (hf : g.Fits) (calls : List PoolCall) :
    Along poolStep NoWrapSize s calls := by
  refine along_of_invariant (Regional g) (fun t c u ht _ hstep => ?_)
    (fun t c ht => Or.inl (ht.manages.fits_iff.mpr hf)) h (along_true poolStep s calls)
  obtain ⟨v, hv, h1⟩ := ht.step hf (fun e : c = .free 0 => by rw [e] at hstep; cases hstep)
  obtain rfl := Option.some.inj (hv.symm.trans hstep)
  exact h1

/-! ## The ranges of the blocks -/

/-- addresses and sizes: a free block has the size of its bin, and a live one its `block_size` -/
def SwBuddyPool.blocks (s : SwBuddyPool) : List (Nat × Nat) :=
  ((List.range maxBins).flatMap fun b => (s.chain b).map fun i => (s.addr i, s.minAllocSize <<< b))
    ++ s.allocTree.toList.map fun i => (s.addr i, (s.area i).blockSize)

/-- no two blocks overlap -/
def Separate (s : SwBuddyPool) : Prop :=
  s.blocks.Pairwise fun x y => Intervals.Apart x.1 x.2 y.1 y.2

instance (s : SwBuddyPool) : Decidable (Separate s) :=
  inferInstanceAs (Decidable (List.Pairwise _ _))

theorem Regional.separate (h : Regional g s) : Separate s := by
  have hsize (b : Nat) : s.minAllocSize <<< b = g.size b := by
    rw [h.manages.minAllocSize, Nat.shiftLeft_eq, ← Nat.pow_add]
    rfl
  have hfree {b i : Nat} (hi : i ∈ s.chain b) : g.size (s.bin i) = s.minAllocSize <<< b := by
    rw [hsize, h.core.chain_bin b i hi]
  have hlive {i : Nat} (hi : i ∈ s.allocTree.toList) : g.size (s.bin i) = (s.area i).blockSize :=
    (h.core.live_size i hi).symm
  refine List.pairwise_append.mpr ⟨List.pairwise_flatMap.mpr ⟨fun b _ => ?_, ?_⟩, ?_, ?_⟩
  · refine List.pairwise_map.mpr (List.Nodup.pairwise_of_forall_ne (h.core.chain_nodup b)
      fun i hi j hj hij => ?_)
    have h1 := h.core.apart i j (Or.inl ⟨b, hi⟩) (Or.inl ⟨b, hj⟩) hij
    rw [Geometry.Apart, hfree hi, hfree hj] at h1
    exact h1
  · refine List.Pairwise.imp ?_ List.nodup_range
    intro b b' hb x hx y hy
    obtain ⟨i, hi, rfl⟩ := List.mem_map.mp hx
    obtain ⟨j, hj, rfl⟩ := List.mem_map.mp hy
    have hij : i ≠ j := fun e => by
      rw [← h.core.chain_bin b i hi, ← h.core.chain_bin b' j hj, e] at hb
      exact hb rfl
    have h1 := h.core.apart i j (Or.inl ⟨b, hi⟩) (Or.inl ⟨b', hj⟩) hij
    rw [Geometry.Apart, hfree hi, hfree hj] at h1
    exact h1
  · refine List.pairwise_map.mpr (List.Nodup.pairwise_of_forall_ne h.core.tree_nodup
      fun i hi j hj hij => ?_)
    have h1 := h.core.apart i j (Or.inr hi) (Or.inr hj) hij
    rw [Geometry.Apart, hlive hi, hlive hj] at h1
    exact h1
  · intro x hx y hy
    obtain ⟨b, -, hx⟩ := List.mem_flatMap.mp hx
    obtain ⟨i, hi, rfl⟩ := List.mem_map.mp hx
    obtain ⟨j, hj, rfl⟩ := List.mem_map.mp hy
    have hij : i ≠ j := fun e => h.core.unshared b i hi (e ▸ hj)
    have h1 := h.core.apart i j (Or.inl ⟨b, hi⟩) (Or.inr hj) hij
    rw [Geometry.Apart, hfree hi, hlive hj] at h1
    exact h1

/-- **Separation**: in a run in which no block gets behind `2 ^ 32`, no two blocks overlap, and a
request that does not either gets a block of at least its size. -/
theorem poolRun_separate {poolStart minAllocSize heapSize : Nat} {s0 s : SwBuddyPool}
    {calls : List PoolCall} (hmin : minAllocSize < 2 ^ 32)
    (hpool : poolStart + (heapSize + getManageArea heapSize minAllocSize) < 2 ^ 32)
    (hinit : swBuddyInit poolStart (heapSize + getManageArea heapSize minAllocSize) minAllocSize
      heapSize = .ok s0)
    (hok : Along poolStep NoWrapSize s0 calls) (hrun : run poolStep s0 calls = some s) :
    Separate s ∧ ∀ size, NoWrapSize s (.alloc size) → (swBuddyAlloc s size).1 ≠ 0 →
      ∃ n ∈ (swBuddyAlloc s size).2.allocTree.toList,
        (swBuddyAlloc s size).2.addr n = (swBuddyAlloc s size).1 ∧
        size ≤ ((swBuddyAlloc s size).2.area n).blockSize := by
  obtain ⟨g, -, -, h0⟩ := swBuddyInit_contained hmin hpool hinit
  obtain ⟨h, hc⟩ := poolRun_regional h0 hok hrun
  refine ⟨h.separate, fun size hw => ?_⟩
  by_cases hf : g.Fits
  · exact (h.alloc hf size).2
  · exact ((hc.resolve_left hf).alloc (hw.resolve_left (mt h.manages.fits_iff.mp hf))).2

theorem poolRun_separate_eightPages :
    ∃ s, run poolStep eightPages (fragmentingCalls ++ [.alloc 16384]) = some s ∧ Separate s := by
  have hrun : (run poolStep eightPages (fragmentingCalls ++ [.alloc 16384])).isSome = true := by
    decide +kernel
  obtain ⟨s, hs⟩ := Option.isSome_iff_exists.1 hrun
  obtain ⟨g, -, -, h0⟩ := swBuddyInit_contained (by decide) (by decide +kernel) eightPages_init
  have hfits : eightPages.memStart + 2 * eightPages.maxAllocSize < 2 ^ 32 := by decide +kernel
  have hok : Along poolStep NoWrapSize eightPages (fragmentingCalls ++ [.alloc 16384]) :=
    h0.regional.along_noWrap (h0.manages.fits_iff.mp hfits) _
  exact ⟨s, hs, (poolRun_separate (by decide) (by decide +kernel) eightPages_init hok hs).1⟩

def lastPages : SwBuddyPool :=
  ((swBuddyInit 0xFFFF3000 (32768 + getManageArea 32768 4096) 4096 32768).toOption).getD
    (blankPool 0 0 0 0 0 0 0)

theorem lastPages_init :
    swBuddyInit 0xFFFF3000 (32768 + getManageArea 32768 4096) 4096 32768 = .ok lastPages := by
  have h : (swBuddyInit 0xFFFF3000 (32768 + getManageArea 32768 4096) 4096 32768).toOption.isSome
      = true := by decide +kernel
  unfold lastPages
  generalize swBuddyInit 0xFFFF3000 (32768 + getManageArea 32768 4096) 4096 32768 = r at *
  cases r with
  | error e => exact absurd h (by simp [Except.toOption])
  | ok s => rfl

/-- the block behind the memory is cut at address 0, and its upper half looks like a descriptor that
is not in use -/
def wrappingCalls : List PoolCall :=
  [.alloc 4096, .alloc 16384, .alloc 4096, .alloc 4096, .free 0xFFFF5000, .alloc 8192,
    .free 0xFFFFC000, .alloc 8192]

/-- **The defect**: a block is live and in a free list. -/
theorem phantom_wraps :
    ¬ ∀ (poolStart minAllocSize heapSize : Nat) (s0 s : SwBuddyPool) (calls : List PoolCall),
      poolStart + (heapSize + getManageArea heapSize minAllocSize) < 2 ^ 32 →
      swBuddyInit poolStart (heapSize + getManageArea heapSize minAllocSize) minAllocSize heapSize
        = .ok s0 →
      Along poolStep FreesLive s0 calls → run poolStep s0 calls = some s → Separate s := by
  intro hall
  have hlive : Along poolStep FreesLive lastPages wrappingCalls := by decide +kernel
  have hsep : (run poolStep lastPages wrappingCalls).map (fun s => decide (Separate s))
      = some false := by decide +kernel
  obtain ⟨s, hs, hp⟩ := Option.map_eq_some_iff.1 hsep
  exact of_decide_eq_false hp (hall _ _ _ lastPages s wrappingCalls (by decide +kernel)
    lastPages_init hlive hs)

end
end SierraTee
