import SierraTee.Buddy.Account

/-!
# Failing requests (`get_free_node`, `get_free_buddy`, `sw_buddy_alloc`)

A block that is too large for its request is taken from its bin before the first descriptor for a
half of it is looked for, and a split without a descriptor gives the block up.  A request that
fails leaves the pool as it was exactly when it does not come to that.

* `splitLoop_none_iff`  the split fails exactly with fewer free descriptors than levels;
* `atomicAlloc_iff`     one request;
* `poolRun_atomic_iff`  the same for the states of a run.
-/

namespace SierraTee
open Word SwBuddyPool Runs

def freeDescriptors (s : SwBuddyPool) : Finset Nat :=
  (Finset.range s.totalAreaCnt).filter fun i => isFreeNode s i = true

def Indexed (s : SwBuddyPool) : Prop := s.nextFreeIndex ≤ s.totalAreaCnt

/-! ## `get_free_node` -/

section
variable {s t : SwBuddyPool} {i node bin idx : Nat}

theorem mem_freeDescriptors : i ∈ freeDescriptors s ↔ i < s.totalAreaCnt ∧ s.addr i = 0 := by
  rw [freeDescriptors, Finset.mem_filter, Finset.mem_range, isFreeNode, beq_iff_eq]
  rfl

theorem getFreeNode_none (h : getFreeNode s = none) : freeDescriptors s = ∅ := by
  unfold getFreeNode at h
  split at h
  · cases h
  rename_i h1
  split at h
  · cases h
  rename_i h2
  apply Finset.eq_empty_of_forall_notMem
  intro i hi
  obtain ⟨hlt, hi⟩ := Finset.mem_filter.1 hi
  rw [Finset.mem_range] at hlt
  by_cases hnext : i < s.nextFreeIndex
  · exact List.find?_eq_none.1 h2 i (List.mem_range.2 hnext) hi
  · exact List.find?_eq_none.1 h1 i (List.mem_range'_1.2 (by omega)) hi

theorem getFreeNode_index (hs : Indexed s) (h : getFreeNode s = some (i, t)) :
    i < s.totalAreaCnt ∧ ∃ next, next ≤ s.totalAreaCnt ∧ t = claimNode s i next := by
  unfold Indexed at hs
  unfold getFreeNode at h
  split at h
  · rename_i j hj
    have hmem := List.mem_range'_1.1 (List.mem_of_find?_eq_some hj)
    cases h
    refine ⟨by omega, _, ?_, rfl⟩
    split <;> omega
  · split at h
    · rename_i j hj
      have hmem := List.mem_range.1 (List.mem_of_find?_eq_some hj)
      cases h
      exact ⟨by omega, _, by omega, rfl⟩
    · cases h

theorem getFreeNode_mem (hs : Indexed s) (h : getFreeNode s = some (i, t)) :
    i ∈ freeDescriptors s ∧ Indexed t := by
  obtain ⟨hi, next, hnext, rfl⟩ := getFreeNode_index hs h
  exact ⟨mem_freeDescriptors.2 ⟨hi, (getFreeNode_some h).1⟩, hnext⟩

theorem freeDescriptors_used {f next b : Nat} {a : SwArea} (ha : a.memAddr ≠ 0) :
    freeDescriptors (((claimNode s f next).setArea f a).putFree b f)
      = (freeDescriptors s).erase f := by
  ext i
  rw [Finset.mem_erase, mem_freeDescriptors, mem_freeDescriptors]
  show i < s.totalAreaCnt ∧ ((claimNode s f next).setArea f a).addr i = 0 ↔ _
  by_cases hi : i = f
  · subst hi
    rw [addr_setArea_self]
    exact ⟨fun h => absurd h.2 ha, fun h => absurd rfl h.1⟩
  · rw [addr_setArea_ne _ hi]
    have e : (claimNode s f next).addr i = s.addr i := addr_setArea_ne s hi ⟨0, 0, 0⟩
    rw [e]
    exact ⟨fun h => ⟨hi, h⟩, fun h => h.2⟩

/-! ## `get_free_buddy` -/

theorem splitLoop_above {b : Nat} (hb : idx ≤ b) :
    (splitLoop s node bin idx).2.chain b = s.chain b := by
  induction idx generalizing s with
  | zero => rfl
  | succ k ih =>
    rw [splitLoop]
    split
    · rfl
    split
    · rfl
    rename_i f u hf
    obtain ⟨-, next, rfl⟩ := getFreeNode_some hf
    have hput (a : SwArea) : (((claimNode s f next).setArea f a).putFree k f).chain b
        = s.chain b := chain_putFree_ne _ (by omega) f
    dsimp only
    split
    · exact hput _
    · exact (ih (by omega)).trans (hput _)

variable {g : Geometry} {part : Nat → Nat → Prop}

theorem splitLoop_none_iff (hcut : ∀ a k, part a (k + 1) → part a k ∧ a + g.size k < 2 ^ 32)
    (hm : g.Manages s) (hs : Indexed s) (hn : s.addr node ≠ 0) (hp : part (s.addr node) idx)
    (hidx : idx ≤ g.depth + 1) (hbin : bin < idx) :
    (splitLoop s node bin idx).1 = none ↔ (freeDescriptors s).card < idx - bin := by
  induction idx generalizing s with
  | zero => omega
  | succ k ih =>
    rw [splitLoop, if_neg (by omega)]
    cases hf : getFreeNode s with
    | none =>
      rw [getFreeNode_none hf, Finset.card_empty]
      exact ⟨fun _ => by omega, fun _ => rfl⟩
    | some ft =>
      obtain ⟨f, t⟩ := ft
      obtain ⟨hmem, ht⟩ := getFreeNode_mem hs hf
      obtain ⟨h0, next, rfl⟩ := getFreeNode_some hf
      obtain ⟨hp1, hlt⟩ := hcut _ k hp
      have hnf : node ≠ f := fun e => hn (e ▸ h0)
      have hat : (claimNode s f next).addr node = s.addr node :=
        addr_setArea_ne s hnf ⟨0, 0, 0⟩
      have hsz : (claimNode s f next).binSize k = g.size k :=
        (hm.of_fixed (t := claimNode s f next) rfl).binSize (by omega)
      have hpos := Finset.card_pos.2 ⟨f, hmem⟩
      have hused := @freeDescriptors_used s f next k ⟨s.addr node + g.size k, g.size k, k⟩
        (by show s.addr node + g.size k ≠ 0; omega)
      have hcard := Finset.card_erase_of_mem hmem
      dsimp only
      rw [hsz, hat, u32_of_lt hlt]
      by_cases hbk : bin = k
      · rw [if_pos hbk]
        exact ⟨fun h => (by cases h), fun h => by omega⟩
      · rw [if_neg hbk]
        have hau := (addr_setArea_ne (claimNode s f next) hnf
          ⟨s.addr node + g.size k, g.size k, k⟩).trans hat
        generalize hu : ((claimNode s f next).setArea f
          ⟨s.addr node + g.size k, g.size k, k⟩).putFree k f = u at *
        have hmu : g.Manages u := hu ▸ hm.of_fixed rfl
        have hsu : Indexed u := hu ▸ ht
        have hau' : u.addr node = s.addr node := hu ▸ hau
        rw [ih hmu hsu (hau' ▸ hn) (hau' ▸ hp1) (by omega) (by omega), hused, hcard]
        omega

end

/-! ## `sw_buddy_alloc` -/

def Admits (s : SwBuddyPool) (size : Nat) : Prop :=
  size ≤ s.currHeapSize ∧ nextPowOf2 size ≤ s.currHeapSize

structure FirstBin (s : SwBuddyPool) (size idx : Nat) : Prop where
  low : requestBin s size ≤ idx
  high : idx ≤ s.maxBin
  block : s.chain idx ≠ []
  first : ∀ b, requestBin s size ≤ b → b < idx → s.chain b = []

structure Untouched (s t : SwBuddyPool) : Prop where
  freeArea : t.freeArea = s.freeArea
  allocTree : t.allocTree = s.allocTree
  currHeapSize : t.currHeapSize = s.currHeapSize

/-- a request that fails changes nothing, and it does not fail if there is a free block for it -/
structure AtomicAlloc (s : SwBuddyPool) (size : Nat) : Prop where
  unchanged : (swBuddyAlloc s size).1 = 0 → Untouched s (swBuddyAlloc s size).2
  served : Admits s size → (∃ b, requestBin s size ≤ b ∧ b ≤ s.maxBin ∧ s.chain b ≠ []) →
    (swBuddyAlloc s size).1 ≠ 0

/-- a free descriptor for every level by which the block for the request is too large -/
def HasDescriptors (s : SwBuddyPool) (size : Nat) : Prop :=
  Admits s size → ∀ idx, FirstBin s size idx →
    idx - requestBin s size ≤ (freeDescriptors s).card

section
variable {s : SwBuddyPool} {size idx node : Nat} {l : List Nat} {g : Geometry}
  {part : Nat → Nat → Prop}

theorem swBuddyAlloc_refused (h : ¬Admits s size) : swBuddyAlloc s size = (0, s) := by
  unfold Admits at h
  unfold swBuddyAlloc
  by_cases h1 : s.currHeapSize < size
  · rw [if_pos h1]
  · rw [if_neg h1]
    dsimp only
    rw [if_pos (by omega)]

theorem swBuddyAlloc_admitted (hm : g.Manages s) (hcurr : s.currHeapSize ≤ g.size g.depth)
    (h : Admits s size) {o : Option Nat} {t : SwBuddyPool}
    (hr : getFreeBuddy s (requestBin s size) = (o, t)) :
    swBuddyAlloc s size = o.elim (0, t) (takeBlock t) := by
  have hmax := hm.maxAllocSize
  unfold Admits at h
  unfold swBuddyAlloc
  dsimp only
  rw [if_neg (by omega), if_neg (by omega), if_neg (by omega), hr]
  cases o with
  | none => rfl
  | some node => rfl

theorem FirstBin.unique {j : Nat} (h : FirstBin s size idx) (hj : FirstBin s size j) :
    idx = j := by
  rcases Nat.lt_trichotomy idx j with hlt | he | hgt
  · exact absurd (hj.first idx h.low hlt) h.block
  · exact he
  · exact absurd (h.first j hj.low hgt) hj.block

structure Found (s : SwBuddyPool) (size idx : Nat) (r : Option Nat × SwBuddyPool) : Prop where
  fails : r.1 = none ↔ (freeDescriptors s).card < idx - requestBin s size
  gone : r.1 = none → r.2.freeArea ≠ s.freeArea
  address : ∀ n, r.1 = some n → r.2.addr n ≠ 0

theorem getFreeBuddy_found (hcut : ∀ a k, part a (k + 1) → part a k ∧ a + g.size k < 2 ^ 32)
    (hm : g.Manages s) (hs : Indexed s) (hidx : FirstBin s size idx) (hl : s.chain idx = node :: l)
    (hn : s.addr node ≠ 0) (hp : part (s.addr node) idx) :
    Found s size idx (getFreeBuddy s (requestBin s size)) := by
  have hhigh := hm.maxBin ▸ hidx.high
  obtain ⟨hall, -⟩ | ⟨j, m, l', hlo, hhi, hl', hfirst, he⟩ :=
    getFreeBuddy_cases s (requestBin s size)
  · exact absurd (hall idx hidx.low hidx.high) hidx.block
  obtain rfl := hidx.unique ⟨hlo, hhi, hl' ▸ List.cons_ne_nil m l', hfirst⟩
  obtain ⟨rfl, rfl⟩ := List.cons.inj (hl.symm.trans hl')
  rw [he]
  by_cases hbin : idx = requestBin s size
  · rw [if_pos hbin]
    exact ⟨⟨fun h => (by cases h), fun h => by omega⟩, fun h => (by cases h),
      fun n h => Option.some.inj h ▸ hn⟩
  · rw [if_neg hbin]
    have hlow := hidx.low
    have hloop := @splitLoop_none_iff (s.takeFree idx node) node (requestBin s size) idx g part hcut
      (hm.of_fixed rfl) hs hn hp hhigh (by omega)
    refine ⟨hloop, fun _ hsame => ?_, fun n h => ?_⟩
    · have hchain := @splitLoop_above (s.takeFree idx node) node (requestBin s size) idx idx
        (Nat.le_refl idx)
      rw [chain_takeFree_self, hl, Chain.remove_head] at hchain
      have hkept : (splitLoop (s.takeFree idx node) node (requestBin s size) idx).2.chain idx
          = s.chain idx := congrArg FreeArea.chain (congrFun hsame idx)
      exact List.cons_ne_self node l (hl.symm.trans (hkept.symm.trans hchain))
    · obtain ⟨rfl, ha⟩ := splitLoop_addr (s := s.takeFree idx node) hn h
      rw [ha]
      exact hn

theorem atomicAlloc_iff (hcut : ∀ a k, part a (k + 1) → part a k ∧ a + g.size k < 2 ^ 32)
    (hm : g.Manages s) (hs : Indexed s) (hcurr : s.currHeapSize ≤ g.size g.depth)
    (hhead : Admits s size → ∀ idx n l, FirstBin s size idx → s.chain idx = n :: l →
      s.addr n ≠ 0 ∧ part (s.addr n) idx) :
    AtomicAlloc s size ↔ HasDescriptors s size := by
  by_cases hadm : Admits s size
  swap
  · rw [show AtomicAlloc s size ↔ True from iff_of_true ?_ trivial]
    · exact iff_of_true trivial fun h => absurd h hadm
    · refine ⟨fun _ => ?_, fun h => absurd h hadm⟩
      rw [swBuddyAlloc_refused hadm]
      exact ⟨rfl, rfl, rfl⟩
  rcases getFreeBuddy_cases s (requestBin s size) with
    ⟨hall, he⟩ | ⟨idx, n, l, hlo, hhi, hl, hfirst, -⟩
  · have heq := swBuddyAlloc_admitted hm hcurr hadm he
    refine iff_of_true ⟨fun _ => ?_, ?_⟩ fun _ idx h => absurd (hall idx h.low h.high) h.block
    · rw [heq]
      exact ⟨rfl, rfl, rfl⟩
    · rintro - ⟨b, h1, h2, h3⟩
      exact absurd (hall b h1 h2) h3
  · have hidx : FirstBin s size idx := ⟨hlo, hhi, hl ▸ List.cons_ne_nil n l, hfirst⟩
    obtain ⟨hn, hp⟩ := hhead hadm idx n l hidx hl
    have hr := getFreeBuddy_found hcut hm hs hidx hl hn hp
    cases hfound : getFreeBuddy s (requestBin s size) with
    | mk o t =>
    have heq := swBuddyAlloc_admitted hm hcurr hadm hfound
    rw [hfound] at hr
    cases o with
    | none =>
      refine iff_of_false (fun h => ?_) fun h => ?_
      · have hsame := (h.unchanged (congrArg Prod.fst heq)).freeArea
        rw [heq] at hsame
        exact hr.gone rfl hsame
      · have := h hadm idx hidx
        have := hr.fails.1 rfl
        omega
    | some m =>
      have hne : (swBuddyAlloc s size).1 ≠ 0 := by
        rw [heq]
        exact hr.address m rfl
      refine iff_of_true ⟨fun h => absurd h hne, fun _ _ => hne⟩ fun _ j hj => ?_
      obtain rfl := hidx.unique hj
      have := mt hr.fails.2 (by simp)
      omega

end

/-! ## Runs -/

section
variable {s t : SwBuddyPool} {g : Geometry}

theorem initBlocks_indexed {memStart maxBin n : Nat} (hs : Indexed s)
    (h : initBlocks s memStart maxBin n = .ok t) : Indexed t := by
  induction n generalizing s memStart with
  | zero =>
    cases h
    exact hs
  | succ n ih =>
    rw [initBlocks] at h
    split at h
    · cases h
    rename_i f u hf
    split at h
    · cases h
    exact ih (s := (u.setArea f _).putFree maxBin f) (getFreeNode_mem hs hf).2 h

theorem swBuddyInit_indexed {poolStart poolSize minAllocSize maxAllocSize : Nat}
    (h : swBuddyInit poolStart poolSize minAllocSize maxAllocSize = .ok s) : Indexed s := by
  unfold swBuddyInit at h
  dsimp only at h
  split_ifs at h
  all_goals exact initBlocks_indexed (Nat.zero_le _) h

theorem splitLoop_indexed {node bin idx : Nat} (hs : Indexed s) :
    Indexed (splitLoop s node bin idx).2 := by
  induction idx generalizing s with
  | zero => exact hs
  | succ k ih =>
    rw [splitLoop]
    split
    · exact hs
    split
    · exact hs
    rename_i f u hf
    have hu : Indexed u := (getFreeNode_mem hs hf).2
    dsimp only
    split
    · exact hu
    · exact ih (s := (u.setArea f _).putFree k f) hu

theorem getFreeBuddy_indexed (hs : Indexed s) (bin : Nat) : Indexed (getFreeBuddy s bin).2 := by
  obtain ⟨-, he⟩ | ⟨idx, n, l, -, -, -, -, he⟩ := getFreeBuddy_cases s bin
  · rw [he]
    exact hs
  · rw [he]
    split
    · exact hs
    · exact splitLoop_indexed (s := s.takeFree idx n) hs

theorem takeBlock_indexed (hs : Indexed s) (n : Nat) : Indexed (takeBlock s n).2 := by
  unfold takeBlock addAllocTree
  split <;> exact hs

theorem poolStep_indexed {c : PoolCall} (h : Tidy g s) (hs : Indexed s)
    (hstep : poolStep s c = some t) : Indexed t := by
  cases c with
  | alloc size =>
    obtain rfl := Option.some.inj hstep
    have hfound := getFreeBuddy_indexed hs (requestBin s size)
    have hend {x : Nat × SwBuddyPool} {r : Nat} {u : SwBuddyPool} (he : x = (r, u))
        (hu : Indexed u) : Indexed x.2 := by
      rw [he]
      exact hu
    obtain he | ⟨-, -, ⟨-, he⟩ | ⟨n, -, he⟩⟩ :=
      swBuddyAlloc_cases h.1.manages h.1.curr_le size
    · exact hend he hs
    · exact hend he hfound
    · exact hend he (takeBlock_indexed hfound n)
  | free ptr =>
    change swBuddyFree s ptr = some t at hstep
    rw [swBuddyFree] at hstep
    split at hstep
    · cases hstep
    split at hstep
    · cases hstep
      exact hs
    · rename_i n _
      have hkeeps : Indexed t = Indexed (dropBlock s n) :=
        returnToFreeArea_keeps (f := Indexed) (fun _ _ _ => rfl) (fun _ _ _ => rfl)
          (fun _ _ _ => rfl) hstep
      rw [hkeeps]
      exact hs

theorem poolRun_indexed {calls : List PoolCall} (h : Contained g s) (hs : Indexed s)
    (hok : Along poolStep NoWrapSize s calls) (hrun : run poolStep s calls = some t) :
    Tidy g t ∧ Indexed t :=
  run_invariant (fun s => Tidy g s ∧ Indexed s)
    (fun _ _ _ hs hc hstep => ⟨poolStep_regional hs.1 hc hstep, poolStep_indexed hs.1 hs.2 hstep⟩)
    ⟨⟨h.regional, Or.inr h⟩, hs⟩ hok hrun

theorem Tidy.heads (h : Tidy g s) {size : Nat} (hw : NoWrapSize s (.alloc size)) :
    ∃ part : Nat → Nat → Prop,
      (∀ a k, part a (k + 1) → part a k ∧ a + g.size k < 2 ^ 32) ∧
      (Admits s size → ∀ idx n l, FirstBin s size idx → s.chain idx = n :: l →
        s.addr n ≠ 0 ∧ part (s.addr n) idx) := by
  have hne {idx n : Nat} {l : List Nat} (hl : s.chain idx = n :: l) : s.addr n ≠ 0 :=
    h.1.core.addr_ne n (Or.inl ⟨idx, hl ▸ List.mem_cons_self⟩)
  by_cases hf : g.Fits
  · refine ⟨g.InRegion, fun a k hp => ⟨(hf.cut a k hp).1, (hf.cut a k hp).2.2⟩,
      fun _ idx n l _ hl => ⟨hne hl, ?_⟩⟩
    exact h.1.core.free_ok idx n (hl ▸ List.mem_cons_self)
  · have hin := h.2.resolve_left hf
    have hserved := hw.resolve_left (mt h.1.manages.fits_iff.mp hf)
    refine ⟨g.Part, fun a k hp =>
      ⟨(Geometry.Part.halves a k hp).1, (Geometry.Part.halves a k hp).2.2⟩,
      fun hadm idx n l hidx hl => ⟨hne hl, ?_⟩⟩
    exact (hin.first_part hserved (by have := hadm.1; omega) (by have := hadm.2; omega) idx n l
      hidx.low (h.1.manages.maxBin ▸ hidx.high) hl hidx.first).2

theorem Tidy.atomicAlloc_iff (h : Tidy g s) (hs : Indexed s) {size : Nat}
    (hw : NoWrapSize s (.alloc size)) : AtomicAlloc s size ↔ HasDescriptors s size := by
  obtain ⟨part, hcut, hhead⟩ := h.heads hw
  exact SierraTee.atomicAlloc_iff hcut h.1.manages hs h.1.curr_le hhead

/-- **Failing requests**: after any run with all blocks in the address space, a request leaves the
pool as it was if it fails, and does not fail where a block is free for it, exactly with a free
descriptor for every level by which that block is too large. -/
theorem poolRun_atomic_iff {poolStart minAllocSize heapSize : Nat} {s0 s : SwBuddyPool}
    {calls : List PoolCall} (hmin : minAllocSize < 2 ^ 32)
    (hpool : poolStart + (heapSize + getManageArea heapSize minAllocSize) < 2 ^ 32)
    (hinit : swBuddyInit poolStart (heapSize + getManageArea heapSize minAllocSize) minAllocSize
      heapSize = .ok s0)
    (hok : Along poolStep NoWrapSize s0 calls) (hrun : run poolStep s0 calls = some s)
    (size : Nat) (hw : NoWrapSize s (.alloc size)) :
    AtomicAlloc s size ↔ HasDescriptors s size := by
  obtain ⟨g, -, -, h0⟩ := swBuddyInit_contained hmin hpool hinit
  obtain ⟨h, hs⟩ := poolRun_indexed h0 (swBuddyInit_indexed hinit) hok hrun
  exact h.atomicAlloc_iff hs hw

/-- six requests of one page; the fifth takes the last of the eight descriptors -/
def onePageCalls : List PoolCall := List.replicate 6 (.alloc 4096)

theorem poolRun_atomic_iff_eightPages : ∃ s, run poolStep eightPages onePageCalls = some s ∧
    (AtomicAlloc s 4096 ↔ HasDescriptors s 4096) := by
  have hrun : (run poolStep eightPages onePageCalls).isSome = true := by decide +kernel
  obtain ⟨s, hs⟩ := Option.isSome_iff_exists.1 hrun
  obtain ⟨g, -, -, h0⟩ := swBuddyInit_contained (by decide) (by decide +kernel) eightPages_init
  have hfits : eightPages.memStart + 2 * eightPages.maxAllocSize < 2 ^ 32 := by decide +kernel
  have hok : Along poolStep NoWrapSize eightPages onePageCalls :=
    h0.regional.along_noWrap (h0.manages.fits_iff.mp hfits) _
  have hend : Tidy g s := poolRun_regional h0 hok hs
  have hw : NoWrapSize s (.alloc 4096) := by
    have hstart : s.memStart = eightPages.memStart :=
      hend.1.manages.memStart.trans h0.manages.memStart.symm
    have hmax : s.maxAllocSize = eightPages.maxAllocSize :=
      hend.1.manages.maxAllocSize.trans h0.manages.maxAllocSize.symm
    refine Or.inl ?_
    rw [hstart, hmax]
    exact hfits
  exact ⟨s, hs, poolRun_atomic_iff (by decide) (by decide +kernel) eightPages_init hok hs 4096 hw⟩

/-- **The defect**: with six pages in use all descriptors are, and the free block of two pages is
lost to a request of one page, which fails. -/
theorem atomicAlloc_can_fail : ∃ s, run poolStep eightPages onePageCalls = some s ∧
    (swBuddyAlloc s 4096).1 = 0 ∧ s.chain 1 ≠ [] ∧ (swBuddyAlloc s 4096).2.chain 1 = [] ∧
    ¬AtomicAlloc s 4096 := by
  have hrun : (run poolStep eightPages onePageCalls).isSome = true := by decide +kernel
  have hall : (run poolStep eightPages onePageCalls).map (fun s =>
      decide ((swBuddyAlloc s 4096).1 = 0 ∧ s.chain 1 ≠ [] ∧
        (swBuddyAlloc s 4096).2.chain 1 = [])) = some true := by decide +kernel
  obtain ⟨s, hs⟩ := Option.isSome_iff_exists.1 hrun
  rw [hs] at hall
  obtain ⟨hnull, hblock, hlost⟩ := of_decide_eq_true (Option.some.inj hall)
  refine ⟨s, hs, hnull, hblock, hlost, fun h => ?_⟩
  have hsame := congrArg FreeArea.chain (congrFun (h.unchanged hnull).freeArea 1)
  exact hblock (hsame.symm.trans hlost)

end

end SierraTee
