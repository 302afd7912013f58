import SierraTee.Buddy.Coalesce

/-!
# Containment over all runs

* `swBuddyInit_contained`    a new pool is `Contained`;
* `Contained.alloc_phantom`  the other requests are served from the phantom;
* `swBuddyAlloc_inside_iff`  after every run whose requests meet the condition all live blocks lie
                             inside the memory, and the next block does if and only if its request
                             meets the condition.
-/

namespace SierraTee
open Word SwBuddyPool Runs

section
variable {g : Geometry} {s t : SwBuddyPool}

theorem splitLoop_addr {n bin idx m : Nat} (hn : s.addr n ≠ 0)
    (h : (splitLoop s n bin idx).1 = some m) :
    m = n ∧ (splitLoop s n bin idx).2.addr n = s.addr n := by
  induction idx generalizing s with
  | zero => exact absurd h (by simp [splitLoop])
  | succ k ih =>
    rw [splitLoop] at h ⊢
    split at h
    · exact absurd h (by simp)
    · rename_i hk
      rw [if_neg hk]
      cases hf : getFreeNode s with
      | none =>
        rw [hf] at h
        exact absurd h (by simp)
      | some ft =>
        obtain ⟨f, u⟩ := ft
        obtain ⟨hf0, next, rfl⟩ := getFreeNode_some hf
        have hnf : n ≠ f := fun e => hn (e ▸ hf0)
        rw [hf] at h
        simp only at h ⊢
        generalize hv : ((claimNode s f next).setArea f _).putFree k f = v at h ⊢
        have hav : v.addr n = s.addr n := by
          rw [← hv]
          show ((claimNode s f next).setArea f _).addr n = _
          rw [addr_setArea_ne _ hnf]
          show (Function.update s.area f _ n).memAddr = _
          rw [Function.update_of_ne hnf]
          rfl
        by_cases hb : bin = k
        · rw [if_pos hb] at h ⊢
          refine ⟨(Option.some.inj h).symm, ?_⟩
          rw [addr_setArea_self]
          exact hav
        · rw [if_neg hb] at h ⊢
          obtain ⟨e1, e2⟩ := ih (by rw [hav]; exact hn) h
          exact ⟨e1, e2.trans hav⟩

theorem Contained.alloc_phantom {size : Nat} (h : Contained g s)
    (hno : ¬ ServedInside s (.alloc size)) (hp : (swBuddyAlloc s size).1 ≠ 0) :
    (swBuddyAlloc s size).1 = g.memEnd := by
  have hcurr : s.currHeapSize ≤ g.size g.depth := by
    have := h.account
    omega
  simp only [ServedInside, not_or, not_exists, not_and] at hno
  obtain ⟨h1, h2, h3⟩ := hno
  obtain ⟨hbin, -⟩ := h.manages.requestBin_spec size (by omega) (by omega)
  rw [h.manages.maxBin] at h3
  have hempty : ∀ b, requestBin s size ≤ b → b ≤ g.depth + 1 → b ≠ g.depth → s.chain b = [] :=
    fun b hb1 hb2 hb3 => not_not.1 (h3 b hb1 hb2 (by omega))
  rw [swBuddyAlloc, if_neg h1] at hp ⊢
  simp only at hp ⊢
  rw [if_neg h2, if_neg (by rw [h.manages.maxAllocSize]; omega)] at hp ⊢
  rcases getFreeBuddy_cases s (requestBin s size) with ⟨-, he⟩ | ⟨idx, n, l, hlo, hhi, hl, -, he⟩
  · rw [he] at hp
    exact absurd rfl hp
  rw [h.manages.maxBin] at hhi
  obtain rfl : idx = g.depth := by
    by_contra hc
    rw [hempty idx hlo hhi hc] at hl
    exact absurd hl (by simp)
  have hn : n ∈ s.chain g.depth := hl ▸ List.mem_cons_self
  have han : s.addr n = g.memEnd := by
    rcases h.core.free_ok _ n hn with ⟨-, hk⟩ | ⟨-, ha⟩ | ⟨hk, -⟩
    · omega
    · exact ha
    · omega
  have hn0 : (s.takeFree g.depth n).addr n ≠ 0 := h.core.addr_ne n (Or.inl ⟨_, hn⟩)
  rw [he] at hp ⊢
  by_cases hb : g.depth = requestBin s size
  · rw [if_pos hb]
    exact han
  · rw [if_neg hb] at hp ⊢
    cases hr : (splitLoop (s.takeFree g.depth n) n (requestBin s size) g.depth).1 with
    | none =>
      generalize splitLoop (s.takeFree g.depth n) n (requestBin s size) g.depth = r at *
      obtain ⟨r1, r2⟩ := r
      obtain rfl : r1 = none := hr
      exact absurd rfl hp
    | some m =>
      obtain ⟨e1, e2⟩ := splitLoop_addr hn0 hr
      generalize splitLoop (s.takeFree g.depth n) n (requestBin s size) g.depth = r at *
      obtain ⟨r1, r2⟩ := r
      obtain rfl : r1 = some m := hr
      subst e1
      exact e2.trans han

/-! ## the new pool -/

theorem getManageArea_bounds {a m : Nat} (ha : a ≤ m) (hm : m - a < 20) (h32 : a < 32) :
    0 < getManageArea (2 ^ m) (2 ^ a) ∧ getManageArea (2 ^ m) (2 ^ a) ≤ 2 ^ 24 := by
  have hn : 2 ^ m >>> logOf2 (2 ^ a) = 2 ^ (m - a) := by
    rw [logOf2_two_pow h32, Nat.shiftRight_eq_div_pow, Nat.pow_div ha (by omega)]
  have hle : 2 ^ (m - a) ≤ 2 ^ 19 := Nat.pow_le_pow_right (by omega) (by omega)
  have hpos : 0 < 2 ^ (m - a) := Nat.two_pow_pos _
  unfold getManageArea
  rw [hn]
  generalize 2 ^ (m - a) = n at *
  have hlen : u32 (n * sizeofSwArea) = n * 28 := u32_of_lt (by unfold sizeofSwArea; omega)
  simp only [hlen, pageSize]
  split
  · rw [u32_of_lt (by omega)]
    omega
  · omega

theorem initBlocks_one {memStart maxBin : Nat} (h : initBlocks s memStart maxBin 1 = .ok t) :
    ∃ f u, getFreeNode s = some (f, u) ∧ maxBin < maxBins ∧
      t = (u.setArea f ⟨memStart, u.maxAllocSize, maxBin⟩).putFree maxBin f := by
  rw [initBlocks] at h
  cases hf : getFreeNode s with
  | none =>
    rw [hf] at h
    exact absurd h (by simp)
  | some fu =>
    obtain ⟨f, u⟩ := fu
    rw [hf] at h
    simp only at h
    split at h
    · exact absurd h (by simp)
    · exact ⟨f, u, rfl, by omega, (Except.ok.inj h).symm⟩

theorem firstBlock_contained (hm : g.Manages s) (hc : ∀ b, s.chain b = [])
    (ht : s.allocTree = .nil) (hcurr : s.currHeapSize = g.size g.depth) {f : Nat} {u : SwBuddyPool}
    (hf : getFreeNode s = some (f, u)) (size : Nat) :
    Contained g ((u.setArea f ⟨g.memStart, size, g.depth + 1⟩).putFree (g.depth + 1) f) := by
  have hnone : ∀ i, ¬ s.Listed i := by
    rintro i (⟨b, hb⟩ | hi)
    · rw [hc b] at hb
      exact absurd hb (by simp)
    · rw [ht] at hi
      exact absurd hi (by simp [BTree.toList])
  have hcore : Core g g.Free g.Inside s := by
    have hn : ∀ b, ∀ i, i ∉ s.chain b := fun b i hi => hnone i (Or.inl ⟨b, hi⟩)
    have hnt : ∀ i, i ∉ s.allocTree.toList := fun i hi => hnone i (Or.inr hi)
    exact {
      chain_nodup := fun b => by rw [hc b]; exact List.nodup_nil
      tree_nodup := by rw [ht]; exact List.nodup_nil
      unshared := fun b i hi => absurd hi (hn b i)
      chain_bin := fun b i hi => absurd hi (hn b i)
      free_ok := fun b i hi => absurd hi (hn b i)
      free_size := fun b _ i hi => absurd hi (hn b i)
      live_ok := fun i hi => absurd hi (hnt i)
      live_size := fun i hi => absurd hi (hnt i)
      addr_ne := fun i hi => absurd hi (hnone i)
      apart := fun i _ hi => absurd hi (hnone i) }
  obtain ⟨hu, hfix, hch, hl, -, -⟩ := hcore.getFreeNode hf
  have hnu : ∀ i, ¬ u.Listed i := by
    intro i hi
    obtain ⟨b, hb⟩ | ht' := hi
    · exact hnone i (Or.inl ⟨b, hch b ▸ hb⟩)
    · rw [tree_of_fixed hfix] at ht'
      exact hnone i (Or.inr ht')
  have hset := hu.setArea hl ⟨g.memStart, size, g.depth + 1⟩
  have haddr := addr_setArea_self u f ⟨g.memStart, size, g.depth + 1⟩
  have hheld : Held g (u.setArea f ⟨g.memStart, size, g.depth + 1⟩) f (g.depth + 1) :=
    ⟨hl, by rw [haddr]; exact g.start_pos.ne', fun i hi => absurd hi (hnu i)⟩
  have htree : ((u.setArea f ⟨g.memStart, size, g.depth + 1⟩).putFree (g.depth + 1) f).allocTree
      = .nil := (tree_of_fixed hfix).trans ht
  refine ⟨hm.of_fixed hfix, hset.putFree hheld (bin_setArea_self u f _) (fun h => ?_) ?_, ?_,
    Or.inl ?_⟩
  · omega
  · rw [haddr]
    exact Or.inr (Or.inr ⟨rfl, rfl⟩)
  · have e : liveSize ((u.setArea f ⟨g.memStart, size, g.depth + 1⟩).putFree (g.depth + 1) f)
        = 0 := by
      rw [liveSize, htree]
      rfl
    rw [e, Nat.add_zero, ← hcurr]
    show u.fixed.currHeapSize = s.fixed.currHeapSize
    rw [hfix]
  · rw [chain_putFree_self]
    exact List.ne_nil_of_mem ((Chain.addSorted_perm f _).symm.subset List.mem_cons_self)

theorem swBuddyInit_contained {poolStart minAllocSize heapSize : Nat}
    (hmin : minAllocSize < 2 ^ 32)
    (hpool : poolStart + (heapSize + getManageArea heapSize minAllocSize) < 2 ^ 32)
    (hinit : swBuddyInit poolStart (heapSize + getManageArea heapSize minAllocSize) minAllocSize
      heapSize = .ok s) :
    ∃ g : Geometry, g.memStart = s.memStart ∧ g.memEnd = s.memStart + s.memSize ∧
      Contained g s := by
  rw [swBuddyInit] at hinit
  split at hinit
  · exact absurd hinit (by simp)
  rename_i hpa
  split at hinit
  · exact absurd hinit (by simp)
  rename_i hpm
  obtain ⟨a, rfl⟩ := (isPowOf2_iff _).1 (by simpa using hpa)
  obtain ⟨m, rfl⟩ := (isPowOf2_iff _).1 (by simpa using hpm)
  have ha : a < 32 := lt_32_of_two_pow_lt hmin
  have hm : m < 32 := lt_32_of_two_pow_lt (by omega)
  have hnodes : 2 ^ m >>> m = 1 := by
    rw [Nat.shiftRight_eq_div_pow, Nat.div_self (Nat.two_pow_pos m)]
  have hpm0 : 0 < 2 ^ m := Nat.two_pow_pos m
  have hmem : ∀ x y : Nat, poolStart + (x + y) < 2 ^ 32 → (x + y + 2 ^ 64 - y) % 2 ^ 64 = x := by
    intro x y hxy
    omega
  simp only [logOf2_two_pow ha, logOf2_two_pow hm, hnodes, hmem _ _ hpool] at hinit
  rw [if_pos (show 0 < 1 by omega), if_pos (show 0 < 1 by omega)] at hinit
  split at hinit
  · exact absurd hinit (by simp)
  rename_i hbins
  rw [if_neg (by omega)] at hinit
  obtain ⟨f, u, hf, hmax, rfl⟩ := initBlocks_one hinit
  have ham : a ≤ m := by
    by_contra hc
    have hz : 2 ^ m >>> logOf2 (2 ^ a) = 0 := by
      rw [logOf2_two_pow ha, Nat.shiftRight_eq_div_pow]
      exact Nat.div_eq_of_lt (Nat.pow_lt_pow_right (by omega) (by omega))
    rw [getFreeNode] at hf
    simp [blankPool, hz] at hf
  have hbin : u32 (sub32 m a + 1) = m - a + 1 := by
    rw [sub32_of_le ham]
    exact u32_of_lt (by omega)
  rw [hbin] at hf hmax ⊢
  have hsize : 2 ^ (a + (m - a)) = 2 ^ m := by rw [Nat.add_sub_cancel' ham]
  have hm20 : m - a < 20 := by
    unfold maxBins maxBuddyBinShift minBuddyBinShift at hmax
    omega
  have hpos := (getManageArea_bounds ham hm20 ha).1
  generalize getManageArea (2 ^ m) (2 ^ a) = len at *
  have hstart : u32 (poolStart + len) = poolStart + len := u32_of_lt (by omega)
  have hword : u32 (2 ^ m) = 2 ^ m := u32_of_lt (by omega)
  rw [hstart] at hf ⊢
  let g : Geometry := {
    memStart := poolStart + len
    minShift := a
    depth := m - a
    start_pos := by omega
    below := by rw [hsize]; omega
    bins := hmax }
  have hg : g.size g.depth = 2 ^ m := hsize
  have hman : g.Manages (blankPool poolStart (2 ^ m + len) (2 ^ a) (2 ^ m) (poolStart + len)
      (2 ^ m) (m - a + 1)) :=
    ⟨rfl, hword.trans hg.symm, rfl, hg.symm, rfl⟩
  have hcont := firstBlock_contained hman (fun _ => rfl) rfl (hword.trans hg.symm) hf
    u.maxAllocSize
  obtain ⟨-, next, rfl⟩ := getFreeNode_some hf
  refine ⟨g, rfl, ?_, hcont⟩
  show g.memStart + g.size g.depth = poolStart + len + u32 (2 ^ m)
  rw [hg, hword]

/-! ## runs -/

theorem Contained.run {calls : List PoolCall} (h : Contained g s)
    (hok : Along poolStep ServedInside s calls) (hrun : run poolStep s calls = some t) :
    Contained g t := by
  refine run_invariant (Contained g) (fun s c s' hs hc hstep => ?_) h hok hrun
  cases c with
  | alloc size =>
    obtain rfl := Option.some.inj hstep
    exact (hs.alloc hc).1
  | free ptr => exact hs.free hstep

/-- the pointer names a live block that lies inside the managed memory of `s0` -/
def InsideBlock (s0 s : SwBuddyPool) (ptr size : Nat) : Prop :=
  ∃ n ∈ s.allocTree.toList, s.addr n = ptr ∧ 0 < (s.area n).blockSize ∧
    size ≤ (s.area n).blockSize ∧ s0.memStart ≤ ptr ∧
    ptr + (s.area n).blockSize ≤ s0.memStart + s0.memSize

/-- **Containment**: after any run whose requests are refused or served from a bin other than that
of the phantom, all live blocks are inside the memory, and a further request gets a block inside
the memory exactly when it meets the condition. -/
theorem swBuddyAlloc_inside_iff {poolStart minAllocSize heapSize : Nat} {s0 s : SwBuddyPool}
    {calls : List PoolCall} (hmin : minAllocSize < 2 ^ 32)
    (hpool : poolStart + (heapSize + getManageArea heapSize minAllocSize) < 2 ^ 32)
    (hinit : swBuddyInit poolStart (heapSize + getManageArea heapSize minAllocSize) minAllocSize
      heapSize = .ok s0)
    (hok : Along poolStep ServedInside s0 calls) (hrun : run poolStep s0 calls = some s) :
    (∀ n ∈ s.allocTree.toList, InsideBlock s0 s (s.addr n) 0) ∧
      ∀ size, (swBuddyAlloc s size).1 ≠ 0 →
        (InsideBlock s0 (swBuddyAlloc s size).2 (swBuddyAlloc s size).1 size ↔
          ServedInside s (.alloc size)) := by
  obtain ⟨g, hstart, hend, h0⟩ := swBuddyInit_contained hmin hpool hinit
  have h := h0.run hok hrun
  have inside : ∀ {t : SwBuddyPool}, Contained g t → ∀ n ∈ t.allocTree.toList, ∀ size,
      size ≤ (t.area n).blockSize → InsideBlock s0 t (t.addr n) size := by
    intro t ht n hn size hsize
    have hsz := ht.core.live_size n hn
    have hin := ht.core.live_ok n hn
    refine ⟨n, hn, rfl, by rw [hsz]; exact g.size_pos _, hsize, ?_, ?_⟩
    · rw [← hstart]
      exact hin.1
    · rw [hsz, ← hend]
      exact hin.2
  refine ⟨fun n hn => inside h n hn 0 (Nat.zero_le _), fun size hp => ⟨fun hb => ?_, fun hs => ?_⟩⟩
  · by_contra hno
    obtain ⟨n, -, -, hpos, -, -, hle⟩ := hb
    rw [h.alloc_phantom hno hp, ← hend] at hle
    omega
  · obtain ⟨hc, hb⟩ := h.alloc hs
    obtain ⟨n, hn, ha, hle⟩ := hb hp
    rw [← ha]
    exact inside hc n hn size hle

/-- only live blocks are freed -/
def FreesLive (s : SwBuddyPool) : PoolCall → Prop
  | .alloc _ => True
  | .free ptr => ∃ n ∈ s.allocTree.toList, s.addr n = ptr

instance (s : SwBuddyPool) (c : PoolCall) : Decidable (FreesLive s c) :=
  match c with
  | .alloc _ => isTrue trivial
  | .free ptr => inferInstanceAs (Decidable (∃ n ∈ s.allocTree.toList, s.addr n = ptr))

/-- a pool of eight pages behind 0x10000 -/
def eightPages : SwBuddyPool :=
  ((swBuddyInit 0x10000 (32768 + getManageArea 32768 4096) 4096 32768).toOption).getD
    (blankPool 0 0 0 0 0 0 0)

theorem eightPages_init :
    swBuddyInit 0x10000 (32768 + getManageArea 32768 4096) 4096 32768 = .ok eightPages := by
  have h : (swBuddyInit 0x10000 (32768 + getManageArea 32768 4096) 4096 32768).toOption.isSome
      = true := by decide +kernel
  unfold eightPages
  generalize swBuddyInit 0x10000 (32768 + getManageArea 32768 4096) 4096 32768 = r at *
  cases r with
  | error e => exact absurd h (by simp [Except.toOption])
  | ok s => rfl

theorem swBuddyAlloc_inside_iff_eightPages :
    ∃ s, run poolStep eightPages [.alloc 8192, .free 0x11000] = some s ∧
      ∀ size, (swBuddyAlloc s size).1 ≠ 0 →
        (InsideBlock eightPages (swBuddyAlloc s size).2 (swBuddyAlloc s size).1 size ↔
          ServedInside s (.alloc size)) := by
  have hrun : (run poolStep eightPages [.alloc 8192, .free 0x11000]).isSome = true := by
    decide +kernel
  obtain ⟨s, hs⟩ := Option.isSome_iff_exists.1 hrun
  have hserved : ServedInside eightPages (.alloc 8192) :=
    Or.inr (Or.inr ⟨4, by decide +kernel⟩)
  have hok : Along poolStep ServedInside eightPages [.alloc 8192, .free 0x11000] := by
    refine ⟨hserved, ?_⟩
    show Along poolStep ServedInside (swBuddyAlloc eightPages 8192).2 [.free 0x11000]
    refine ⟨trivial, ?_⟩
    split <;> trivial
  exact ⟨s, hs, (swBuddyAlloc_inside_iff (by decide) (by decide +kernel) eightPages_init hok
    hs).2⟩

/-- four requests of two pages each, then the frees of the first and of the third block -/
def fragmentingCalls : List PoolCall :=
  [.alloc 8192, .alloc 8192, .alloc 8192, .alloc 8192, .free 0x11000, .free 0x15000]

/-- **The defect**: with two free blocks of two pages that are not neighbours, a request of four
pages is served from the phantom, and the block starts where the memory ends. -/
theorem swBuddyAlloc_outside :
    ¬ ∀ (poolStart minAllocSize heapSize : Nat) (s0 s : SwBuddyPool) (calls : List PoolCall),
      swBuddyInit poolStart (heapSize + getManageArea heapSize minAllocSize) minAllocSize heapSize
        = .ok s0 →
      Along poolStep FreesLive s0 calls → run poolStep s0 calls = some s →
      ∀ size, (swBuddyAlloc s size).1 ≠ 0 →
        InsideBlock s0 (swBuddyAlloc s size).2 (swBuddyAlloc s size).1 size := by
  intro hall
  have hlive : Along poolStep FreesLive eightPages fragmentingCalls := by decide +kernel
  have hptr : (run poolStep eightPages fragmentingCalls).map (fun s => (swBuddyAlloc s 16384).1)
      = some (eightPages.memStart + eightPages.memSize) := by decide +kernel
  have hne : eightPages.memStart + eightPages.memSize ≠ 0 := by decide +kernel
  obtain ⟨s, hs, hp⟩ := Option.map_eq_some_iff.1 hptr
  obtain ⟨n, -, -, hpos, -, -, hle⟩ := hall _ _ _ eightPages s fragmentingCalls eightPages_init
    hlive hs 16384 (by rw [hp]; exact hne)
  rw [hp] at hle
  omega

end
end SierraTee
