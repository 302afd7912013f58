import SierraTee.Buddy.Account
import SierraTee.Buddy.Order

/-!
# The allocation tree over all runs

* `Tidy.grown`, `Tidy.shrunk`  the tree after a request and after a free;
* `poolStep_inOrder`           the tree stays in order, so a search finds every live block;
* `Tidy.free_returns`          a free of a live block returns.
-/

namespace SierraTee
open Word SwBuddyPool Runs

/-- the address is that of a live block -/
def LiveBlock (s : SwBuddyPool) (ptr : Nat) : Prop := ∃ n ∈ s.allocTree.toList, s.addr n = ptr

instance (s : SwBuddyPool) (ptr : Nat) : Decidable (LiveBlock s ptr) :=
  inferInstanceAs (Decidable (∃ n ∈ s.allocTree.toList, s.addr n = ptr))

/-- the answer to a request and the pool behind it: the tree has a node more exactly if there is a
block, and the blocks that were live stay where they are -/
structure Grown (s : SwBuddyPool) (x : Nat × SwBuddyPool) : Prop where
  tree : x.1 = 0 ∧ x.2.allocTree = s.allocTree ∨
    ∃ n, x.1 ≠ 0 ∧ (∀ i ∈ s.allocTree.toList, x.2.addr i ≠ x.2.addr n) ∧
      x.2.allocTree = BTree.add x.2.addr n s.allocTree
  same : ∀ i ∈ s.allocTree.toList, x.2.addr i = s.addr i
  shape : x.2.shape = s.shape

section
variable {g : Geometry} {s t : SwBuddyPool} {size ptr n : Nat}

/-! ## Requests -/

theorem BuddyResult.grown {free live part : Nat → Nat → Prop} {bin : Nat}
    {r : Option Nat × SwBuddyPool} {x : Nat × SwBuddyPool}
    (hr : BuddyResult g free live part s bin r)
    (hx : r.1 = none ∧ x = (0, r.2) ∨ ∃ n, r.1 = some n ∧ x = takeBlock r.2 n) :
    Grown s x := by
  have htree := tree_of_fixed hr.fixed
  have hsame : ∀ i ∈ s.allocTree.toList, r.2.addr i = s.addr i :=
    fun i hi => congrArg SwArea.memAddr (hr.same i hi)
  obtain ⟨-, rfl⟩ | ⟨n, hn, rfl⟩ := hx
  · exact ⟨Or.inl ⟨rfl, htree⟩, hsame, shape_of_fixed hr.fixed⟩
  · obtain ⟨hheld, -⟩ := hr.node n hn
    have hadd : (takeBlock r.2 n).2.allocTree = BTree.add r.2.addr n s.allocTree := by
      rw [hheld.takeBlock_eq, ← htree]
    have haddr : (takeBlock r.2 n).2.addr = r.2.addr := by
      rw [hheld.takeBlock_eq]
      rfl
    have hshape : (takeBlock r.2 n).2.shape = r.2.shape := by
      rw [hheld.takeBlock_eq]
      rfl
    refine ⟨Or.inr ⟨n, hheld.addr_ne, fun i hi => ?_, ?_⟩, ?_, hshape.trans ?_⟩
    · rw [haddr]
      rw [← htree] at hi
      exact ((hheld.apart i (Or.inr hi)).ne (g.size_pos _) (g.size_pos _)).symm
    · rw [haddr]
      exact hadd
    · rw [haddr]
      exact hsame
    · exact shape_of_fixed hr.fixed

theorem Tidy.grown (h : Tidy g s) (hok : NoWrapSize s (.alloc size)) :
    Grown s (swBuddyAlloc s size) := by
  have hcurr := h.1.curr_le
  obtain he | ⟨h1, h2, hrest⟩ := swBuddyAlloc_cases h.1.manages hcurr size
  · rw [he]
    exact ⟨Or.inl ⟨rfl, rfl⟩, fun _ _ => rfl, rfl⟩
  · obtain ⟨hbin, -⟩ := h.1.manages.requestBin_spec size (h1.trans hcurr) (h2.trans hcurr)
    by_cases hf : g.Fits
    · exact (h.1.found hf hbin).grown hrest
    · have hin := h.2.resolve_left hf
      have hserved := hok.resolve_left (mt h.1.manages.fits_iff.mp hf)
      exact (hin.found hserved h1 h2).grown hrest

theorem Grown.inOrder {x : Nat × SwBuddyPool} (h : Grown s x)
    (ho : BTree.InOrder s.addr s.allocTree) : BTree.InOrder x.2.addr x.2.allocTree := by
  have hold : BTree.InOrder x.2.addr s.allocTree := Chain.InOrder.congr ho h.same
  obtain ⟨-, he⟩ | ⟨n, -, hne, he⟩ := h.tree
  · rw [he]
    exact hold
  · rw [he]
    exact BTree.add_inOrder hold hne

theorem Grown.length {x : Nat × SwBuddyPool} (h : Grown s x) :
    x.2.allocTree.toList.length = s.allocTree.toList.length + if 0 < x.1 then 1 else 0 := by
  obtain ⟨h0, he⟩ | ⟨n, h0, hne, he⟩ := h.tree
  · rw [he, if_neg (by omega)]
    rfl
  · rw [he, if_pos (by omega), (BTree.add_perm hne).length_eq, List.length_cons]

/-! ## Frees -/

theorem swBuddyFree_found (h0 : ptr ≠ 0) (hs : BTree.search s.addr ptr s.allocTree = some n) :
    swBuddyFree s ptr = returnToFreeArea (dropBlock s n) n (s.bin n) := by
  rw [swBuddyFree, if_neg h0, hs]

theorem Tidy.free_area (h : Tidy g s) (h0 : ptr ≠ 0)
    (hs : BTree.search s.addr ptr s.allocTree = some n) (hr : swBuddyFree s ptr = some t) :
    ∀ i ∈ BTree.toList (BTree.remove s.addr n s.allocTree), t.area i = s.area i := by
  rw [swBuddyFree_found h0 hs] at hr
  have hn := (BTree.search_some hs).1
  have hm : g.Manages (dropBlock s n) := h.1.manages.of_shape (dropBlock_shape s n)
  obtain hf | hin := h.2
  · obtain ⟨hcore, hheld⟩ := h.1.core.drop hs
    obtain ⟨u, hu, hjoined⟩ := returnToFreeArea_region hf hm hcore hheld
      (h.1.core.live_ok n hn)
    obtain rfl := Option.some.inj (hu.symm.trans hr)
    exact hjoined.same
  · obtain ⟨hcore, hheld⟩ := hin.core.drop hs
    exact (returnToFreeArea_merged hm hcore hheld (hin.core.live_ok n hn)
      (hin.phantom (hin.phantom_free hn)) hr).same

theorem Tidy.shrunk (h : Tidy g s) (h0 : ptr ≠ 0)
    (hs : BTree.search s.addr ptr s.allocTree = some n) (hr : swBuddyFree s ptr = some t) :
    t.allocTree = BTree.remove s.addr n s.allocTree ∧
      ∀ i ∈ t.allocTree.toList, t.addr i = s.addr i := by
  have hsame := h.free_area h0 hs hr
  rw [swBuddyFree_found h0 hs] at hr
  have htree : t.allocTree = BTree.remove s.addr n s.allocTree :=
    tree_of_fixed (returnToFreeArea_fixed hr)
  refine ⟨htree, fun i hi => congrArg SwArea.memAddr (hsame i ?_)⟩
  rw [← htree]
  exact hi

theorem swBuddyFree_shape (hr : swBuddyFree s ptr = some t) : t.shape = s.shape := by
  rw [swBuddyFree] at hr
  split at hr
  · cases hr
  · split at hr
    · cases hr
      rfl
    · rename_i n _
      exact (shape_of_fixed (returnToFreeArea_fixed hr)).trans (dropBlock_shape s n)

theorem LiveBlock.found (h : LiveBlock s ptr) (ho : BTree.InOrder s.addr s.allocTree) :
    ∃ n, BTree.search s.addr ptr s.allocTree = some n := by
  obtain ⟨n, hn, rfl⟩ := h
  exact ⟨n, BTree.search_complete ho hn⟩

theorem Regional.live_ne (h : Regional g s) (hl : LiveBlock s ptr) : ptr ≠ 0 := by
  obtain ⟨n, hn, rfl⟩ := hl
  exact h.core.addr_ne n (Or.inr hn)

theorem swBuddyFree_dead (h0 : ptr ≠ 0) (hl : ¬LiveBlock s ptr) : swBuddyFree s ptr = some s :=
  swBuddyFree_unknown h0 fun n hn he => hl ⟨n, hn, he⟩

theorem Tidy.free_length (h : Tidy g s) (ho : BTree.InOrder s.addr s.allocTree)
    (hl : LiveBlock s ptr) (hr : swBuddyFree s ptr = some t) :
    t.allocTree.toList.length + 1 = s.allocTree.toList.length := by
  obtain ⟨n, hs⟩ := hl.found ho
  rw [(h.shrunk (h.1.live_ne hl) hs hr).1, ← (BTree.remove_perm hs).length_eq, List.length_cons]

theorem Tidy.free_returns (h : Tidy g s) (ho : BTree.InOrder s.addr s.allocTree)
    (hend : s.memStart + 2 * s.maxAllocSize ≠ 2 ^ 32) (hl : LiveBlock s ptr) :
    ∃ t, swBuddyFree s ptr = some t := by
  have h0 := h.1.live_ne hl
  obtain hf | hin := h.2
  · obtain ⟨t, ht, -⟩ := h.1.free hf h0
    exact ⟨t, ht⟩
  · obtain ⟨n, hs⟩ := hl.found ho
    refine hin.free_returns (fun he => hend ?_) h0 hs
    rw [hin.manages.memStart, hin.manages.maxAllocSize]
    unfold Geometry.memEnd at he
    omega

/-! ## Runs -/

theorem poolStep_inOrder {c : PoolCall} (h : Tidy g s) (ho : BTree.InOrder s.addr s.allocTree)
    (hok : NoWrapSize s c) (hstep : poolStep s c = some t) : BTree.InOrder t.addr t.allocTree := by
  cases c with
  | alloc size =>
    obtain rfl := Option.some.inj hstep
    exact (h.grown hok).inOrder ho
  | free ptr =>
    change swBuddyFree s ptr = some t at hstep
    by_cases h0 : ptr = 0
    · rw [swBuddyFree, if_pos h0] at hstep
      cases hstep
    by_cases hl : LiveBlock s ptr
    · obtain ⟨n, hs⟩ := hl.found ho
      obtain ⟨htree, hsame⟩ := h.shrunk h0 hs hstep
      have hsub : BTree.InOrder s.addr t.allocTree := by
        rw [htree]
        exact List.Pairwise.sublist (BTree.remove_sublist n s.allocTree) ho
      exact Chain.InOrder.congr hsub hsame
    · obtain rfl := Option.some.inj ((swBuddyFree_dead h0 hl).symm.trans hstep)
      exact ho

theorem initBlocks_fixed {memStart maxBin k : Nat} (h : initBlocks s memStart maxBin k = .ok t) :
    t.fixed = s.fixed := by
  induction k generalizing s memStart with
  | zero =>
    cases h
    rfl
  | succ k ih =>
    rw [initBlocks] at h
    split at h
    · cases h
    · rename_i f u hf
      obtain ⟨-, next, rfl⟩ := getFreeNode_some hf
      split at h
      · cases h
      · exact (ih h).trans rfl

theorem swBuddyInit_fixed {poolStart poolSize minAllocSize maxAllocSize : Nat}
    (h : swBuddyInit poolStart poolSize minAllocSize maxAllocSize = .ok s) :
    ∃ memStart memSize maxBin, s.fixed = (blankPool poolStart poolSize minAllocSize maxAllocSize
      memStart memSize maxBin).fixed := by
  unfold swBuddyInit at h
  dsimp only at h
  split_ifs at h
  all_goals exact ⟨_, _, _, initBlocks_fixed h⟩

end

end SierraTee
