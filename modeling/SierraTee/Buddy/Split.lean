import SierraTee.Buddy.Invariant

/-!
# Taking a block and giving it back (`get_free_node`, `get_free_buddy`, `return_to_free_area`)

* `getFreeNode_some`    a free descriptor has address 0, so it is not listed;
* `splitLoop_spec`      the loop keeps the blocks apart, hands out the lower part of the block it is
                        given and puts every upper half into its bin;
* `getFreeBuddy_cases`  the block comes from the first bin that is not empty;
* `Core.merge`          two neighbours of a bin become one block of the next bin;
* `Chain.search_tail`   the removal of the first node does not hide the others.
-/

namespace SierraTee
open Word

namespace SwBuddyPool

def fixed (s : SwBuddyPool) : SwBuddyPool :=
  { s with area := fun _ => ⟨0, 0, 0⟩, freeArea := fun _ => ⟨[], 0⟩, nextFreeIndex := 0 }

def shape (s : SwBuddyPool) : SwBuddyPool :=
  { s.fixed with allocTree := .nil, allocCnt := 0, currHeapSize := 0 }

theorem shape_of_fixed {s t : SwBuddyPool} (h : t.fixed = s.fixed) : t.shape = s.shape := by
  rw [shape, shape, h]

theorem tree_of_fixed {s t : SwBuddyPool} (h : t.fixed = s.fixed) : t.allocTree = s.allocTree := by
  show t.fixed.allocTree = s.fixed.allocTree
  rw [h]

@[simp] theorem fixed_setArea (s : SwBuddyPool) (i : Nat) (a : SwArea) :
    (s.setArea i a).fixed = s.fixed := rfl
@[simp] theorem fixed_putFree (s : SwBuddyPool) (b i : Nat) : (s.putFree b i).fixed = s.fixed := rfl
@[simp] theorem fixed_takeFree (s : SwBuddyPool) (b i : Nat) :
    (s.takeFree b i).fixed = s.fixed := rfl

end SwBuddyPool

structure Geometry.Manages (g : Geometry) (s : SwBuddyPool) : Prop where
  memStart : s.memStart = g.memStart
  memSize : s.memSize = g.size g.depth
  minAllocSize : s.minAllocSize = 2 ^ g.minShift
  maxAllocSize : s.maxAllocSize = g.size g.depth
  maxBin : s.maxBin = g.depth + 1

namespace Geometry
variable {g : Geometry} {s t : SwBuddyPool}

theorem Manages.of_shape (h : g.Manages s) (e : t.shape = s.shape) : g.Manages t :=
  ⟨(congrArg SwBuddyPool.memStart e).trans h.memStart,
    (congrArg SwBuddyPool.memSize e).trans h.memSize,
    (congrArg SwBuddyPool.minAllocSize e).trans h.minAllocSize,
    (congrArg SwBuddyPool.maxAllocSize e).trans h.maxAllocSize,
    (congrArg SwBuddyPool.maxBin e).trans h.maxBin⟩

theorem Manages.of_fixed (h : g.Manages s) (e : t.fixed = s.fixed) : g.Manages t :=
  h.of_shape (SwBuddyPool.shape_of_fixed e)

theorem size_lt_word {k : Nat} (hk : k ≤ g.depth) : g.size k < 2 ^ 32 := by
  have h1 := g.size_le hk
  have h2 := g.memEnd_lt
  unfold memEnd at h2
  omega

theorem Manages.binSize (h : g.Manages s) {b : Nat} (hb : b ≤ g.depth) :
    s.binSize b = g.size b := by
  rw [SwBuddyPool.binSize, h.minAllocSize, Nat.shiftLeft_eq, ← Nat.pow_add]
  exact u32_of_lt (size_lt_word hb)

end Geometry

open SwBuddyPool

theorem getFreeNode_some {s t : SwBuddyPool} {i : Nat} (h : getFreeNode s = some (i, t)) :
    s.addr i = 0 ∧ ∃ next, t = claimNode s i next := by
  unfold getFreeNode at h
  split at h
  · rename_i j hj
    cases h
    exact ⟨by simpa [isFreeNode, addr] using List.find?_some hj, _, rfl⟩
  · split at h
    · rename_i j hj
      cases h
      exact ⟨by simpa [isFreeNode, addr] using List.find?_some hj, _, rfl⟩
    · exact absurd h (by simp)

section
variable {g : Geometry} {free live : Nat → Nat → Prop} {s : SwBuddyPool}

theorem SwBuddyPool.Core.getFreeNode {t : SwBuddyPool} {f : Nat} (h : Core g free live s)
    (hf : getFreeNode s = some (f, t)) :
    Core g free live t ∧ t.fixed = s.fixed ∧ (∀ b, t.chain b = s.chain b) ∧ ¬ t.Listed f ∧
      (∀ i, i ≠ f → t.area i = s.area i) ∧
      ∀ n k, Held g s n k → n ≠ f ∧ Held g t n k ∧ t.addr n = s.addr n := by
  obtain ⟨ha, next, rfl⟩ := getFreeNode_some hf
  have hl : ¬ s.Listed f := fun hl => h.addr_ne f hl ha
  refine ⟨(h.setArea hl ⟨0, 0, 0⟩).congr rfl (fun _ => rfl) rfl, rfl, fun _ => rfl, hl,
    fun i hi => area_setArea_ne s hi ⟨0, 0, 0⟩, ?_⟩
  intro n k hn
  have hnf : n ≠ f := fun e => hn.addr_ne (e ▸ ha)
  exact ⟨hnf, (hn.setArea_ne hnf hl ⟨0, 0, 0⟩).mono rfl fun _ hi => hi,
    addr_setArea_ne s hnf _⟩

/-- what `splitLoop` does with the held block `n`, from bin `idx` down -/
structure SplitResult (g : Geometry) (free live part : Nat → Nat → Prop) (s : SwBuddyPool)
    (n bin idx : Nat) (r : Option Nat × SwBuddyPool) : Prop where
  core : Core g free live r.2
  fixed : r.2.fixed = s.fixed
  grows : ∀ b, ∀ i ∈ s.chain b, i ∈ r.2.chain b
  same : ∀ i, s.Listed i → r.2.area i = s.area i
  above : ∀ b, idx ≤ b → r.2.chain b = s.chain b
  /-- either there was no free descriptor at once, or an upper half went to the bin below -/
  below : r.2 = s ∧ r.1 = none ∨ r.2.chain (idx - 1) ≠ []
  node : ∀ m, r.1 = some m → m = n ∧ Held g r.2 n bin ∧ r.2.bin n = bin ∧
    (r.2.area n).blockSize = g.size bin ∧ r.2.addr n = s.addr n ∧ part (r.2.addr n) bin

theorem SwBuddyPool.Core.cut {n f k : Nat} (h : Core g free live s) (hn : Held g s n (k + 1))
    (hf : ¬ s.Listed f) (hnf : n ≠ f) (hfree : free (s.addr n + g.size k) k) :
    let a : SwArea := ⟨s.addr n + g.size k, g.size k, k⟩
    Core g free live ((s.setArea f a).putFree k f) ∧ Held g ((s.setArea f a).putFree k f) n k ∧
      ((s.setArea f a).putFree k f).addr n = s.addr n := by
  intro a
  obtain ⟨h1, h2, h3⟩ := hn.split hf hnf a rfl
  have hb : (s.setArea f a).bin f = k := bin_setArea_self s f a
  refine ⟨(h.setArea hf a).putFree h2 hb (fun _ => ?_) ?_, h1.putFree hnf (hb.symm ▸ h3),
    addr_setArea_ne s hnf a⟩
  · rw [area_setArea_self]
  · rw [addr_setArea_self]
    exact hfree

theorem splitLoop_spec {part : Nat → Nat → Prop}
    (hcut : ∀ a k, part a (k + 1) → part a k ∧ free (a + g.size k) k ∧ a + g.size k < 2 ^ 32)
    (hm : g.Manages s) (h : Core g free live s) {n bin idx : Nat} (hn : Held g s n idx)
    (hp : part (s.addr n) idx) (hidx : idx ≤ g.depth + 1) (hbin : bin < idx) :
    SplitResult g free live part s n bin idx (splitLoop s n bin idx) := by
  induction idx generalizing s with
  | zero => exact absurd hbin (by omega)
  | succ k ih =>
    rw [splitLoop, if_neg (by omega)]
    cases hf : getFreeNode s with
    | none =>
      exact ⟨h, rfl, fun _ _ hi => hi, fun _ _ => rfl, fun _ _ => rfl, Or.inl ⟨rfl, rfl⟩, by simp⟩
    | some ft =>
      obtain ⟨f, t⟩ := ft
      obtain ⟨ht, hfix, hch, hlf, hsame, hheld⟩ := h.getFreeNode hf
      obtain ⟨hnf, hnt, hat⟩ := hheld n (k + 1) hn
      obtain ⟨hp1, hfr, hlt⟩ := hcut _ k hp
      have hsz : t.binSize k = g.size k := (hm.of_fixed hfix).binSize (by omega)
      obtain ⟨c1, c2, c3⟩ := ht.cut hnt hlf hnf (hat.symm ▸ hfr)
      simp only
      rw [hsz, u32_of_lt (hat.symm ▸ hlt)]
      generalize hu : (t.setArea f ⟨t.addr n + g.size k, g.size k, k⟩).putFree k f = u at *
      have hufix : u.fixed = s.fixed := by rw [← hu]; exact hfix
      have hfk : f ∈ u.chain k := by
        rw [← hu, chain_putFree_self]
        exact (Chain.addSorted_perm f _).symm.subset List.mem_cons_self
      have hgrow : ∀ b, ∀ i ∈ s.chain b, i ∈ u.chain b := by
        intro b i hi
        rw [← hu]
        by_cases hb : b = k
        · subst hb
          rw [chain_putFree_self]
          refine (Chain.addSorted_perm f _).symm.subset (List.mem_cons_of_mem f ?_)
          rw [chain_setArea, hch]
          exact hi
        · rw [chain_putFree_ne _ hb, chain_setArea, hch]
          exact hi
      have hsame_u : ∀ i, s.Listed i → u.area i = s.area i := by
        intro i hi
        have hif : i ≠ f := by
          rintro rfl
          exact hlf (hi.imp (fun ⟨b, hb⟩ => ⟨b, hch b ▸ hb⟩)
            fun ht' => tree_of_fixed hfix ▸ ht')
        rw [← hu, area_putFree, area_setArea_ne t hif, hsame i hif]
      have habove : ∀ b, k + 1 ≤ b → u.chain b = s.chain b := by
        intro b hb
        rw [← hu, chain_putFree_ne _ (by omega), chain_setArea, hch]
      by_cases hbk : bin = k
      · rw [if_pos hbk]
        subst hbk
        have hszu : u.binSize bin = g.size bin := (hm.of_fixed hufix).binSize (by omega)
        refine ⟨c1.setArea c2.unlisted _, hufix, hgrow, fun i hi => ?_, habove, Or.inr ?_, ?_⟩
        · have hin : i ≠ n := fun e => hn.unlisted (e ▸ hi)
          rw [area_setArea_ne u hin]
          exact hsame_u i hi
        · exact List.ne_nil_of_mem hfk
        · intro m hm'
          cases hm'
          have hau : (u.setArea n ⟨u.addr n, u.binSize bin, bin⟩).addr n = s.addr n := by
            rw [addr_setArea_self]
            exact c3.trans hat
          refine ⟨rfl, c2.setArea_self _ rfl, bin_setArea_self u n _, ?_, hau, hau ▸ hp1⟩
          rw [area_setArea_self]
          exact hszu
      · rw [if_neg hbk]
        have hpu : part (u.addr n) k := by rw [c3, hat]; exact hp1
        obtain ⟨r1, r2, r3, r7, r4, r5, r6⟩ := ih (hm.of_fixed hufix) c1 c2 hpu (by omega) (by omega)
        refine ⟨r1, r2.trans hufix, fun b i hi => r3 b i (hgrow b i hi), fun i hi => ?_,
          fun b hb => ?_, Or.inr (List.ne_nil_of_mem (r3 k f hfk)), fun m hm' => ?_⟩
        · rw [r7 i (hi.imp (fun ⟨b, hb⟩ => ⟨b, hgrow b i hb⟩) fun h' => tree_of_fixed hufix ▸ h')]
          exact hsame_u i hi
        · rw [r4 b (by omega), habove b hb]
        · obtain ⟨e1, e2, e3, e4, e5, e6⟩ := r6 m hm'
          exact ⟨e1, e2, e3, e4, e5.trans (c3.trans hat), e6⟩

end

theorem getFreeBuddy_cases (s : SwBuddyPool) (bin : Nat) :
    ((∀ b, bin ≤ b → b ≤ s.maxBin → s.chain b = []) ∧ getFreeBuddy s bin = (none, s)) ∨
    ∃ idx node l, bin ≤ idx ∧ idx ≤ s.maxBin ∧ s.chain idx = node :: l ∧
      (∀ b, bin ≤ b → b < idx → s.chain b = []) ∧
      getFreeBuddy s bin = if idx = bin then (some node, s.takeFree idx node)
        else splitLoop (s.takeFree idx node) node bin idx := by
  unfold getFreeBuddy
  cases hfind : (List.range' bin (s.maxBin + 1 - bin)).find? (fun b => !isEmptyBin s b) with
  | none =>
    refine Or.inl ⟨fun b h1 h2 => ?_, rfl⟩
    have hb := List.find?_eq_none.1 hfind b (List.mem_range'_1.2 (by omega))
    simpa [isEmptyBin] using hb
  | some idx =>
    have hmem := List.mem_range'_1.1 (List.mem_of_find?_eq_some hfind)
    have hne : s.chain idx ≠ [] := by
      simpa [isEmptyBin] using List.find?_some hfind
    obtain ⟨node, l, hl⟩ := List.exists_cons_of_ne_nil hne
    refine Or.inr ⟨idx, node, l, by omega, by omega, hl, fun b h1 h2 => ?_, ?_⟩
    · obtain ⟨as, bs, heq, hall⟩ := (List.find?_eq_some_iff_append.1 hfind).2
      have hb : b ∈ as := by
        have hin : b ∈ as ++ idx :: bs := heq ▸ List.mem_range'_1.2 (by omega)
        have hsorted : (as ++ idx :: bs).Pairwise (· < ·) := heq ▸ List.pairwise_lt_range'
        rcases List.mem_append.1 hin with hb | hb
        · exact hb
        · rcases List.mem_cons.1 hb with rfl | hb
          · omega
          · have := (List.pairwise_cons.1 (List.pairwise_append.1 hsorted).2.1).1 b hb
            omega
      simpa [isEmptyBin] using hall b hb
    · simp only
      rw [hl]

section
variable {g : Geometry} {free live part : Nat → Nat → Prop} {s : SwBuddyPool}

/-- what `getFreeBuddy` does when the block that it finds may be split -/
structure BuddyResult (g : Geometry) (free live part : Nat → Nat → Prop) (s : SwBuddyPool)
    (bin : Nat) (r : Option Nat × SwBuddyPool) : Prop where
  core : Core g free live r.2
  fixed : r.2.fixed = s.fixed
  same : ∀ i ∈ s.allocTree.toList, r.2.area i = s.area i
  node : ∀ n, r.1 = some n → Held g r.2 n bin ∧ r.2.bin n = bin ∧
    (r.2.area n).blockSize = g.size bin ∧ part (r.2.addr n) bin

theorem getFreeBuddy_spec
    (hcut : ∀ a k, part a (k + 1) → part a k ∧ free (a + g.size k) k ∧ a + g.size k < 2 ^ 32)
    (hm : g.Manages s) (h : Core g free live s) {bin : Nat} (hbin : bin ≤ g.depth)
    (hpart : ∀ idx n l, bin ≤ idx → idx ≤ g.depth + 1 → s.chain idx = n :: l →
      (∀ b, bin ≤ b → b < idx → s.chain b = []) → part (s.addr n) idx) :
    BuddyResult g free live part s bin (getFreeBuddy s bin) := by
  obtain ⟨-, he⟩ | ⟨idx, n, l, hlo, hhi, hl, hfirst, he⟩ := getFreeBuddy_cases s bin
  · rw [he]
    exact ⟨h, rfl, fun _ _ => rfl, by simp⟩
  rw [hm.maxBin] at hhi
  have hp := hpart idx n l hlo hhi hl hfirst
  obtain ⟨ht, hheld⟩ := h.takeHead hl
  have hn : n ∈ s.chain idx := hl ▸ List.mem_cons_self
  rw [he]
  by_cases hib : idx = bin
  · rw [if_pos hib]
    refine ⟨ht, rfl, fun _ _ => rfl, fun m hm' => ?_⟩
    obtain rfl := Option.some.inj hm'
    exact ⟨hib ▸ hheld, hib ▸ h.chain_bin idx n hn, hib ▸ h.free_size idx (by omega) n hn,
      hib ▸ hp⟩
  · rw [if_neg hib]
    have hm' : g.Manages (s.takeFree idx n) := hm.of_fixed rfl
    have hr := splitLoop_spec hcut hm' ht hheld hp hhi (by omega : bin < idx)
    refine ⟨hr.core, hr.fixed, fun i hi => hr.same i (Or.inr hi), fun m hm' => ?_⟩
    obtain ⟨rfl, r2, r3, r4, -, r6⟩ := hr.node m hm'
    exact ⟨r2, r3, r4, r6⟩

theorem swBuddyAlloc_cases (hm : g.Manages s) (hcurr : s.currHeapSize ≤ g.size g.depth)
    (size : Nat) : swBuddyAlloc s size = (0, s) ∨
      (size ≤ s.currHeapSize ∧ nextPowOf2 size ≤ s.currHeapSize ∧
        ((getFreeBuddy s (requestBin s size)).1 = none ∧
            swBuddyAlloc s size = (0, (getFreeBuddy s (requestBin s size)).2) ∨
          ∃ n, (getFreeBuddy s (requestBin s size)).1 = some n ∧
            swBuddyAlloc s size = takeBlock (getFreeBuddy s (requestBin s size)).2 n)) := by
  rw [swBuddyAlloc]
  by_cases h1 : s.currHeapSize < size
  · rw [if_pos h1]
    exact Or.inl rfl
  rw [if_neg h1]
  by_cases h2 : s.currHeapSize < nextPowOf2 size
  · rw [if_pos h2]
    exact Or.inl rfl
  simp only
  rw [if_neg h2, if_neg (by rw [hm.maxAllocSize]; omega)]
  refine Or.inr ⟨by omega, by omega, ?_⟩
  generalize getFreeBuddy s (requestBin s size) = r
  obtain ⟨o, u⟩ := r
  cases o with
  | none => exact Or.inl ⟨rfl, rfl⟩
  | some n => exact Or.inr ⟨n, rfl, rfl⟩

end

/-! ## Giving a block back -/

namespace Chain
variable {addr : Nat → Nat}

theorem search_tail {data n m : Nat} {l : List Nat} (hm : m ≠ n)
    (h : search addr data (n :: l) = some m) : search addr data l = some m := by
  rw [search] at h
  split at h
  · cases h
    exact absurd rfl hm
  · split at h
    · exact absurd h (by simp)
    · exact h

theorem addSorted_congr {addr' : Nat → Nat} {n : Nat} {l : List Nat}
    (h : ∀ i ∈ n :: l, addr i = addr' i) : addSorted addr n l = addSorted addr' n l := by
  induction l with
  | nil => rfl
  | cons i l ih =>
    have hn : addr n = addr' n := h n List.mem_cons_self
    have hi : addr i = addr' i := h i (by simp)
    have ht : addSorted addr n l = addSorted addr' n l := by
      refine ih fun j hj => h j ?_
      rcases List.mem_cons.1 hj with rfl | hj
      · exact List.mem_cons_self
      · simp [hj]
    rw [addSorted, addSorted, hn, hi, ht]

end Chain

section
variable {g : Geometry} {free live : Nat → Nat → Prop} {s : SwBuddyPool}

/-- what the merge of `n` with the block `m` behind it does to the pool -/
structure MergeResult (g : Geometry) (free live : Nat → Nat → Prop) (s : SwBuddyPool)
    (idx n m : Nat) (t : SwBuddyPool) : Prop where
  core : Core g free live t
  fixed : t.fixed = s.fixed
  left : (n :: m :: t.chain idx).Perm (s.chain idx)
  other : ∀ b, b ≠ idx → b ≠ idx + 1 → t.chain b = s.chain b
  next : t.chain (idx + 1) = Chain.addSorted s.addr n (s.chain (idx + 1))
  addr : ∀ i, i ≠ m → t.addr i = s.addr i
  same : ∀ i, i ≠ n → i ≠ m → t.area i = s.area i

theorem search_takeHead {idx n m buddy : Nat} {l : List Nat} (hl : s.chain idx = n :: l)
    (hs : Chain.search s.addr buddy (s.chain idx) = some m) (hmn : m ≠ n) :
    Chain.search (s.takeFree idx n).addr buddy ((s.takeFree idx n).chain idx) = some m := by
  have hc : (s.takeFree idx n).chain idx = l := by
    rw [chain_takeFree_self, hl, Chain.remove_head]
  rw [hc]
  rw [hl] at hs
  exact Chain.search_tail hmn hs

theorem SwBuddyPool.Core.merge {idx n m buddy : Nat} {l : List Nat} (hg : g.Manages s)
    (h : Core g free live s) (hl : s.chain idx = n :: l)
    (hs : Chain.search s.addr buddy (s.chain idx) = some m)
    (hb : buddy = s.addr n + g.size idx) (hf : free (s.addr n) (idx + 1)) :
    MergeResult g free live s idx n m (mergePair s idx n m n m) := by
  have hmb : s.addr m = buddy := (Chain.search_some hs).2
  have hmn : m ≠ n := by
    rintro rfl
    have := g.size_pos idx
    omega
  obtain ⟨h1, hn1⟩ := h.takeHead hl
  have hc1 : (s.takeFree idx n).chain idx = l := by
    rw [chain_takeFree_self, hl, Chain.remove_head]
  have hp1 := Chain.remove_perm (search_takeHead hl hs hmn)
  obtain ⟨h2, hm2⟩ := h1.takeFree hp1
  have hn2 := hn1.mono (t := (s.takeFree idx n).takeFree idx m) rfl fun i => listed_takeFree hp1
  generalize ht : (s.takeFree idx n).takeFree idx m = t at *
  have harea : t.area = s.area := by rw [← ht]; rfl
  have haddr : ∀ i, t.addr i = s.addr i := fun i => by rw [addr, harea]; rfl
  have hj : Held g t n (idx + 1) := hn2.join hm2 (by rw [haddr, haddr, hmb, hb])
  have h3 := h2.setArea hm2.unlisted { t.area m with memAddr := 0 }
  have hj3 := hj.setArea_ne hmn.symm hm2.unlisted { t.area m with memAddr := 0 }
  generalize hu : t.setArea m { t.area m with memAddr := 0 } = u at *
  have haddr_u : ∀ i, i ≠ m → u.addr i = s.addr i := by
    intro i hi
    rw [← hu, addr_setArea_ne t hi, haddr]
  have h4 := h3.setArea hj3.unlisted ⟨u.addr n, u.binSize (idx + 1), idx + 1⟩
  have hj4 := hj3.setArea_self ⟨u.addr n, u.binSize (idx + 1), idx + 1⟩ rfl
  have hv : mergePair s idx n m n m
      = (u.setArea n ⟨u.addr n, u.binSize (idx + 1), idx + 1⟩).putFree (idx + 1) n := by
    rw [← hu, ← ht]
    rfl
  have hcu : ∀ b, u.chain b = t.chain b := fun b => by rw [← hu]; rfl
  have hct : ∀ b, b ≠ idx → t.chain b = s.chain b := by
    intro b hb'
    rw [← ht, chain_takeFree_ne _ hb', chain_takeFree_ne _ hb']
  rw [hv]
  refine ⟨h4.putFree hj4 (bin_setArea_self u n _) (fun hd => ?_) ?_, ?_, ?_, ?_, ?_, ?_, ?_⟩
  · rw [area_setArea_self]
    show u.binSize (idx + 1) = _
    exact (hg.of_fixed (by rw [← hu, ← ht]; rfl)).binSize hd
  · rw [addr_setArea_self]
    show free (u.addr n) (idx + 1)
    rw [haddr_u n hmn.symm]
    exact hf
  · rw [← hu, ← ht]
    rfl
  · rw [chain_putFree_ne _ (by omega), chain_setArea, hcu, ← ht, chain_takeFree_self, hl]
    rw [hc1] at hp1 ⊢
    exact hp1.cons n
  · intro b hb1 hb2
    rw [chain_putFree_ne _ hb2, chain_setArea, hcu, hct b hb1]
  · rw [chain_putFree_self, chain_setArea, hcu, hct _ (by omega)]
    refine Chain.addSorted_congr fun i hi => ?_
    have him : i ≠ m := by
      rintro rfl
      rcases List.mem_cons.1 hi with h1 | h1
      · exact hmn h1
      · have e1 := h.chain_bin idx i (Chain.search_some hs).1
        have e2 := h.chain_bin (idx + 1) i h1
        omega
    by_cases hin : i = n
    · subst hin
      rw [addr_setArea_self]
      exact haddr_u i him
    · rw [addr_setArea_ne u hin]
      exact haddr_u i him
  · intro i hi
    show (u.setArea n _).addr i = _
    by_cases hin : i = n
    · subst hin
      rw [addr_setArea_self]
      exact haddr_u i hi
    · rw [addr_setArea_ne u hin]
      exact haddr_u i hi
  · intro i hin him
    rw [area_putFree, area_setArea_ne u hin, ← hu, area_setArea_ne t him, harea]

end
end SierraTee
