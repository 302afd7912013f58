import SierraTee.Buddy.Pool
import SierraTee.Lib.Intervals

/-!
# Blocks that do not overlap

A descriptor is LISTED when it is in a free list or in the allocation tree, and HELD when an
operation has taken it out and not yet put it back.  `Core` says that the listed blocks have
addresses, keep their bin, and do not meet; `Held` says the same of one more block.  Every
operation of the allocator is a sequence of the steps proved here:

* `Core.takeFree`, `Core.takeTree`  a listed block becomes held;
* `Core.putFree`, `Core.putTree`    a held block becomes listed;
* `Held.split`, `Held.join`         a held block is cut in two, or joined with its neighbour.
-/

namespace SierraTee
open Word

/-- the place and the size of a managed memory: `2 ^ depth` blocks of the least size -/
structure Geometry where
  memStart : Nat
  minShift : Nat
  depth : Nat
  start_pos : 0 < memStart
  below : memStart + 2 ^ (minShift + depth) < 2 ^ 32
  bins : depth + 1 < maxBins

namespace Geometry
variable (g : Geometry)

def size (k : Nat) : Nat := 2 ^ (g.minShift + k)

def memEnd : Nat := g.memStart + g.size g.depth

def Inside (a k : Nat) : Prop := g.memStart ≤ a ∧ a + g.size k ≤ g.memEnd

def Apart (a j b k : Nat) : Prop := Intervals.Apart a (g.size j) b (g.size k)

theorem size_pos (k : Nat) : 0 < g.size k := Nat.two_pow_pos _

theorem size_succ (k : Nat) : g.size (k + 1) = g.size k + g.size k := by
  unfold size
  rw [← Nat.add_assoc, Nat.pow_succ]
  omega

theorem size_le {j k : Nat} (h : j ≤ k) : g.size j ≤ g.size k :=
  Nat.pow_le_pow_right (by omega) (by omega)

theorem size_lt {j k : Nat} (h : j < k) : g.size j < g.size k :=
  Nat.pow_lt_pow_right (by omega) (by omega)

theorem memEnd_lt : g.memEnd < 2 ^ 32 := g.below

theorem Inside.le_depth {g : Geometry} {a k : Nat} (h : g.Inside a k) : k ≤ g.depth := by
  by_contra hc
  have h1 := g.size_lt (show g.depth < k by omega)
  unfold Inside memEnd at h
  omega

theorem Inside.eq_start {g : Geometry} {a : Nat} (h : g.Inside a g.depth) : a = g.memStart := by
  unfold Inside memEnd at h
  omega

end Geometry

namespace SwBuddyPool

def Listed (s : SwBuddyPool) (i : Nat) : Prop :=
  (∃ b, i ∈ s.chain b) ∨ i ∈ s.allocTree.toList

section
variable (s : SwBuddyPool)

@[simp] theorem chain_setArea (i : Nat) (a : SwArea) (b : Nat) :
    (s.setArea i a).chain b = s.chain b := rfl

@[simp] theorem area_setArea_self (i : Nat) (a : SwArea) : (s.setArea i a).area i = a := by
  simp [setArea]

theorem area_setArea_ne {i j : Nat} (h : j ≠ i) (a : SwArea) :
    (s.setArea i a).area j = s.area j := by
  simp [setArea, Function.update_of_ne h]

@[simp] theorem addr_setArea_self (i : Nat) (a : SwArea) : (s.setArea i a).addr i = a.memAddr := by
  rw [addr, area_setArea_self]

@[simp] theorem bin_setArea_self (i : Nat) (a : SwArea) : (s.setArea i a).bin i = a.bin := by
  rw [bin, area_setArea_self]

theorem addr_setArea_ne {i j : Nat} (h : j ≠ i) (a : SwArea) :
    (s.setArea i a).addr j = s.addr j := by
  rw [addr, area_setArea_ne s h]
  rfl

theorem bin_setArea_ne {i j : Nat} (h : j ≠ i) (a : SwArea) :
    (s.setArea i a).bin j = s.bin j := by
  rw [bin, area_setArea_ne s h]
  rfl

@[simp] theorem area_putFree (b i : Nat) : (s.putFree b i).area = s.area := rfl

@[simp] theorem chain_putFree_self (b i : Nat) :
    (s.putFree b i).chain b = Chain.addSorted s.addr i (s.chain b) := by
  simp [putFree, setFree, chain]

@[simp] theorem chain_takeFree_self (b i : Nat) :
    (s.takeFree b i).chain b = Chain.remove s.addr i (s.chain b) := by
  simp [takeFree, setFree, chain]

theorem chain_putFree_ne {b c : Nat} (h : c ≠ b) (i : Nat) :
    (s.putFree b i).chain c = s.chain c := by
  simp [putFree, setFree, chain, Function.update_of_ne h]

theorem chain_takeFree_ne {b c : Nat} (h : c ≠ b) (i : Nat) :
    (s.takeFree b i).chain c = s.chain c := by
  simp [takeFree, setFree, chain, Function.update_of_ne h]

end

/-! ## the invariant -/

/-- what holds of the listed blocks: `free` allows the blocks of the free lists, and `live` those
of the allocation tree -/
structure Core (g : Geometry) (free live : Nat → Nat → Prop) (s : SwBuddyPool) : Prop where
  chain_nodup : ∀ b, (s.chain b).Nodup
  tree_nodup : s.allocTree.toList.Nodup
  unshared : ∀ b, ∀ i ∈ s.chain b, i ∉ s.allocTree.toList
  chain_bin : ∀ b, ∀ i ∈ s.chain b, s.bin i = b
  free_ok : ∀ b, ∀ i ∈ s.chain b, free (s.addr i) b
  free_size : ∀ b ≤ g.depth, ∀ i ∈ s.chain b, (s.area i).blockSize = g.size b
  live_ok : ∀ i ∈ s.allocTree.toList, live (s.addr i) (s.bin i)
  live_size : ∀ i ∈ s.allocTree.toList, (s.area i).blockSize = g.size (s.bin i)
  addr_ne : ∀ i, s.Listed i → s.addr i ≠ 0
  apart : ∀ i j, s.Listed i → s.Listed j → i ≠ j →
    g.Apart (s.addr i) (s.bin i) (s.addr j) (s.bin j)

/-- a block of bin `k` at the address of `n` that no list holds and no listed block meets -/
structure Held (g : Geometry) (s : SwBuddyPool) (n k : Nat) : Prop where
  unlisted : ¬ s.Listed n
  addr_ne : s.addr n ≠ 0
  apart : ∀ i, s.Listed i → g.Apart (s.addr n) k (s.addr i) (s.bin i)

section
variable {g : Geometry} {free live : Nat → Nat → Prop} {s : SwBuddyPool}

theorem Core.mono {free' live' : Nat → Nat → Prop} (h : Core g free live s)
    (hf : ∀ b, ∀ i ∈ s.chain b, free (s.addr i) b → free' (s.addr i) b)
    (hl : ∀ i ∈ s.allocTree.toList, live (s.addr i) (s.bin i) → live' (s.addr i) (s.bin i)) :
    Core g free' live' s :=
  { h with
    free_ok := fun b i hi => hf b i hi (h.free_ok b i hi)
    live_ok := fun i hi => hl i hi (h.live_ok i hi) }

theorem Core.congr {t : SwBuddyPool} (h : Core g free live s) (ha : t.area = s.area)
    (hc : ∀ b, t.chain b = s.chain b) (ht : t.allocTree = s.allocTree) :
    Core g free live t := by
  have e1 : t.addr = s.addr := by funext i; rw [addr, ha]; rfl
  have e2 : t.bin = s.bin := by funext i; rw [bin, ha]; rfl
  have e3 : t.Listed = s.Listed := by funext i; simp only [Listed, hc, ht]
  constructor
  · simpa only [hc] using h.chain_nodup
  · simpa only [ht] using h.tree_nodup
  · simpa only [hc, ht] using h.unshared
  · simpa only [hc, e2] using h.chain_bin
  · simpa only [hc, e1] using h.free_ok
  · simpa only [hc, ha] using h.free_size
  · simpa only [ht, e1, e2] using h.live_ok
  · simpa only [ht, e2, ha] using h.live_size
  · simpa only [e1, e3] using h.addr_ne
  · simpa only [e1, e2, e3] using h.apart

theorem Core.setArea {n : Nat} (h : Core g free live s) (hn : ¬ s.Listed n) (a : SwArea) :
    Core g free live (s.setArea n a) := by
  have ne : ∀ i, s.Listed i → i ≠ n := fun i hi hin => hn (hin ▸ hi)
  have e : ∀ i, s.Listed i → (s.setArea n a).area i = s.area i :=
    fun i hi => area_setArea_ne s (ne i hi) a
  have e1 : ∀ i, s.Listed i → (s.setArea n a).addr i = s.addr i :=
    fun i hi => addr_setArea_ne s (ne i hi) a
  have e2 : ∀ i, s.Listed i → (s.setArea n a).bin i = s.bin i :=
    fun i hi => bin_setArea_ne s (ne i hi) a
  constructor
  · exact h.chain_nodup
  · exact h.tree_nodup
  · exact h.unshared
  · intro b i hi
    rw [e2 i (Or.inl ⟨b, hi⟩)]
    exact h.chain_bin b i hi
  · intro b i hi
    rw [e1 i (Or.inl ⟨b, hi⟩)]
    exact h.free_ok b i hi
  · intro b hb i hi
    rw [e i (Or.inl ⟨b, hi⟩)]
    exact h.free_size b hb i hi
  · intro i hi
    rw [e1 i (Or.inr hi), e2 i (Or.inr hi)]
    exact h.live_ok i hi
  · intro i hi
    rw [e2 i (Or.inr hi), e i (Or.inr hi)]
    exact h.live_size i hi
  · intro i hi
    rw [e1 i hi]
    exact h.addr_ne i hi
  · intro i j hi hj hij
    rw [e1 i hi, e1 j hj, e2 i hi, e2 j hj]
    exact h.apart i j hi hj hij

theorem Held.setArea_self {n k : Nat} (h : Held g s n k) (a : SwArea)
    (ha : a.memAddr = s.addr n) : Held g (s.setArea n a) n k := by
  have e : (s.setArea n a).addr n = s.addr n := by rw [addr_setArea_self, ha]
  refine ⟨h.unlisted, by rw [e]; exact h.addr_ne, fun i hi => ?_⟩
  have hin : i ≠ n := fun hin => h.unlisted (hin ▸ hi)
  rw [e, addr_setArea_ne s hin, bin_setArea_ne s hin]
  exact h.apart i hi

theorem Held.setArea_ne {n m k : Nat} (h : Held g s n k) (hnm : n ≠ m) (hm : ¬ s.Listed m)
    (a : SwArea) : Held g (s.setArea m a) n k := by
  have e : (s.setArea m a).addr n = s.addr n := addr_setArea_ne s hnm a
  refine ⟨h.unlisted, by rw [e]; exact h.addr_ne, fun i hi => ?_⟩
  have him : i ≠ m := fun him => hm (him ▸ hi)
  rw [e, addr_setArea_ne s him, bin_setArea_ne s him]
  exact h.apart i hi

/-! ## taking a block out -/

theorem Core.take {t : SwBuddyPool} {n k : Nat} (h : Core g free live s)
    (ha : t.area = s.area) (hc : ∀ b, ∃ l, (l ++ t.chain b).Perm (s.chain b))
    (ht : ∃ l, (l ++ t.allocTree.toList).Perm s.allocTree.toList)
    (hn : s.Listed n) (hk : s.bin n = k) (hu : ¬ t.Listed n) :
    Core g free live t ∧ Held g t n k := by
  have e1 : t.addr = s.addr := by funext i; rw [addr, ha]; rfl
  have e2 : t.bin = s.bin := by funext i; rw [bin, ha]; rfl
  have mc : ∀ b, ∀ i ∈ t.chain b, i ∈ s.chain b := by
    intro b i hi
    obtain ⟨l, hl⟩ := hc b
    exact hl.subset (List.mem_append_right l hi)
  have mt : ∀ i ∈ t.allocTree.toList, i ∈ s.allocTree.toList := by
    intro i hi
    obtain ⟨l, hl⟩ := ht
    exact hl.subset (List.mem_append_right l hi)
  have ml : ∀ i, t.Listed i → s.Listed i := by
    rintro i (⟨b, hi⟩ | hi)
    · exact Or.inl ⟨b, mc b i hi⟩
    · exact Or.inr (mt i hi)
  refine ⟨⟨?_, ?_, ?_, ?_, ?_, ?_, ?_, ?_, ?_, ?_⟩, ⟨hu, ?_, ?_⟩⟩
  · intro b
    obtain ⟨l, hl⟩ := hc b
    exact (hl.nodup_iff.2 (h.chain_nodup b)).of_append_right
  · obtain ⟨l, hl⟩ := ht
    exact (hl.nodup_iff.2 h.tree_nodup).of_append_right
  · exact fun b i hi hit => h.unshared b i (mc b i hi) (mt i hit)
  · exact fun b i hi => e2 ▸ h.chain_bin b i (mc b i hi)
  · exact fun b i hi => e1 ▸ h.free_ok b i (mc b i hi)
  · exact fun b hb i hi => ha ▸ h.free_size b hb i (mc b i hi)
  · exact fun i hi => e1 ▸ e2 ▸ h.live_ok i (mt i hi)
  · exact fun i hi => ha ▸ e2 ▸ h.live_size i (mt i hi)
  · exact fun i hi => e1 ▸ h.addr_ne i (ml i hi)
  · exact fun i j hi hj hij => e1 ▸ e2 ▸ h.apart i j (ml i hi) (ml j hj) hij
  · exact e1 ▸ h.addr_ne n hn
  · intro i hi
    have hni : n ≠ i := fun hni => hu (hni ▸ hi)
    rw [e1, e2, ← hk]
    exact h.apart n i hn (ml i hi) hni

theorem Core.takeFree {b n : Nat} (h : Core g free live s)
    (hp : (n :: Chain.remove s.addr n (s.chain b)).Perm (s.chain b)) :
    Core g free live (s.takeFree b n) ∧ Held g (s.takeFree b n) n b := by
  have hn : n ∈ s.chain b := hp.subset List.mem_cons_self
  refine h.take rfl ?_ ⟨[], List.Perm.refl _⟩ (Or.inl ⟨b, hn⟩) (h.chain_bin b n hn) ?_
  · intro c
    by_cases hcb : c = b
    · subst hcb
      exact ⟨[n], by rw [chain_takeFree_self]; exact hp⟩
    · exact ⟨[], by rw [chain_takeFree_ne s hcb]; exact List.Perm.refl _⟩
  · rintro (⟨c, hc⟩ | ht)
    · by_cases hcb : c = b
      · subst hcb
        rw [chain_takeFree_self] at hc
        exact (List.nodup_cons.1 (hp.nodup_iff.2 (h.chain_nodup c))).1 hc
      · rw [chain_takeFree_ne s hcb] at hc
        exact hcb ((h.chain_bin c n hc).symm.trans (h.chain_bin b n hn))
    · exact h.unshared b n hn ht

theorem Core.takeHead {b n : Nat} {l : List Nat} (h : Core g free live s)
    (hl : s.chain b = n :: l) :
    Core g free live (s.takeFree b n) ∧ Held g (s.takeFree b n) n b := by
  apply h.takeFree
  rw [hl, Chain.remove_head]

theorem Core.takeTree {ptr n : Nat} (h : Core g free live s)
    (hs : BTree.search s.addr ptr s.allocTree = some n) :
    Core g free live { s with allocTree := BTree.remove s.addr n s.allocTree } ∧
      Held g { s with allocTree := BTree.remove s.addr n s.allocTree } n (s.bin n) := by
  have hp := BTree.remove_perm hs
  have hn : n ∈ s.allocTree.toList := (BTree.search_some hs).1
  refine h.take rfl (fun b => ⟨[], List.Perm.refl _⟩) ⟨[n], hp⟩ (Or.inr hn) rfl ?_
  rintro (⟨b, hb⟩ | ht)
  · exact h.unshared b n hb hn
  · exact (List.nodup_cons.1 (hp.nodup_iff.2 h.tree_nodup)).1 ht

theorem Held.mono {t : SwBuddyPool} {n k : Nat} (h : Held g s n k) (ha : t.area = s.area)
    (hl : ∀ i, t.Listed i → s.Listed i) : Held g t n k := by
  have e1 : t.addr = s.addr := by funext i; rw [addr, ha]; rfl
  have e2 : t.bin = s.bin := by funext i; rw [bin, ha]; rfl
  exact ⟨fun hn => h.unlisted (hl n hn), e1 ▸ h.addr_ne,
    fun i hi => e1 ▸ e2 ▸ h.apart i (hl i hi)⟩

theorem listed_takeFree {b n i : Nat} (hp : (n :: Chain.remove s.addr n (s.chain b)).Perm
    (s.chain b)) (hi : (s.takeFree b n).Listed i) : s.Listed i := by
  rcases hi with ⟨c, hc⟩ | ht
  · by_cases hcb : c = b
    · subst hcb
      rw [chain_takeFree_self] at hc
      exact Or.inl ⟨c, hp.subset (List.mem_cons_of_mem n hc)⟩
    · rw [chain_takeFree_ne s hcb] at hc
      exact Or.inl ⟨c, hc⟩
  · exact Or.inr ht

/-! ## putting a block back -/

theorem listed_putFree {b n i : Nat} (hi : (s.putFree b n).Listed i) : i = n ∨ s.Listed i := by
  rcases hi with ⟨c, hc⟩ | ht
  · by_cases hcb : c = b
    · subst hcb
      rw [chain_putFree_self] at hc
      rcases List.mem_cons.1 ((Chain.addSorted_perm n (s.chain c)).subset hc) with h | h
      · exact Or.inl h
      · exact Or.inr (Or.inl ⟨c, h⟩)
    · rw [chain_putFree_ne s hcb] at hc
      exact Or.inr (Or.inl ⟨c, hc⟩)
  · exact Or.inr (Or.inr ht)

theorem Held.apart_put {t : SwBuddyPool} {n k : Nat} (h : Core g free live s)
    (hh : Held g s n k) (hk : s.bin n = k) (ha : t.area = s.area)
    (hl : ∀ i, t.Listed i → i = n ∨ s.Listed i) :
    (∀ i, t.Listed i → t.addr i ≠ 0) ∧
      ∀ i j, t.Listed i → t.Listed j → i ≠ j →
        g.Apart (t.addr i) (t.bin i) (t.addr j) (t.bin j) := by
  have e1 : t.addr = s.addr := by funext i; rw [addr, ha]; rfl
  have e2 : t.bin = s.bin := by funext i; rw [bin, ha]; rfl
  rw [e1, e2]
  refine ⟨fun i hi => ?_, fun i j hi hj hij => ?_⟩
  · rcases hl i hi with rfl | hi'
    · exact hh.addr_ne
    · exact h.addr_ne i hi'
  · rcases hl i hi with rfl | hi'
    · rcases hl j hj with rfl | hj'
      · exact absurd rfl hij
      · exact hk ▸ hh.apart j hj'
    · rcases hl j hj with rfl | hj'
      · exact (hk ▸ hh.apart i hi').symm
      · exact h.apart i j hi' hj' hij

theorem Core.putFree {n k : Nat} (h : Core g free live s) (hh : Held g s n k)
    (hk : s.bin n = k) (hsz : k ≤ g.depth → (s.area n).blockSize = g.size k)
    (hf : free (s.addr n) k) : Core g free live (s.putFree k n) := by
  have hp : (Chain.addSorted s.addr n (s.chain k)).Perm (n :: s.chain k) :=
    Chain.addSorted_perm n (s.chain k)
  have hlist := Held.apart_put (t := s.putFree k n) h hh hk rfl fun i => listed_putFree
  have mem : ∀ b, ∀ i ∈ (s.putFree k n).chain b, (i = n ∧ b = k) ∨ i ∈ s.chain b := by
    intro b i hi
    by_cases hb : b = k
    · subst hb
      rw [chain_putFree_self] at hi
      rcases List.mem_cons.1 (hp.subset hi) with h1 | h1
      · exact Or.inl ⟨h1, rfl⟩
      · exact Or.inr h1
    · rw [chain_putFree_ne s hb] at hi
      exact Or.inr hi
  constructor
  · intro b
    by_cases hb : b = k
    · subst hb
      rw [chain_putFree_self, hp.nodup_iff, List.nodup_cons]
      exact ⟨fun hn => hh.unlisted (Or.inl ⟨b, hn⟩), h.chain_nodup b⟩
    · rw [chain_putFree_ne s hb]
      exact h.chain_nodup b
  · exact h.tree_nodup
  · intro b i hi hit
    rcases mem b i hi with ⟨rfl, -⟩ | hi'
    · exact hh.unlisted (Or.inr hit)
    · exact h.unshared b i hi' hit
  · intro b i hi
    rcases mem b i hi with ⟨rfl, rfl⟩ | hi'
    · exact hk
    · exact h.chain_bin b i hi'
  · intro b i hi
    rcases mem b i hi with ⟨rfl, rfl⟩ | hi'
    · exact hf
    · exact h.free_ok b i hi'
  · intro b hb i hi
    rcases mem b i hi with ⟨rfl, rfl⟩ | hi'
    · exact hsz hb
    · exact h.free_size b hb i hi'
  · exact h.live_ok
  · exact h.live_size
  · exact hlist.1
  · exact hlist.2

theorem Held.addAllocTree_eq {n k : Nat} (hh : Held g s n k) :
    addAllocTree s n = { s with allocTree := BTree.add s.addr n s.allocTree } := by
  rw [addAllocTree, if_neg hh.addr_ne]

theorem Held.add_perm {n k : Nat} (hh : Held g s n k) :
    (BTree.add s.addr n s.allocTree).toList.Perm (n :: s.allocTree.toList) := by
  refine BTree.add_perm fun i hi => ?_
  exact ((hh.apart i (Or.inr hi)).ne (g.size_pos _) (g.size_pos _)).symm

theorem Core.putTree {n k : Nat} (h : Core g free live s) (hh : Held g s n k)
    (hk : s.bin n = k) (hsz : (s.area n).blockSize = g.size k) (hl : live (s.addr n) k) :
    Core g free live (addAllocTree s n) := by
  rw [hh.addAllocTree_eq]
  have hp := hh.add_perm
  have hlist := Held.apart_put (t := { s with allocTree := BTree.add s.addr n s.allocTree }) h hh
    hk rfl (by
      rintro i (hc | ht)
      · exact Or.inr (Or.inl hc)
      · rcases List.mem_cons.1 (hp.subset ht) with h1 | h1
        · exact Or.inl h1
        · exact Or.inr (Or.inr h1))
  constructor
  · exact h.chain_nodup
  · rw [hp.nodup_iff, List.nodup_cons]
    exact ⟨fun hn => hh.unlisted (Or.inr hn), h.tree_nodup⟩
  · intro b i hi hit
    rcases List.mem_cons.1 (hp.subset hit) with rfl | h1
    · exact hh.unlisted (Or.inl ⟨b, hi⟩)
    · exact h.unshared b i hi h1
  · exact h.chain_bin
  · exact h.free_ok
  · exact h.free_size
  · intro i hi
    rcases List.mem_cons.1 (hp.subset hi) with rfl | h1
    · exact hk ▸ hl
    · exact h.live_ok i h1
  · intro i hi
    rcases List.mem_cons.1 (hp.subset hi) with rfl | h1
    · exact hk ▸ hsz
    · exact h.live_size i h1
  · exact hlist.1
  · exact hlist.2

theorem Held.putFree {n m k b : Nat} (h : Held g s n k) (hnm : n ≠ m)
    (ha : g.Apart (s.addr n) k (s.addr m) (s.bin m)) : Held g (s.putFree b m) n k := by
  refine ⟨fun hn => ?_, h.addr_ne, fun i hi => ?_⟩
  · rcases listed_putFree hn with h1 | h1
    · exact hnm h1
    · exact h.unlisted h1
  · rcases listed_putFree hi with rfl | h1
    · exact ha
    · exact h.apart i h1

/-! ## cutting and joining -/

theorem Held.split {n f k : Nat} (h : Held g s n (k + 1)) (hf : ¬ s.Listed f) (hnf : n ≠ f)
    (a : SwArea) (ha : a.memAddr = s.addr n + g.size k) :
    Held g (s.setArea f a) n k ∧ Held g (s.setArea f a) f k ∧
      g.Apart ((s.setArea f a).addr n) k ((s.setArea f a).addr f) k := by
  have cut : ∀ i, s.Listed i → g.Apart (s.addr n) k (s.addr i) (s.bin i) ∧
      g.Apart (s.addr n + g.size k) k (s.addr i) (s.bin i) := by
    intro i hi
    have hi' := h.apart i hi
    rw [Geometry.Apart, g.size_succ] at hi'
    exact Intervals.Apart.split hi'
  have hn : Held g s n k := ⟨h.unlisted, h.addr_ne, fun i hi => (cut i hi).1⟩
  refine ⟨hn.setArea_ne hnf hf a, ⟨hf, ?_, fun i hi => ?_⟩, ?_⟩
  · rw [addr_setArea_self, ha]
    have := h.addr_ne
    omega
  · have hif : i ≠ f := fun hif => hf (hif ▸ hi)
    rw [addr_setArea_self, ha, addr_setArea_ne s hif, bin_setArea_ne s hif]
    exact (cut i hi).2
  · rw [addr_setArea_self, ha, addr_setArea_ne s hnf]
    exact Or.inl (le_refl _)

theorem Held.join {n m k : Nat} (hn : Held g s n k) (hm : Held g s m k)
    (ha : s.addr m = s.addr n + g.size k) : Held g s n (k + 1) := by
  refine ⟨hn.unlisted, hn.addr_ne, fun i hi => ?_⟩
  rw [Geometry.Apart, g.size_succ]
  exact Intervals.Apart.join (g.size_pos _) (hn.apart i hi) (ha ▸ hm.apart i hi)

end
end SwBuddyPool
end SierraTee
