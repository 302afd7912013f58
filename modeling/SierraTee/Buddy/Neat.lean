import SierraTee.Buddy.Order
import SierraTee.Buddy.Account
import Mathlib.Tactic.Ring

/-!
# The order and the sizes of the free blocks

* `Neat.take`, `Neat.put`, `Neat.change`   the steps that the operations are made of;
* `splitLoop_neat`, `getFreeBuddy_neat`   taking a block;
* `MergeResult.neat`  one merge of two halves.
-/

namespace SierraTee
open Word SwBuddyPool

def Geometry.OnGrid (g : Geometry) (a k : Nat) : Prop := ∃ q, a = g.memStart + q * g.size k

def freeTotal (g : Geometry) (s : SwBuddyPool) : Nat :=
  ∑ b ∈ Finset.range (g.depth + 2), (s.chain b).length * g.size b

/-- what holds besides `Core` in a pool out of which the blocks `held` have been taken -/
structure Neat (g : Geometry) (held : List Nat) (bytes : Nat) (s : SwBuddyPool) : Prop where
  chains : ∀ b, Chain.InOrder s.addr (s.chain b)
  tree : BTree.InOrder s.addr s.allocTree
  grid : ∀ i, s.Listed i → g.OnGrid (s.addr i) (s.bin i)
  tracked : ∀ i < s.totalAreaCnt, s.addr i = 0 ∨ s.Listed i ∨ i ∈ held
  total : freeTotal g s + bytes = s.currHeapSize + g.size g.depth

section
variable {g : Geometry} {s t : SwBuddyPool} {held : List Nat} {bytes : Nat}

theorem freeTotal_congr (h : ∀ b, (t.chain b).length = (s.chain b).length) :
    freeTotal g t = freeTotal g s :=
  Finset.sum_congr rfl fun b _ => by rw [h b]

theorem freeTotal_put {b : Nat} (hb : b ≤ g.depth + 1)
    (hlen : (t.chain b).length = (s.chain b).length + 1)
    (hother : ∀ c, c ≠ b → (t.chain c).length = (s.chain c).length) :
    freeTotal g t = freeTotal g s + g.size b := by
  have hmem : b ∈ Finset.range (g.depth + 2) := Finset.mem_range.mpr (by omega)
  unfold freeTotal
  rw [← Finset.add_sum_erase _ (fun c => (t.chain c).length * g.size c) hmem,
    ← Finset.add_sum_erase _ (fun c => (s.chain c).length * g.size c) hmem, hlen,
    Finset.sum_congr rfl fun c hc => by rw [hother c (Finset.ne_of_mem_erase hc)]]
  ring

theorem Neat.congr (h : Neat g held bytes s) (ha : t.area = s.area)
    (hc : ∀ b, t.chain b = s.chain b) (ht : t.allocTree = s.allocTree)
    (hn : t.totalAreaCnt = s.totalAreaCnt) (hcurr : t.currHeapSize = s.currHeapSize) :
    Neat g held bytes t := by
  have e1 : t.addr = s.addr := by funext i; rw [addr, ha]; rfl
  have e2 : t.bin = s.bin := by funext i; rw [bin, ha]; rfl
  have e3 : t.Listed = s.Listed := by funext i; simp only [Listed, hc, ht]
  constructor
  · intro b
    rw [e1, hc]
    exact h.chains b
  · rw [e1, ht]
    exact h.tree
  · rw [e1, e2, e3]
    exact h.grid
  · rw [e1, e3, hn]
    exact h.tracked
  · have e4 : freeTotal g t = freeTotal g s := freeTotal_congr fun b => by rw [hc]
    rw [e4, hcurr]
    exact h.total

theorem Neat.take {b n : Nat} (h : Neat g held bytes s) (hb : b ≤ g.depth + 1)
    (hp : (n :: Chain.remove s.addr n (s.chain b)).Perm (s.chain b)) :
    Neat g (n :: held) (bytes + g.size b) (s.takeFree b n) := by
  have hsub : ∀ c, ((s.takeFree b n).chain c).Sublist (s.chain c) := by
    intro c
    by_cases hc : c = b
    · subst hc
      rw [chain_takeFree_self]
      exact Chain.remove_sublist n _
    · rw [chain_takeFree_ne s hc]
  have hlisted : ∀ i, s.Listed i → i = n ∨ (s.takeFree b n).Listed i := by
    rintro i (⟨c, hc⟩ | ht)
    · by_cases hcb : c = b
      · subst hcb
        rcases List.mem_cons.mp (hp.symm.subset hc) with rfl | hi
        · exact Or.inl rfl
        · refine Or.inr (Or.inl ⟨c, ?_⟩)
          rw [chain_takeFree_self]
          exact hi
      · refine Or.inr (Or.inl ⟨c, ?_⟩)
        rw [chain_takeFree_ne s hcb]
        exact hc
    · exact Or.inr (Or.inr ht)
  constructor
  · intro c
    exact List.Pairwise.sublist (hsub c) (h.chains c)
  · exact h.tree
  · intro i hi
    exact h.grid i (listed_takeFree hp hi)
  · intro i hi
    rcases h.tracked i hi with h0 | hl | hl
    · exact Or.inl h0
    · rcases hlisted i hl with rfl | hl
      · exact Or.inr (Or.inr List.mem_cons_self)
      · exact Or.inr (Or.inl hl)
    · exact Or.inr (Or.inr (List.mem_cons_of_mem n hl))
  · have hput : freeTotal g s = freeTotal g (s.takeFree b n) + g.size b := by
      refine freeTotal_put hb ?_ fun c hc => ?_
      · rw [chain_takeFree_self, ← hp.length_eq, List.length_cons]
      · rw [chain_takeFree_ne s hc]
    have htotal := h.total
    show freeTotal g (s.takeFree b n) + (bytes + g.size b) = s.currHeapSize + g.size g.depth
    omega

theorem Neat.put {k n : Nat} (h : Neat g (n :: held) (bytes + g.size k) s) (hn : Held g s n k)
    (hk : s.bin n = k) (hb : k ≤ g.depth + 1) (hgrid : g.OnGrid (s.addr n) k) :
    Neat g held bytes (s.putFree k n) := by
  have hp : (Chain.addSorted s.addr n (s.chain k)).Perm (n :: s.chain k) :=
    Chain.addSorted_perm n (s.chain k)
  have hlisted : ∀ i, i = n ∨ s.Listed i → (s.putFree k n).Listed i := by
    intro i hi
    have hmem : ∀ c, i ∈ s.chain c → (s.putFree k n).Listed i := by
      intro c hc
      refine Or.inl ⟨c, ?_⟩
      by_cases hck : c = k
      · subst hck
        rw [chain_putFree_self]
        exact hp.symm.subset (List.mem_cons_of_mem n hc)
      · rw [chain_putFree_ne s hck]
        exact hc
    rcases hi with rfl | ⟨c, hc⟩ | ht
    · refine Or.inl ⟨k, ?_⟩
      rw [chain_putFree_self]
      exact hp.symm.subset List.mem_cons_self
    · exact hmem c hc
    · exact Or.inr ht
  constructor
  · intro c
    by_cases hc : c = k
    · subst hc
      rw [chain_putFree_self]
      refine Chain.addSorted_inOrder (h.chains c) fun i hi => ?_
      exact ((hn.apart i (Or.inl ⟨c, hi⟩)).ne (g.size_pos _) (g.size_pos _)).symm
    · rw [chain_putFree_ne s hc]
      exact h.chains c
  · exact h.tree
  · intro i hi
    rcases listed_putFree hi with rfl | hi
    · exact hk ▸ hgrid
    · exact h.grid i hi
  · intro i hi
    rcases h.tracked i hi with h0 | hl | hl
    · exact Or.inl h0
    · exact Or.inr (Or.inl (hlisted i (Or.inr hl)))
    · rcases List.mem_cons.mp hl with rfl | hl
      · exact Or.inr (Or.inl (hlisted i (Or.inl rfl)))
      · exact Or.inr (Or.inr hl)
  · have hput : freeTotal g (s.putFree k n) = freeTotal g s + g.size k := by
      refine freeTotal_put hb ?_ fun c hc => ?_
      · rw [chain_putFree_self, hp.length_eq, List.length_cons]
      · rw [chain_putFree_ne s hc]
    have htotal := h.total
    show freeTotal g (s.putFree k n) + bytes = s.currHeapSize + g.size g.depth
    omega

theorem Neat.change {n : Nat} (h : Neat g held bytes s) (hn : ¬ s.Listed n) (a : SwArea)
    {held' : List Nat} (hh : ∀ i ∈ held, i ≠ n → i ∈ held') (ha : a.memAddr = 0 ∨ n ∈ held') :
    Neat g held' bytes (s.setArea n a) := by
  have ne : ∀ i, s.Listed i → i ≠ n := fun i hi hin => hn (hin ▸ hi)
  have e1 : ∀ i, s.Listed i → (s.setArea n a).addr i = s.addr i :=
    fun i hi => addr_setArea_ne s (ne i hi) a
  constructor
  · intro b
    exact (h.chains b).congr fun i hi => e1 i (Or.inl ⟨b, hi⟩)
  · exact Chain.InOrder.congr h.tree fun i hi => e1 i (Or.inr hi)
  · intro i hi
    rw [e1 i hi, bin_setArea_ne s (ne i hi)]
    exact h.grid i hi
  · intro i hi
    by_cases hin : i = n
    · subst hin
      rw [addr_setArea_self]
      exact ha.imp id Or.inr
    · rw [addr_setArea_ne s hin]
      exact (h.tracked i hi).imp id (Or.imp id fun h => hh i h hin)
  · exact h.total

/-! ## taking a block -/

theorem Geometry.OnGrid.lower {a k : Nat} (h : g.OnGrid a (k + 1)) : g.OnGrid a k := by
  obtain ⟨q, rfl⟩ := h
  refine ⟨2 * q, ?_⟩
  rw [g.size_succ]
  ring

theorem Geometry.OnGrid.upper {a k : Nat} (h : g.OnGrid a k) : g.OnGrid (a + g.size k) k := by
  obtain ⟨q, rfl⟩ := h
  refine ⟨q + 1, ?_⟩
  ring

variable {free live part : Nat → Nat → Prop}

theorem splitLoop_neat
    (hcut : ∀ a k, part a (k + 1) → part a k ∧ free (a + g.size k) k ∧ a + g.size k < 2 ^ 32)
    (hm : g.Manages s) (h : Core g free live s) {n bin idx m : Nat} (hn : Held g s n idx)
    (hp : part (s.addr n) idx) (hidx : idx ≤ g.depth + 1) (hgrid : g.OnGrid (s.addr n) idx)
    (hneat : Neat g [n] (g.size idx) s) (hsome : (splitLoop s n bin idx).1 = some m) :
    Neat g [n] (g.size bin) (splitLoop s n bin idx).2 ∧
      g.OnGrid ((splitLoop s n bin idx).2.addr n) bin := by
  induction idx generalizing s with
  | zero => cases hsome
  | succ k ih =>
    rw [splitLoop] at hsome ⊢
    by_cases hle : k + 1 ≤ bin
    · rw [if_pos hle] at hsome
      cases hsome
    rw [if_neg hle] at hsome ⊢
    cases hf : getFreeNode s with
    | none =>
      rw [hf] at hsome
      cases hsome
    | some ft =>
      obtain ⟨f, t⟩ := ft
      rw [hf] at hsome
      obtain ⟨ht, hfix, hch, hlf, -, hheld⟩ := h.getFreeNode hf
      obtain ⟨hnf, hnt, hat⟩ := hheld n (k + 1) hn
      obtain ⟨hp1, hfr, hlt⟩ := hcut _ k hp
      have hsz : t.binSize k = g.size k := (hm.of_fixed hfix).binSize (by omega)
      obtain ⟨hf0, next, ht'⟩ := getFreeNode_some hf
      have hlf' : ¬ s.Listed f := fun hl => h.addr_ne f hl hf0
      have hneat_t : Neat g [n] (g.size (k + 1)) t := by
        have h1 := hneat.change hlf' ⟨0, 0, 0⟩ (fun _ hi _ => hi) (Or.inl rfl)
        rw [ht']
        exact h1.congr rfl (fun _ => rfl) rfl rfl rfl
      obtain ⟨c1, c2, c3⟩ := ht.cut hnt hlf hnf (hat.symm ▸ hfr)
      obtain ⟨d1, d2, d3⟩ := hnt.split hlf hnf ⟨t.addr n + g.size k, g.size k, k⟩ rfl
      simp only at hsome ⊢
      rw [hsz, u32_of_lt (hat.symm ▸ hlt)] at hsome ⊢
      have hgrid_t : g.OnGrid (t.addr n) k := hat ▸ hgrid.lower
      have hneat_u : Neat g [n] (g.size k)
          ((t.setArea f ⟨t.addr n + g.size k, g.size k, k⟩).putFree k f) := by
        have h1 := hneat_t.change hlf ⟨t.addr n + g.size k, g.size k, k⟩
          (fun i hi _ => List.mem_cons_of_mem f hi) (Or.inr List.mem_cons_self)
        rw [g.size_succ] at h1
        refine h1.put d2 (bin_setArea_self t f _) (by omega) ?_
        rw [addr_setArea_self]
        exact hgrid_t.upper
      generalize hu : (t.setArea f ⟨t.addr n + g.size k, g.size k, k⟩).putFree k f = u at *
      have hufix : u.fixed = s.fixed := by rw [← hu]; exact hfix
      have hgrid_u : g.OnGrid (u.addr n) k := c3 ▸ hgrid_t
      by_cases hbk : bin = k
      · subst hbk
        rw [if_pos rfl]
        refine ⟨hneat_u.change c2.unlisted _ (fun _ hi _ => hi) (Or.inr List.mem_cons_self), ?_⟩
        rw [addr_setArea_self]
        exact hgrid_u
      · rw [if_neg hbk] at hsome ⊢
        have hpu : part (u.addr n) k := by rw [c3, hat]; exact hp1
        exact ih (hm.of_fixed hufix) c1 c2 hpu (by omega) hgrid_u hneat_u hsome

theorem splitLoop_length {n bin idx m : Nat} (hsome : (splitLoop s n bin idx).1 = some m) (b : Nat) :
    ((splitLoop s n bin idx).2.chain b).length
      = (s.chain b).length + if bin ≤ b ∧ b < idx then 1 else 0 := by
  induction idx generalizing s with
  | zero => cases hsome
  | succ k ih =>
    rw [splitLoop] at hsome ⊢
    by_cases hle : k + 1 ≤ bin
    · rw [if_pos hle] at hsome
      cases hsome
    rw [if_neg hle] at hsome ⊢
    cases hf : getFreeNode s with
    | none =>
      rw [hf] at hsome
      cases hsome
    | some ft =>
      obtain ⟨f, t⟩ := ft
      obtain ⟨-, next, rfl⟩ := getFreeNode_some hf
      rw [hf] at hsome
      simp only at hsome ⊢
      generalize hu : ((claimNode s f next).setArea f _).putFree k f = u at hsome ⊢
      have hlen : (u.chain b).length = (s.chain b).length + if b = k then 1 else 0 := by
        rw [← hu]
        by_cases hb : b = k
        · subst hb
          rw [chain_putFree_self, (Chain.addSorted_perm _ _).length_eq, if_pos rfl]
          rfl
        · rw [chain_putFree_ne _ hb, if_neg hb]
          rfl
      by_cases hbk : bin = k
      · subst hbk
        rw [if_pos rfl, chain_setArea, hlen]
        congr 1
        refine if_congr ?_ rfl rfl
        omega
      · rw [if_neg hbk] at hsome ⊢
        rw [ih hsome, hlen, Nat.add_assoc]
        congr 1
        split_ifs <;> omega

theorem getFreeBuddy_neat
    (hcut : ∀ a k, part a (k + 1) → part a k ∧ free (a + g.size k) k ∧ a + g.size k < 2 ^ 32)
    (hm : g.Manages s) (h : Core g free live s) {bin m : Nat}
    (hpart : ∀ idx n l, bin ≤ idx → idx ≤ g.depth + 1 → s.chain idx = n :: l →
      (∀ b, bin ≤ b → b < idx → s.chain b = []) → part (s.addr n) idx)
    (hneat : Neat g [] 0 s) (hsome : (getFreeBuddy s bin).1 = some m) :
    Neat g [m] (g.size bin) (getFreeBuddy s bin).2 ∧
      g.OnGrid ((getFreeBuddy s bin).2.addr m) bin := by
  obtain ⟨-, he⟩ | ⟨idx, n, l, hlo, hhi, hl, hfirst, he⟩ := getFreeBuddy_cases s bin
  · rw [he] at hsome
    cases hsome
  rw [hm.maxBin] at hhi
  obtain ⟨ht, hheld⟩ := h.takeHead hl
  have hn : n ∈ s.chain idx := hl ▸ List.mem_cons_self
  have hgrid : g.OnGrid (s.addr n) idx := by
    have h1 := hneat.grid n (Or.inl ⟨idx, hn⟩)
    rwa [h.chain_bin idx n hn] at h1
  have htake : Neat g [n] (g.size idx) (s.takeFree idx n) := by
    have h1 := hneat.take (b := idx) (n := n) hhi (by rw [hl, Chain.remove_head])
    rwa [Nat.zero_add] at h1
  rw [he] at hsome ⊢
  by_cases hib : idx = bin
  · rw [if_pos hib] at hsome ⊢
    obtain rfl := Option.some.inj hsome
    exact ⟨hib ▸ htake, hib ▸ hgrid⟩
  · rw [if_neg hib] at hsome ⊢
    have hp : part ((s.takeFree idx n).addr n) idx := hpart idx n l hlo hhi hl hfirst
    have hm' : g.Manages (s.takeFree idx n) := hm.of_fixed rfl
    obtain ⟨rfl, -⟩ := (splitLoop_spec hcut hm' ht hheld hp hhi (by omega : bin < idx)).node m hsome
    exact splitLoop_neat hcut hm' ht hheld hp hhi hgrid htake hsome

theorem Neat.takeBlock {n k : Nat} (h : Neat g [n] (g.size k) s) (hn : Held g s n k)
    (hk : s.bin n = k) (hsz : (s.area n).blockSize = g.size k) (hgrid : g.OnGrid (s.addr n) k)
    (hcurr : g.size k ≤ s.currHeapSize) : Neat g [] 0 (takeBlock s n).2 := by
  have hp := hn.add_perm
  rw [hn.takeBlock_eq, hsz, sub32_of_le hcurr]
  constructor
  · exact h.chains
  · refine BTree.add_inOrder h.tree fun i hi => ?_
    exact ((hn.apart i (Or.inr hi)).ne (g.size_pos _) (g.size_pos _)).symm
  · rintro i (hc | ht)
    · exact h.grid i (Or.inl hc)
    · rcases List.mem_cons.mp (hp.subset ht) with rfl | ht
      · exact hk ▸ hgrid
      · exact h.grid i (Or.inr ht)
  · intro i hi
    rcases h.tracked i hi with h0 | (hc | ht) | hl
    · exact Or.inl h0
    · exact Or.inr (Or.inl (Or.inl hc))
    · exact Or.inr (Or.inl (Or.inr (hp.symm.subset (List.mem_cons_of_mem n ht))))
    · obtain rfl := List.mem_singleton.mp hl
      exact Or.inr (Or.inl (Or.inr (hp.symm.subset List.mem_cons_self)))
  · have htotal := h.total
    show freeTotal g s + 0 = s.currHeapSize - g.size k + g.size g.depth
    omega

/-! ## giving a block back -/

theorem mergePair_chain_self (s : SwBuddyPool) (idx n m : Nat) :
    ((mergePair s idx n m n m).chain idx).Sublist (s.chain idx) := by
  unfold mergePair
  simp only
  rw [chain_putFree_ne _ (by omega), chain_setArea, chain_setArea, chain_takeFree_self,
    chain_takeFree_self]
  exact (Chain.remove_sublist m _).trans (Chain.remove_sublist n _)

theorem mergePair_gone {s : SwBuddyPool} {idx n m : Nat} (hmn : m ≠ n) :
    (mergePair s idx n m n m).addr m = 0 := by
  unfold mergePair
  simp only
  show ((SwBuddyPool.setArea _ n _).area m).memAddr = 0
  rw [area_setArea_ne _ hmn, area_setArea_self]

section
variable {idx n m : Nat}

theorem MergeResult.mem (h : MergeResult g free live s idx n m t) {b i : Nat} (hi : i ∈ t.chain b) :
    i = n ∧ b = idx + 1 ∨ i ∈ s.chain b := by
  by_cases h1 : b = idx
  · subst h1
    exact Or.inr (h.left.subset (List.mem_cons_of_mem n (List.mem_cons_of_mem m hi)))
  · by_cases h2 : b = idx + 1
    · subst h2
      rw [h.next] at hi
      rcases List.mem_cons.mp ((Chain.addSorted_perm n _).subset hi) with rfl | hi
      · exact Or.inl ⟨rfl, rfl⟩
      · exact Or.inr hi
    · rw [h.other b h1 h2] at hi
      exact Or.inr hi

theorem MergeResult.listed (h : MergeResult g free live s idx n m t) (hs : Core g free live s)
    (i : Nat) : t.Listed i ↔ s.Listed i ∧ i ≠ m := by
  have hm : m ∈ s.chain idx := h.left.subset (by simp)
  have hn : n ∈ s.chain idx := h.left.subset (by simp)
  have hnd := h.left.nodup_iff.mpr (hs.chain_nodup idx)
  have hmn : m ≠ n := by
    rintro rfl
    simp at hnd
  have hmt : m ∉ t.chain idx := fun hc => by simp [hc] at hnd
  have htree : t.allocTree = s.allocTree := tree_of_fixed h.fixed
  constructor
  · rintro (⟨b, hb⟩ | ht)
    · rcases h.mem hb with ⟨rfl, -⟩ | hi
      · exact ⟨Or.inl ⟨idx, hn⟩, hmn.symm⟩
      · refine ⟨Or.inl ⟨b, hi⟩, ?_⟩
        rintro rfl
        have hb' : b = idx := (hs.chain_bin b i hi).symm.trans (hs.chain_bin idx i hm)
        exact hmt (hb' ▸ hb)
    · rw [htree] at ht
      exact ⟨Or.inr ht, fun e => hs.unshared idx m hm (e ▸ ht)⟩
  · rintro ⟨⟨b, hb⟩ | ht, him⟩
    · refine Or.inl ?_
      by_cases h1 : b = idx
      · subst h1
        rcases List.mem_cons.mp (h.left.symm.subset hb) with rfl | hi
        · refine ⟨b + 1, ?_⟩
          rw [h.next]
          exact (Chain.addSorted_perm i _).symm.subset List.mem_cons_self
        · rcases List.mem_cons.mp hi with rfl | hi
          · exact absurd rfl him
          · exact ⟨b, hi⟩
      · by_cases h2 : b = idx + 1
        · subst h2
          refine ⟨idx + 1, ?_⟩
          rw [h.next]
          exact (Chain.addSorted_perm n _).symm.subset (List.mem_cons_of_mem n hb)
        · exact ⟨b, by rw [h.other b h1 h2]; exact hb⟩
    · exact Or.inr (htree ▸ ht)

theorem MergeResult.neat (h : MergeResult g free live s idx n m t) (hs : Core g free live s)
    (hidx : idx ≤ g.depth) (hsub : (t.chain idx).Sublist (s.chain idx)) (hgone : t.addr m = 0)
    (hgrid : g.OnGrid (s.addr n) (idx + 1)) (hneat : Neat g [] 0 s) : Neat g [] 0 t := by
  have hm : m ∈ s.chain idx := h.left.subset (by simp)
  have hn : n ∈ s.chain idx := h.left.subset (by simp)
  have htree : t.allocTree = s.allocTree := tree_of_fixed h.fixed
  have haddr : ∀ i, t.Listed i → t.addr i = s.addr i := fun i hi =>
    h.addr i ((h.listed hs i).mp hi).2
  constructor
  · intro b
    have hs' : Chain.InOrder s.addr (t.chain b) := by
      by_cases h1 : b = idx
      · subst h1
        exact List.Pairwise.sublist hsub (hneat.chains b)
      · by_cases h2 : b = idx + 1
        · subst h2
          rw [h.next]
          refine Chain.addSorted_inOrder (hneat.chains _) fun i hi => ?_
          have hin : i ≠ n := by
            rintro rfl
            have e1 := hs.chain_bin _ i hi
            have e2 := hs.chain_bin _ i hn
            omega
          exact (hs.apart i n (Or.inl ⟨_, hi⟩) (Or.inl ⟨_, hn⟩) hin).ne (g.size_pos _) (g.size_pos _)
        · rw [h.other b h1 h2]
          exact hneat.chains b
    exact hs'.congr fun i hi => haddr i (Or.inl ⟨b, hi⟩)
  · rw [BTree.InOrder, htree]
    exact Chain.InOrder.congr hneat.tree fun i hi => haddr i (Or.inr (htree ▸ hi))
  · intro i hi
    obtain ⟨hi', him⟩ := (h.listed hs i).mp hi
    rw [haddr i hi]
    by_cases hin : i = n
    · subst hin
      have hb : t.bin i = idx + 1 := h.core.chain_bin (idx + 1) i (by
        rw [h.next]
        exact (Chain.addSorted_perm i _).symm.subset List.mem_cons_self)
      rw [hb]
      exact hgrid
    · have hb : t.bin i = s.bin i := congrArg SwArea.bin (h.same i hin him)
      rw [hb]
      exact hneat.grid i hi'
  · intro i hi
    have hcnt : t.totalAreaCnt = s.totalAreaCnt := by
      show t.fixed.totalAreaCnt = s.fixed.totalAreaCnt
      rw [h.fixed]
    by_cases him : i = m
    · exact Or.inl (him ▸ hgone)
    · rw [h.addr i him]
      rcases hneat.tracked i (hcnt ▸ hi) with h0 | hl | hl
      · exact Or.inl h0
      · exact Or.inr (Or.inl ((h.listed hs i).mpr ⟨hl, him⟩))
      · cases hl
  · have hcurr : t.currHeapSize = s.currHeapSize := by
      show t.fixed.currHeapSize = s.fixed.currHeapSize
      rw [h.fixed]
    have htotal := hneat.total
    have h1 : freeTotal g t + 2 * g.size idx = freeTotal g s + g.size (idx + 1) := by
      have hmem1 : idx ∈ Finset.range (g.depth + 2) := Finset.mem_range.mpr (by omega)
      have hmem2 : idx + 1 ∈ (Finset.range (g.depth + 2)).erase idx :=
        Finset.mem_erase.mpr ⟨by omega, Finset.mem_range.mpr (by omega)⟩
      have hl1 : (s.chain idx).length = (t.chain idx).length + 2 := h.left.length_eq.symm
      have hl2 : (t.chain (idx + 1)).length = (s.chain (idx + 1)).length + 1 := by
        rw [h.next, (Chain.addSorted_perm n _).length_eq, List.length_cons]
      have hrest : ∀ c ∈ ((Finset.range (g.depth + 2)).erase idx).erase (idx + 1),
          (t.chain c).length * g.size c = (s.chain c).length * g.size c := by
        intro c hc
        obtain ⟨hc2, hc⟩ := Finset.mem_erase.mp hc
        rw [h.other c (Finset.ne_of_mem_erase hc) hc2]
      unfold freeTotal
      rw [← Finset.add_sum_erase _ (fun c => (t.chain c).length * g.size c) hmem1,
        ← Finset.add_sum_erase _ (fun c => (t.chain c).length * g.size c) hmem2,
        ← Finset.add_sum_erase _ (fun c => (s.chain c).length * g.size c) hmem1,
        ← Finset.add_sum_erase _ (fun c => (s.chain c).length * g.size c) hmem2,
        Finset.sum_congr rfl hrest, hl1, hl2]
      ring
    have h2 := g.size_succ idx
    omega

end

end
end SierraTee
