import SierraTee.Buddy.Contain

/-!
# The free side keeps the blocks inside the memory

`mergeLoop` goes up from the bin of the freed block.  Below bin `depth` it only joins blocks
inside the memory; when the join gives the whole memory, the next round joins that with the
phantom, which gives the top block back.

* `mergeLoop_ends`  the loop ends with the phantom or with the top block;
* `Contained.free`  `sw_buddy_free` keeps the invariant.
-/

namespace SierraTee
open Word SwBuddyPool

/-- the blocks of a pool in which bin `depth` holds the phantom alone -/
structure Resting (g : Geometry) (s : SwBuddyPool) : Prop where
  manages : g.Manages s
  core : Core g g.FreeOrWhole g.Inside s
  phantom : ∃ ph, s.chain g.depth = [ph] ∧ s.addr ph = g.memEnd

/-- the blocks of a pool in which bin `depth` holds the whole memory and the phantom -/
structure Whole (g : Geometry) (s : SwBuddyPool) : Prop where
  manages : g.Manages s
  core : Core g g.FreeOrWhole g.Inside s
  both : ∃ t ph, s.chain g.depth = [t, ph] ∧ s.addr t = g.memStart ∧ s.addr ph = g.memEnd

structure Merged (g : Geometry) (s t : SwBuddyPool) : Prop where
  core : Core g g.Free g.Inside t
  fixed : t.fixed = s.fixed
  mode : t.chain (g.depth + 1) ≠ [] ∨ t.chain g.depth ≠ []
  same : ∀ i ∈ s.allocTree.toList, t.area i = s.area i

def LoopEnds (g : Geometry) (s : SwBuddyPool) : Option SwBuddyPool → Prop
  | some t => Merged g s t
  | none => g.memEnd + g.size g.depth = 2 ^ 32

section
variable {g : Geometry} {s t : SwBuddyPool}

theorem Merged.trans {u : SwBuddyPool} (h : Merged g t u) (hf : t.fixed = s.fixed)
    (hs : ∀ i ∈ s.allocTree.toList, t.area i = s.area i) : Merged g s u :=
  ⟨h.core, h.fixed.trans hf, h.mode, fun i hi =>
    (h.same i (by rw [tree_of_fixed hf]; exact hi)).trans (hs i hi)⟩

theorem LoopEnds.trans {r : Option SwBuddyPool} (h : LoopEnds g t r) (hf : t.fixed = s.fixed)
    (hs : ∀ i ∈ s.allocTree.toList, t.area i = s.area i) : LoopEnds g s r := by
  cases r with
  | none => exact h
  | some u => exact Merged.trans h hf hs

theorem Resting.merged (h : Resting g s) : Merged g s s := by
  obtain ⟨ph, hc, ha⟩ := h.phantom
  refine ⟨h.core.mono (fun b i hi hf => ?_) fun _ _ hl => hl, rfl, Or.inr (by simp [hc]),
    fun _ _ => rfl⟩
  rcases hf with hf | ⟨hb, -⟩
  · exact hf
  · subst hb
    rw [hc, List.mem_singleton] at hi
    subst hi
    exact Or.inr (Or.inl ⟨rfl, ha⟩)

theorem addSorted_before {addr : Nat → Nat} {n i : Nat} (h : addr n < addr i) :
    Chain.addSorted addr n [i] = [n, i] := by
  rw [Chain.addSorted, if_pos h]

theorem Whole.ends {temp fuel : Nat} (h : Whole g s) :
    LoopEnds g s (mergeLoop s temp g.depth (fuel + 1)) := by
  obtain ⟨w, ph, hc, hw, hph⟩ := h.both
  have hpos := Geometry.memEnd_pos (g := g)
  have hbuddy : u32 (s.addr w + s.binSize g.depth) = g.memEnd := by
    rw [h.manages.binSize (le_refl _), hw]
    exact u32_of_lt g.memEnd_lt
  have hsearch : Chain.search s.addr g.memEnd (s.chain g.depth) = some ph := by
    rw [hc, Chain.search, if_neg (by omega), if_neg (by omega), Chain.search, if_pos hph]
  have hbins := g.bins
  rw [mergeLoop, hc]
  simp only [hbuddy]
  rw [← hc, hsearch, if_neg (by omega)]
  simp only
  rw [if_neg (by omega), if_neg (by omega : ¬ g.memEnd < s.addr w),
    if_neg (by omega : ¬ g.memEnd < s.addr w), h.manages.maxBin, if_pos rfl]
  show Merged g s (mergePair s g.depth w ph w ph)
  have hfree : g.FreeOrWhole (s.addr w) (g.depth + 1) := Or.inl (Or.inr (Or.inr ⟨rfl, hw⟩))
  have hm := h.core.merge h.manages hc hsearch (by rw [hw]; rfl) hfree
  generalize mergePair s g.depth w ph w ph = u at *
  have hnil : u.chain g.depth = [] := by
    have hlen := hm.left.length_eq
    rw [hc] at hlen
    exact List.length_eq_zero_iff.1 (by simpa using hlen)
  refine ⟨hm.core.mono (fun b i hi hf => ?_) fun _ _ hl => hl, hm.fixed, Or.inl ?_, ?_⟩
  · rcases hf with hf | ⟨hb, -⟩
    · exact hf
    · subst hb
      rw [hnil] at hi
      exact absurd hi (by simp)
  · rw [hm.next]
    exact List.ne_nil_of_mem ((Chain.addSorted_perm w _).symm.subset List.mem_cons_self)
  · intro i hi
    have hwm : w ∈ s.chain g.depth := by simp [hc]
    have hpm : ph ∈ s.chain g.depth := by simp [hc]
    exact hm.same i (fun e => h.core.unshared _ w hwm (e ▸ hi))
      fun e => h.core.unshared _ ph hpm (e ▸ hi)

theorem Resting.step {idx n m buddy : Nat} {l : List Nat} (h : Resting g s) (hidx : idx < g.depth)
    (hl : s.chain idx = n :: l) (hs : Chain.search s.addr buddy (s.chain idx) = some m)
    (hb : buddy = s.addr n + g.size idx) :
    let u := mergePair s idx n m n m
    u.fixed = s.fixed ∧ (∀ i ∈ s.allocTree.toList, u.area i = s.area i) ∧
      ((idx + 1 < g.depth ∧ Resting g u) ∨ (idx + 1 = g.depth ∧ Whole g u)) := by
  intro u
  obtain ⟨ph, hc, ha⟩ := h.phantom
  have hn : n ∈ s.chain idx := hl ▸ List.mem_cons_self
  have hm := (Chain.search_some hs).1
  have hin : g.Inside (s.addr n) (idx + 1) := by
    have h1 := (h.core.free_ok idx n hn).inside hidx
    have h2 := (h.core.free_ok idx m hm).inside hidx
    rw [(Chain.search_some hs).2, hb] at h2
    have hsz := g.size_succ idx
    unfold Geometry.Inside at *
    omega
  have hfree : g.FreeOrWhole (s.addr n) (idx + 1) := by
    by_cases he : idx + 1 < g.depth
    · exact Or.inl (Or.inl ⟨hin, he⟩)
    · have he' : idx + 1 = g.depth := by omega
      exact Or.inr ⟨he', (he' ▸ hin).eq_start⟩
  have hr : MergeResult g g.FreeOrWhole g.Inside s idx n m u :=
    h.core.merge h.manages hl hs hb hfree
  have hphm : ph ≠ m := by
    rintro rfl
    have e1 := h.core.chain_bin _ ph (by rw [hc]; exact List.mem_singleton.2 rfl)
    have e2 := h.core.chain_bin _ ph hm
    omega
  have hap : u.addr ph = g.memEnd := (hr.addr ph hphm).trans ha
  refine ⟨hr.fixed, fun i hi => ?_, ?_⟩
  · exact hr.same i (fun e => h.core.unshared _ n hn (e ▸ hi))
      fun e => h.core.unshared _ m hm (e ▸ hi)
  · by_cases he : idx + 1 < g.depth
    · refine Or.inl ⟨he, h.manages.of_fixed hr.fixed, hr.core, ph, ?_, hap⟩
      rw [hr.other g.depth (by omega) (by omega), hc]
    · have he' : idx + 1 = g.depth := by omega
      have han : s.addr n = g.memStart := (he' ▸ hin).eq_start
      have hnm : n ≠ m := by
        rintro rfl
        have e1 := (Chain.search_some hs).2
        have := g.size_pos idx
        omega
      refine Or.inr ⟨he', h.manages.of_fixed hr.fixed, hr.core, n, ph, ?_,
        (hr.addr n hnm).trans han, hap⟩
      rw [← he', hr.next, he', hc]
      exact addSorted_before (by rw [han, ha]; exact Geometry.memEnd_pos)

theorem Resting.top_empty (h : Resting g s) : s.chain (g.depth + 1) = [] := by
  obtain ⟨ph, hc, -⟩ := h.phantom
  have hph : ph ∈ s.chain g.depth := by simp [hc]
  refine List.eq_nil_iff_forall_not_mem.2 fun i hi => ?_
  obtain rfl : ph = i := top_alone h.core hi (Or.inl ⟨_, hph⟩)
  have e1 := h.core.chain_bin _ ph hph
  have e2 := h.core.chain_bin _ ph hi
  omega

theorem mergeLoop_top {temp fuel : Nat} (h : s.chain (g.depth + 1) = []) :
    mergeLoop s temp (g.depth + 1) fuel = some s := by
  cases fuel with
  | zero => rfl
  | succ fuel => rw [mergeLoop, h]

theorem Resting.last {temp fuel : Nat} (h : Resting g s) :
    LoopEnds g s (mergeLoop s temp g.depth (fuel + 1)) := by
  obtain ⟨ph, hc, ha⟩ := h.phantom
  have h1 := g.size_pos g.depth
  have h2 := g.memEnd_lt
  have h3 := Geometry.size_lt_word (le_refl g.depth)
  have hsearch : Chain.search s.addr (u32 (g.memEnd + g.size g.depth)) [ph] = none := by
    have hne : s.addr ph ≠ u32 (g.memEnd + g.size g.depth) := by
      rw [ha, u32]
      omega
    rw [Chain.search, if_neg hne]
    split <;> rfl
  rw [mergeLoop, hc]
  simp only
  rw [h.manages.binSize (le_refl _), ha, hsearch]
  split
  · rename_i hzero
    show g.memEnd + g.size g.depth = 2 ^ 32
    rw [u32] at hzero
    omega
  · simp only
    split
    · exact h.merged
    · rw [mergeLoop_top h.top_empty]
      exact h.merged

theorem mergeLoop_ends {temp idx fuel : Nat} (h : Resting g s) (hidx : idx ≤ g.depth)
    (hfuel : g.depth < idx + fuel) : LoopEnds g s (mergeLoop s temp idx fuel) := by
  induction fuel generalizing s idx with
  | zero => exact absurd hfuel (by omega)
  | succ fuel ih =>
    by_cases he : idx = g.depth
    · subst he
      exact h.last
    have hlt : idx < g.depth := by omega
    cases hl : s.chain idx with
    | nil =>
      rw [mergeLoop, hl]
      exact h.merged
    | cons n l =>
      have hin := (h.core.free_ok idx n (by simp [hl])).inside hlt
      have hsz := h.manages.binSize hidx
      have hbuddy : u32 (s.addr n + s.binSize idx) = s.addr n + g.size idx := by
        have h1 := g.memEnd_lt
        unfold Geometry.Inside at hin
        rw [hsz]
        exact u32_of_lt (by omega)
      have hpos := g.size_pos idx
      have hbins := g.bins
      rw [mergeLoop, hl]
      simp only [hbuddy]
      rw [← hl, if_neg (by omega)]
      cases hs : Chain.search s.addr (s.addr n + g.size idx) (s.chain idx) with
      | none =>
        simp only
        split
        · exact h.merged
        · exact ih h (by omega) (by omega)
      | some m =>
        simp only
        have hle : ¬ s.addr n + g.size idx < s.addr n := by omega
        rw [if_neg hle, if_neg hle, h.manages.maxBin, if_neg (by omega : ¬ idx + 1 = g.depth + 1),
          if_neg (by omega : ¬ maxBins ≤ idx + 1)]
        obtain ⟨hf, hsame, ⟨hd, hrest⟩ | ⟨hd, hwhole⟩⟩ := h.step hlt hl hs rfl
        · exact (ih hrest (by omega) (by omega)).trans hf hsame
        · obtain ⟨k, rfl⟩ : ∃ k, fuel = k + 1 := ⟨fuel - 1, by omega⟩
          rw [hd]
          exact hwhole.ends.trans hf hsame

/-! ## `sw_buddy_free` -/

theorem SwBuddyPool.Core.giveBack {n k : Nat} (hm : g.Manages s) (h : Core g g.Free g.Inside s)
    (hn : Held g s n k) (hin : g.Inside (s.addr n) k) :
    Core g g.FreeOrWhole g.Inside
      ((s.setArea n ⟨s.addr n, s.binSize k, k⟩).putFree k n) := by
  have hk := hin.le_depth
  have hfree : g.FreeOrWhole (s.addr n) k := by
    by_cases he : k < g.depth
    · exact Or.inl (Or.inl ⟨hin, he⟩)
    · obtain rfl : k = g.depth := by omega
      exact Or.inr ⟨rfl, hin.eq_start⟩
  refine ((h.setArea hn.unlisted _).mono (fun _ _ _ hf => Or.inl hf) fun _ _ hl => hl).putFree
    (hn.setArea_self _ rfl) (bin_setArea_self s n _) (fun _ => ?_) ?_
  · rw [area_setArea_self]
    exact hm.binSize hk
  · rw [addr_setArea_self]
    exact hfree

theorem returnToFreeArea_ends {n k : Nat} (hm : g.Manages s) (h : Core g g.Free g.Inside s)
    (hn : Held g s n k) (hin : g.Inside (s.addr n) k)
    (hph : ∃ ph, s.chain g.depth = [ph] ∧ s.addr ph = g.memEnd) :
    LoopEnds g s (returnToFreeArea s n k) := by
  have hk := hin.le_depth
  obtain ⟨ph, hc, ha⟩ := hph
  have hphn : ph ≠ n := by
    rintro rfl
    exact hn.unlisted (Or.inl ⟨_, by rw [hc]; exact List.mem_singleton.2 rfl⟩)
  rw [returnToFreeArea, if_neg (by rw [hm.maxBin]; omega), hm.maxBin]
  have hput := h.giveBack hm hn hin
  have hsame : ∀ i ∈ s.allocTree.toList,
      (s.setArea n ⟨s.addr n, s.binSize k, k⟩).area i = s.area i :=
    fun i hi => area_setArea_ne s (fun e : i = n => hn.unlisted (Or.inr (e ▸ hi))) _
  have hph' : (s.setArea n ⟨s.addr n, s.binSize k, k⟩).addr ph = g.memEnd := by
    rw [addr_setArea_ne s hphn, ha]
  have han : (s.setArea n ⟨s.addr n, s.binSize k, k⟩).addr n = s.addr n := addr_setArea_self s n _
  have hfix : (s.setArea n ⟨s.addr n, s.binSize k, k⟩).fixed = s.fixed := rfl
  have hcu : (s.setArea n ⟨s.addr n, s.binSize k, k⟩).chain g.depth = [ph] := hc
  generalize s.setArea n ⟨s.addr n, s.binSize k, k⟩ = u at *
  have hmu : g.Manages (u.putFree k n) := hm.of_fixed hfix
  have hends : LoopEnds g (u.putFree k n) (mergeLoop (u.putFree k n) n k (g.depth + 1 + 1 - k)) := by
    by_cases he : k < g.depth
    · refine mergeLoop_ends ⟨hmu, hput, ph, ?_, hph'⟩ hk (by omega)
      rw [chain_putFree_ne u (by omega), hcu]
    · obtain rfl : k = g.depth := by omega
      have hwhole : Whole g (u.putFree g.depth n) := by
        refine ⟨hmu, hput, n, ph, ?_, han.trans hin.eq_start, hph'⟩
        rw [chain_putFree_self, hcu]
        refine addSorted_before ?_
        rw [han, hph', hin.eq_start]
        exact Geometry.memEnd_pos
      rw [show g.depth + 1 + 1 - g.depth = 1 + 1 by omega]
      exact hwhole.ends
  exact hends.trans hfix hsame

theorem returnToFreeArea_merged {n k : Nat} (hm : g.Manages s) (h : Core g g.Free g.Inside s)
    (hn : Held g s n k) (hin : g.Inside (s.addr n) k)
    (hph : ∃ ph, s.chain g.depth = [ph] ∧ s.addr ph = g.memEnd)
    (hr : returnToFreeArea s n k = some t) : Merged g s t := by
  have hends := returnToFreeArea_ends hm h hn hin hph
  rw [hr] at hends
  exact hends

theorem dropBlock_area (s : SwBuddyPool) (n : Nat) : (dropBlock s n).area = s.area := rfl

theorem dropBlock_chain (s : SwBuddyPool) (n b : Nat) : (dropBlock s n).chain b = s.chain b := rfl

theorem dropBlock_tree (s : SwBuddyPool) (n : Nat) :
    (dropBlock s n).allocTree = BTree.remove s.addr n s.allocTree := rfl

theorem dropBlock_shape (s : SwBuddyPool) (n : Nat) : (dropBlock s n).shape = s.shape := rfl

theorem SwBuddyPool.Core.drop {free live : Nat → Nat → Prop} {ptr n : Nat}
    (h : Core g free live s) (hs : BTree.search s.addr ptr s.allocTree = some n) :
    Core g free live (dropBlock s n) ∧ Held g (dropBlock s n) n (s.bin n) := by
  obtain ⟨hcore, hheld⟩ := h.takeTree hs
  refine ⟨hcore.congr (dropBlock_area s n) (dropBlock_chain s n) (dropBlock_tree s n),
    hheld.mono (dropBlock_area s n) fun i hi => ?_⟩
  simp only [Listed, dropBlock_chain, dropBlock_tree] at hi
  exact hi

theorem Contained.phantom_free (h : Contained g s) {n : Nat} (hn : n ∈ s.allocTree.toList) :
    s.chain g.depth ≠ [] := by
  rcases h.mode with htop | hph | ⟨-, hnil⟩
  · obtain ⟨top, ht⟩ := List.exists_mem_of_ne_nil _ htop
    obtain rfl : n = top := top_alone h.core' ht (Or.inr hn)
    exact absurd hn (h.core.unshared _ n ht)
  · exact hph
  · rw [hnil] at hn
    exact absurd hn (by simp)

theorem Contained.free_returns {ptr n : Nat} (h : Contained g s)
    (hend : g.memEnd + g.size g.depth ≠ 2 ^ 32) (h0 : ptr ≠ 0)
    (hs : BTree.search s.addr ptr s.allocTree = some n) : ∃ t, swBuddyFree s ptr = some t := by
  have hn : n ∈ s.allocTree.toList := (BTree.search_some hs).1
  have hm : g.Manages (dropBlock s n) := h.manages.of_shape (dropBlock_shape s n)
  obtain ⟨hcore, hheld⟩ := h.core.drop hs
  have hends := returnToFreeArea_ends hm hcore hheld (h.core.live_ok n hn)
    (h.phantom (h.phantom_free hn))
  rw [swBuddyFree, if_neg h0, hs]
  simp only
  generalize returnToFreeArea (dropBlock s n) n (s.bin n) = r at *
  cases r with
  | none => exact absurd hends hend
  | some t => exact ⟨t, rfl⟩

theorem Contained.free {ptr : Nat} (h : Contained g s) (hr : swBuddyFree s ptr = some t) :
    Contained g t := by
  rw [swBuddyFree] at hr
  by_cases h0 : ptr = 0
  · rw [if_pos h0] at hr
    exact absurd hr (by simp)
  rw [if_neg h0] at hr
  cases hs : BTree.search s.addr ptr s.allocTree with
  | none =>
    rw [hs] at hr
    obtain rfl := Option.some.inj hr
    exact h
  | some n =>
    rw [hs] at hr
    have hn : n ∈ s.allocTree.toList := (BTree.search_some hs).1
    have hperm := BTree.remove_perm hs
    have hne := h.phantom_free hn
    have hm : g.Manages (dropBlock s n) := h.manages.of_shape (dropBlock_shape s n)
    obtain ⟨hcore, hheld⟩ := h.core.drop hs
    have hsize : liveSize s = (s.area n).blockSize + liveSize (dropBlock s n) := by
      rw [liveSize, ← (hperm.map _).sum_eq]
      rfl
    have hmerged := returnToFreeArea_merged hm hcore hheld (h.core.live_ok n hn)
      (h.phantom hne) hr
    have hacc := h.account
    have hw := Geometry.size_lt_word (le_refl g.depth)
    refine ⟨hm.of_fixed hmerged.fixed, hmerged.core, ?_, ?_⟩
    · refine account_of_fixed ?_ hmerged.fixed hmerged.same
      show u32 (s.currHeapSize + (s.area n).blockSize) + _ = _
      rw [u32_of_lt (by omega)]
      omega
    · exact hmerged.mode.imp id Or.inl

end
end SierraTee
