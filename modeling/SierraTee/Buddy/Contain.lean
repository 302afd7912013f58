import SierraTee.Buddy.Split
import SierraTee.Lib.Runs

/-!
# Where the blocks of the pool lie

The first block is put one bin too high: the memory is one block of bin `depth`, and
`sw_buddy_init` puts it into bin `depth + 1`, the top bin.  The first split of it therefore puts
a block of the size of the whole memory behind its end into bin `depth`.  This PHANTOM stays
there until all of the memory is merged again.

* `Contained.alloc`  a request that is not served from the phantom keeps the blocks in the memory.
-/

namespace SierraTee
open Word SwBuddyPool

namespace Geometry
variable (g : Geometry)

/-- the blocks of the free lists between two calls: inside the memory and smaller than it, the
phantom, and the top block -/
def Free (a k : Nat) : Prop :=
  (g.Inside a k ∧ k < g.depth) ∨ (k = g.depth ∧ a = g.memEnd) ∨
    (k = g.depth + 1 ∧ a = g.memStart)

/-- the same, and the whole memory as a block of bin `depth` -/
def FreeOrWhole (a k : Nat) : Prop := g.Free a k ∨ (k = g.depth ∧ a = g.memStart)

def Part (a k : Nat) : Prop := g.Inside a k ∨ (k = g.depth + 1 ∧ a = g.memStart)

variable {g}

theorem memEnd_pos : g.memStart < g.memEnd := by
  have := g.size_pos g.depth
  unfold memEnd
  omega

theorem FreeOrWhole.inside {a k : Nat} (h : g.FreeOrWhole a k) (hk : k < g.depth) :
    g.Inside a k := by
  rcases h with (h | h | h) | h
  · exact h.1
  all_goals omega

theorem Part.cut {a k : Nat} (h : g.Part a (k + 1)) :
    g.Inside a k ∧ g.Free (a + g.size k) k ∧ a + g.size k < 2 ^ 32 := by
  have hs := g.size_succ k
  have hend := g.memEnd_lt
  rcases h with h | ⟨hk, ha⟩
  · have hd := h.le_depth
    unfold Inside at h
    exact ⟨⟨h.1, by omega⟩, Or.inl ⟨⟨by omega, by omega⟩, by omega⟩, by
      have := g.size_pos k
      omega⟩
  · obtain rfl : k = g.depth := by omega
    subst ha
    exact ⟨⟨le_refl _, le_refl _⟩, Or.inr (Or.inl ⟨rfl, rfl⟩), g.memEnd_lt⟩

theorem Free.not_apart_top {a k : Nat} (h : g.FreeOrWhole a k ∨ g.Inside a k) :
    ¬ g.Apart g.memStart (g.depth + 1) a k := by
  have hs := g.size_succ g.depth
  have hk := g.size_pos k
  have hd := g.size_pos g.depth
  intro hc
  unfold Apart Intervals.Apart at hc
  rcases h with ((⟨h, -⟩ | ⟨rfl, h⟩ | ⟨rfl, h⟩) | ⟨rfl, h⟩) | h
  all_goals (try unfold Inside at h); unfold memEnd at *; omega

end Geometry

/-- the bytes of the live blocks -/
def liveSize (s : SwBuddyPool) : Nat :=
  (s.allocTree.toList.map fun i => (s.area i).blockSize).sum

structure Contained (g : Geometry) (s : SwBuddyPool) : Prop where
  manages : g.Manages s
  core : Core g g.Free g.Inside s
  account : s.currHeapSize + liveSize s = g.size g.depth
  /-- the top block is free, or the phantom is there, or the memory is lost -/
  mode : s.chain (g.depth + 1) ≠ [] ∨ s.chain g.depth ≠ [] ∨
    (∀ b, s.chain b = []) ∧ s.allocTree.toList = []

section
variable {g : Geometry} {s t : SwBuddyPool}

theorem liveSize_le {free : Nat → Nat → Prop} (h : Core g free g.Inside s) :
    liveSize s ≤ g.size g.depth := by
  have e : liveSize s = ∑ i ∈ s.allocTree.toList.toFinset, g.size (s.bin i) := by
    rw [List.sum_toFinset _ h.tree_nodup, liveSize]
    exact congrArg List.sum (List.map_congr_left h.live_size)
  have hsum := Intervals.sum_length_le s.allocTree.toList.toFinset s.addr
    (fun i => g.size (s.bin i)) g.memStart g.memEnd
    (fun i hi => h.live_ok i (List.mem_toFinset.1 hi))
    (fun i hi j hj hij => h.apart i j (Or.inr (List.mem_toFinset.1 hi))
      (Or.inr (List.mem_toFinset.1 hj)) hij)
  rw [e]
  unfold Geometry.memEnd at hsum
  omega

theorem top_alone (h : Core g g.FreeOrWhole g.Inside s) {i : Nat}
    (hi : i ∈ s.chain (g.depth + 1)) {j : Nat} (hj : s.Listed j) : j = i := by
  by_contra hne
  have hap := h.apart i j (Or.inl ⟨_, hi⟩) hj (Ne.symm hne)
  have ha : s.addr i = g.memStart := by
    rcases h.free_ok _ i hi with (⟨-, hk⟩ | ⟨hk, -⟩ | ⟨-, ha⟩) | ⟨hk, -⟩
    · omega
    · omega
    · exact ha
    · omega
  rw [ha, h.chain_bin _ i hi] at hap
  refine Geometry.Free.not_apart_top ?_ hap
  rcases hj with ⟨b, hb⟩ | ht
  · rw [h.chain_bin b j hb]
    exact Or.inl (h.free_ok b j hb)
  · exact Or.inr (h.live_ok j ht)

theorem Contained.core' (h : Contained g s) : Core g g.FreeOrWhole g.Inside s :=
  h.core.mono (fun _ _ _ hf => Or.inl hf) fun _ _ hl => hl

theorem Contained.phantom (h : Contained g s) (hne : s.chain g.depth ≠ []) :
    ∃ ph, s.chain g.depth = [ph] ∧ s.addr ph = g.memEnd := by
  have hend : ∀ i ∈ s.chain g.depth, s.addr i = g.memEnd := by
    intro i hi
    rcases h.core.free_ok _ i hi with ⟨-, hk⟩ | ⟨-, ha⟩ | ⟨hk, -⟩
    · omega
    · exact ha
    · omega
  obtain ⟨ph, l, hl⟩ := List.exists_cons_of_ne_nil hne
  have hph : ph ∈ s.chain g.depth := hl ▸ List.mem_cons_self
  cases l with
  | nil => exact ⟨ph, hl, hend ph hph⟩
  | cons q l =>
    have hq : q ∈ s.chain g.depth := by simp [hl]
    have hne' : ph ≠ q := by
      have hnd := h.core.chain_nodup g.depth
      rw [hl] at hnd
      simp only [List.nodup_cons, List.mem_cons, not_or] at hnd
      exact hnd.1.1
    have hap := h.core.apart ph q (Or.inl ⟨_, hph⟩) (Or.inl ⟨_, hq⟩) hne'
    rw [hend ph hph, hend q hq] at hap
    exact absurd rfl (Intervals.Apart.ne (g.size_pos _) (g.size_pos _) hap)

/-! ## `sw_buddy_alloc` -/

/-- a call is refused, or a bin other than that of the phantom serves it -/
def ServedInside (s : SwBuddyPool) : PoolCall → Prop
  | .alloc size =>
    s.currHeapSize < size ∨ s.currHeapSize < nextPowOf2 size ∨
      ∃ b, requestBin s size ≤ b ∧ b ≤ s.maxBin ∧ b + 1 ≠ s.maxBin ∧ s.chain b ≠ []
  | .free _ => True

theorem Geometry.Manages.requestBin_pow (hm : g.Manages s) {size : Nat}
    (hsize : size ≤ g.size g.depth) :
    ∃ k, nextPowOf2 size = 2 ^ k ∧ size ≤ 2 ^ k ∧ requestBin s size = k - g.minShift := by
  have hsh : g.minShift + g.depth < 32 :=
    lt_32_of_two_pow_lt (Geometry.size_lt_word (le_refl g.depth))
  have h31 : g.size g.depth ≤ 2 ^ 31 := Nat.pow_le_pow_right (by omega) (by omega)
  obtain ⟨k, hk, he, hxk⟩ := nextPowOf2_spec (hsize.trans h31)
  refine ⟨k, he, hxk, ?_⟩
  rw [requestBin, hm.minAllocSize, logOf2_two_pow (by omega), he, Nat.shiftRight_eq_div_pow]
  by_cases hkm : g.minShift ≤ k
  · rw [Nat.pow_div hkm (by omega), logOf2_two_pow (by omega)]
  · rw [Nat.div_eq_of_lt (Nat.pow_lt_pow_right (by omega) (by omega)), logOf2_zero]
    omega

theorem Geometry.Manages.requestBin_spec (hm : g.Manages s) (size : Nat)
    (hsize : size ≤ g.size g.depth) (hle : nextPowOf2 size ≤ g.size g.depth) :
    requestBin s size ≤ g.depth ∧ size ≤ g.size (requestBin s size) := by
  obtain ⟨k, he, hxk, hbin⟩ := hm.requestBin_pow hsize
  have hkd : k ≤ g.minShift + g.depth := by
    rw [he] at hle
    exact (Nat.pow_le_pow_iff_right (by omega)).1 hle
  rw [hbin]
  exact ⟨by omega, hxk.trans (Nat.pow_le_pow_right (by omega) (by omega))⟩

/-! ### what stays, and what becomes live -/

theorem SwBuddyPool.Held.takeBlock_eq {n k : Nat} (hn : Held g s n k) : (takeBlock s n).2 = { s with
    currHeapSize := sub32 s.currHeapSize (s.area n).blockSize
    allocTree := BTree.add s.addr n s.allocTree
    allocCnt := u32 (s.allocCnt + 1) } := by
  rw [takeBlock, hn.addAllocTree_eq]

theorem SwBuddyPool.Held.liveSize_take {n k : Nat} (hn : Held g s n k) (hsz : (s.area n).blockSize = g.size k) :
    liveSize (takeBlock s n).2 = g.size k + liveSize s := by
  rw [hn.takeBlock_eq]
  show ((BTree.add s.addr n s.allocTree).toList.map fun i => (s.area i).blockSize).sum = _
  rw [(hn.add_perm.map _).sum_eq, List.map_cons, List.sum_cons, hsz]
  rfl

theorem curr_of_fixed (hfix : t.fixed = s.fixed) : t.currHeapSize = s.currHeapSize := by
  show t.fixed.currHeapSize = s.fixed.currHeapSize
  rw [hfix]

theorem liveSize_of_fixed (hfix : t.fixed = s.fixed)
    (hsame : ∀ i ∈ s.allocTree.toList, t.area i = s.area i) : liveSize t = liveSize s := by
  rw [liveSize, tree_of_fixed hfix]
  exact congrArg List.sum (List.map_congr_left fun i hi => congrArg SwArea.blockSize (hsame i hi))

theorem account_of_fixed (hacc : s.currHeapSize + liveSize s = g.size g.depth)
    (hfix : t.fixed = s.fixed) (hsame : ∀ i ∈ s.allocTree.toList, t.area i = s.area i) :
    t.currHeapSize + liveSize t = g.size g.depth := by
  rw [curr_of_fixed hfix, liveSize_of_fixed hfix hsame]
  exact hacc

theorem SwBuddyPool.Core.taken {free live : Nat → Nat → Prop} {n k : Nat} (h : Core g free live s)
    (hn : Held g s n k) (hk : s.bin n = k) (hsz : (s.area n).blockSize = g.size k)
    (hin : live (s.addr n) k) :
    Core g free live (takeBlock s n).2 ∧ n ∈ (takeBlock s n).2.allocTree.toList ∧
      (takeBlock s n).2.addr n = (takeBlock s n).1 ∧
      ((takeBlock s n).2.area n).blockSize = g.size k := by
  have hput := h.putTree hn hk hsz hin
  rw [hn.addAllocTree_eq] at hput
  rw [hn.takeBlock_eq]
  exact ⟨hput.congr rfl (fun _ => rfl) rfl, hn.add_perm.symm.subset List.mem_cons_self, rfl, hsz⟩

theorem SwBuddyPool.Held.account_take {n k : Nat} (hn : Held g s n k) (hsz : (s.area n).blockSize = g.size k)
    (hacc : s.currHeapSize + liveSize s = g.size g.depth) (hle : g.size k ≤ s.currHeapSize) :
    (takeBlock s n).2.currHeapSize + liveSize (takeBlock s n).2 = g.size g.depth := by
  rw [hn.liveSize_take hsz]
  show sub32 s.currHeapSize (s.area n).blockSize + _ = _
  rw [hsz, sub32_of_le hle]
  omega

theorem takeBlock_spec {n k : Nat} (hm : g.Manages s) (h : Core g g.Free g.Inside s)
    (hn : Held g s n k) (hk : s.bin n = k) (hsz : (s.area n).blockSize = g.size k)
    (hin : g.Inside (s.addr n) k) (hacc : s.currHeapSize + liveSize s = g.size g.depth)
    (hmode : s.chain g.depth ≠ []) :
    Contained g (takeBlock s n).2 ∧ n ∈ (takeBlock s n).2.allocTree.toList ∧
      (takeBlock s n).2.addr n = (takeBlock s n).1 ∧
      ((takeBlock s n).2.area n).blockSize = g.size k := by
  obtain ⟨hcore, hrest⟩ := h.taken hn hk hsz hin
  have hle := liveSize_le hcore
  rw [hn.liveSize_take hsz] at hle
  refine ⟨⟨hm.of_shape ?_, hcore, hn.account_take hsz hacc (by omega), Or.inr (Or.inl ?_)⟩, hrest⟩
  · rw [hn.takeBlock_eq]
    rfl
  · rw [hn.takeBlock_eq]
    exact hmode

theorem Contained.first_part {size : Nat} (h : Contained g s) (hok : ServedInside s (.alloc size))
    (h1 : ¬ s.currHeapSize < size) (h2 : ¬ s.currHeapSize < nextPowOf2 size) (idx n : Nat)
    (l : List Nat) (hlo : requestBin s size ≤ idx) (hhi : idx ≤ g.depth + 1)
    (hl : s.chain idx = n :: l) (hfirst : ∀ b, requestBin s size ≤ b → b < idx → s.chain b = []) :
    idx ≠ g.depth ∧ g.Part (s.addr n) idx := by
  have hn : n ∈ s.chain idx := hl ▸ List.mem_cons_self
  obtain ⟨b, hb1, hb2, hb3, hb4⟩ := (hok.resolve_left h1).resolve_left h2
  rw [h.manages.maxBin] at hb2 hb3
  have hidx : idx ≠ g.depth := by
    rintro rfl
    have hbt : b = g.depth + 1 := by
      by_contra hc
      exact hb4 (hfirst b hb1 (by omega))
    subst hbt
    obtain ⟨top, ht⟩ := List.exists_mem_of_ne_nil _ hb4
    have hnt : n = top := top_alone h.core' ht (Or.inl ⟨_, hn⟩)
    have e1 := h.core.chain_bin _ n hn
    have e2 := h.core.chain_bin _ top ht
    rw [hnt] at e1
    omega
  refine ⟨hidx, ?_⟩
  rcases h.core.free_ok idx n hn with ⟨hin, -⟩ | ⟨hk, -⟩ | hk
  · exact Or.inl hin
  · exact absurd hk hidx
  · exact Or.inr hk

theorem Geometry.Part.halves (a k : Nat) (h : g.Part a (k + 1)) :
    g.Part a k ∧ g.Free (a + g.size k) k ∧ a + g.size k < 2 ^ 32 :=
  ⟨Or.inl h.cut.1, h.cut.2⟩

theorem Contained.curr_le (h : Contained g s) : s.currHeapSize ≤ g.size g.depth := by
  have := h.account
  omega

theorem Contained.found {size : Nat} (h : Contained g s) (hok : ServedInside s (.alloc size))
    (h1 : size ≤ s.currHeapSize) (h2 : nextPowOf2 size ≤ s.currHeapSize) :
    BuddyResult g g.Free g.Inside g.Part s (requestBin s size)
      (getFreeBuddy s (requestBin s size)) := by
  obtain ⟨hbin, -⟩ := h.manages.requestBin_spec size (h1.trans h.curr_le) (h2.trans h.curr_le)
  refine getFreeBuddy_spec Geometry.Part.halves h.manages h.core hbin ?_
  intro idx n l hlo hhi hl hfirst
  exact (h.first_part hok (by omega) (by omega) idx n l hlo hhi hl hfirst).2

theorem Contained.phantom_of_mem (h : Contained g s) {idx n : Nat} (hn : n ∈ s.chain idx)
    (hlt : idx < g.depth) : s.chain g.depth ≠ [] := by
  rcases h.mode with ht' | hph | ⟨hall, -⟩
  · obtain ⟨top, ht'⟩ := List.exists_mem_of_ne_nil _ ht'
    have hnt : n = top := top_alone h.core' ht' (Or.inl ⟨_, hn⟩)
    have e1 := h.core.chain_bin _ n hn
    have e2 := h.core.chain_bin _ top ht'
    rw [hnt] at e1
    omega
  · exact hph
  · rw [hall idx] at hn
    cases hn

theorem Contained.lost (h : Contained g s) {n : Nat} {l : List Nat}
    (hl : s.chain (g.depth + 1) = n :: l) :
    (∀ b, (s.takeFree (g.depth + 1) n).chain b = []) ∧
      (s.takeFree (g.depth + 1) n).allocTree.toList = [] := by
  have hn : n ∈ s.chain (g.depth + 1) := hl ▸ List.mem_cons_self
  obtain ⟨-, hheld⟩ := h.core.takeHead hl
  have hnone : ∀ i, ¬ (s.takeFree (g.depth + 1) n).Listed i := by
    intro i hi
    have hin := top_alone h.core' hn (listed_takeFree (by rw [hl, Chain.remove_head]) hi)
    exact hheld.unlisted (hin ▸ hi)
  refine ⟨fun b => ?_, ?_⟩
  · exact List.eq_nil_iff_forall_not_mem.2 fun i hi => hnone i (Or.inl ⟨b, hi⟩)
  · exact List.eq_nil_iff_forall_not_mem.2 fun i hi => hnone i (Or.inr hi)

theorem Contained.found_mode {bin : Nat} (h : Contained g s) (hbin : bin ≤ g.depth)
    (hsrv : ∃ b, bin ≤ b ∧ b ≤ s.maxBin ∧ s.chain b ≠ [])
    (hserves : ∀ idx n l, bin ≤ idx → idx ≤ g.depth + 1 → s.chain idx = n :: l →
      (∀ b, bin ≤ b → b < idx → s.chain b = []) → idx ≠ g.depth ∧ g.Part (s.addr n) idx) :
    (getFreeBuddy s bin).2.chain g.depth ≠ [] ∨
      (getFreeBuddy s bin).1 = none ∧ (∀ b, (getFreeBuddy s bin).2.chain b = []) ∧
        (getFreeBuddy s bin).2.allocTree.toList = [] := by
  rcases getFreeBuddy_cases s bin with ⟨hnone, -⟩ | ⟨idx, n, l, hlo, hhi, hl, hfirst, he⟩
  · obtain ⟨b, hb1, hb2, hb3⟩ := hsrv
    exact absurd (hnone b hb1 hb2) hb3
  rw [h.manages.maxBin] at hhi
  have hn : n ∈ s.chain idx := hl ▸ List.mem_cons_self
  obtain ⟨hidx, hpart⟩ := hserves idx n l hlo hhi hl hfirst
  obtain ⟨ht, hheld⟩ := h.core.takeHead hl
  rw [he]
  by_cases hib : idx = bin
  · rw [if_pos hib]
    refine Or.inl ?_
    show (s.takeFree idx n).chain g.depth ≠ []
    rw [chain_takeFree_ne s (by omega)]
    exact h.phantom_of_mem hn (by omega)
  · rw [if_neg hib]
    have hm : g.Manages (s.takeFree idx n) := h.manages.of_fixed rfl
    have hr := splitLoop_spec Geometry.Part.halves hm ht hheld hpart hhi (by omega : bin < idx)
    by_cases hlt : idx < g.depth
    · refine Or.inl ?_
      rw [hr.above g.depth (by omega), chain_takeFree_ne s (by omega)]
      exact h.phantom_of_mem hn hlt
    · obtain rfl : idx = g.depth + 1 := by omega
      rcases hr.below with ⟨e1, e2⟩ | hb
      · rw [e1]
        exact Or.inr ⟨e2, h.lost hl⟩
      · exact Or.inl hb

theorem Contained.served (h : Contained g s) {bin size : Nat} {r : Option Nat × SwBuddyPool}
    {x : Nat × SwBuddyPool} (hr : BuddyResult g g.Free g.Inside g.Part s bin r)
    (hbin : bin ≤ g.depth) (hfit : size ≤ g.size bin)
    (hmode : r.2.chain g.depth ≠ [] ∨
      r.1 = none ∧ (∀ b, r.2.chain b = []) ∧ r.2.allocTree.toList = [])
    (hx : r.1 = none ∧ x = (0, r.2) ∨ ∃ n, r.1 = some n ∧ x = takeBlock r.2 n) :
    Contained g x.2 ∧ (x.1 ≠ 0 → ∃ n ∈ x.2.allocTree.toList, x.2.addr n = x.1 ∧
      size ≤ (x.2.area n).blockSize) := by
  have hm := h.manages.of_fixed hr.fixed
  have hacc := account_of_fixed h.account hr.fixed hr.same
  obtain ⟨-, rfl⟩ | ⟨n, hn, rfl⟩ := hx
  · exact ⟨⟨hm, hr.core, hacc, Or.inr (hmode.imp_right And.right)⟩, fun hc => absurd rfl hc⟩
  · obtain ⟨r2, r3, r4, r5⟩ := hr.node n hn
    have hin : g.Inside (r.2.addr n) bin := r5.resolve_right fun hc => absurd hc.1 (by omega)
    have hph : r.2.chain g.depth ≠ [] := hmode.resolve_right fun hc => by
      rw [hn] at hc
      cases hc.1
    obtain ⟨t1, t2, t3, t4⟩ := takeBlock_spec hm hr.core r2 r3 r4 hin hacc hph
    exact ⟨t1, fun _ => ⟨n, t2, t3, by rw [t4]; exact hfit⟩⟩

theorem Contained.alloc {size : Nat} (h : Contained g s) (hok : ServedInside s (.alloc size)) :
    Contained g (swBuddyAlloc s size).2 ∧
      ((swBuddyAlloc s size).1 ≠ 0 → ∃ n ∈ (swBuddyAlloc s size).2.allocTree.toList,
        (swBuddyAlloc s size).2.addr n = (swBuddyAlloc s size).1 ∧
        size ≤ ((swBuddyAlloc s size).2.area n).blockSize) := by
  obtain he | ⟨h1, h2, hrest⟩ := swBuddyAlloc_cases h.manages h.curr_le size
  · rw [he]
    exact ⟨h, fun hc => absurd rfl hc⟩
  · obtain ⟨hbin, hfit⟩ := h.manages.requestBin_spec size (h1.trans h.curr_le) (h2.trans h.curr_le)
    have hno1 : ¬ s.currHeapSize < size := by omega
    have hno2 : ¬ s.currHeapSize < nextPowOf2 size := by omega
    obtain ⟨b, hb1, hb2, -, hb4⟩ := (hok.resolve_left hno1).resolve_left hno2
    exact h.served (h.found hok h1 h2) hbin hfit
      (h.found_mode hbin ⟨b, hb1, hb2, hb4⟩ (h.first_part hok hno1 hno2)) hrest

end
end SierraTee
