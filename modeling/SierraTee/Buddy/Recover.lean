import SierraTee.Buddy.Halves
import SierraTee.Lib.Dyadic
import Mathlib.Algebra.BigOperators.Intervals
import Mathlib.Algebra.BigOperators.Ring.Finset

/-!
# The pool recovers

* `Filling.alloc`            allocations leave at most one free block in a bin, so no two halves;
* `Contained.top_of_empty`   a coalesced pool without live blocks is one block;
* `Contained.alloc_largest`  the maximum size is served again;
* `poolRun_recovers`         allocations and frees that merge all give the first pool back.
-/

namespace SierraTee
open Word SwBuddyPool Runs

section
variable {g : Geometry} {s t : SwBuddyPool}

/-! ## allocations -/

structure Filling (g : Geometry) (s : SwBuddyPool) : Prop where
  contained : Contained g s
  neat : Neat g [] 0 s
  once : ∀ b < g.depth, (s.chain b).length ≤ 1
  descriptors : s.totalAreaCnt = 2 ^ g.depth

theorem Filling.coalesced (h : Filling g s) : Coalesced g s := by
  intro b hb i hi j hj _
  have h1 := h.once b hb
  obtain ⟨k, hk⟩ := List.length_eq_one_iff.mp
    (Nat.le_antisymm h1 (List.length_pos_of_mem hi))
  rw [hk, List.mem_singleton] at hi hj
  rw [hi, hj]

theorem Geometry.Manages.requestBin_exact (hm : g.Manages s) {size : Nat}
    (hsize : size ≤ g.size g.depth) :
    0 < nextPowOf2 size ∧
      (requestBin s size = 0 ∨ nextPowOf2 size = g.size (requestBin s size)) := by
  obtain ⟨k, he, -, hbin⟩ := hm.requestBin_pow hsize
  rw [hbin, he]
  refine ⟨Nat.two_pow_pos k, ?_⟩
  by_cases hkm : g.minShift ≤ k
  · right
    unfold Geometry.size
    rw [Nat.add_sub_cancel' hkm]
  · left
    omega

theorem sum_size_lt (g : Geometry) (r : Nat) : ∑ b ∈ Finset.range r, g.size b < g.size r := by
  induction r with
  | zero => exact g.size_pos 0
  | succ r ih =>
    rw [Finset.sum_range_succ, g.size_succ]
    omega

/-- **No phantom**: as long as nothing is freed, a bin other than that of the phantom serves. -/
theorem Filling.served (h : Filling g s) (size : Nat) : ServedInside s (.alloc size) := by
  by_contra hno
  simp only [ServedInside, not_or, not_exists, not_and] at hno
  obtain ⟨h1, h2, h3⟩ := hno
  have hm := h.contained.manages
  have hcurr : s.currHeapSize ≤ g.size g.depth := by
    have := h.contained.account
    omega
  obtain ⟨hbin, -⟩ := hm.requestBin_spec size (by omega) (by omega)
  obtain ⟨hpos, hexact⟩ := hm.requestBin_exact (show size ≤ g.size g.depth by omega)
  rw [hm.maxBin] at h3
  have hempty : ∀ b, requestBin s size ≤ b → b ≤ g.depth + 1 → b ≠ g.depth → s.chain b = [] :=
    fun b hb1 hb2 hb3 => not_not.1 (h3 b hb1 hb2 (by omega))
  generalize requestBin s size = r at *
  have hphantom : (s.chain g.depth).length ≤ 1 := by
    by_cases hne : s.chain g.depth = []
    · rw [hne]
      exact Nat.zero_le _
    · obtain ⟨ph, hc, -⟩ := h.contained.phantom hne
      rw [hc, List.length_singleton]
  have hlow : ∑ b ∈ Finset.range g.depth, (s.chain b).length * g.size b
      ≤ ∑ b ∈ Finset.range r, g.size b := by
    have hnone : ∑ b ∈ Finset.Ico r g.depth, (s.chain b).length * g.size b = 0 := by
      refine Finset.sum_eq_zero fun b hb => ?_
      obtain ⟨hb1, hb2⟩ := Finset.mem_Ico.mp hb
      rw [hempty b hb1 (by omega) (by omega), List.length_nil, Nat.zero_mul]
    rw [← Finset.sum_range_add_sum_Ico _ hbin, hnone, Nat.add_zero]
    refine Finset.sum_le_sum fun b hb => ?_
    have h4 := h.once b ((Finset.mem_range.mp hb).trans_le hbin)
    exact (Nat.mul_le_mul_right _ h4).trans (Nat.one_mul _).le
  have htotal := h.neat.total
  rw [freeTotal, Finset.sum_range_succ, Finset.sum_range_succ,
    hempty (g.depth + 1) (by omega) (le_refl _) (by omega), List.length_nil, Nat.zero_mul] at htotal
  have hsum := sum_size_lt g r
  have hle : (s.chain g.depth).length * g.size g.depth ≤ g.size g.depth :=
    (Nat.mul_le_mul_right _ hphantom).trans (Nat.one_mul _).le
  rcases hexact with rfl | hexact
  · rw [Finset.sum_range_zero] at hlow
    omega
  · omega

theorem Filling.found_once (h : Filling g s) {bin n : Nat}
    (hsome : (getFreeBuddy s bin).1 = some n) (b : Nat) (hb : b < g.depth) :
    ((getFreeBuddy s bin).2.chain b).length ≤ 1 := by
  have hold := h.once b hb
  obtain ⟨-, he⟩ | ⟨idx, m, l, hlo, -, hl, hfirst, he⟩ := getFreeBuddy_cases s bin
  · rw [he] at hsome
    cases hsome
  have htake : ((s.takeFree idx m).chain b).length ≤ (s.chain b).length := by
    by_cases hbi : b = idx
    · subst hbi
      rw [chain_takeFree_self]
      exact (Chain.remove_sublist m _).length_le
    · rw [chain_takeFree_ne s hbi]
  rw [he] at hsome ⊢
  by_cases hib : idx = bin
  · rw [if_pos hib]
    exact htake.trans hold
  · rw [if_neg hib] at hsome ⊢
    rw [splitLoop_length hsome]
    split_ifs with hrange
    · rw [hfirst b hrange.1 hrange.2] at htake
      rw [List.length_nil] at htake
      omega
    · omega

theorem Filling.took {bin n : Nat} {r : Option Nat × SwBuddyPool} (h : Filling g s)
    (hr : BuddyResult g g.Free g.Inside g.Part s bin r) (hn : r.1 = some n)
    (hneat : Neat g [n] (g.size bin) r.2) (hgrid : g.OnGrid (r.2.addr n) bin)
    (honce : ∀ b < g.depth, (r.2.chain b).length ≤ 1)
    (hcontained : Contained g (takeBlock r.2 n).2) : Filling g (takeBlock r.2 n).2 := by
  obtain ⟨hheld, hk, hsz, -⟩ := hr.node n hn
  refine ⟨hcontained, hneat.takeBlock hheld hk hsz hgrid ?_, fun b hb => ?_, ?_⟩
  · have hle := liveSize_le hcontained.core
    rw [hheld.liveSize_take hsz, liveSize_of_fixed hr.fixed hr.same] at hle
    have hcurr := curr_of_fixed hr.fixed
    have hacc := h.contained.account
    omega
  · rw [hheld.takeBlock_eq]
    exact honce b hb
  · rw [hheld.takeBlock_eq]
    show r.2.fixed.totalAreaCnt = _
    rw [hr.fixed]
    exact h.descriptors

theorem Filling.alloc (h : Filling g s) {size : Nat} (hok : (swBuddyAlloc s size).1 ≠ 0) :
    Filling g (swBuddyAlloc s size).2 := by
  have hc := h.contained
  have hserved := h.served size
  have hcurr := hc.curr_le
  have hcontained := (hc.alloc hserved).1
  obtain he | ⟨h1, h2, ⟨-, he⟩ | ⟨n, hn, he⟩⟩ := swBuddyAlloc_cases hc.manages hcurr size
  · rw [he] at hok
    exact absurd rfl hok
  · rw [he] at hok
    exact absurd rfl hok
  obtain ⟨hbin, -⟩ := hc.manages.requestBin_spec size (h1.trans hcurr) (h2.trans hcurr)
  have hpart (idx m : Nat) (l : List Nat) (hlo : requestBin s size ≤ idx) (hhi : idx ≤ g.depth + 1)
      (hl : s.chain idx = m :: l)
      (hfirst : ∀ b, requestBin s size ≤ b → b < idx → s.chain b = []) :
      g.Part (s.addr m) idx :=
    (hc.first_part hserved (by omega) (by omega) idx m l hlo hhi hl hfirst).2
  obtain ⟨hneat, hgrid⟩ := getFreeBuddy_neat Geometry.Part.halves hc.manages hc.core hpart h.neat hn
  rw [he] at hcontained ⊢
  exact h.took (hc.found hserved h1 h2) hn hneat hgrid (h.found_once hn) hcontained

/-! ## the last free -/

theorem Geometry.OnGrid.inside_pos {a k q : Nat} (hq : a = g.memStart + q * g.size k)
    (h : g.Inside a k) : (q + 1) * 2 ^ k ≤ 2 ^ g.depth := by
  have h1 : (q + 1) * 2 ^ k * 2 ^ g.minShift ≤ 2 ^ g.depth * 2 ^ g.minShift := by
    have h2 : (q + 1) * 2 ^ k * 2 ^ g.minShift = q * g.size k + g.size k := by
      unfold Geometry.size
      rw [Nat.pow_add]
      ring
    have h3 : 2 ^ g.depth * 2 ^ g.minShift = g.size g.depth := by
      unfold Geometry.size
      rw [Nat.pow_add, Nat.mul_comm]
    rw [h2, h3]
    unfold Geometry.Inside Geometry.memEnd at h
    omega
  exact Nat.le_of_mul_le_mul_right h1 (Nat.two_pow_pos _)

theorem Geometry.Apart.scaled {j k q r : Nat}
    (h : g.Apart (g.memStart + q * g.size j) j (g.memStart + r * g.size k) k) :
    Intervals.Apart (q * 2 ^ j) (2 ^ j) (r * 2 ^ k) (2 ^ k) := by
  have hsize : ∀ x b : Nat, x * g.size b + g.size b = (x * 2 ^ b + 2 ^ b) * 2 ^ g.minShift := by
    intro x b
    unfold Geometry.size
    rw [Nat.pow_add]
    ring
  have hbase : ∀ x b : Nat, x * g.size b = x * 2 ^ b * 2 ^ g.minShift := by
    intro x b
    unfold Geometry.size
    rw [Nat.pow_add]
    ring
  refine Or.imp (fun h1 => ?_) (fun h1 => ?_) h
  · refine Nat.le_of_mul_le_mul_right ?_ (Nat.two_pow_pos g.minShift)
    rw [← hsize, ← hbase]
    omega
  · refine Nat.le_of_mul_le_mul_right ?_ (Nat.two_pow_pos g.minShift)
    rw [← hsize, ← hbase]
    omega

def lowBlocks (g : Geometry) (s : SwBuddyPool) : Finset Nat :=
  (Finset.range g.depth).biUnion fun b => (s.chain b).toFinset

theorem mem_lowBlocks {free live : Nat → Nat → Prop} (h : Core g free live s) {i : Nat}
    (hi : i ∈ lowBlocks g s) : s.bin i < g.depth ∧ i ∈ s.chain (s.bin i) := by
  obtain ⟨b, hb, hi⟩ := Finset.mem_biUnion.mp hi
  have hi' := List.mem_toFinset.mp hi
  rw [h.chain_bin b i hi']
  exact ⟨Finset.mem_range.mp hb, hi'⟩

theorem sum_lowBlocks {free live : Nat → Nat → Prop} (h : Core g free live s) :
    (∑ i ∈ lowBlocks g s, 2 ^ s.bin i) * 2 ^ g.minShift
      = ∑ b ∈ Finset.range g.depth, (s.chain b).length * g.size b := by
  have hdisj : Set.PairwiseDisjoint (↑(Finset.range g.depth)) fun b => (s.chain b).toFinset := by
    intro b _ c _ hbc
    refine Finset.disjoint_left.mpr fun i hi hi' => hbc ?_
    exact (h.chain_bin b i (List.mem_toFinset.mp hi)).symm.trans
      (h.chain_bin c i (List.mem_toFinset.mp hi'))
  rw [lowBlocks, Finset.sum_biUnion hdisj, Finset.sum_mul]
  refine Finset.sum_congr rfl fun b _ => ?_
  have hbin : ∀ i ∈ (s.chain b).toFinset, 2 ^ s.bin i = 2 ^ b := fun i hi => by
    rw [h.chain_bin b i (List.mem_toFinset.mp hi)]
  rw [Finset.sum_const_nat hbin, List.toFinset_card_of_nodup (h.chain_nodup b)]
  unfold Geometry.size
  rw [Nat.pow_add]
  ring

theorem Contained.top_of_empty (h : Contained g s) (hneat : Neat g [] 0 s) (hc : Coalesced g s)
    (hempty : s.allocTree.toList = []) : s.chain (g.depth + 1) ≠ [] := by
  have hcurr : s.currHeapSize = g.size g.depth := by
    have hacc := h.account
    rw [liveSize, hempty] at hacc
    exact hacc
  have htotal := hneat.total
  have hpos := g.size_pos g.depth
  intro htop
  rcases h.mode with h1 | h1 | ⟨h1, -⟩
  · exact h1 htop
  · obtain ⟨ph, hph, -⟩ := h.phantom h1
    rw [freeTotal, Finset.sum_range_succ, Finset.sum_range_succ, htop, hph, List.length_nil,
      List.length_singleton, ← sum_lowBlocks h.core] at htotal
    have hfill : ∑ i ∈ lowBlocks g s, 2 ^ s.bin i = 2 ^ g.depth := by
      have h2 : g.size g.depth = 2 ^ g.depth * 2 ^ g.minShift := by
        unfold Geometry.size
        rw [Nat.pow_add, Nat.mul_comm]
      refine Nat.eq_of_mul_eq_mul_right (Nat.two_pow_pos g.minShift) ?_
      rw [← h2]
      omega
    have hgrid : ∀ i ∈ lowBlocks g s,
        s.addr i = g.memStart + (s.addr i - g.memStart) / g.size (s.bin i) * g.size (s.bin i) := by
      intro i hi
      obtain ⟨q, hq⟩ := hneat.grid i (Or.inl ⟨_, (mem_lowBlocks h.core hi).2⟩)
      rw [hq, Nat.add_sub_cancel_left, Nat.mul_div_cancel _ (g.size_pos _)]
    have hin : ∀ i ∈ lowBlocks g s, s.bin i < g.depth ∧
        ((s.addr i - g.memStart) / g.size (s.bin i) + 1) * 2 ^ s.bin i ≤ 2 ^ g.depth := by
      intro i hi
      obtain ⟨hlow, hmem⟩ := mem_lowBlocks h.core hi
      refine ⟨hlow, Geometry.OnGrid.inside_pos (hgrid i hi) ?_⟩
      rcases h.core.free_ok _ i hmem with hin | ⟨hk, -⟩ | ⟨hk, -⟩
      · exact hin.1
      · omega
      · omega
    have hhalves : ∃ i ∈ lowBlocks g s, ∃ j ∈ lowBlocks g s, i ≠ j ∧ s.bin i = s.bin j ∧
        (s.addr i - g.memStart) / g.size (s.bin i) / 2
          = (s.addr j - g.memStart) / g.size (s.bin j) / 2 := by
      refine Dyadic.exists_halves hin (fun i hi j hj hij => ?_) hfill
      have hap := h.core.apart i j (Or.inl ⟨_, (mem_lowBlocks h.core hi).2⟩)
        (Or.inl ⟨_, (mem_lowBlocks h.core hj).2⟩) hij
      rw [hgrid i hi, hgrid j hj] at hap
      exact hap.scaled
    obtain ⟨i, hi, j, hj, hij, hlevel, hhalf⟩ := hhalves
    obtain ⟨hlow, hmem⟩ := mem_lowBlocks h.core hi
    have hmem' := (mem_lowBlocks h.core hj).2
    rw [← hlevel] at hmem'
    refine hij (hc _ hlow i hmem j hmem' ?_)
    have hwhole : ∀ k ∈ lowBlocks g s, wholeOf g.memStart (g.size (s.bin k)) (s.addr k)
        = g.memStart
          + (s.addr k - g.memStart) / g.size (s.bin k) / 2 * (2 * g.size (s.bin k)) := by
      intro k hk
      have h2 := wholeOf_grid g.memStart (g.size (s.bin k))
        ((s.addr k - g.memStart) / g.size (s.bin k)) (g.size_pos _)
      rwa [← hgrid k hk] at h2
    have hwj := hwhole j hj
    rw [← hhalf, ← hlevel, ← hwhole i hi] at hwj
    rw [h.manages.whole_eq (by omega), h.manages.whole_eq (by omega)]
    exact hwj.symm
  · have hzero : freeTotal g s = 0 :=
      Finset.sum_eq_zero fun b _ => by rw [h1 b, List.length_nil, Nat.zero_mul]
    omega

/-- the free lists as directly after `sw_buddy_init`: one block in the top bin, and every other bin
is empty -/
structure Recovered (s : SwBuddyPool) : Prop where
  top : s.addrs s.maxBin = [s.memStart]
  others : ∀ b, b ≠ s.maxBin → s.chain b = []
  heap : s.currHeapSize = s.memSize

theorem Contained.top_block (h : Contained g s) (hne : s.chain (g.depth + 1) ≠ []) :
    ∃ i, s.chain (g.depth + 1) = [i] ∧ s.addr i = g.memStart ∧ (∀ j, s.Listed j → j = i) ∧
      ∀ b, b ≠ g.depth + 1 → s.chain b = [] := by
  obtain ⟨i, l, hl⟩ := List.exists_cons_of_ne_nil hne
  have hi : i ∈ s.chain (g.depth + 1) := hl ▸ List.mem_cons_self
  have halone : ∀ j, s.Listed j → j = i := fun j hj => top_alone h.core' hi hj
  have hnil : l = [] := by
    refine List.eq_nil_iff_forall_not_mem.mpr fun j hj => ?_
    have hnd := h.core.chain_nodup (g.depth + 1)
    rw [hl, List.nodup_cons] at hnd
    have hji := halone j (Or.inl ⟨g.depth + 1, by rw [hl]; exact List.mem_cons_of_mem i hj⟩)
    exact hnd.1 (hji ▸ hj)
  refine ⟨i, by rw [hl, hnil], ?_, halone, fun b hb => ?_⟩
  · rcases h.core.free_ok _ i hi with ⟨-, hk⟩ | ⟨hk, -⟩ | ⟨-, ha⟩
    · omega
    · omega
    · exact ha
  · refine List.eq_nil_iff_forall_not_mem.mpr fun j hj => hb ?_
    rw [← h.core.chain_bin b j hj, halone j (Or.inl ⟨b, hj⟩), h.core.chain_bin _ i hi]

theorem Contained.recovered (h : Contained g s) (hne : s.chain (g.depth + 1) ≠ [])
    (hempty : s.allocTree.toList = []) : Recovered s := by
  obtain ⟨i, hi, ha, -, hother⟩ := h.top_block hne
  refine ⟨?_, ?_, ?_⟩
  · rw [h.manages.maxBin, addrs, hi, h.manages.memStart, ← ha]
    rfl
  · rw [h.manages.maxBin]
    exact hother
  · have hacc := h.account
    rw [liveSize, hempty] at hacc
    rw [h.manages.memSize]
    exact hacc

/-! ## the largest request -/

theorem getFreeNode_exists {j : Nat} (hj : j < s.totalAreaCnt) (h0 : s.addr j = 0) :
    ∃ f u, getFreeNode s = some (f, u) := by
  have hfree : isFreeNode s j = true := beq_iff_eq.mpr h0
  unfold getFreeNode
  split
  · exact ⟨_, _, rfl⟩
  · rename_i hnone
    split
    · exact ⟨_, _, rfl⟩
    · rename_i hnone'
      exfalso
      by_cases hlt : j < s.nextFreeIndex
      · exact List.find?_eq_none.mp hnone' j (List.mem_range.mpr hlt) hfree
      · exact List.find?_eq_none.mp hnone j (List.mem_range'_1.mpr (by omega)) hfree

theorem Contained.alloc_largest (h : Contained g s) (hneat : Neat g [] 0 s)
    (hne : s.chain (g.depth + 1) ≠ []) (hempty : s.allocTree.toList = [])
    (hdepth : 1 < s.totalAreaCnt) : (swBuddyAlloc s (g.size g.depth)).1 = g.memStart := by
  obtain ⟨i, hi, ha, halone, hother⟩ := h.top_block hne
  have hm := h.manages
  have hcurr : s.currHeapSize = g.size g.depth := by
    rw [(h.recovered hne hempty).heap, hm.memSize]
  have hsh : g.minShift + g.depth < 32 :=
    lt_32_of_two_pow_lt (Geometry.size_lt_word (le_refl g.depth))
  have hpow : nextPowOf2 (g.size g.depth) = g.size g.depth := by
    have htwo : isPowOf2 (g.size g.depth) = true := isPowOf2_two_pow _
    rw [nextPowOf2, if_pos htwo]
  have hbin : requestBin s (g.size g.depth) = g.depth := by
    rw [requestBin, hpow, hm.minAllocSize, logOf2_two_pow (by omega), Geometry.size,
      Nat.shiftRight_eq_div_pow, Nat.pow_div (by omega) (by omega), Nat.add_sub_cancel_left,
      logOf2_two_pow (by omega)]
  have hi0 : s.addr i ≠ 0 := h.core.addr_ne i (Or.inl ⟨_, by rw [hi]; exact List.mem_cons_self⟩)
  obtain ⟨j, hj, hj0⟩ : ∃ j < s.totalAreaCnt, s.addr j = 0 := by
    by_cases h0 : i = 0
    · refine ⟨1, hdepth, (hneat.tracked 1 hdepth).resolve_right ?_⟩
      rintro (hl | hl)
      · have := halone 1 hl
        omega
      · cases hl
    · refine ⟨0, by omega, (hneat.tracked 0 (by omega)).resolve_right ?_⟩
      rintro (hl | hl)
      · exact h0 (halone 0 hl).symm
      · cases hl
  have hfound : ∃ u, getFreeBuddy s g.depth = (some i, u) ∧ u.addr i = g.memStart := by
    obtain ⟨hnone, -⟩ | ⟨idx, n, l, hlo, hhi, hl, -, he⟩ := getFreeBuddy_cases s g.depth
    · rw [hm.maxBin] at hnone
      exact absurd (hnone _ (by omega) (le_refl _)) hne
    obtain rfl : idx = g.depth + 1 := by
      by_contra hc
      rw [hother idx hc] at hl
      cases hl
    obtain rfl : n = i := by
      rw [hi] at hl
      exact (List.cons.inj hl).1.symm
    rw [if_neg (by omega)] at he
    obtain ⟨f, t, hf⟩ := getFreeNode_exists (s := s.takeFree (g.depth + 1) n) hj hj0
    have hsome : (splitLoop (s.takeFree (g.depth + 1) n) n g.depth (g.depth + 1)).1 = some n := by
      rw [splitLoop, if_neg (by omega), hf]
      simp only
      rw [if_pos trivial]
    have haddr := (splitLoop_addr (s := s.takeFree (g.depth + 1) n) hi0 hsome).2
    refine ⟨_, he.trans (Prod.ext hsome rfl), ?_⟩
    rw [haddr]
    exact ha
  obtain ⟨u, hu, hau⟩ := hfound
  rw [swBuddyAlloc, if_neg (by omega)]
  simp only
  rw [hpow, if_neg (by omega), if_neg (by rw [hm.maxAllocSize]; omega), hbin, hu]
  exact hau

/-! ## runs -/

/-- an allocation that succeeds -/
def CallSucceeds (s : SwBuddyPool) : PoolCall → Prop
  | .alloc size => (swBuddyAlloc s size).1 ≠ 0
  | .free _ => True

instance decidableCallSucceeds (s : SwBuddyPool) : (c : PoolCall) → Decidable (CallSucceeds s c)
  | .alloc _ => inferInstanceAs (Decidable (_ ≠ _))
  | .free _ => isTrue trivial

theorem Filling.run {sizes : List Nat} (h : Filling g s)
    (hok : Along poolStep CallSucceeds s (sizes.map .alloc))
    (hrun : run poolStep s (sizes.map .alloc) = some t) : Filling g t := by
  induction sizes generalizing s with
  | nil =>
    cases hrun
    exact h
  | cons size sizes ih =>
    obtain ⟨u, hu, hrun'⟩ := run_cons_some hrun
    obtain ⟨ha, hl⟩ := along_cons hok hu
    obtain rfl := Option.some.inj hu
    exact ih (h.alloc ha) hl hrun'

theorem frees_recover {ptrs : List Nat} (h : Contained g s) (hneat : Neat g [] 0 s)
    (hc : Coalesced g s) (hptrs : ptrs.Perm (s.allocTree.toList.map s.addr))
    (hok : Along poolStep MergesBack s (ptrs.map .free)) :
    ∃ t, run poolStep s (ptrs.map .free) = some t ∧ Contained g t ∧ Neat g [] 0 t ∧
      Coalesced g t ∧ t.allocTree.toList = [] ∧ t.totalAreaCnt = s.totalAreaCnt := by
  induction ptrs generalizing s with
  | nil =>
    refine ⟨s, rfl, h, hneat, hc, ?_, rfl⟩
    exact List.map_eq_nil_iff.mp hptrs.nil_eq.symm
  | cons ptr ptrs ih =>
    obtain ⟨n, hn, rfl⟩ := List.mem_map.mp (hptrs.subset List.mem_cons_self)
    obtain ⟨t, ht, h1, h2, h3, h4⟩ := h.free_coalesced hneat hc hn (hok.1 n hn rfl)
    have hstep : poolStep s (.free (s.addr n)) = some t := ht
    obtain ⟨u, hu, r1, r2, r3, r4, r5⟩ := ih h1 h2 h3 ((hptrs.trans h4.symm).cons_inv)
      (along_cons hok hstep).2
    refine ⟨u, ?_, r1, r2, r3, r4, r5.trans ?_⟩
    · rw [List.map_cons, run_cons, hstep]
      exact hu
    · rw [swBuddyFree, if_neg (h.core.addr_ne n (Or.inr hn)),
        BTree.search_complete hneat.tree hn] at ht
      show t.fixed.totalAreaCnt = _
      rw [returnToFreeArea_fixed ht]
      rfl

/-! ## the new pool -/

structure Fresh (s : SwBuddyPool) : Prop where
  tree : s.allocTree = .nil
  tracked : ∀ i, s.addr i = 0 ∨ s.Listed i

theorem initBlocks_fresh {memStart maxBin n : Nat} (h : Fresh s)
    (hinit : initBlocks s memStart maxBin n = .ok t) :
    Fresh t ∧ t.fixed = s.fixed ∧ (0 < n ∨ s.chain maxBin ≠ [] → t.chain maxBin ≠ []) := by
  induction n generalizing s memStart with
  | zero =>
    cases hinit
    exact ⟨h, rfl, fun h1 => h1.resolve_left (by omega)⟩
  | succ n ih =>
    rw [initBlocks] at hinit
    cases hf : getFreeNode s with
    | none =>
      rw [hf] at hinit
      cases hinit
    | some fu =>
      obtain ⟨f, u⟩ := fu
      obtain ⟨-, next, rfl⟩ := getFreeNode_some hf
      rw [hf] at hinit
      simp only at hinit
      split at hinit
      · cases hinit
      generalize hv : ((claimNode s f next).setArea f _).putFree maxBin f = v at hinit
      have hmem : f ∈ v.chain maxBin := by
        rw [← hv, chain_putFree_self]
        exact (Chain.addSorted_perm f _).symm.subset List.mem_cons_self
      have hfresh : Fresh v := by
        refine ⟨by rw [← hv]; exact h.tree, fun i => ?_⟩
        by_cases hi : i = f
        · exact Or.inr (Or.inl ⟨maxBin, hi ▸ hmem⟩)
        · have haddr : v.addr i = s.addr i := by
            rw [← hv]
            show ((claimNode s f next).setArea f _).addr i = _
            rw [addr_setArea_ne _ hi]
            exact addr_setArea_ne s hi ⟨0, 0, 0⟩
          rw [haddr]
          refine (h.tracked i).imp id fun hl => ?_
          rcases hl with ⟨b, hb⟩ | hl
          · refine Or.inl ⟨b, ?_⟩
            rw [← hv]
            by_cases hbm : b = maxBin
            · subst hbm
              rw [chain_putFree_self]
              exact (Chain.addSorted_perm f _).symm.subset (List.mem_cons_of_mem f hb)
            · rw [chain_putFree_ne _ hbm]
              exact hb
          · rw [h.tree] at hl
            cases hl
      obtain ⟨h1, h2, h3⟩ := ih hfresh hinit
      refine ⟨h1, h2.trans (by rw [← hv]; rfl), fun _ => ?_⟩
      exact h3 (Or.inr (List.ne_nil_of_mem hmem))

theorem swBuddyInit_fresh {poolStart poolSize minAllocSize maxAllocSize : Nat}
    (h : swBuddyInit poolStart poolSize minAllocSize maxAllocSize = .ok s) :
    Fresh s ∧ s.minAllocSize = minAllocSize ∧ s.maxAllocSize = maxAllocSize ∧
      s.totalAreaCnt = maxAllocSize >>> logOf2 minAllocSize ∧ s.chain s.maxBin ≠ [] := by
  rw [swBuddyInit] at h
  split at h
  · cases h
  · split at h
    · cases h
    · simp only at h
      split at h
      · cases h
      · split at h
        · cases h
        · have hblank : ∀ a b c d e f k, Fresh (blankPool a b c d e f k) :=
            fun _ _ _ _ _ _ _ => ⟨rfl, fun _ => Or.inl rfl⟩
          obtain ⟨h1, h2, h3⟩ := initBlocks_fresh (hblank ..) h
          refine ⟨h1, congrArg SwBuddyPool.minAllocSize h2, congrArg SwBuddyPool.maxAllocSize h2,
            congrArg SwBuddyPool.totalAreaCnt h2, ?_⟩
          have hmax := congrArg SwBuddyPool.maxBin h2
          change s.maxBin = _ at hmax
          rw [hmax]
          refine h3 (Or.inl ?_)
          split <;> omega

theorem Contained.filling (h : Contained g s) (hfresh : Fresh s) (hne : s.chain (g.depth + 1) ≠ [])
    (hcnt : s.totalAreaCnt = 2 ^ g.depth) : Filling g s := by
  obtain ⟨i, hi, ha, halone, hother⟩ := h.top_block hne
  have hcurr := (h.recovered hne (by rw [hfresh.tree]; rfl)).heap
  refine ⟨h, ⟨fun b => ?_, ?_, fun j hj => ?_, fun j _ => ?_, ?_⟩, fun b hb => ?_, hcnt⟩
  · by_cases hb : b = g.depth + 1
    · rw [hb, hi]
      exact List.pairwise_singleton _ _
    · rw [hother b hb]
      exact List.Pairwise.nil
  · rw [hfresh.tree]
    exact List.Pairwise.nil
  · obtain rfl := halone j hj
    refine ⟨0, ?_⟩
    rw [ha, Nat.zero_mul, Nat.add_zero]
  · exact (hfresh.tracked j).imp id Or.inl
  · have hlow : ∑ b ∈ Finset.range (g.depth + 1), (s.chain b).length * g.size b = 0 := by
      refine Finset.sum_eq_zero fun b hb => ?_
      have hb' := Finset.mem_range.mp hb
      rw [hother b (by omega), List.length_nil, Nat.zero_mul]
    rw [freeTotal, Finset.sum_range_succ, hlow, hi, List.length_singleton, hcurr,
      h.manages.memSize, g.size_succ]
    omega
  · rw [hother b (by omega), List.length_nil]
    omega

/-- **Recovery**: after any successful allocations, when all live blocks are freed, in any order in
which every free merges all that it can, the free lists are those of the new pool, and the maximum
size is served again (with one descriptor it never is). -/
theorem poolRun_recovers {poolStart minAllocSize heapSize : Nat} {s0 s : SwBuddyPool}
    {sizes ptrs : List Nat} (hmin : minAllocSize < 2 ^ 32)
    (hpool : poolStart + (heapSize + getManageArea heapSize minAllocSize) < 2 ^ 32)
    (hinit : swBuddyInit poolStart (heapSize + getManageArea heapSize minAllocSize) minAllocSize
      heapSize = .ok s0)
    (hallocs : Along poolStep CallSucceeds s0 (sizes.map .alloc))
    (hrun : run poolStep s0 (sizes.map .alloc) = some s)
    (hptrs : ptrs.Perm (s.allocTree.toList.map s.addr))
    (hfrees : Along poolStep MergesBack s (ptrs.map .free)) :
    ∃ t, run poolStep s (ptrs.map .free) = some t ∧ Recovered t ∧
      (minAllocSize < heapSize → (swBuddyAlloc t heapSize).1 = t.memStart) := by
  obtain ⟨g, -, -, h0⟩ := swBuddyInit_contained hmin hpool hinit
  obtain ⟨hfresh, e1, e2, hcnt, htop⟩ := swBuddyInit_fresh hinit
  have hm0 := h0.manages
  rw [hm0.maxBin] at htop
  have hsh : g.minShift + g.depth < 32 :=
    lt_32_of_two_pow_lt (Geometry.size_lt_word (le_refl g.depth))
  rw [hm0.minAllocSize] at e1
  rw [hm0.maxAllocSize] at e2
  have hdepth : s0.totalAreaCnt = 2 ^ g.depth := by
    rw [hcnt, ← e1, ← e2, logOf2_two_pow (by omega), Geometry.size, Nat.shiftRight_eq_div_pow,
      Nat.pow_div (by omega) (by omega), Nat.add_sub_cancel_left]
  have hfill := (h0.filling hfresh htop hdepth).run hallocs hrun
  obtain ⟨t, ht, h1, h2, h3, h4, h5⟩ :=
    frees_recover hfill.contained hfill.neat hfill.coalesced hptrs hfrees
  have hne := h1.top_of_empty h2 h3 h4
  refine ⟨t, ht, h1.recovered hne h4, fun hlt => ?_⟩
  rw [← e1, ← e2] at hlt
  have hpos : g.minShift < g.minShift + g.depth := (Nat.pow_lt_pow_iff_right (by omega)).mp hlt
  rw [← e2, h1.manages.memStart]
  refine h1.alloc_largest h2 hne h4 ?_
  rw [h5, hfill.descriptors]
  exact Nat.one_lt_two_pow (by omega)

/-- all pages but the first two are allocated as one block -/
theorem poolRun_recovers_eightPages :
    ∃ s t, run poolStep eightPages [.alloc 4096, .alloc 4096, .alloc 16384] = some s ∧
      run poolStep s [.free 0x12000, .free 0x15000, .free 0x11000] = some t ∧ Recovered t := by
  have hallocs : Along poolStep CallSucceeds eightPages ([4096, 4096, 16384].map .alloc) := by
    decide +kernel
  have hrest : (run poolStep eightPages ([4096, 4096, 16384].map .alloc)).map (fun s =>
      decide ([0x12000, 0x15000, 0x11000].Perm (s.allocTree.toList.map s.addr) ∧
        Along poolStep MergesBack s ([0x12000, 0x15000, 0x11000].map .free))) = some true := by
    decide +kernel
  obtain ⟨s, hs, hp⟩ := Option.map_eq_some_iff.mp hrest
  obtain ⟨hptrs, hfrees⟩ := of_decide_eq_true hp
  obtain ⟨t, ht, hr, -⟩ := poolRun_recovers (by decide) (by decide +kernel) eightPages_init hallocs
    hs hptrs hfrees
  exact ⟨s, t, hs, ht, hr⟩

/-- **The defect**: of four pages the middle ones are freed first; they are merged with each other,
and the outer ones can then never be merged with them. -/
theorem fragments_forever :
    ¬ ∀ (poolStart minAllocSize heapSize : Nat) (s0 s t : SwBuddyPool) (sizes ptrs : List Nat),
      poolStart + (heapSize + getManageArea heapSize minAllocSize) < 2 ^ 32 →
      swBuddyInit poolStart (heapSize + getManageArea heapSize minAllocSize) minAllocSize heapSize
        = .ok s0 →
      Along poolStep CallSucceeds s0 (sizes.map .alloc) → run poolStep s0 (sizes.map .alloc) = some s →
      ptrs.Perm (s.allocTree.toList.map s.addr) → run poolStep s (ptrs.map .free) = some t →
      Recovered t ∧ (swBuddyAlloc t heapSize).1 ≠ 0 := by
  intro hall
  have hallocs : Along poolStep CallSucceeds eightPages ([4096, 4096, 4096, 4096].map .alloc) := by
    decide +kernel
  have hrest : (run poolStep eightPages ([4096, 4096, 4096, 4096].map .alloc)).map (fun s =>
      decide ([0x12000, 0x13000, 0x11000, 0x14000].Perm (s.allocTree.toList.map s.addr) ∧
        (run poolStep s ([0x12000, 0x13000, 0x11000, 0x14000].map .free)).map
          (fun t => decide (t.addrs t.maxBin = [t.memStart])) = some false)) = some true := by
    decide +kernel
  obtain ⟨s, hs, hp⟩ := Option.map_eq_some_iff.mp hrest
  obtain ⟨hptrs, hfrees⟩ := of_decide_eq_true hp
  obtain ⟨t, ht, hq⟩ := Option.map_eq_some_iff.mp hfrees
  have h := (hall _ _ _ eightPages s t _ _ (by decide +kernel) eightPages_init hallocs hs hptrs ht).1
  exact of_decide_eq_false hq h.top

end
end SierraTee
