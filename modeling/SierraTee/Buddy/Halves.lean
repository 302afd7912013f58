import SierraTee.Buddy.Neat

/-!
# Frees that merge every two halves

* `mergeLoop_idle`  without neighbours at the front of the bins the loop does nothing;
* `Climb.run`       the loop merges as far as there are halves;
* `Coalesced.free`  a free that finds every pair of halves in front keeps the pool so.
-/

namespace SierraTee
open Word SwBuddyPool

/-- the address of the block of `2 * size` bytes that the block at `a` is a half of -/
def wholeOf (start size a : Nat) : Nat := start + (a - start) / (2 * size) * (2 * size)

namespace SwBuddyPool
variable (s : SwBuddyPool)

def addrs (b : Nat) : List Nat := (s.chain b).map s.addr

def whole (b a : Nat) : Nat := wholeOf s.memStart (s.binSize b) a

end SwBuddyPool

/-- the block behind the first one of a list is not in the list; address 0 would be found in the
header -/
def Alone (size : Nat) : List Nat → Prop
  | [] => True
  | a :: l => u32 (a + size) ∉ 0 :: a :: l

instance decidableAlone (size : Nat) : (l : List Nat) → Decidable (Alone size l)
  | [] => isTrue trivial
  | _ :: _ => inferInstanceAs (Decidable (_ ∉ _))

/-- in `n` bins from bin `b` on, up to an empty one, the first blocks have no neighbour -/
def RestAlone (s : SwBuddyPool) : Nat → Nat → Prop
  | 0, _ => True
  | n + 1, b => s.addrs b = [] ∨ Alone (s.binSize b) (s.addrs b) ∧ RestAlone s n (b + 1)

instance decidableRestAlone (s : SwBuddyPool) : (n b : Nat) → Decidable (RestAlone s n b)
  | 0, _ => isTrue trivial
  | n + 1, b =>
    have := decidableRestAlone s n (b + 1)
    inferInstanceAs (Decidable (_ ∨ _ ∧ _))

/-- in `n` bins from bin `b` on, into which the block `a` is put.  If the other half of `a`'s block
is there, it and `a` are the first two; else the first block has no neighbour, and the loop stops
with the freed block `ptr` itself, or there is nothing to merge further up. -/
def MergesFrom (s : SwBuddyPool) (ptr : Nat) : Nat → Nat → Nat → Prop
  | 0, _, _ => True
  | n + 1, b, a =>
    ((∃ x ∈ s.addrs b, s.whole b x = s.whole b a) ∧ (∀ x ∈ s.addrs b, s.whole b a ≤ x) ∧
      MergesFrom s ptr n (b + 1) (s.whole b a)) ∨
    ((∀ x ∈ s.addrs b, s.whole b x ≠ s.whole b a) ∧
      Alone (s.binSize b) (Chain.addSorted id a (s.addrs b)) ∧
      ((a = ptr ∧ ∀ x ∈ s.addrs b, a < x) ∨ RestAlone s n (b + 1)))

instance decidableMergesFrom (s : SwBuddyPool) (ptr : Nat) :
    (n b a : Nat) → Decidable (MergesFrom s ptr n b a)
  | 0, _, _ => isTrue trivial
  | n + 1, b, a =>
    have := decidableMergesFrom s ptr n (b + 1) (s.whole b a)
    inferInstanceAs (Decidable ((_ ∧ _ ∧ _) ∨ (_ ∧ _ ∧ (_ ∨ _))))

/-- a free that merges all that can be merged, and nothing else -/
def MergesBack (s : SwBuddyPool) : PoolCall → Prop
  | .alloc _ => True
  | .free ptr => ∀ n ∈ s.allocTree.toList, s.addr n = ptr →
      MergesFrom s ptr (s.maxBin - s.bin n) (s.bin n) ptr

instance decidableMergesBack (s : SwBuddyPool) : (c : PoolCall) → Decidable (MergesBack s c)
  | .alloc _ => isTrue trivial
  | .free _ => inferInstanceAs (Decidable (∀ n ∈ _, _))

/-- no two free blocks below bin `depth` are the halves of one block -/
def Coalesced (g : Geometry) (s : SwBuddyPool) : Prop :=
  ∀ b < g.depth, ∀ i ∈ s.chain b, ∀ j ∈ s.chain b,
    s.whole b (s.addr i) = s.whole b (s.addr j) → i = j

section
variable {g : Geometry} {s t p : SwBuddyPool}

theorem wholeOf_grid (start size q : Nat) (h : 0 < size) :
    wholeOf start size (start + q * size) = start + q / 2 * (2 * size) := by
  unfold wholeOf
  rw [Nat.add_sub_cancel_left, Nat.mul_div_mul_right q 2 h]

theorem Geometry.Manages.whole_eq (hm : g.Manages s) {b : Nat} (hb : b ≤ g.depth) (a : Nat) :
    s.whole b a = wholeOf g.memStart (g.size b) a := by
  rw [whole, hm.memStart, hm.binSize hb]

theorem Geometry.OnGrid.halves {a x b : Nat} (ha : g.OnGrid a b) (hx : g.OnGrid x b) (hax : a < x)
    (h : wholeOf g.memStart (g.size b) a = wholeOf g.memStart (g.size b) x) :
    a = wholeOf g.memStart (g.size b) a ∧ x = a + g.size b := by
  obtain ⟨q, rfl⟩ := ha
  obtain ⟨r, rfl⟩ := hx
  have hpos := g.size_pos b
  rw [wholeOf_grid _ _ _ hpos, wholeOf_grid _ _ _ hpos, Nat.add_left_cancel_iff,
    Nat.mul_right_cancel_iff (by omega)] at h
  have hqr : q < r := by
    by_contra hc
    have := Nat.mul_le_mul_right (g.size b) (Nat.le_of_not_lt hc)
    omega
  obtain rfl : r = q + 1 := by omega
  have hq : q = q / 2 * 2 := by omega
  refine ⟨?_, by ring⟩
  rw [wholeOf_grid _ _ _ hpos, ← Nat.mul_assoc, ← hq]

theorem Geometry.OnGrid.wholeOf_le {a b : Nat} (ha : g.OnGrid a b) :
    wholeOf g.memStart (g.size b) a ≤ a := by
  obtain ⟨q, rfl⟩ := ha
  have hpos := g.size_pos b
  rw [wholeOf_grid _ _ _ hpos]
  have h1 : q / 2 * (2 * g.size b) ≤ q * g.size b := by
    rw [← Nat.mul_assoc]
    exact Nat.mul_le_mul_right _ (by omega)
  omega

theorem Geometry.OnGrid.whole_grid {a b : Nat} (ha : g.OnGrid a b) :
    g.OnGrid (wholeOf g.memStart (g.size b) a) (b + 1) := by
  obtain ⟨q, rfl⟩ := ha
  refine ⟨q / 2, ?_⟩
  rw [wholeOf_grid _ _ _ (g.size_pos b), g.size_succ]
  ring

/-! ## the loop without a merge -/

theorem Alone.search {b n : Nat} {l : List Nat} (h : Alone (s.binSize b) (s.addrs b))
    (hl : s.chain b = n :: l) :
    u32 (s.addr n + s.binSize b) ≠ 0 ∧
      Chain.search s.addr (u32 (s.addr n + s.binSize b)) (s.chain b) = none := by
  have he : s.addrs b = s.addr n :: l.map s.addr := by rw [addrs, hl, List.map_cons]
  rw [he] at h
  refine ⟨fun h0 => h (h0 ▸ List.mem_cons_self), Chain.search_none fun hmem => h ?_⟩
  rw [hl, List.map_cons] at hmem
  exact List.mem_cons_of_mem 0 hmem

theorem Alone.round {temp b n fuel : Nat} {l : List Nat} (h : Alone (s.binSize b) (s.addrs b))
    (hl : s.chain b = n :: l) :
    mergeLoop s temp b (fuel + 1) = if temp = n then some s else mergeLoop s temp (b + 1) fuel := by
  obtain ⟨h0, hs⟩ := h.search hl
  rw [mergeLoop]
  rw [hl] at hs ⊢
  simp only
  rw [if_neg h0, hs]

theorem mergeLoop_idle {temp n idx fuel : Nat} (h : RestAlone s n idx)
    (htop : s.chain (idx + n) = []) : mergeLoop s temp idx fuel = some s := by
  induction n generalizing idx fuel with
  | zero =>
    cases fuel with
    | zero => rfl
    | succ fuel =>
      rw [mergeLoop, show s.chain idx = [] from htop]
  | succ n ih =>
    cases fuel with
    | zero => rfl
    | succ fuel =>
      cases hl : s.chain idx with
      | nil => rw [mergeLoop, hl]
      | cons f l =>
        have hne : s.addrs idx ≠ [] := by
          rw [addrs, hl]
          exact List.cons_ne_nil _ _
        obtain ⟨ha, hrest⟩ := h.resolve_left hne
        rw [ha.round hl]
        split
        · rfl
        · exact ih hrest (by rw [← htop]; congr 1; omega)

/-! ## the loop with merges -/

/-- the pool before a round: the block `i` has come into bin `idx` of the pool `p`, and apart from it
no two blocks are halves of one block -/
structure Climb (g : Geometry) (p : SwBuddyPool) (ptr temp idx i : Nat) (s : SwBuddyPool) :
    Prop where
  manages : g.Manages s
  core : Core g g.FreeOrWhole g.Inside s
  neat : Neat g [] 0 s
  mem : i ∈ s.chain idx
  put : s.addrs idx = Chain.addSorted id (s.addr i) (p.addrs idx)
  above : ∀ b, idx < b → s.addrs b = p.addrs b
  coalesced : ∀ b < g.depth, ∀ j ∈ s.chain b, ∀ k ∈ s.chain b, j ≠ i → k ≠ i →
    s.whole b (s.addr j) = s.whole b (s.addr k) → j = k
  temp : s.addr i = ptr ∧ temp = i ∨ s.addr i < ptr ∧ ¬ s.Listed temp
  top : s.chain (g.depth + 1) = []

section
variable {ptr temp idx i : Nat}

theorem Neat.addr_inj {held : List Nat} {bytes b j k : Nat} (h : Neat g held bytes s)
    (hj : j ∈ s.chain b) (hk : k ∈ s.chain b) (he : s.addr j = s.addr k) : j = k := by
  have h1 := Chain.search_complete (h.chains b) hj
  have h2 := Chain.search_complete (h.chains b) hk
  rw [he, h2] at h1
  exact (Option.some.inj h1).symm

theorem Climb.grid (h : Climb g p ptr temp idx i s) {b j : Nat} (hj : j ∈ s.chain b) :
    g.OnGrid (s.addr j) b := by
  have h1 := h.neat.grid j (Or.inl ⟨b, hj⟩)
  rwa [h.core.chain_bin b j hj] at h1

theorem Climb.mem_addrs (h : Climb g p ptr temp idx i s) {j : Nat} (hj : j ∈ s.chain idx) :
    j = i ∨ s.addr j ∈ p.addrs idx := by
  have h1 : s.addr j ∈ s.addrs idx := List.mem_map_of_mem hj
  rw [h.put] at h1
  rcases List.mem_cons.mp ((Chain.addSorted_perm _ _).subset h1) with he | h2
  · exact Or.inl (h.neat.addr_inj hj h.mem he)
  · exact Or.inr h2

theorem Climb.of_addrs (h : Climb g p ptr temp idx i s) {x : Nat} (hx : x ∈ p.addrs idx) :
    ∃ j ∈ s.chain idx, j ≠ i ∧ s.addr j = x := by
  have hperm : (s.addrs idx).Perm (s.addr i :: p.addrs idx) := by
    rw [h.put]
    exact Chain.addSorted_perm _ _
  obtain ⟨j, hj, rfl⟩ := List.mem_map.mp (hperm.symm.subset (List.mem_cons_of_mem _ hx))
  refine ⟨j, hj, ?_, rfl⟩
  rintro rfl
  have hnd : (s.addrs idx).Nodup := by
    refine List.pairwise_map.mpr (List.Pairwise.imp ?_ (h.neat.chains idx))
    intro a b hab
    omega
  exact (List.nodup_cons.mp (hperm.nodup_iff.mp hnd)).1 hx

theorem Climb.front (h : Climb g p ptr temp idx i s) (hidx : idx ≤ g.depth) (hm : g.Manages p)
    (hx : ∃ x ∈ p.addrs idx, p.whole idx x = p.whole idx (s.addr i))
    (hle : ∀ x ∈ p.addrs idx, p.whole idx (s.addr i) ≤ x) :
    ∃ n m l, s.chain idx = n :: l ∧ s.addr n = p.whole idx (s.addr i) ∧
      Chain.search s.addr (s.addr n + g.size idx) (s.chain idx) = some m ∧ (i = n ∨ i = m) := by
  rw [hm.whole_eq hidx] at hle ⊢
  have hmin : ∀ k ∈ s.chain idx, wholeOf g.memStart (g.size idx) (s.addr i) ≤ s.addr k := by
    intro k hk
    rcases h.mem_addrs hk with rfl | hk
    · exact (h.grid h.mem).wholeOf_le
    · exact hle _ hk
  obtain ⟨x, hxp, hxw⟩ := hx
  obtain ⟨j, hj, hji, rfl⟩ := h.of_addrs hxp
  rw [hm.whole_eq hidx, hm.whole_eq hidx] at hxw
  have hpair : ∃ lo ∈ s.chain idx, ∃ hi ∈ s.chain idx,
      s.addr lo = wholeOf g.memStart (g.size idx) (s.addr i) ∧
      s.addr hi = s.addr lo + g.size idx ∧ (i = lo ∨ i = hi) := by
    rcases Nat.lt_trichotomy (s.addr i) (s.addr j) with hlt | heq | hgt
    · obtain ⟨h1, h2⟩ := (h.grid h.mem).halves (h.grid hj) hlt hxw.symm
      exact ⟨i, h.mem, j, hj, h1, h2, Or.inl rfl⟩
    · exact absurd (h.neat.addr_inj h.mem hj heq).symm hji
    · obtain ⟨h1, h2⟩ := (h.grid hj).halves (h.grid h.mem) hgt hxw
      exact ⟨j, hj, i, h.mem, h1.trans hxw, h2, Or.inr rfl⟩
  obtain ⟨lo, hlo, hi, hhi, h1, h2, h3⟩ := hpair
  obtain ⟨n, l, hl⟩ := List.exists_cons_of_ne_nil (List.ne_nil_of_mem hlo)
  have hn : n = lo := by
    rw [hl] at hlo
    rcases List.mem_cons.mp hlo with rfl | hlo
    · rfl
    · have hord := h.neat.chains idx
      rw [hl] at hord
      have h4 := (List.pairwise_cons.mp hord).1 lo hlo
      have h5 := hmin n (by rw [hl]; exact List.mem_cons_self)
      omega
  subst hn
  refine ⟨n, hi, l, hl, h1, ?_, h3⟩
  rw [← h2]
  exact Chain.search_complete (h.neat.chains idx) hhi

theorem Climb.union_free (h : Climb g p ptr temp idx i s) (hidx : idx ≤ g.depth) {n m : Nat}
    (hn : n ∈ s.chain idx) (hm : m ∈ s.chain idx) (hmn : s.addr m = s.addr n + g.size idx) :
    g.FreeOrWhole (s.addr n) (idx + 1) ∧ s.addr n + g.size idx < 2 ^ 32 := by
  have h1 := h.core.free_ok idx n hn
  have h2 := h.core.free_ok idx m hm
  have h3 := g.size_succ idx
  have h4 := g.memEnd_lt
  have h5 := g.size_pos idx
  by_cases hlt : idx < g.depth
  · have hi1 := h1.inside hlt
    have hi2 := h2.inside hlt
    have hin : g.Inside (s.addr n) (idx + 1) := by
      unfold Geometry.Inside at *
      omega
    refine ⟨?_, ?_⟩
    · by_cases he : idx + 1 < g.depth
      · exact Or.inl (Or.inl ⟨hin, he⟩)
      · have he' : idx + 1 = g.depth := by omega
        exact Or.inr ⟨he', (he' ▸ hin).eq_start⟩
    · unfold Geometry.Inside at hi2
      omega
  · obtain rfl : idx = g.depth := by omega
    have h6 := Geometry.memEnd_pos (g := g)
    have hcase : ∀ a, g.FreeOrWhole a g.depth → a = g.memEnd ∨ a = g.memStart := by
      rintro a ((⟨-, hk⟩ | ⟨-, ha⟩ | ⟨hk, -⟩) | ⟨-, ha⟩)
      · omega
      · exact Or.inl ha
      · omega
      · exact Or.inr ha
    have hn' : s.addr n = g.memStart := by
      rcases hcase _ h1 with e1 | e1
      · rcases hcase _ h2 with e2 | e2 <;> omega
      · exact e1
    refine ⟨Or.inl (Or.inr (Or.inr ⟨rfl, hn'⟩)), ?_⟩
    rcases hcase _ h2 with e2 | e2 <;> omega

theorem Climb.merge (h : Climb g p ptr temp idx i s) (hidx : idx ≤ g.depth) (hp : g.Manages p)
    {n m : Nat} {l : List Nat} (hl : s.chain idx = n :: l) (hw : s.addr n = p.whole idx (s.addr i))
    (hs : Chain.search s.addr (s.addr n + g.size idx) (s.chain idx) = some m) (hi : i = n ∨ i = m) :
    Neat g [] 0 (mergePair s idx n m n m) ∧
      (∀ b < g.depth, ∀ j ∈ (mergePair s idx n m n m).chain b,
        ∀ k ∈ (mergePair s idx n m n m).chain b, j ≠ n → k ≠ n →
        s.whole b (s.addr j) = s.whole b (s.addr k) → j = k) ∧
      MergeResult g g.FreeOrWhole g.Inside s idx n m (mergePair s idx n m n m) ∧ m ≠ n := by
  have hn : n ∈ s.chain idx := hl ▸ List.mem_cons_self
  obtain ⟨hmem, ham⟩ := Chain.search_some hs
  obtain ⟨hfree, hlt⟩ := h.union_free hidx hn hmem ham
  have hr : MergeResult g g.FreeOrWhole g.Inside s idx n m (mergePair s idx n m n m) :=
    h.core.merge h.manages hl hs rfl hfree
  have hmn : m ≠ n := by
    rintro rfl
    have := g.size_pos idx
    omega
  have hgrid : g.OnGrid (s.addr n) (idx + 1) := by
    rw [hw, hp.whole_eq hidx]
    exact (h.grid h.mem).whole_grid
  refine ⟨hr.neat h.core hidx (mergePair_chain_self s idx n m) (mergePair_gone hmn) hgrid h.neat,
    fun b hb j hj k hk hjn hkn he => ?_, hr, hmn⟩
  have hold : ∀ j ∈ (mergePair s idx n m n m).chain b, j ≠ n → j ∈ s.chain b ∧ j ≠ i := by
    intro j hj hjn
    have hjm : j ≠ m := ((hr.listed h.core j).mp (Or.inl ⟨b, hj⟩)).2
    refine ⟨(hr.mem hj).resolve_left fun hc => hjn hc.1, ?_⟩
    rcases hi with rfl | rfl
    · exact hjn
    · exact hjm
  exact h.coalesced b hb j (hold j hj hjn).1 k (hold k hk hkn).1 (hold j hj hjn).2 (hold k hk hkn).2 he

theorem Climb.next (h : Climb g p ptr temp idx i s) (hidx : idx < g.depth) (hp : g.Manages p)
    {n m : Nat} {l : List Nat} (hl : s.chain idx = n :: l) (hw : s.addr n = p.whole idx (s.addr i))
    (hs : Chain.search s.addr (s.addr n + g.size idx) (s.chain idx) = some m) (hi : i = n ∨ i = m) :
    Climb g p ptr temp (idx + 1) n (mergePair s idx n m n m) := by
  obtain ⟨hneat, hcoal, hr, hmn⟩ := h.merge (by omega) hp hl hw hs hi
  have haddr : ∀ j, j ≠ m → (mergePair s idx n m n m).addr j = s.addr j := hr.addr
  have hne : ∀ b, b ≠ idx → ∀ j ∈ s.chain b, j ≠ m := by
    rintro b hb j hj rfl
    exact hb ((h.core.chain_bin b j hj).symm.trans
      (h.core.chain_bin idx j (Chain.search_some hs).1))
  have hmap : ∀ b, b ≠ idx → (s.chain b).map (mergePair s idx n m n m).addr = s.addrs b :=
    fun b hb => List.map_congr_left fun j hj => haddr j (hne b hb j hj)
  have hle : s.addr n ≤ s.addr i := by
    rw [hw, hp.whole_eq (by omega)]
    exact (h.grid h.mem).wholeOf_le
  refine ⟨h.manages.of_fixed hr.fixed, hr.core, hneat, ?_, ?_, fun b hb => ?_, ?_, ?_, ?_⟩
  · rw [hr.next]
    exact (Chain.addSorted_perm n _).symm.subset List.mem_cons_self
  · have hadd : Chain.addSorted id (s.addr n) (s.addrs (idx + 1))
        = (Chain.addSorted s.addr n (s.chain (idx + 1))).map s.addr :=
      (Chain.map_addSorted n _).symm
    rw [addrs, hr.next, haddr n hmn.symm, ← h.above (idx + 1) (by omega), hadd]
    refine List.map_congr_left fun j hj => haddr j ?_
    rcases List.mem_cons.mp ((Chain.addSorted_perm n _).subset hj) with rfl | hj
    · exact hmn.symm
    · exact hne (idx + 1) (by omega) j hj
  · rw [addrs, hr.other b (by omega) (by omega), hmap b (by omega)]
    exact h.above b (by omega)
  · intro b hb j hj k hk hjn hkn he
    refine hcoal b hb j hj k hk hjn hkn ?_
    rw [← haddr j ((hr.listed h.core j).mp (Or.inl ⟨b, hj⟩)).2,
      ← haddr k ((hr.listed h.core k).mp (Or.inl ⟨b, hk⟩)).2]
    exact he
  · rw [haddr n hmn.symm]
    have hgone : ¬ (mergePair s idx n m n m).Listed m := fun hc => ((hr.listed h.core m).mp hc).2 rfl
    rcases h.temp with ⟨h1, rfl⟩ | ⟨h1, h2⟩
    · rcases hi with rfl | rfl
      · exact Or.inl ⟨h1, rfl⟩
      · refine Or.inr ⟨?_, hgone⟩
        have h3 := (Chain.search_some hs).2
        have h4 := g.size_pos idx
        omega
    · exact Or.inr ⟨by omega, fun hc => h2 ((hr.listed h.core temp).mp hc).1⟩
  · rw [hr.other _ (by omega) (by omega)]
    exact h.top

theorem Climb.coalesced_here (h : Climb g p ptr temp idx i s) (hp : g.Manages p)
    (hidx : idx ≤ g.depth) (hne : ∀ x ∈ p.addrs idx, p.whole idx x ≠ p.whole idx (s.addr i)) :
    Coalesced g s := by
  have hother : ∀ b < g.depth, ∀ j ∈ s.chain b, j ≠ i → ∀ k ∈ s.chain b, k = i →
      s.whole b (s.addr j) ≠ s.whole b (s.addr k) := by
    rintro b hb j hj hji k hk rfl
    obtain rfl : b = idx := (h.core.chain_bin b k hk).symm.trans (h.core.chain_bin idx k h.mem)
    have h1 := hne _ ((h.mem_addrs hj).resolve_left hji)
    rwa [hp.whole_eq hidx, hp.whole_eq hidx, ← h.manages.whole_eq hidx, ← h.manages.whole_eq hidx]
      at h1
  intro b hb j hj k hk he
  by_cases hji : j = i
  · by_cases hki : k = i
    · rw [hji, hki]
    · exact absurd he.symm (hother b hb k hk hki j hj hji)
  · by_cases hki : k = i
    · exact absurd he (hother b hb j hj hji k hk hki)
    · exact h.coalesced b hb j hj k hk hji hki he

theorem RestAlone.congr {n b : Nat} (h : RestAlone p n b) (ha : ∀ c, b ≤ c → s.addrs c = p.addrs c)
    (hsize : s.binSize = p.binSize) : RestAlone s n b := by
  induction n generalizing b with
  | zero => trivial
  | succ n ih =>
    refine Or.imp (fun h1 => ?_) (fun h1 => ⟨?_, ?_⟩) h
    · rw [ha b (le_refl b)]
      exact h1
    · rw [ha b (le_refl b), hsize]
      exact h1.1
    · exact ih h1.2 fun c hc => ha c (by omega)

theorem Climb.run {n : Nat} (h : Climb g p ptr temp idx i s) (hp : g.Manages p) (hidx : idx ≤ g.depth)
    (hn : idx + n = g.depth + 1) (hm : MergesFrom p ptr n idx (s.addr i)) :
    ∃ t, mergeLoop s temp idx (n + 1) = some t ∧ Neat g [] 0 t ∧ Coalesced g t := by
  induction n generalizing s idx i with
  | zero => exact absurd hn (by omega)
  | succ n ih =>
    have hsize : s.binSize = p.binSize := by
      funext b
      rw [SwBuddyPool.binSize, SwBuddyPool.binSize, h.manages.minAllocSize, hp.minAllocSize]
    rcases hm with ⟨hx, hle, hnext⟩ | ⟨hne, halone, hrest⟩
    · obtain ⟨f, m, l, hl, hw, hs, hi⟩ := h.front hidx hp hx hle
      have hf : f ∈ s.chain idx := hl ▸ List.mem_cons_self
      obtain ⟨hneat, hcoal, hr, hmf⟩ := h.merge hidx hp hl hw hs hi
      have hlt := (h.union_free hidx hf (Chain.search_some hs).1 (Chain.search_some hs).2).2
      have hpos := g.size_pos idx
      have hbins := g.bins
      have hloop : mergeLoop s temp idx (n + 1 + 1)
          = if idx + 1 = s.maxBin then some (mergePair s idx f m f m)
            else mergeLoop (mergePair s idx f m f m) temp (idx + 1) (n + 1) := by
        rw [mergeLoop, hl]
        simp only
        rw [← hl, h.manages.binSize hidx, u32_of_lt hlt, if_neg (by omega), hs]
        simp only
        rw [if_neg (by omega : ¬ s.addr f + g.size idx < s.addr f),
          if_neg (by omega : ¬ s.addr f + g.size idx < s.addr f), if_neg (by omega)]
      rw [hloop, h.manages.maxBin]
      by_cases he : idx = g.depth
      · subst he
        rw [if_pos rfl]
        refine ⟨_, rfl, hneat, fun b hb j hj k hk he' => ?_⟩
        have hold : ∀ j ∈ (mergePair s g.depth f m f m).chain b, j ≠ f := by
          rintro j hj rfl
          have h1 := hr.core.chain_bin b j hj
          have h2 := hr.core.chain_bin (g.depth + 1) j (by
            rw [hr.next]
            exact (Chain.addSorted_perm j _).symm.subset List.mem_cons_self)
          omega
        refine hcoal b hb j hj k hk (hold j hj) (hold k hk) ?_
        rw [← hr.addr j ((hr.listed h.core j).mp (Or.inl ⟨b, hj⟩)).2,
          ← hr.addr k ((hr.listed h.core k).mp (Or.inl ⟨b, hk⟩)).2]
        exact he'
      · rw [if_neg (by omega)]
        have hclimb := h.next (by omega) hp hl hw hs hi
        refine ih hclimb (by omega) (by omega) ?_
        rw [hr.addr f hmf.symm, hw]
        exact hnext
    · obtain ⟨f, l, hl⟩ := List.exists_cons_of_ne_nil (List.ne_nil_of_mem h.mem)
      have hf : f ∈ s.chain idx := hl ▸ List.mem_cons_self
      rw [← hsize, ← h.put] at halone
      refine ⟨s, ?_, h.neat, h.coalesced_here hp hidx hne⟩
      rw [halone.round hl]
      split
      · rfl
      · rename_i htemp
        rcases hrest with ⟨ha, hfirst⟩ | hrest
        · exfalso
          have hti : temp = i := by
            rcases h.temp with h1 | h1
            · exact h1.2
            · omega
          rcases h.mem_addrs hf with h2 | h2
          · exact htemp (hti.trans h2.symm)
          · have h3 := hfirst _ h2
            have h4 := h.mem
            rw [hl] at h4
            rcases List.mem_cons.mp h4 with h5 | h5
            · exact htemp (hti.trans h5)
            · have hord := h.neat.chains idx
              rw [hl] at hord
              have h6 := (List.pairwise_cons.mp hord).1 i h5
              omega
        · refine mergeLoop_idle (hrest.congr (fun c hc => h.above c (by omega)) hsize) ?_
          rw [show idx + 1 + n = g.depth + 1 by omega]
          exact h.top

end

/-! ## `sw_buddy_free` -/

theorem Neat.drop {ptr n : Nat} (h : Neat g [] 0 s) (hc : Contained g s)
    (hs : BTree.search s.addr ptr s.allocTree = some n) :
    Neat g [n] (g.size (s.bin n)) (dropBlock s n) := by
  have hn : n ∈ s.allocTree.toList := (BTree.search_some hs).1
  have hp := BTree.remove_perm hs
  have hsize := hc.core.live_size n hn
  have hcurr : s.currHeapSize + g.size (s.bin n) ≤ g.size g.depth := by
    have h1 : (s.area n).blockSize ≤ liveSize s :=
      List.single_le_sum (fun _ _ => Nat.zero_le _) _ (List.mem_map_of_mem hn)
    have h2 := hc.account
    omega
  have hw := Geometry.size_lt_word (le_refl g.depth)
  constructor
  · exact h.chains
  · exact List.Pairwise.sublist (BTree.remove_sublist n _) h.tree
  · rintro i (hi | hi)
    · exact h.grid i (Or.inl hi)
    · exact h.grid i (Or.inr (hp.subset (List.mem_cons_of_mem n hi)))
  · intro i hi
    rcases h.tracked i hi with h0 | (hl | hl) | hl
    · exact Or.inl h0
    · exact Or.inr (Or.inl (Or.inl hl))
    · rcases List.mem_cons.mp (hp.symm.subset hl) with rfl | hl
      · exact Or.inr (Or.inr List.mem_cons_self)
      · exact Or.inr (Or.inl (Or.inr hl))
    · cases hl
  · have htotal := h.total
    show freeTotal g s + g.size (s.bin n) = u32 (s.currHeapSize + (s.area n).blockSize) + _
    rw [hsize, u32_of_lt (by omega)]
    omega

theorem Climb.start {u : SwBuddyPool} {n : Nat} (h : Contained g s) (hc : Coalesced g s)
    (hn : n ∈ s.allocTree.toList) (hfix : u.shape = s.shape) (haddr : u.addr = s.addr)
    (hchain : ∀ b, u.chain b = s.chain b)
    (hcore : Core g g.FreeOrWhole g.Inside (u.putFree (s.bin n) n))
    (hneat : Neat g [] 0 (u.putFree (s.bin n) n)) :
    Climb g s (s.addr n) n (s.bin n) n (u.putFree (s.bin n) n) := by
  have hk := (h.core.live_ok n hn).le_depth
  have hm : g.Manages (u.putFree (s.bin n) n) := h.manages.of_shape hfix
  have ha : ∀ j, (u.putFree (s.bin n) n).addr j = s.addr j := fun j => congrFun haddr j
  have hself : (u.putFree (s.bin n) n).chain (s.bin n)
      = Chain.addSorted s.addr n (s.chain (s.bin n)) := by
    rw [chain_putFree_self, haddr, hchain]
  have hother : ∀ b, b ≠ s.bin n → (u.putFree (s.bin n) n).chain b = s.chain b := by
    intro b hb
    rw [chain_putFree_ne u hb, hchain]
  refine ⟨hm, hcore, hneat, ?_, ?_, fun b hb => ?_, fun b hb j hj k hk' hjn hkn he => ?_,
    Or.inl ⟨ha n, rfl⟩, ?_⟩
  · rw [hself]
    exact (Chain.addSorted_perm n _).symm.subset List.mem_cons_self
  · have hadd : Chain.addSorted id (s.addr n) (s.addrs (s.bin n))
        = (Chain.addSorted s.addr n (s.chain (s.bin n))).map s.addr :=
      (Chain.map_addSorted n _).symm
    rw [addrs, hself, ha n, hadd]
    exact List.map_congr_left fun j _ => ha j
  · rw [addrs, hother b (by omega)]
    exact List.map_congr_left fun j _ => ha j
  · have hold : ∀ j ∈ (u.putFree (s.bin n) n).chain b, j ≠ n → j ∈ s.chain b := by
      intro j hj hjn
      by_cases hb' : b = s.bin n
      · subst hb'
        rw [hself] at hj
        exact (List.mem_cons.mp ((Chain.addSorted_perm n _).subset hj)).resolve_left hjn
      · rw [hother b hb'] at hj
        exact hj
    refine hc b hb j (hold j hj hjn) k (hold k hk' hkn) ?_
    rw [hm.whole_eq (by omega), hm.whole_eq (by omega), ha, ha] at he
    rw [h.manages.whole_eq (by omega), h.manages.whole_eq (by omega)]
    exact he
  · rw [hother _ (by omega)]
    refine List.eq_nil_iff_forall_not_mem.mpr fun i hi => ?_
    exact h.core.unshared _ i hi (top_alone h.core' hi (Or.inr hn) ▸ hn)

theorem Contained.free_coalesced {n : Nat} (h : Contained g s) (hneat : Neat g [] 0 s)
    (hc : Coalesced g s) (hn : n ∈ s.allocTree.toList)
    (hm : MergesFrom s (s.addr n) (s.maxBin - s.bin n) (s.bin n) (s.addr n)) :
    ∃ t, swBuddyFree s (s.addr n) = some t ∧ Contained g t ∧ Neat g [] 0 t ∧ Coalesced g t ∧
      (s.addr n :: t.allocTree.toList.map t.addr).Perm (s.allocTree.toList.map s.addr) := by
  have hs := BTree.search_complete hneat.tree hn
  have hmd : g.Manages (dropBlock s n) := h.manages.of_shape (dropBlock_shape s n)
  obtain ⟨hcore, hheld⟩ := h.core.drop hs
  have hin := h.core.live_ok n hn
  have hk := hin.le_depth
  have hfree : swBuddyFree s (s.addr n) = returnToFreeArea (dropBlock s n) n (s.bin n) := by
    rw [swBuddyFree, if_neg (h.core.addr_ne n (Or.inr hn)), hs]
  have hput := hcore.giveBack hmd hheld hin
  have hneat_u := (hneat.drop h hs).change hheld.unlisted
    ⟨(dropBlock s n).addr n, (dropBlock s n).binSize (s.bin n), s.bin n⟩ (fun _ hi _ => hi)
    (Or.inr List.mem_cons_self)
  have hneat_v : Neat g [] 0 (((dropBlock s n).setArea n ⟨(dropBlock s n).addr n,
      (dropBlock s n).binSize (s.bin n), s.bin n⟩).putFree (s.bin n) n) := by
    refine Neat.put (by rw [Nat.zero_add]; exact hneat_u) (hheld.setArea_self _ rfl)
      (bin_setArea_self _ n _) (by omega) ?_
    rw [addr_setArea_self]
    exact hneat.grid n (Or.inr hn)
  have haddr : ((dropBlock s n).setArea n ⟨(dropBlock s n).addr n,
      (dropBlock s n).binSize (s.bin n), s.bin n⟩).addr = s.addr := by
    funext i
    by_cases hi : i = n
    · rw [hi, addr_setArea_self]
      rfl
    · exact addr_setArea_ne (dropBlock s n) hi _
  have hclimb := Climb.start h hc hn (by rfl) haddr (fun _ => rfl) hput hneat_v
  have hrun := hclimb.run h.manages hk (n := g.depth + 1 - s.bin n) (by omega) (by
    rw [← h.manages.maxBin]
    exact (congrFun haddr n).symm ▸ hm)
  obtain ⟨t, ht, h1, h2⟩ := hrun
  have hreturn : returnToFreeArea (dropBlock s n) n (s.bin n) = some t := by
    rw [returnToFreeArea, if_neg (by rw [hmd.maxBin]; omega), hmd.maxBin,
      show g.depth + 1 + 1 - s.bin n = g.depth + 1 - s.bin n + 1 by omega]
    exact ht
  have hmerged := returnToFreeArea_merged hmd hcore hheld hin (h.phantom (h.phantom_free hn)) hreturn
  refine ⟨t, hfree.trans hreturn, h.free (hfree.trans hreturn), h1, h2, ?_⟩
  have hlive : t.allocTree.toList.map t.addr
      = (BTree.remove s.addr n s.allocTree).toList.map s.addr := by
    rw [tree_of_fixed hmerged.fixed]
    exact List.map_congr_left fun i hi => congrArg SwArea.memAddr (hmerged.same i hi)
  rw [hlive, ← List.map_cons]
  exact (BTree.remove_perm hs).map s.addr

end
end SierraTee
