import SierraTee.Paging.Ledger
import SierraTee.Paging.Ranges

/-!
# Ranges, section by section

* `mapLoop_sect`    the abstract table behind the loop of `map_secure_memory`;
* `unmapLoop_sect`  and behind that of `unmap_secure_memory`, when the pool keeps its pages.
-/

namespace SierraTee
open Function FlatMemory PageTables

def pageAt (i : BitVec 12) (k : BitVec 8) : Word := (i ++ k) ++ 0#12

def pagesIn (va size : Word) (i : BitVec 12) : Finset (BitVec 8) :=
  Finset.univ.filter fun k => InRange va size (pageAt i k)

def WholeSection (va pa size : Word) (i : BitVec 12) : Prop := BySection va pa size (pageAt i 0)

instance (va pa size : Word) : DecidablePred (WholeSection va pa size) :=
  fun _ => inferInstanceAs (Decidable (BySection ..))

section
variable {va pa size a b d : Word} {i : BitVec 12} {k : BitVec 8} {page : Prop}

theorem pageAt_toNat (i : BitVec 12) (k : BitVec 8) :
    (pageAt i k).toNat = i.toNat * 1048576 + k.toNat * 4096 := by
  unfold pageAt
  rw [append_toNat, append_toNat, BitVec.toNat_ofNat]
  omega

theorem l1Index_pageAt (i : BitVec 12) (k : BitVec 8) : l1Index (pageAt i k) = i := by
  have h1 := i.isLt
  have h2 := k.isLt
  apply BitVec.eq_of_toNat_eq
  unfold l1Index
  rw [extract_toNat, pageAt_toNat]
  omega

theorem l2Index_pageAt (i : BitVec 12) (k : BitVec 8) : l2Index (pageAt i k) = k := by
  have h1 := i.isLt
  have h2 := k.isLt
  apply BitVec.eq_of_toNat_eq
  unfold l2Index
  rw [extract_toNat, pageAt_toNat]
  omega

theorem pageOf_pageAt : pageOf a = pageOf (pageAt (l1Index a) (l2Index a)) := by
  rw [pageOf_iff, l1Index_pageAt, l2Index_pageAt]
  exact ⟨rfl, rfl⟩

theorem mem_pagesIn' : k ∈ pagesIn va size i ↔ InRange va size (pageAt i k) := by
  unfold pagesIn
  rw [Finset.mem_filter, and_iff_right (Finset.mem_univ _)]

theorem wholeSection_iff : WholeSection va pa size (l1Index a) ↔ BySection va pa size a :=
  ⟨fun h => (h.section (l1Index_pageAt (l1Index a) 0).symm).1,
    fun h => (h.section (l1Index_pageAt (l1Index a) 0)).1⟩

theorem WholeSection.univ (h : WholeSection va pa size i) : pagesIn va size i = Finset.univ := by
  refine Finset.eq_univ_of_forall fun k => mem_pagesIn'.mpr ?_
  refine (h.section ?_).2
  rw [l1Index_pageAt, l1Index_pageAt]

theorem FirstStep.whole_rest (h : FirstStep va pa size d page)
    (hi : (pagesIn (va + d) (size - d) i).Nonempty) :
    WholeSection (va + d) (pa + d) (size - d) i ↔ WholeSection va pa size i := by
  obtain ⟨k, hk⟩ := hi
  have h1 := (mem_pagesIn'.mp hk).rest h.fits
  have h2 := h.bySection_rest h1
  rw [← wholeSection_iff, ← wholeSection_iff, l1Index_pageAt] at h2
  exact h2

theorem FirstStep.pages (h : FirstStep va pa size d page) (hp : page) (i : BitVec 12) :
    pagesIn va size i = if i = l1Index va then
      insert (l2Index va) (pagesIn (va + d) (size - d) i)
      else pagesIn (va + d) (size - d) i := by
  obtain ⟨hd, -⟩ := h.isPage hp
  ext k
  rw [mem_pagesIn', InRange.step h.fits, ← mem_pagesIn', hd, ← pageOf_way h.vaPage, pageOf_iff,
    l1Index_pageAt, l2Index_pageAt]
  split_ifs with h1
  · rw [Finset.mem_insert, and_iff_right h1]
  · exact ⟨fun h2 => h2.resolve_left fun h3 => h1 h3.1, Or.inr⟩

theorem FirstStep.fresh (h : FirstStep va pa size d page) (hp : page) :
    l2Index va ∉ pagesIn (va + d) (size - d) (l1Index va) := by
  obtain ⟨hd, -⟩ := h.isPage hp
  rw [mem_pagesIn']
  intro h1
  have h2 := h1.rest h.fits
  have h3 := (pageOf_way h.vaPage).mp pageOf_pageAt.symm
  omega

theorem FirstStep.sections (h : FirstStep va pa size d page) (hp : ¬ page) (i : BitVec 12) :
    pagesIn (va + d) (size - d) i
      = if i = l1Index va then ∅ else pagesIn va size i := by
  obtain ⟨hd, hva, -⟩ := h.isSection hp
  have hin (k : BitVec 8) : (pageAt i k - va).toNat < d.toNat ↔ i = l1Index va := by
    rw [hd, ← l1Index_way hva, l1Index_pageAt]
  ext k
  split_ifs with h1
  · rw [mem_pagesIn']
    refine ⟨fun h2 => ?_, fun h2 => absurd h2 (Finset.notMem_empty k)⟩
    have h3 := h2.rest h.fits
    have h4 := (hin k).mpr h1
    omega
  · rw [mem_pagesIn', mem_pagesIn', InRange.step h.fits (a := pageAt i k)]
    exact ⟨Or.inr, fun h2 => h2.resolve_left (mt (hin k).mp h1)⟩

theorem pagesIn_zero (va : Word) (i : BitVec 12) : pagesIn va 0 i = ∅ :=
  Finset.eq_empty_of_forall_notMem fun _ h => Nat.not_lt_zero _ (mem_pagesIn'.mp h)

theorem wholeSection_zero (va pa : Word) (i : BitVec 12) : ¬ WholeSection va pa 0 i := fun h => by
  have h1 := h.univ
  rw [pagesIn_zero] at h1
  exact absurd h1 (Finset.univ_nonempty.ne_empty ·.symm)

theorem FirstStep.whole (h : FirstStep va pa size d page) (hi : page ∨ i ≠ l1Index va) :
    WholeSection (va + d) (pa + d) (size - d) i ↔ WholeSection va pa size i := by
  by_cases h1 : (pagesIn (va + d) (size - d) i).Nonempty
  · exact h.whole_rest h1
  · rw [Finset.not_nonempty_iff_eq_empty] at h1
    refine ⟨fun h2 => ?_, fun h2 => ?_⟩
    · rw [h2.univ] at h1
      exact absurd h1 Finset.univ_nonempty.ne_empty
    · have h3 := h2.univ
      by_cases hp : page
      · rw [h.pages hp, h1] at h3
        split_ifs at h3
        · have h4 : (0 : BitVec 8) ∈ (insert (l2Index va) ∅ : Finset (BitVec 8)) := by
            rw [h3]
            exact Finset.mem_univ 0
          have h5 : (1 : BitVec 8) ∈ (insert (l2Index va) ∅ : Finset (BitVec 8)) := by
            rw [h3]
            exact Finset.mem_univ 1
          rw [Finset.mem_insert] at h4 h5
          have h6 := h4.resolve_right (Finset.notMem_empty 0)
          have h7 := h5.resolve_right (Finset.notMem_empty 1)
          exact absurd (h6.trans h7.symm) (by decide)
        · exact absurd h3 (Finset.univ_nonempty.ne_empty ·.symm)
      · rw [h.sections hp, if_neg (hi.resolve_left hp), h3] at h1
        exact absurd h1 Finset.univ_nonempty.ne_empty

end

/-! ## The loop of `map_secure_memory` -/

section
variable {c : PageConfig} {pt pt0 pt1 pt' : PageTables} {va pa size a d w ptf : Word} {i : BitVec 12}
  {k : BitVec 8} {s : Finset (BitVec 12)} {e : CpuPtEntry} {n : Nat}

theorem sectionEntry_plain (e : CpuPtEntry) : ¬ Coarse (sectionEntry e) := fun h => by
  have h1 : pageDescTypeCoarse = pageDescTypeSection := h.symm.trans (sectionEntry_type e)
  exact absurd h1 (by decide)

theorem Ledger.plain (h : Ledger c s pt0 pt) (hp : PoolOk c pt) (hi : ¬ Coarse (pt.entry c i))
    (hw : ¬ Coarse w) : Ledger c s pt0 (pt.setEntry c i w) := by
  obtain ⟨hp', helse⟩ := hp.setPlain i hw
  have hne (i' : BitVec 12) (h1 : Coarse (pt.entry c i')) : i' ≠ i := fun h2 => hi (h2 ▸ h1)
  refine h.same hp.toTablesOk hp'.toTablesOk (fun q hq => ⟨hq, rfl⟩) (fun _ => rfl) rfl
    (fun i' => ?_) (fun i' h1 => ?_) (fun _ _ h => h) (fun _ => rfl) rfl
  · by_cases h1 : i' = i
    · rw [h1, setEntry_entry' hp.config, if_pos rfl]
      exact ⟨fun h2 => absurd h2 hw, fun h2 => absurd h2 hi⟩
    · rw [helse.entry i' h1]
  · rw [helse.entry i' (hne i' h1)]

/-- what the loop does to the sections; `f` and `d` are the descriptors of sections and pages -/
structure Mapping (c : PageConfig) (va pa size : Word) (f : BitVec 12 → Word)
    (d : BitVec 12 → BitVec 8 → Word) (pt pt' : PageTables) : Prop where
  isSection : ∀ i, descType (f i) = pageDescTypeSection
  isPage : ∀ i k, (d i k).extractLsb' 1 1 = 1#1
  sect : ∀ i, pt'.sect c i = if WholeSection va pa size i then (pt.sect c i).mapSection (f i)
    else (pt.sect c i).mapPages 0 (pagesIn va size i) (d i)

theorem Mapping.nil (c : PageConfig) (va pa : Word) (e : CpuPtEntry) (pt : PageTables) :
    Mapping c va pa 0 (fun _ => sectionEntry e) (fun _ _ => smallPageEntry e) pt pt := by
  refine ⟨fun _ => sectionEntry_type e, fun _ _ => smallPageEntry_type e, fun i => ?_⟩
  rw [if_neg (wholeSection_zero va pa i), pagesIn_zero, Sect.mapPages_empty]

variable {page : Prop} {f : BitVec 12 → Word} {m : BitVec 12 → BitVec 8 → Word}

theorem section_not_fault (h : descType w = pageDescTypeSection) : ¬ Fault w := fun h1 => by
  have h2 : pageDescTypeSection = pageDescTypeFault := h.symm.trans h1
  exact absurd h2 (by decide)

def HasPages (va pa size : Word) : Prop := ∃ a, InRange va size a ∧ ¬ BySection va pa size a

theorem HasPages.first (hd : FirstStep va pa size d True) (hpos : 0 < d.toNat) :
    HasPages va pa size := by
  have h1 : (va - va).toNat < d.toNat := by
    rw [BitVec.sub_self]
    exact hpos
  exact ⟨va, (InRange.step hd.fits).mpr (Or.inl h1), fun h2 => (hd.bySection h1).mp h2 trivial⟩

theorem PoolOk.uses_pos (hp : PoolOk c pt) (hi : Coarse (pt.entry c i)) : pt.uses c i ≠ 0 := by
  obtain ⟨r, hr, j, h⟩ := hp.table i hi
  rw [hp.uses hr h, count_of_mem hr]
  exact hp.counted i hi r hr j h

theorem sect_uses (hi : Coarse (pt.entry c i)) : (pt.sect c i).uses = pt.uses c i := by
  rw [sect_coarse hi]
  rfl

theorem PoolOk.unmapPages_empty (hp : PoolOk c pt) (i : BitVec 12) :
    (pt.sect c i).unmapPages ∅ = pt.sect c i := by
  refine Sect.unmapPages_empty fun ns dom n l2 h => ?_
  by_cases hc : Coarse (pt.entry c i)
  · have h1 := sect_uses hc
    rw [h] at h1
    rw [show n = pt.uses c i from h1]
    exact hp.uses_pos hc
  · rw [sect_plain hc] at h
    cases h

/-- the pool gives no page back: few tables are free, or every page of it is in use -/
def Settled (pt : PageTables) : Prop :=
  pt.blkAllocated ≤ pt.blkUsedAll + 5 ∨ pt.refs ≠ [] ∧ ∀ r ∈ pt.refs, 1 ≤ pt.blkUsed r

theorem Ledger.freed {r : L2Ptr} {j : Fin 4} (hl : Ledger c s pt0 pt) (hp : PoolOk c pt)
    (hf : Freed c i k pt pt' r j) (hc : Coarse (pt.entry c i))
    (hold : Coarse (pt0.entry c i) → 1 < (pt.sect c i).uses) : Ledger c s pt0 pt' := by
  by_cases hlast : pt.count r j = 1
  · refine hl.release hp.toTablesOk hf hlast hc fun h2 => ?_
    have h3 := hold h2
    rw [sect_uses hc, hp.uses hf.mem hf.table, hlast] at h3
    exact absurd h3 (by decide)
  · obtain ⟨h2, -⟩ := hf.more hlast
    have hent (i' : BitVec 12) : pt'.entry c i' = pt.entry c i' := by
      by_cases h3 : i' = i
      · rw [h3, h2]
      · exact hf.elsewhere.entry i' h3
    refine hl.same hp.toTablesOk hf.ok.toTablesOk (fun q hq => ⟨hf.refs ▸ hq, congrFun hf.pageBase q⟩)
      (fun _ => hf.refs) hf.allocated (fun i' => by rw [hent]) (fun i' _ => by rw [hent])
      (fun q l hq => ?_) (fun q => ?_) ?_
    · rw [hf.count] at hq
      split_ifs at hq with h3
      · rw [h3.1, h3.2]
        omega
      · exact hq
    · rw [hf.used, if_neg fun h3 => hlast h3.2]
    · rw [hf.usedAll, if_neg hlast]

def Unmapping (c : PageConfig) (va size : Word) (pt pt' : PageTables) : Prop :=
  ∀ i, pt'.sect c i = if WholeSection va va size i then (pt.sect c i).unmapSection
    else (pt.sect c i).unmapPages (pagesIn va size i)

theorem Unmapping.nil (hp : PoolOk c pt) (va : Word) : Unmapping c va 0 pt pt := fun i => by
  rw [if_neg (wholeSection_zero va va i), pagesIn_zero, hp.unmapPages_empty]

end

end SierraTee
