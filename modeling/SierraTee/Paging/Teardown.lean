import SierraTee.Paging.UnmapInPlace
import SierraTee.Paging.UseCount

/-!
# The tear-down of tables

* `Freed.useOk`     the counters behind a page that has been unmapped;
* `UseOk.dropPage`  a page that the pool gives back has no table in use;
* `pageRun_counts`  the counters in a run in which pages are mapped once and unmapped once.
-/

namespace SierraTee
open FlatMemory PageTables Runs

/-- an address in a page of the heap that the pool has given back in between -/
def GivenBack (c : PageConfig) (pt pt' : PageTables) (a : Word) : Prop :=
  ∃ q ∈ pt.refs, q ∉ pt'.refs ∧ c.isStatic q = false ∧ pageOf a = pageOf (pt.pageBase q)

section
variable {c : PageConfig} {pt pt' : PageTables} {r : L2Ptr} {j : Fin 4} {i : BitVec 12}
  {k : BitVec 8} {a b : Word} {n : Nat}

/-! ## A page is unmapped -/

theorem Freed.last_iff (h : Freed c i k pt pt' r j) (hu : UseOk c pt) (hi : Coarse (pt.entry c i))
    (hk : ¬ Fault (pt.l2At c i k)) : pt.count r j = 1 ↔ pagesOf c pt i = {k} := by
  have h1 : k ∈ pagesOf c pt i := mem_pagesOf.mpr hk
  rw [← hu.pool.uses h.mem h.table, hu.exact i hi, Finset.card_eq_one]
  refine ⟨fun ⟨l, hl⟩ => ?_, fun hl => ⟨k, hl⟩⟩
  rw [hl, Finset.mem_singleton] at h1
  rw [hl, h1]

theorem Freed.mapped (h : Freed c (l1Index b) (l2Index b) pt pt' r j) (hu : UseOk c pt)
    (hb : Mapped c pt b) : Mapped c pt' a ↔ Mapped c pt a ∧ pageOf a ≠ pageOf b := by
  by_cases h1 : l1Index a = l1Index b
  · by_cases h2 : pt.count r j = 1
    · have hpages := (h.last_iff hu hb.1 hb.2).mp h2
      have hgone : ¬ Coarse (pt'.entry c (l1Index b)) := by
        rw [h.last h2]
        decide
      refine iff_of_false (fun h3 => hgone (h1 ▸ h3.1)) fun ⟨h3, h4⟩ => ?_
      have h5 : l2Index a ∈ pagesOf c pt (l1Index b) := mem_pagesOf.mpr (h1 ▸ h3.2)
      rw [hpages, Finset.mem_singleton] at h5
      exact h4 (pageOf_iff.mpr ⟨h1, h5⟩)
    · obtain ⟨h3, h4⟩ := h.more h2
      unfold Mapped
      rw [h1, h3, h4, and_assoc]
      refine and_congr_right fun _ => ?_
      by_cases h5 : l2Index a = l2Index b
      · rw [if_pos h5]
        exact iff_of_false (fun h6 => h6 fault_zero) fun h6 => h6.2 (pageOf_iff.mpr ⟨h1, h5⟩)
      · rw [if_neg h5]
        exact (and_iff_left fun h6 => h5 (pageOf_iff.mp h6).2).symm
  · have h2 : pageOf a ≠ pageOf b := fun h2 => h1 (pageOf_iff.mp h2).1
    rw [and_iff_left h2]
    unfold Mapped
    rw [h.elsewhere.entry _ h1]
    refine and_congr_right fun hc => ?_
    rw [h.elsewhere.l2At _ h1 hc]

theorem Freed.exact (h : Freed c i k pt pt' r j) (hu : UseOk c pt) (hi : Coarse (pt.entry c i))
    (hk : ¬ Fault (pt.l2At c i k)) : Exact c pt' := by
  intro i' hi'
  by_cases h1 : i' = i
  · have hmore : pt.count r j ≠ 1 := fun h2 => by
      rw [h1, h.last h2] at hi'
      exact absurd hi' (by decide)
    obtain ⟨h3, h4⟩ := h.more hmore
    have ht : tableOf c (pt'.entry c i) = pt'.slotBase r j := by
      unfold PageTables.slotBase
      rw [h3, h.pageBase]
      exact h.table
    have hr : r ∈ pt'.refs := by
      rw [h.refs]
      exact h.mem
    have hpages : pagesOf c pt' i = (pagesOf c pt i).erase k := by
      ext l
      rw [mem_pagesOf, h4, Finset.mem_erase, mem_pagesOf]
      split_ifs with h5
      · exact iff_of_false (fun h6 => h6 fault_zero) fun h6 => h6.1 h5
      · exact (and_iff_right h5).symm
    have hcount := h.count r j
    rw [if_pos ⟨rfl, rfl⟩] at hcount
    rw [h1, h.ok.uses hr ht, hcount, hpages, Finset.card_erase_of_mem (mem_pagesOf.mpr hk),
      ← hu.exact i hi, hu.pool.uses h.mem h.table]
  · have hi2 : Coarse (pt.entry c i') := by
      rw [← h.elsewhere.entry i' h1]
      exact hi'
    have hpages : pagesOf c pt' i' = pagesOf c pt i' := by
      ext l
      rw [mem_pagesOf, mem_pagesOf, h.elsewhere.l2At i' h1 hi2]
    rw [h.uses hu.pool hi h1 hi2, hpages]
    exact hu.exact i' hi2

theorem Freed.tallied (h : Freed c i k pt pt' r j) (hu : UseOk c pt) (hi : Coarse (pt.entry c i)) :
    Tallied pt' := by
  intro q
  have hpos : pt.count r j ≠ 0 := by
    rw [count_of_mem h.mem]
    exact hu.pool.counted i hi r h.mem j h.table
  have hold := hu.tallied q
  by_cases h1 : q = r ∧ pt.count r j = 1
  · have hset : (Finset.univ.filter fun l : Fin 4 => pt'.count q l ≠ 0)
        = (Finset.univ.filter fun l : Fin 4 => pt.count q l ≠ 0).erase j := by
      ext l
      rw [Finset.mem_erase, Finset.mem_filter, Finset.mem_filter, h.count]
      by_cases h2 : l = j
      · rw [if_pos ⟨h1.1, h2⟩, h1.2]
        exact iff_of_false (fun h3 => h3.2 rfl) fun h3 => h3.1 h2
      · rw [if_neg fun h3 => h2 h3.2]
        exact (and_iff_right h2).symm
    have hmem : j ∈ Finset.univ.filter fun l : Fin 4 => pt.count q l ≠ 0 := by
      rw [Finset.mem_filter, h1.1]
      exact ⟨Finset.mem_univ j, hpos⟩
    have hcard := Finset.card_pos.mpr ⟨j, hmem⟩
    rw [hset, Finset.card_erase_of_mem hmem, h.used, if_pos h1, ← h1.1, hold]
    exact if_pos hcard
  · rw [h.used, if_neg h1, hold]
    congr 1
    ext l
    rw [Finset.mem_filter, Finset.mem_filter, h.count]
    by_cases h2 : q = r ∧ l = j
    · have h3 : pt.count r j - 1 ≠ 0 := fun h3 => h1 ⟨h2.1, by omega⟩
      rw [if_pos h2, h2.1, h2.2]
      exact and_congr_right fun _ => iff_of_true hpos h3
    · rw [if_neg h2]

theorem Freed.self (h : Freed c (l1Index b) (l2Index b) pt pt' r j) (hu : UseOk c pt)
    (hb : Mapped c pt b) (hnot : ¬ InPool c pt b) : SelfMapped c pt' := by
  intro q hq hheap
  rw [h.refs] at hq
  rw [h.pageBase]
  have hpage : pageOf (pt.pageBase q) ≠ pageOf b := fun h1 => hnot ⟨q, hq, hheap, h1.symm⟩
  refine (hu.self q hq hheap).imp (fun h1 => (h.mapped hu hb).mpr ⟨h1, hpage⟩) fun ⟨h1, h2⟩ => ?_
  have h3 : l1Index (pt.pageBase q) ≠ l1Index b := fun h3 => h2 (h3 ▸ hb.1)
  rw [h.elsewhere.entry _ h3]
  exact ⟨h1, h2⟩

theorem Freed.useOk (h : Freed c (l1Index b) (l2Index b) pt pt' r j) (hu : UseOk c pt)
    (hb : Mapped c pt b) (hnot : ¬ InPool c pt b) : UseOk c pt' :=
  ⟨h.ok, h.exact hu hb.1 hb.2, h.tallied hu hb.1, h.self hu hb hnot⟩

theorem Freed.translate (h : Freed c (l1Index b) (l2Index b) pt pt' r j) (hu : UseOk c pt)
    (hb : Mapped c pt b) (ha : pageOf a ≠ pageOf b) : pt'.translate c a = pt.translate c a := by
  by_cases h1 : l1Index a = l1Index b
  · have h2 : l2Index a ≠ l2Index b := fun h2 => ha (pageOf_iff.mpr ⟨h1, h2⟩)
    have hc : Coarse (pt.entry c (l1Index a)) := by
      rw [h1]
      exact hb.1
    by_cases h3 : pt.count r j = 1
    · have h4 : Fault (pt.l2At c (l1Index a) (l2Index a)) := by
        by_contra h4
        rw [h1] at h4
        have h5 := mem_pagesOf.mpr h4
        rw [(h.last_iff hu hb.1 hb.2).mp h3, Finset.mem_singleton] at h5
        exact h2 h5
      have h5 : Fault (pt'.entry c (l1Index a)) := by
        rw [h1, h.last h3]
        exact fault_zero
      rw [translate_unmapped hc h4, translate_fault h5]
    · obtain ⟨h4, h5⟩ := h.more h3
      have hc' : Coarse (pt'.entry c (l1Index a)) := by
        rw [h1, h4]
        exact hb.1
      rw [translate_coarse hc', translate_coarse hc, h1, h4, h5, if_neg h2]
  · exact h.elsewhere.translate h1

/-! ## A page is given back -/

theorem UseOk.no_table (h : UseOk c pt) (hr : r ∈ pt.refs) (h0 : pt.blkUsed r = 0) (j : Fin 4) :
    pt.page r j = 0 := by
  have h1 := h.tallied r
  rw [used_of_mem hr, h0] at h1
  have h2 := Finset.filter_eq_empty_iff.mp (Finset.card_eq_zero.mp h1.symm) (Finset.mem_univ j)
  rw [count_of_mem hr] at h2
  exact not_not.mp h2

theorem count_dropPage (hn : pt.refs.Nodup) (h : ∀ j, pt.page r j = 0) (q : L2Ptr) (l : Fin 4) :
    (pt.dropPage r).count q l = pt.count q l := by
  show (if q ∈ pt.refs.erase r then pt.page q l else 0) = if q ∈ pt.refs then pt.page q l else 0
  by_cases h1 : q = r
  · rw [h1, if_neg hn.not_mem_erase, h l, ite_self]
  · simp only [hn.mem_erase_iff, ne_eq, h1, not_false_eq_true, true_and]

theorem used_dropPage (hn : pt.refs.Nodup) (h : pt.blkUsed r = 0) (q : L2Ptr) :
    (pt.dropPage r).used q = pt.used q := by
  show (if q ∈ pt.refs.erase r then pt.blkUsed q else 0) = if q ∈ pt.refs then pt.blkUsed q else 0
  by_cases h1 : q = r
  · rw [h1, if_neg hn.not_mem_erase, h, ite_self]
  · simp only [hn.mem_erase_iff, ne_eq, h1, not_false_eq_true, true_and]

theorem PoolOk.refs_nodup (hp : PoolOk c pt) : pt.refs.Nodup := (List.nodup_append.mp hp.names).1

theorem UseOk.dropPage (h : UseOk c pt) (hr : r ∈ pt.refs) (h0 : pt.blkUsed r = 0) :
    UseOk c (pt.dropPage r) := by
  have hzero := h.no_table hr h0
  have hnd := h.pool.refs_nodup
  have hin {q : L2Ptr} (hq : q ∈ pt.refs) (hne : q ≠ r) : q ∈ (pt.dropPage r).refs :=
    hnd.mem_erase_iff.mpr ⟨hne, hq⟩
  have hout {q : L2Ptr} (hq : q ∈ (pt.dropPage r).refs) : q ∈ pt.refs := List.mem_of_mem_erase hq
  have hother (i : BitVec 12) (hi : Coarse (pt.entry c i)) : ∃ q ∈ (pt.dropPage r).refs, ∃ l,
      tableOf c (pt.entry c i) = pt.slotBase q l := by
    obtain ⟨q, hq, l, ht⟩ := h.pool.table i hi
    refine ⟨q, hin hq fun h1 => ?_, l, ht⟩
    exact h.pool.counted i hi q hq l ht (h1 ▸ hzero l)
  have hp : PoolOk c (pt.dropPage r) := by
    refine ⟨⟨h.pool.config, ?_, ?_, fun b hb => h.pool.pages b ?_, hother, h.pool.own⟩,
      fun i hi q hq l ht => h.pool.counted i hi q (hout hq) l ht⟩
    · exact h.pool.names.sublist (List.erase_sublist.append_right _)
    · exact h.pool.bases.sublist ((List.erase_sublist.map _).append_right _)
    · exact ((List.erase_sublist.map _).append_right _).subset hb
  refine ⟨hp, fun i hi => ?_, fun q => ?_, fun q hq => h.self q (hout hq)⟩
  · obtain ⟨q, hq, l, ht⟩ := hother i hi
    have huses := hp.uses hq ht
    rw [huses, count_dropPage hnd hzero, ← h.pool.uses (hout hq) ht]
    exact h.exact i hi
  · rw [used_dropPage hnd h0, h.tallied q]
    simp only [count_dropPage hnd hzero]

theorem PoolOk.dropped (hp : PoolOk c pt) (hr : r ∈ pt.refs) :
    ¬ InPool c (pt.dropPage r) (pt.pageBase r) := by
  rintro ⟨q, hq, -, h1⟩
  obtain ⟨hne, hq⟩ := hp.refs_nodup.mem_erase_iff.mp hq
  obtain h2 | h2 := hp.far hq hr
  · exact hne (hp.pageBase_inj hq hr h2)
  · have h3 : pageOf (pt.pageBase r) = pageOf (pt.pageBase q) := h1
    rw [pageOf_eq_iff] at h3
    unfold Far at h2
    omega

/-! ## The whole call -/

/-- the page of `b` is unmapped, and those that the pool has given back -/
structure Unmapped (c : PageConfig) (b : Word) (pt pt' : PageTables) : Prop where
  useOk : UseOk c pt'
  refs : pt'.refs ⊆ pt.refs
  mapped : ∀ a, Mapped c pt' a ↔ Mapped c pt a ∧ pageOf a ≠ pageOf b ∧ ¬ GivenBack c pt pt' a
  translate : ∀ a, pageOf a ≠ pageOf b → ¬ GivenBack c pt pt' a →
    pt'.translate c a = pt.translate c a

theorem Freed.unmapped (h : Freed c (l1Index b) (l2Index b) pt pt' r j) (hu : UseOk c pt)
    (hb : Mapped c pt b) (hnot : ¬ InPool c pt b) : Unmapped c b pt pt' := by
  have hnone (a : Word) : ¬ GivenBack c pt pt' a := by
    rintro ⟨q, hq, hq', -⟩
    rw [h.refs] at hq'
    exact hq' hq
  refine ⟨h.useOk hu hb hnot, ?_, fun a => ?_, fun a ha _ => h.translate hu hb ha⟩
  · rw [h.refs]
    exact List.Subset.refl _
  · rw [h.mapped hu hb, and_iff_left (hnone a)]

theorem Unmapped.dropStatic (h : Unmapped c b pt pt') (hr : r ∈ pt'.refs) (h0 : pt'.blkUsed r = 0)
    (hstatic : c.isStatic r = true) : Unmapped c b pt (pt'.dropPage r) := by
  have hback (a : Word) : GivenBack c pt (pt'.dropPage r) a ↔ GivenBack c pt pt' a := by
    refine exists_congr fun q => and_congr_right fun _ => and_congr_left fun h1 => ?_
    refine not_congr ((h.useOk.pool.refs_nodup.mem_erase_iff).trans (and_iff_right fun h2 => ?_))
    have h3 := h1.1
    rw [h2, hstatic] at h3
    exact absurd h3 (by decide)
  refine ⟨h.useOk.dropPage hr h0, fun q hq => h.refs (List.mem_of_mem_erase hq), fun a => ?_,
    fun a ha hg => h.translate a ha (mt (hback a).mpr hg)⟩
  rw [hback]
  exact h.mapped a

theorem Unmapped.dropHeap {pt2 : PageTables} (h : Unmapped c b pt pt')
    (hbase : pt'.pageBase = pt.pageBase) (hr : r ∈ pt'.refs) (hheap : c.isStatic r = false)
    (h2 : Unmapped c (pt'.pageBase r) (pt'.dropPage r) pt2) : Unmapped c b pt pt2 := by
  have hnd := h.useOk.pool.refs_nodup
  have hback (a : Word) : GivenBack c pt pt2 a ↔ GivenBack c pt pt' a ∨
      pageOf a = pageOf (pt'.pageBase r) ∨ GivenBack c (pt'.dropPage r) pt2 a := by
    constructor
    · rintro ⟨q, hq, hq2, h3, h4⟩
      by_cases h5 : q ∈ pt'.refs
      · by_cases h6 : q = r
        · rw [h6, ← hbase] at h4
          exact Or.inr (Or.inl h4)
        · rw [← hbase] at h4
          exact Or.inr (Or.inr ⟨q, hnd.mem_erase_iff.mpr ⟨h6, h5⟩, hq2, h3, h4⟩)
      · exact Or.inl ⟨q, hq, h5, h3, h4⟩
    · rintro (⟨q, hq, hq2, h3, h4⟩ | h3 | ⟨q, hq, hq2, h3, h4⟩)
      · exact ⟨q, hq, fun h5 => hq2 (List.mem_of_mem_erase (h2.refs h5)), h3, h4⟩
      · rw [hbase] at h3
        exact ⟨r, h.refs hr, fun h5 => (hnd.mem_erase_iff.mp (h2.refs h5)).1 rfl, hheap, h3⟩
      · refine ⟨q, h.refs (List.mem_of_mem_erase hq), hq2, h3, ?_⟩
        rw [← hbase]
        exact h4
  refine ⟨h2.useOk, fun q hq => h.refs (List.mem_of_mem_erase (h2.refs hq)), fun a => ?_,
    fun a ha hg => ?_⟩
  · have h3 : Mapped c (pt'.dropPage r) a ↔ Mapped c pt' a := Iff.rfl
    rw [h2.mapped, h3, h.mapped, hback, not_or, not_or]
    tauto
  · rw [hback, not_or, not_or] at hg
    exact (h2.translate a hg.2.1 hg.2.2).trans (h.translate a ha hg.1)

/-- **`unmap_small_page_entry`** keeps the counters when the page is mapped, or its section has no
table. -/
theorem unmapSmallPageEntry_unmapped (hu : UseOk c pt)
    (hm : Coarse (pt.entry c (l1Index b)) → Mapped c pt b) (hnot : ¬ InPool c pt b)
    {x : PageTables × Int} (h : unmapSmallPageEntry c n pt b = some x) : Unmapped c b pt x.1 := by
  induction n using Nat.strong_induction_on generalizing pt b x with
  | _ n ih =>
    obtain ⟨hi, hx⟩ | ⟨hi, r, j, pt', hf, hx⟩ := unmapSmallPageEntry_cases hu.pool h
    · rw [hx]
      have hnone (a : Word) : ¬ GivenBack c pt pt a := fun ⟨q, hq, hq2, _⟩ => hq2 hq
      refine ⟨hu, List.Subset.refl _, fun a => ?_, fun _ _ _ => rfl⟩
      refine ⟨fun h1 => ⟨h1, fun h2 => hi (h1.of_page h2.symm).1, hnone a⟩, And.left⟩
    · have hone := hf.unmapped hu (hm hi) hnot
      have hr : r ∈ pt'.refs := by
        rw [hf.refs]
        exact hf.mem
      obtain hx | ⟨hs, ⟨hstatic, hx⟩ | ⟨hheap, m, y, hn, hy, hx⟩⟩ := hx
      · rw [hx]
        exact hone
      · rw [hx]
        exact hone.dropStatic hr (of_decide_eq_true hs).1 hstatic
      · rw [hx]
        have h0 := (of_decide_eq_true hs).1
        refine hone.dropHeap hf.pageBase hr hheap (ih m (by omega) (hone.useOk.dropPage hr h0)
          (fun hc => ?_) (hone.useOk.pool.dropped hr) hy)
        obtain h1 | ⟨-, h1⟩ := hone.useOk.self r hr hheap
        · exact h1
        · exact absurd hc h1

theorem unmapSmallPageEntry_eq {va : Word} {pt1 : PageTables} (hi : Coarse (pt.entry c (l1Index va)))
    (h1 : pt1 = pt.store (nth (tableOf c (pt.entry c (l1Index va))) (l2Index va).toNat) 0)
    (hfind : pt1.findRef (tableOf c (pt.entry c (l1Index va))) = some (r, j))
    (hs : (pt1.releaseTable c (l1Index va) r j).shrinks r = false) :
    unmapSmallPageEntry c n pt va = some (pt1.releaseTable c (l1Index va) r j, 0) := by
  rw [h1] at hfind hs ⊢
  unfold PageTables.unmapSmallPageEntry
  simp only [if_pos (show descType (pt.entry c (l1Index va)) = pageDescTypeCoarse from hi), hfind]
  exact if_neg (Bool.eq_false_iff.mp hs)

theorem releaseTable_refs (c : PageConfig) (pt : PageTables) (i : BitVec 12) (r : L2Ptr) (j : Fin 4) :
    (pt.releaseTable c i r j).refs = pt.refs := by
  unfold PageTables.releaseTable
  simp only
  split_ifs <;> rfl

theorem map_returns {A B : Type*} {f : A → B} {o : Option A} (h : ∃ y, o = some y) :
    ∃ x, o.map f = some x := by
  obtain ⟨y, rfl⟩ := h
  exact ⟨f y, rfl⟩

theorem unmapSmallPageEntry_returns (h : pt.refs.length ≤ n) (b : Word) :
    ∃ x, unmapSmallPageEntry c n pt b = some x := by
  induction n generalizing pt b with
  | zero =>
    have h1 : pt.refs = [] := List.length_eq_zero_iff.mp (Nat.le_zero.mp h)
    unfold PageTables.unmapSmallPageEntry PageTables.findRef
    simp only [PageTables.store, h1, List.find?_nil, Option.map_none]
    split_ifs
    · exact ⟨_, rfl⟩
    · exact ⟨_, rfl⟩
  | succ n ih =>
    unfold PageTables.unmapSmallPageEntry
    simp only
    split_ifs
    · split
      · exact ⟨_, rfl⟩
      · rename_i x hx
        split_ifs
        · exact ⟨_, rfl⟩
        · obtain ⟨q, hq, rfl⟩ := Option.map_eq_some_iff.mp hx
          have hmem : q ∈ pt.refs := List.mem_of_find?_eq_some hq
          have hlen {pt1 : PageTables} (h1 : pt1.refs = pt.refs) :
              (pt1.dropPage q).refs.length ≤ n := by
            show (pt1.refs.erase q).length ≤ n
            rw [h1, List.length_erase_of_mem hmem]
            omega
          exact map_returns (ih (hlen (releaseTable_refs c (pt.store _ 0) ..)) _)
        · exact ⟨_, rfl⟩
    · exact ⟨_, rfl⟩

/-! ## Runs -/

theorem Unmapped.gone_iff (h : Unmapped c b pt pt') (i : BitVec 12) :
    ¬ Coarse (pt'.entry c i) ↔ ∀ a, l1Index a = i → Mapped c pt a →
      pageOf a = pageOf b ∨ GivenBack c pt pt' a := by
  refine ⟨fun h1 a ha hm => ?_, fun h1 hi => ?_⟩
  · by_contra h2
    obtain ⟨h3, h4⟩ := not_or.mp h2
    have h5 := (h.mapped a).mpr ⟨hm, h3, h4⟩
    exact h1 (ha ▸ h5.1)
  · obtain ⟨r, hr, j, ht⟩ := h.useOk.pool.table i hi
    have hpos := h.useOk.pool.counted i hi r hr j ht
    rw [← count_of_mem hr, ← h.useOk.pool.uses hr ht, h.useOk.exact i hi] at hpos
    obtain ⟨k, hk⟩ := Finset.card_ne_zero.mp hpos
    have hm : Mapped c pt' (pageAt i k) := by
      unfold Mapped
      rw [l1Index_pageAt, l2Index_pageAt]
      exact ⟨hi, mem_pagesOf.mp hk⟩
    obtain ⟨h2, h3, h4⟩ := (h.mapped _).mp hm
    exact (h1 _ (l1Index_pageAt i k) h2).elim h3 h4

end

/-! ## With the tables in place -/

namespace MmuConfig
variable {m : MmuConfig} {pt pt' : PageTables} {e : CpuPtEntry} {va a : Word} {r : L2Ptr} {n : Nat}

def NoTable (m : MmuConfig) (pt : PageTables) (va : Word) : Prop := m.mmuEnabled = true →
  Coarse (pt.entry m (l1Index va)) → ∀ a, m.TableAt pt a → pageOf a ≠ pageOf va

theorem InPlace.mapped (h : m.InPlace pt a) (he : m.mmuEnabled = true)
    (hc : Coarse (pt.entry m (l1Index a))) : Mapped m pt a := by
  refine ⟨hc, fun hf => ?_⟩
  obtain ⟨x, hx, -⟩ := h.translate he
  rw [translate_unmapped hc hf] at hx
  cases hx

theorem bare_of_useOk (hu : UseOk m pt) (hl : m.Placed pt)
    (hm : Coarse (pt.entry m (l1Index va)) → Mapped m pt va)
    (hno : m.NoTable pt va) : m.Bare pt va := by
  intro he hc a ha
  refine ⟨hno he hc a ha, fun h1 h2 => hno he hc a ha (pageOf_iff.mpr ⟨h1, ?_⟩)⟩
  have hin := (hl.tables a ha).mapped he (h1 ▸ hc)
  have h3 : l2Index a ∈ pagesOf m pt (l1Index va) := mem_pagesOf.mpr (h1 ▸ hin.2)
  have h4 : l2Index va ∈ pagesOf m pt (l1Index va) := mem_pagesOf.mpr (hm hc).2
  rw [hu.exact _ hc] at h2
  exact Finset.card_le_one.mp (le_of_eq h2) _ h3 _ h4

theorem dropPage_noTable (hp : PoolOk m pt) (hr : r ∈ pt.refs)
    (hal : (pt.pageBase r).toNat % 4096 = 0) : m.NoTable (pt.dropPage r) (pt.pageBase r) := by
  intro _ _ a ha
  rw [ne_eq, pageOf_of_aligned hal]
  obtain h1 | ⟨q, hq, h1⟩ := ha
  · have h2 := (hp.pageOk hr).apart
    unfold InPageAt
    omega
  · obtain ⟨hne, hq⟩ := hp.refs_nodup.mem_erase_iff.mp hq
    have h2 : Far (pt.pageBase q) (pt.pageBase r) :=
      (hp.far hq hr).resolve_left fun h2 => hne (hp.pageBase_inj hq hr h2)
    have h3 : InPageAt (pt.pageBase q) a := h1
    unfold Far at h2
    unfold InPageAt at h3 ⊢
    omega

/-- **`unmap_small_page_entry`** with the tables in place, and those that it gives back -/
theorem unmapSmallPageEntry_linear (hu : UseOk m pt) (hl : m.Placed pt)
    (hm : Coarse (pt.entry m (l1Index va)) → Mapped m pt va)
    (hnot : ¬ InPool m pt va) (hno : m.NoTable pt va) : m.Agree n pt va := by
  induction n using Nat.strong_induction_on generalizing pt va with
  | _ n ih =>
    refine unmapSmallPageEntry_agree hu.pool hl (bare_of_useOk hu hl hm hno)
      fun pt' r j hc hf hpl hs hheap k hk => ?_
    have hone := hf.unmapped hu (hm hc) hnot
    have hr : r ∈ pt'.refs := by
      rw [hf.refs]
      exact hf.mem
    have h0 := (of_decide_eq_true hs).1
    refine ih k hk (hone.useOk.dropPage hr h0) (hpl.dropPage r) (fun hc' => ?_)
      (hone.useOk.pool.dropped hr) (dropPage_noTable hone.useOk.pool hr (hpl.aligned r hr hheap))
    obtain h1 | ⟨-, h1⟩ := hone.useOk.self r hr hheap
    · exact h1
    · exact absurd hc' h1

/-- what a call finds besides the table: counters that are not about to wrap, pages for the pool that
come in place, and the domain of the kernel for a section with tables -/
structure Ready (m : MmuConfig) (pt : PageTables) (e : CpuPtEntry) : Prop where
  counted : CountersFit 6 pt
  next : ∀ x ∈ pt.reserve, m.NextOk pt x
  domain : m.mmuEnabled = true → ∀ a, m.Held pt a → l1Index a = l1Index e.va → e.dom = 0 ∧ e.ns = 0

/-- **`map_small_page_entry`** with the tables in place, for a page that is not mapped -/
theorem mapSmallPageEntry_placed {reserve : List (L2Ptr × Word)} (hl : m.Placed pt)
    (hs : Supply m pt e.va reserve) (hnew : ¬ Mapped m pt e.va)
    (hr : m.Ready (pt.withReserve reserve) e) :
    m.mapSmallPageEntry (pt.withReserve reserve) e
      = (pt.withReserve reserve).mapSmallPageEntry m e ∧
      ∀ x, (pt.withReserve reserve).mapSmallPageEntry m e = some x → m.Placed x.1 := by
  have hlin : m.Linear (pt.withReserve reserve) :=
    ⟨⟨hl.off, hl.aligned, hl.tables⟩, hr.next, hs.first⟩
  have hapart : m.Apart (pt.withReserve reserve) e := by
    intro he hw a ha
    refine ⟨fun h1 => ?_, hr.domain he a ha⟩
    have hno : ¬ m.InPlace pt a := fun h2 => by
      have h3 := (pageOf_iff.mp h1).1
      obtain hf | hc := hw
      · obtain ⟨x, hx, -⟩ := h2.translate he
        have hf' : Fault (pt.entry m (l1Index a)) := h3 ▸ hf
        rw [translate_fault hf'] at hx
        cases hx
      · exact hnew ((h2.mapped he (h3 ▸ hc)).of_page h1.symm)
    obtain h2 | ⟨x, hx, h2⟩ := ha
    · exact hno (hl.tables a h2)
    · by_cases hstatic : m.isStatic x.1 = true
      · exact hno ((hr.next x hx).static hstatic a h2)
      · have hheap := Bool.eq_false_iff.mpr hstatic
        have h3 := (pageOf_of_aligned ((hr.next x hx).heap hheap).1).mpr h2
        exact (hs.new x hx hheap).2 (h3.symm.trans h1)
  obtain ⟨h1, h2⟩ := mapSmallPageEntry_linear (n := 0) hlin hs.ok hr.counted hapart
  exact ⟨h1, fun x hx => (h2 x hx).linear.toPlaced⟩

end MmuConfig

/-- the calls, with what the allocators have for the pool -/
inductive PageCall where
  | map (e : CpuPtEntry) (reserve : List (L2Ptr × Word))
  | unmap (va : Word)

def pageStep (m : MmuConfig) (pt : PageTables) : PageCall → Option PageTables
  | .map e reserve => (m.mapSmallPageEntry (pt.withReserve reserve) e).map Prod.fst
  | .unmap va => (m.unmapSmallPageEntry pt.refs.length pt va).map Prod.fst

/-- a page is mapped that is not mapped, or one is unmapped that is -/
def PageCallOk (m : MmuConfig) (pt : PageTables) : PageCall → Prop
  | .map e reserve => Supply m pt e.va reserve ∧ ¬ Mapped m pt e.va ∧
      m.Ready (pt.withReserve reserve) e
  | .unmap va => (Coarse (pt.entry m (l1Index va)) → Mapped m pt va) ∧
      ¬ InPool m pt va ∧ m.NoTable pt va

section
variable {c : PageConfig} {m : MmuConfig} {pt pt' : PageTables}

theorem pageStep_useOk {call : PageCall} (hu : UseOk m pt ∧ m.Placed pt)
    (hok : PageCallOk m pt call) (h : pageStep m pt call = some pt') :
    UseOk m pt' ∧ m.Placed pt' := by
  cases call with
  | map e reserve =>
    obtain ⟨x, hx, rfl⟩ := Option.map_eq_some_iff.mp h
    obtain ⟨h1, h2⟩ := MmuConfig.mapSmallPageEntry_placed hu.2 hok.1 hok.2.1 hok.2.2
    rw [h1] at hx
    exact ⟨mapSmallPageEntry_useOk hu.1 hok.1 hok.2.1 hx, h2 x hx⟩
  | unmap va =>
    obtain ⟨x, hx, rfl⟩ := Option.map_eq_some_iff.mp h
    obtain ⟨h1, h2⟩ := MmuConfig.unmapSmallPageEntry_linear (n := pt.refs.length) hu.1 hu.2 hok.1
      hok.2.1 hok.2.2
    rw [h1] at hx
    exact ⟨(unmapSmallPageEntry_unmapped hu.1 hok.1 hok.2.1 hx).useOk, h2 x hx⟩

/-- **The counters of the tables** in a run that maps no page twice and unmaps no page that is not
mapped: every counter is exact, a table is torn down with its last page, and the other pages keep
their translations. -/
theorem pageRun_counts {calls : List PageCall} (hu : UseOk m pt) (hl : m.Placed pt)
    (hok : Along (pageStep m) (PageCallOk m) pt calls)
    (hrun : run (pageStep m) pt calls = some pt') :
    Exact m pt' ∧ ∀ va, PageCallOk m pt' (.unmap va) → ∀ x,
      m.unmapSmallPageEntry pt'.refs.length pt' va = some x →
      (∀ i, ¬ Coarse (x.1.entry m i) ↔
        ∀ a, l1Index a = i → Mapped m pt' a →
          pageOf a = pageOf va ∨ GivenBack m pt' x.1 a) ∧
      ∀ a, pageOf a ≠ pageOf va → ¬ GivenBack m pt' x.1 a →
        x.1.translate m a = pt'.translate m a := by
  obtain ⟨hend, hplaced⟩ := run_invariant (fun pt => UseOk m pt ∧ m.Placed pt)
    (fun _ _ _ h h1 h2 => pageStep_useOk h h1 h2) ⟨hu, hl⟩ hok hrun
  refine ⟨hend.exact, fun va hva x hx => ?_⟩
  rw [(MmuConfig.unmapSmallPageEntry_linear hend hplaced hva.1 hva.2.1 hva.2.2).1] at hx
  have h := unmapSmallPageEntry_unmapped hend hva.1 hva.2.1 hx
  exact ⟨h.gone_iff, h.translate⟩

theorem UseOk.start (hp : PoolOk c pt) (hfree : ∀ i, ¬ Coarse (pt.entry c i)) (hrefs : pt.refs = []) :
    UseOk c pt := by
  refine ⟨hp, fun i hi => absurd hi (hfree i), fun q => ?_, fun q hq => ?_⟩
  · have h1 (l : Fin 4) : pt.count q l = 0 := by
      unfold PageTables.count
      rw [hrefs, if_neg List.not_mem_nil]
    simp only [h1, ne_eq, not_true_eq_false, Finset.filter_false, Finset.card_empty]
    unfold PageTables.used
    rw [hrefs, if_neg List.not_mem_nil]
  · rw [hrefs] at hq
    exact absurd hq List.not_mem_nil

end

theorem sectionTable_useOk : UseOk plainConfig (sectionTable 0) :=
  UseOk.start (sectionTable_ok (by decide)) (sectionTable_plain (by decide)) rfl

/-- the page at `va`, for the kernel -/
def kernelPage (va : Word) : CpuPtEntry := secureEntry plainConfig ptfProtKrw va va

theorem sectionTable_far {w a va : Word} (ha : plainMmu.Held (sectionTable w) a)
    (h : 0x12000 ≤ va.toNat) : pageOf a ≠ pageOf va := by
  have h1 := sectionTable_held ha
  rw [ne_eq, pageOf_eq_iff]
  omega

theorem plain_noPool (pt : PageTables) (va : Word) : ¬ InPool plainConfig pt va :=
  fun ⟨_, _, h, _⟩ => absurd (show true = false from h) (by decide)

theorem plain_notBack (pt pt' : PageTables) (a : Word) : ¬ GivenBack plainConfig pt pt' a :=
  fun ⟨_, _, _, h, _⟩ => absurd (show true = false from h) (by decide)

theorem twoPages : ∃ pt1 pt2,
    (sectionTable 0).mapSmallPageEntry plainConfig (kernelPage 0x100000) = some (pt1, 0) ∧
    pt1.mapSmallPageEntry plainConfig (kernelPage 0x101000) = some (pt2, 0) ∧
    pt1.withReserve [(1, 0x11000)] = pt1 ∧
    Mapped plainConfig pt1 0x100000 ∧ ¬ Mapped plainConfig pt1 0x101000 ∧
    Mapped plainConfig pt2 0x100000 ∧ pt1.translate plainConfig 0x100000 ≠ none ∧
    (∃ x, unmapSmallPageEntry plainConfig pt1.refs.length pt1 0x101000 = some x ∧
      x.1.translate plainConfig 0x100000 = none) ∧
    ∃ x, unmapSmallPageEntry plainConfig pt2.refs.length pt2 0x102000 = some x ∧
      ¬ Exact plainConfig x.1 := by
  refine ⟨_, _, rfl, rfl, rfl, ⟨?_, ?_⟩, fun h => h.2 ?_, ⟨?_, ?_⟩, ?_,
    ⟨_, unmapSmallPageEntry_eq rfl rfl rfl rfl, rfl⟩,
    ⟨_, unmapSmallPageEntry_eq rfl rfl rfl rfl, fun h => ?_⟩⟩
  · show descType _ = _
    decide +kernel
  · show ¬ descType _ = pageDescTypeFault
    decide +kernel
  · show descType _ = pageDescTypeFault
    decide +kernel
  · show descType _ = _
    decide +kernel
  · show ¬ descType _ = pageDescTypeFault
    decide +kernel
  · decide +kernel
  · refine absurd (h 1 rfl) (Nat.ne_of_lt (Finset.one_lt_card.mpr ⟨0, ?_, 1, ?_, by decide⟩))
    · refine mem_pagesOf.mpr ?_
      show ¬ descType _ = pageDescTypeFault
      decide +kernel
    · refine mem_pagesOf.mpr ?_
      show ¬ descType _ = pageDescTypeFault
      decide +kernel

theorem twoPages_run {pt1 pt2 : PageTables}
    (h1 : (sectionTable 0).mapSmallPageEntry plainConfig (kernelPage 0x100000) = some (pt1, 0))
    (h2 : pt1.mapSmallPageEntry plainConfig (kernelPage 0x101000) = some (pt2, 0))
    (hr1 : pt1.withReserve [(1, 0x11000)] = pt1) (hn1 : ¬ Mapped plainConfig pt1 0x101000) :
    plainMmu.Kept 0 (sectionTable 0) pt1 ∧ plainMmu.Kept 0 (sectionTable 0) pt2 ∧
      run (pageStep plainMmu) (sectionTable 0)
        [.map (kernelPage 0x100000) [(0, 0x10000), (1, 0x11000)]] = some pt1 ∧
      run (pageStep plainMmu) (sectionTable 0) [.map (kernelPage 0x100000) [(0, 0x10000), (1, 0x11000)],
        .map (kernelPage 0x101000) [(1, 0x11000)]] = some pt2 ∧
      Along (pageStep plainMmu) (PageCallOk plainMmu) (sectionTable 0)
        [.map (kernelPage 0x100000) [(0, 0x10000), (1, 0x11000)],
          .map (kernelPage 0x101000) [(1, 0x11000)]] := by
  have hstatic : ∀ x : L2Ptr × Word, ¬ plainConfig.isStatic x.1 = false := fun _ h =>
    absurd (show true = false from h) (by decide)
  have hapart {pt : PageTables} (va : Word) (h : 0x12000 ≤ va.toNat)
      (hk : plainMmu.Kept 0 (sectionTable 0) pt) : plainMmu.Apart pt (kernelPage va) :=
    fun _ _ a ha => ⟨sectionTable_far (hk.held ha) h, fun _ => ⟨rfl, rfl⟩⟩
  have hready {pt : PageTables} {va : Word} (hc : CountersFit 6 pt)
      (hk : plainMmu.Kept 0 (sectionTable 0) pt) : plainMmu.Ready pt (kernelPage va) :=
    ⟨hc, hk.linear.next, fun _ _ _ _ => ⟨rfl, rfl⟩⟩
  have hstart {n : Nat} (h : 4 + n < 2 ^ 32) : plainMmu.Kept n (sectionTable 0) (sectionTable 0) :=
    ⟨sectionTable_ok (by decide), sectionTable_linear 0, sectionTable_counted 0 h, List.Subset.refl _⟩
  have h0 := hstart (n := 0) (by decide)
  have h12 := hstart (n := 12) (by decide)
  obtain ⟨e1, hk1⟩ := MmuConfig.mapSmallPageEntry_linear (n := 6) h0.linear h0.ok h12.counted
    (hapart 0x100000 (by decide) h0)
  have hk1 := hk1 _ h1
  have hkept1 : plainMmu.Kept 0 (sectionTable 0) pt1 :=
    ⟨hk1.ok, hk1.linear, hk1.counted.mono (Nat.zero_le 6), hk1.bases⟩
  obtain ⟨e2, hk2⟩ := MmuConfig.mapSmallPageEntry_linear (n := 0) hk1.linear hk1.ok hk1.counted
    (hapart 0x101000 (by decide) hkept1)
  have hstep {pt pt' : PageTables} {e : CpuPtEntry} {reserve : List (L2Ptr × Word)}
      (hr : pt.withReserve reserve = pt) (h : plainMmu.mapSmallPageEntry pt e = some (pt', 0)) :
      pageStep plainMmu pt (.map e reserve) = some pt' := by
    show (plainMmu.mapSmallPageEntry (pt.withReserve reserve) e).map _ = _
    rw [hr, h]
    rfl
  have hr0 : (sectionTable 0).withReserve [(0, 0x10000), (1, 0x11000)] = sectionTable 0 := rfl
  have hstep1 := hstep hr0 (e1.trans h1)
  have hstep2 := hstep hr1 (e2.trans h2)
  have hsupply : Supply plainConfig (sectionTable 0) 0x100000 [(0, 0x10000), (1, 0x11000)] :=
    ⟨h0.ok, fun x _ h => absurd h (hstatic x), fun _ _ _ => rfl⟩
  have hsupply1 : Supply plainConfig pt1 0x101000 [(1, 0x11000)] := by
    refine ⟨?_, fun x _ h => absurd h (hstatic x), fun _ _ _ => rfl⟩
    rw [hr1]
    exact hk1.ok
  have hok1 : PageCallOk plainMmu (sectionTable 0)
      (.map (kernelPage 0x100000) [(0, 0x10000), (1, 0x11000)]) :=
    ⟨hsupply, fun h => sectionTable_plain (by decide) _ h.1, hready (h12.counted.mono (by omega)) h0⟩
  have hok2 : PageCallOk plainMmu pt1 (.map (kernelPage 0x101000) [(1, 0x11000)]) := by
    refine ⟨hsupply1, hn1, ?_⟩
    rw [hr1]
    exact hready hk1.counted hkept1
  refine ⟨hkept1, hkept1.trans (hk2 _ h2), ?_, ?_, along_of_step hok1 hstep1 (along_singleton hok2)⟩
  · rw [run_cons, hstep1]
    rfl
  · rw [run_cons, hstep1, Option.bind_some, run_cons, hstep2]
    rfl

theorem unmap_apart {pt : PageTables} (hk : plainMmu.Kept 0 (sectionTable 0) pt) {va : Word}
    (hva : 0x100000 ≤ va.toNat) (n : Nat) :
    plainMmu.unmapSmallPageEntry n pt va = unmapSmallPageEntry plainConfig n pt va := by
  refine (MmuConfig.unmapSmallPageEntry_agree hk.ok hk.linear.toPlaced (fun _ _ a ha => ?_)
    fun _ _ _ _ _ _ _ h => absurd (show true = false from h) (by decide)).1
  have h1 := sectionTable_held (hk.held (Or.inl ha))
  refine ⟨sectionTable_far (hk.held (Or.inl ha)) (by omega), fun h2 => ?_⟩
  have h3 := congrArg BitVec.toNat h2
  unfold l1Index at h3
  rw [extract_toNat, extract_toNat] at h3
  omega

theorem pageRun_counts_once : ∃ pt', run (pageStep plainMmu) (sectionTable 0)
    [.map (kernelPage 0x100000) [(0, 0x10000), (1, 0x11000)],
      .map (kernelPage 0x101000) [(1, 0x11000)], .unmap 0x100000] = some pt' ∧
    Exact plainConfig pt' := by
  obtain ⟨pt1, pt2, h1, h2, hr1, -, hn1, hm2, -⟩ := twoPages
  obtain ⟨-, hk, -, hrun, hok⟩ := twoPages_run h1 h2 hr1 hn1
  obtain ⟨x, hx⟩ := unmapSmallPageEntry_returns (c := plainConfig) (le_refl pt2.refs.length) 0x100000
  have hlast : PageCallOk plainMmu pt2 (.unmap 0x100000) :=
    ⟨fun _ => hm2, plain_noPool pt2 _,
      fun _ _ a ha => sectionTable_far (hk.held (Or.inl ha)) (by decide)⟩
  have hstep : pageStep plainMmu pt2 (.unmap 0x100000) = some x.1 :=
    congrArg (Option.map Prod.fst) ((unmap_apart hk (by decide) _).trans hx)
  have hrun3 : run (pageStep plainMmu) (sectionTable 0)
      ([.map (kernelPage 0x100000) [(0, 0x10000), (1, 0x11000)],
        .map (kernelPage 0x101000) [(1, 0x11000)]] ++ [.unmap 0x100000]) = some x.1 := by
    rw [run_append, hrun, Option.bind_some, run_cons, hstep]
    rfl
  exact ⟨x.1, hrun3, (pageRun_counts sectionTable_useOk (sectionTable_linear 0).toPlaced
    (along_append hok hrun (along_singleton hlast)) hrun3).1⟩

/-- one page is mapped and another one in its section is unmapped: the first one has no translation
any more; with two pages that are mapped, the counter is 1 then -/
theorem absent_page_counted : UseOk plainConfig (sectionTable 0) ∧ plainMmu.Placed (sectionTable 0) ∧
    (∃ pt' x, run (pageStep plainMmu) (sectionTable 0)
      [.map (kernelPage 0x100000) [(0, 0x10000), (1, 0x11000)]] = some pt' ∧
      pt'.translate plainConfig 0x100000 ≠ none ∧
      plainMmu.unmapSmallPageEntry pt'.refs.length pt' 0x101000 = some x ∧
      ¬ GivenBack plainConfig pt' x.1 0x100000 ∧ x.1.translate plainConfig 0x100000 = none) ∧
    ∃ pt' x, run (pageStep plainMmu) (sectionTable 0)
      [.map (kernelPage 0x100000) [(0, 0x10000), (1, 0x11000)],
        .map (kernelPage 0x101000) [(1, 0x11000)]] = some pt' ∧
      plainMmu.unmapSmallPageEntry pt'.refs.length pt' 0x102000 = some x ∧
      ¬ Exact plainConfig x.1 := by
  obtain ⟨pt1, pt2, h1, h2, hr1, -, hn1, -, ht, ⟨x, hx, hgone⟩, y, hy, hexact⟩ := twoPages
  obtain ⟨hk1, hk2, hrun1, hrun2, -⟩ := twoPages_run h1 h2 hr1 hn1
  refine ⟨sectionTable_useOk, (sectionTable_linear 0).toPlaced, ⟨pt1, x, hrun1, ht, ?_,
    plain_notBack pt1 x.1 _, hgone⟩, pt2, y, hrun2, ?_, hexact⟩
  · exact (unmap_apart hk1 (by decide) _).trans hx
  · exact (unmap_apart hk2 (by decide) _).trans hy

end SierraTee
