import SierraTee.Paging.Books

/-!
# Unmapping a page

* `Freed.sect`                 a freed page in the abstract table;
* `unmapSmallPageEntry_cases`  the function, up to the pages that the pool gives back.
-/

namespace SierraTee
open Function FlatMemory

section
variable {c : PageConfig} {pt pt' : PageTables} {r : L2Ptr} {j : Fin 4} {i : BitVec 12}
  {k : BitVec 8} {n : Nat} {w : Word}

/-- entry `k` of the table `j` of `r`, which belongs to the entry `i`, is cleared -/
structure Freed (c : PageConfig) (i : BitVec 12) (k : BitVec 8) (pt pt' : PageTables) (r : L2Ptr)
    (j : Fin 4) : Prop where
  ok : PoolOk c pt'
  elsewhere : Elsewhere c i pt pt'
  mem : r ∈ pt.refs
  table : tableOf c (pt.entry c i) = pt.slotBase r j
  refs : pt'.refs = pt.refs
  pageBase : pt'.pageBase = pt.pageBase
  allocated : pt'.blkAllocated = pt.blkAllocated
  count : ∀ q l, pt'.count q l = if q = r ∧ l = j then pt.count r j - 1 else pt.count q l
  used : ∀ q, pt'.used q = if q = r ∧ pt.count r j = 1 then uintSub (pt.used r) 1 else pt.used q
  usedAll : pt'.blkUsedAll = if pt.count r j = 1 then uintSub pt.blkUsedAll 1 else pt.blkUsedAll
  last : pt.count r j = 1 → pt'.entry c i = 0
  more : pt.count r j ≠ 1 → pt'.entry c i = pt.entry c i ∧
    ∀ l, pt'.l2At c i l = if l = k then 0 else pt.l2At c i l

theorem PoolOk.freeTable (hp : PoolOk c pt)
    (hfree : ∀ i, Coarse (pt.entry c i) → tableOf c (pt.entry c i) ≠ pt.slotBase r j)
    (bu : L2Ptr → Nat) (ba : Nat) :
    PoolOk c { pt.setPage r j 0 with blkUsed := bu, blkUsedAll := ba } := by
  refine ⟨{ hp with }, fun i hi q hq l h => ?_⟩
  show (pt.setPage r j 0).page q l ≠ 0
  rw [setPage_page, if_neg fun h1 => hfree i hi ?_]
  · exact hp.counted i hi q hq l h
  · rw [← h1.1, ← h1.2]
    exact h

theorem used_update (h : r ∈ pt.refs) (x : Nat) (q : L2Ptr) :
    (if q ∈ pt.refs then update pt.blkUsed r x q else 0)
      = if q = r then x else pt.used q := by
  by_cases h1 : q = r
  · rw [h1, if_pos h, if_pos rfl, update_self]
  · rw [update_of_ne h1, if_neg h1]
    rfl

theorem setPage_self (pt : PageTables) (r : L2Ptr) (j : Fin 4) :
    pt.setPage r j (pt.page r j) = pt := by
  unfold PageTables.setPage
  rw [update_eq_self, update_eq_self]

theorem releaseTable_last (h : uintSub (pt.page r j) 1 = 0) (c : PageConfig) (i : BitVec 12) :
    pt.releaseTable c i r j = { (pt.setEntry c i 0).setPage r j 0 with
      blkUsed := update pt.blkUsed r (uintSub (pt.blkUsed r) 1)
      blkUsedAll := uintSub pt.blkUsedAll 1 } := by
  unfold PageTables.releaseTable
  simp only
  rw [if_pos, h]
  · rfl
  · rw [setPage_page, if_pos ⟨rfl, rfl⟩, h]

theorem releaseTable_more (h : uintSub (pt.page r j) 1 ≠ 0) (c : PageConfig) (i : BitVec 12) :
    pt.releaseTable c i r j = pt.setPage r j (uintSub (pt.page r j) 1) := by
  unfold PageTables.releaseTable
  simp only
  rw [if_neg]
  rw [setPage_page, if_pos ⟨rfl, rfl⟩]
  exact h

theorem Freed.of_release (hp : PoolOk c pt) (hi : Coarse (pt.entry c i)) (hr : r ∈ pt.refs)
    (ht : tableOf c (pt.entry c i) = pt.slotBase r j) (k : BitVec 8) :
    Freed c i k pt ((pt.store (nth (pt.slotBase r j) k.toNat) 0).releaseTable c i r j) r j := by
  have hpos := hp.counted i hi r hr j ht
  have hcount : pt.count r j = pt.page r j := count_of_mem hr j
  have hsub : uintSub (pt.page r j) 1 = pt.page r j - 1 := if_pos (by omega)
  have hpage : (pt.store (nth (pt.slotBase r j) k.toNat) 0).page r j = pt.page r j := rfl
  have hothers (i' : BitVec 12) (_ : i' ≠ i) (hi' : Coarse (pt.entry c i')) (q : L2Ptr)
      (hq : q ∈ pt.refs) (l : Fin 4) (h : tableOf c (pt.entry c i') = pt.slotBase q l) :
      pt.page q l ≠ 0 := hp.counted i' hi' q hq l h
  by_cases h1 : pt.page r j = 1
  · have hst := Stored.of_setPage hpos hp.toTablesOk hi hr ht hothers k 0
    rw [setPage_self] at hst
    obtain ⟨hok, helse⟩ := hst.ok.setPlain (w := 0) i (by decide)
    have hent (i' : BitVec 12) := setEntry_entry' hp.config
      (pt.store (nth (pt.slotBase r j) k.toNat) 0) i 0 i'
    have hnone (i' : BitVec 12) (hi' : Coarse (((pt.store (nth (pt.slotBase r j) k.toNat) 0).setEntry
        c i 0).entry c i')) : i' ≠ i ∧ Coarse (pt.entry c i') := by
      rw [hent] at hi'
      split_ifs at hi' with h2
      · exact absurd hi' (by decide)
      · rw [hst.entry] at hi'
        exact ⟨h2, hi'⟩
    have hfree := hok.freeTable (r := r) (j := j) (fun i' hi' h2 => ?_)
      (update pt.blkUsed r (uintSub (pt.blkUsed r) 1)) (uintSub pt.blkUsedAll 1)
    · rw [releaseTable_last (by rw [hpage, h1]; rfl)]
      refine ⟨hfree, ⟨fun i' hne => ?_, fun i' hne hi' l => ?_⟩, hr, ht, rfl, rfl, rfl, fun q l => ?_,
        fun q => ?_, ?_, fun _ => ?_, fun h => absurd (hcount.trans h1) h⟩
      · exact (helse.entry i' hne).trans (hst.entry i')
      · have h2 := hst.l2At i' hi' l
        rw [if_neg fun h => hne h.1] at h2
        refine (helse.l2At i' hne ?_ l).trans h2
        rw [hst.entry]
        exact hi'
      · refine (count_setPage (show r ∈ ((pt.store (nth (pt.slotBase r j) k.toNat) 0).setEntry
          c i 0).refs from hr) 0 q l).trans ?_
        rw [hcount, h1]
        rfl
      · rw [hcount, used_of_mem hr]
        simp only [and_iff_left h1]
        exact used_update hr _ q
      · rw [hcount, if_pos h1]
        rfl
      · exact (hent i).trans (if_pos rfl)
    · obtain ⟨hne, hi2⟩ := hnone i' hi'
      rw [hent, if_neg hne, hst.entry] at h2
      exact hne (hp.own i' i hi2 hi (h2.trans ht.symm))
  · have h2 : pt.page r j - 1 ≠ 0 := by omega
    have hst := Stored.of_setPage h2 hp.toTablesOk hi hr ht hothers k 0
    rw [releaseTable_more (by rw [hpage, hsub]; exact h2), hpage, hsub]
    refine ⟨hst.ok, ⟨fun i' _ => hst.entry i', fun i' hne hi' l => ?_⟩, hr, ht, rfl, rfl, rfl,
      fun q l => ?_, fun q => ?_, ?_, fun h => absurd (hcount.symm.trans h) h1,
      fun _ => ⟨hst.entry i, fun l => ?_⟩⟩
    · have h3 := hst.l2At i' hi' l
      rw [if_neg fun h => hne h.1] at h3
      exact h3
    · refine (count_setPage (show r ∈ (pt.store (nth (pt.slotBase r j) k.toNat) 0).refs from hr)
        _ q l).trans ?_
      rw [hcount]
      rfl
    · rw [hcount, if_neg fun h => h1 h.2]
      rfl
    · rw [hcount, if_neg h1]
      rfl
    · have h3 := hst.l2At i hi l
      simp only [true_and] at h3
      exact h3

theorem Freed.uses (h : Freed c i k pt pt' r j) (hp : PoolOk c pt) (hi : Coarse (pt.entry c i))
    {i' : BitVec 12} (hne : i' ≠ i) (hi' : Coarse (pt.entry c i')) :
    pt'.uses c i' = pt.uses c i' := by
  obtain ⟨q, hq, l, h1⟩ := hp.table i' hi'
  have h2 : tableOf c (pt'.entry c i') = pt'.slotBase q l := by
    unfold PageTables.slotBase
    rw [h.elsewhere.entry i' hne, h.pageBase]
    exact h1
  have hq' : q ∈ pt'.refs := by
    rw [h.refs]
    exact hq
  rw [hp.uses hq h1, h.ok.uses hq' h2, h.count, if_neg fun h3 => hne ?_]
  refine hp.own i' i hi' hi ?_
  rw [h1, h.table, h3.1, h3.2]

theorem Freed.sect (h : Freed c i k pt pt' r j) (hp : PoolOk c pt) (hi : Coarse (pt.entry c i)) :
    pt'.sect c = update (pt.sect c) i ((pt.sect c i).unmapPage k) := by
  funext i'
  by_cases h1 : i' = i
  · have huses := hp.uses h.mem h.table
    rw [h1, update_self, sect_coarse hi, huses]
    show _ = if pt.count r j = 1 then Sect.plain 0 else _
    by_cases h2 : pt.count r j = 1
    · have h3 := h.last h2
      have h4 : ¬ Coarse (pt'.entry c i) := by
        rw [h3]
        decide
      rw [if_pos h2, sect_plain h4, h3]
    · obtain ⟨h3, h4⟩ := h.more h2
      have h5 : Coarse (pt'.entry c i) := by
        rw [h3]
        exact hi
      have h6 : tableOf c (pt'.entry c i) = pt'.slotBase r j := by
        unfold PageTables.slotBase
        rw [h3, h.pageBase]
        exact h.table
      have h7 : r ∈ pt'.refs := by
        rw [h.refs]
        exact h.mem
      have h8 := h.count r j
      rw [if_pos ⟨rfl, rfl⟩] at h8
      rw [if_neg h2, sect_coarse h5, h.ok.uses h7 h6, h3, h8]
      congr 1
      funext l
      rw [h4, update_apply]
  · rw [update_of_ne h1]
    unfold PageTables.sect
    rw [h.elsewhere.entry i' h1]
    split_ifs with hc
    · rw [h.uses hp hi h1 hc]
      congr 1
      funext l
      exact h.elsewhere.l2At i' h1 hc l
    · rfl

theorem unmapSmallPageEntry_cases (hp : PoolOk c pt) {va : Word} {x : PageTables × Int}
    (h : PageTables.unmapSmallPageEntry c n pt va = some x) :
    (¬ Coarse (pt.entry c (l1Index va)) ∧ x.1 = pt) ∨
    (Coarse (pt.entry c (l1Index va)) ∧ ∃ r j pt',
      Freed c (l1Index va) (l2Index va) pt pt' r j ∧ (x.1 = pt' ∨ pt'.shrinks r = true ∧
        (c.isStatic r = true ∧ x.1 = pt'.dropPage r ∨ c.isStatic r = false ∧ ∃ m y, n = m + 1 ∧
          PageTables.unmapSmallPageEntry c m (pt'.dropPage r) (pt'.pageBase r) = some y ∧ x.1 = y.1))) := by
  by_cases hi : Coarse (pt.entry c (l1Index va))
  · refine Or.inr ⟨hi, ?_⟩
    obtain ⟨r, hr, j, ht⟩ := hp.table _ hi
    refine ⟨r, j, _, Freed.of_release hp hi hr ht (l2Index va), ?_⟩
    have hfind : (pt.store (nth (pt.slotBase r j) (l2Index va).toNat) 0).findRef (pt.slotBase r j)
        = some (r, j) := hp.findRef hr j
    unfold PageTables.unmapSmallPageEntry at h
    simp only [if_pos (show descType (pt.entry c (l1Index va)) = pageDescTypeCoarse from hi), ht,
      hfind] at h
    split_ifs at h with hs hstatic
    · cases h
      exact Or.inr ⟨hs, Or.inl ⟨hstatic, rfl⟩⟩
    · refine Or.inr ⟨hs, Or.inr ⟨Bool.eq_false_iff.mpr hstatic, ?_⟩⟩
      cases n with
      | zero => cases h
      | succ m =>
        obtain ⟨y, hy, rfl⟩ := Option.map_eq_some_iff.mp h
        exact ⟨m, y, rfl, hy, rfl⟩
    · cases h
      exact Or.inl rfl
  · left
    unfold PageTables.unmapSmallPageEntry at h
    simp only [if_neg (show ¬ descType (pt.entry c (l1Index va)) = pageDescTypeCoarse from hi)] at h
    cases h
    exact ⟨hi, rfl⟩

end

end SierraTee
