import SierraTee.Paging.Unmap

/-!
# What the pool owes

The books of the pool behind some operations, against those at their start.

* `Ledger.same`, `Ledger.take`, `Ledger.release`   one operation more.
-/

namespace SierraTee
open FlatMemory

/-- the entries that have a table in `pt'`, and had none in `pt` -/
def freshSet (c : PageConfig) (pt pt' : PageTables) : Finset (BitVec 12) :=
  Finset.univ.filter fun i => ¬ Coarse (pt.entry c i) ∧ Coarse (pt'.entry c i)

def TableIn (c : PageConfig) (pt : PageTables) (q : L2Ptr) (i : BitVec 12) : Prop :=
  q ∈ pt.refs ∧ ∃ l : Fin 4, tableOf c (pt.entry c i) = pt.slotBase q l

instance (c : PageConfig) (pt : PageTables) (q : L2Ptr) : DecidablePred (TableIn c pt q) :=
  fun _ => inferInstanceAs (Decidable (_ ∧ ∃ _ : Fin 4, _))

/-- the books of `pt'` are those of `pt`, with the fresh tables; these are for entries of `s` -/
structure Ledger (c : PageConfig) (s : Finset (BitVec 12)) (pt pt' : PageTables) : Prop where
  refs : ∀ q ∈ pt.refs, q ∈ pt'.refs ∧ pt'.pageBase q = pt.pageBase q
  noMore : pt.refs ≠ [] → pt'.refs = pt.refs
  allocated : pt'.blkAllocated = pt.blkAllocated
  old : ∀ i, Coarse (pt.entry c i) →
    Coarse (pt'.entry c i) ∧ tableOf c (pt'.entry c i) = tableOf c (pt.entry c i)
  fresh : freshSet c pt pt' ⊆ s
  count : ∀ q l, pt'.count q l ≠ 0 → pt.count q l ≠ 0 ∨
    ∃ i ∈ freshSet c pt pt', tableOf c (pt'.entry c i) = pt'.slotBase q l
  used : ∀ q, pt'.used q = pt.used q + ((freshSet c pt pt').filter (TableIn c pt' q)).card
  usedAll : pt'.blkUsedAll = pt.blkUsedAll + (freshSet c pt pt').card

section
variable {c : PageConfig} {s : Finset (BitVec 12)} {pt pt1 pt2 : PageTables} {r q : L2Ptr}
  {j : Fin 4} {i : BitVec 12} {k : BitVec 8}

theorem mem_freshSet : i ∈ freshSet c pt pt1 ↔ ¬ Coarse (pt.entry c i) ∧ Coarse (pt1.entry c i) := by
  unfold freshSet
  rw [Finset.mem_filter]
  exact and_iff_right (Finset.mem_univ i)

theorem Ledger.refl (c : PageConfig) (s : Finset (BitVec 12)) (pt : PageTables) :
    Ledger c s pt pt := by
  have h : freshSet c pt pt = ∅ := by
    refine Finset.eq_empty_of_forall_notMem fun i hi => ?_
    obtain ⟨h1, h2⟩ := mem_freshSet.mp hi
    exact h1 h2
  refine ⟨fun q hq => ⟨hq, rfl⟩, fun _ => rfl, rfl, fun i hi => ⟨hi, rfl⟩, ?_,
    fun q l h => Or.inl h, fun q => ?_, ?_⟩
  · rw [h]
    exact Finset.empty_subset s
  · rw [h, Finset.filter_empty, Finset.card_empty, Nat.add_zero]
  · rw [h, Finset.card_empty, Nat.add_zero]

theorem tableIn_iff (hp1 : TablesOk c pt1) (hp2 : TablesOk c pt2)
    (hrefs : ∀ q ∈ pt1.refs, q ∈ pt2.refs ∧ pt2.pageBase q = pt1.pageBase q)
    (hi : Coarse (pt1.entry c i)) (ht : tableOf c (pt2.entry c i) = tableOf c (pt1.entry c i)) :
    TableIn c pt2 q i ↔ TableIn c pt1 q i := by
  have hslot {q : L2Ptr} (hq : q ∈ pt1.refs) (l : Fin 4) : pt2.slotBase q l = pt1.slotBase q l := by
    unfold PageTables.slotBase
    rw [(hrefs q hq).2]
  refine ⟨fun h => ?_, fun h => ?_⟩
  · obtain ⟨hq, l, h1⟩ := h
    obtain ⟨q', hq', l', h2⟩ := hp1.table i hi
    rw [ht, h2, ← hslot hq'] at h1
    obtain ⟨h3, h4⟩ := hp2.slot_inj (hrefs q' hq').1 hq h1
    rw [← h3]
    exact ⟨hq', l', h2⟩
  · obtain ⟨hq, l, h1⟩ := h
    exact ⟨(hrefs q hq).1, l, by rw [ht, h1, hslot hq]⟩

theorem Ledger.noMore_trans (h : Ledger c s pt pt1) (hmore : pt1.refs ≠ [] → pt2.refs = pt1.refs)
    (h1 : pt.refs ≠ []) : pt2.refs = pt.refs := by
  have h2 := h.noMore h1
  rw [hmore (by rw [h2]; exact h1), h2]

theorem Ledger.same (h : Ledger c s pt pt1) (hp1 : TablesOk c pt1) (hp2 : TablesOk c pt2)
    (hrefs : ∀ q ∈ pt1.refs, q ∈ pt2.refs ∧ pt2.pageBase q = pt1.pageBase q)
    (hmore : pt1.refs ≠ [] → pt2.refs = pt1.refs) (hall : pt2.blkAllocated = pt1.blkAllocated)
    (hcoarse : ∀ i, Coarse (pt2.entry c i) ↔ Coarse (pt1.entry c i))
    (htable : ∀ i, Coarse (pt1.entry c i) → tableOf c (pt2.entry c i) = tableOf c (pt1.entry c i))
    (hcount : ∀ q l, pt2.count q l ≠ 0 → pt1.count q l ≠ 0)
    (hused : ∀ q, pt2.used q = pt1.used q) (husedAll : pt2.blkUsedAll = pt1.blkUsedAll) :
    Ledger c s pt pt2 := by
  have hfresh : freshSet c pt pt2 = freshSet c pt pt1 := by
    ext i
    rw [mem_freshSet, mem_freshSet, hcoarse]
  refine ⟨fun q hq => ?_, h.noMore_trans hmore, hall.trans h.allocated, fun i hi => ?_, ?_,
    fun q l hq => ?_, fun q => ?_, ?_⟩
  · obtain ⟨h1, h2⟩ := h.refs q hq
    exact ⟨(hrefs q h1).1, (hrefs q h1).2.trans h2⟩
  · obtain ⟨h1, h2⟩ := h.old i hi
    exact ⟨(hcoarse i).mpr h1, (htable i h1).trans h2⟩
  · rw [hfresh]
    exact h.fresh
  · have h1 := hcount q l hq
    rw [hfresh]
    refine (h.count q l h1).imp_right fun ⟨i, hi, h2⟩ => ⟨i, hi, ?_⟩
    rw [htable i (mem_freshSet.mp hi).2, h2]
    unfold PageTables.slotBase
    rw [(hrefs q (count_mem h1)).2]
  · have hold : (freshSet c pt pt1).filter (TableIn c pt2 q)
        = (freshSet c pt pt1).filter (TableIn c pt1 q) := by
      refine Finset.filter_congr fun i hi => ?_
      have h1 := (mem_freshSet.mp hi).2
      exact tableIn_iff hp1 hp2 hrefs h1 (htable i h1)
    rw [hfresh, hold, hused, h.used]
  · rw [hfresh, husedAll, h.usedAll]

theorem Ledger.take (h : Ledger c s pt pt1) (hp1 : TablesOk c pt1) (hp2 : TablesOk c pt2)
    (hb : Booked c i pt1 pt2 r j) (hnew : ¬ Coarse (pt1.entry c i)) (hi : Coarse (pt2.entry c i))
    (helse : Elsewhere c i pt1 pt2) (hs : i ∈ s) : Ledger c s pt pt2 := by
  have hpt : ¬ Coarse (pt.entry c i) := fun h1 => hnew (h.old i h1).1
  have hnot : i ∉ freshSet c pt pt1 := fun h1 => hnew (mem_freshSet.mp h1).2
  have hfresh : freshSet c pt pt2 = insert i (freshSet c pt pt1) := by
    ext i'
    rw [mem_freshSet, Finset.mem_insert, mem_freshSet]
    by_cases h1 : i' = i
    · rw [h1]
      exact ⟨fun _ => Or.inl rfl, fun _ => ⟨hpt, hi⟩⟩
    · rw [helse.entry i' h1]
      exact ⟨Or.inr, fun h2 => h2.resolve_left h1⟩
  have htable (i' : BitVec 12) (h1 : i' ∈ freshSet c pt pt1) :
      Coarse (pt1.entry c i') ∧ tableOf c (pt2.entry c i') = tableOf c (pt1.entry c i') := by
    have h2 := (mem_freshSet.mp h1).2
    refine ⟨h2, ?_⟩
    rw [helse.entry i' fun h3 => hnew (h3 ▸ h2)]
  refine ⟨fun q hq => ?_, h.noMore_trans hb.noMore, hb.allocated.trans h.allocated,
    fun i' h1 => ?_, ?_, fun q l h1 => ?_,
    fun q => ?_, ?_⟩
  · obtain ⟨h1, h2⟩ := h.refs q hq
    exact ⟨(hb.refs q h1).1, (hb.refs q h1).2.trans h2⟩
  · obtain ⟨h2, h3⟩ := h.old i' h1
    have h4 : i' ≠ i := fun h4 => hnew (h4 ▸ h2)
    rw [helse.entry i' h4]
    exact ⟨h2, h3⟩
  · rw [hfresh]
    exact Finset.insert_subset hs h.fresh
  · rw [hfresh]
    by_cases h2 : q = r ∧ l = j
    · right
      refine ⟨i, Finset.mem_insert_self .., ?_⟩
      rw [h2.1, h2.2]
      exact hb.table
    · rw [hb.count, if_neg h2] at h1
      refine (h.count q l h1).imp_right fun ⟨i', hi', h3⟩ => ?_
      refine ⟨i', Finset.mem_insert_of_mem hi', ?_⟩
      rw [(htable i' hi').2, h3]
      unfold PageTables.slotBase
      rw [(hb.refs q (count_mem h1)).2]
  · have hold : (freshSet c pt pt1).filter (TableIn c pt2 q)
        = (freshSet c pt pt1).filter (TableIn c pt1 q) := by
      refine Finset.filter_congr fun i' hi' => ?_
      obtain ⟨h1, h2⟩ := htable i' hi'
      exact tableIn_iff hp1 hp2 hb.refs h1 h2
    have hmine : TableIn c pt2 q i ↔ q = r := by
      refine ⟨fun h1 => ?_, fun h1 => ?_⟩
      · obtain ⟨h2, l, h3⟩ := h1
        exact (hp2.slot_inj h2 hb.mem (h3.symm.trans hb.table)).1
      · rw [h1]
        exact ⟨hb.mem, j, hb.table⟩
    rw [hfresh, Finset.filter_insert, hold, hb.used, h.used]
    by_cases h1 : q = r
    · rw [if_pos ⟨h1, hnew⟩, if_pos (hmine.mpr h1), Finset.card_insert_of_notMem fun h2 =>
        hnot (Finset.mem_filter.mp h2).1]
      omega
    · rw [if_neg fun h2 => h1 h2.1, if_neg (mt hmine.mp h1)]
      omega
  · rw [hfresh, Finset.card_insert_of_notMem hnot, hb.usedAll, if_neg hnew, h.usedAll]
    omega

theorem Ledger.release (h : Ledger c s pt pt1) (hp1 : TablesOk c pt1)
    (hf : Freed c i k pt1 pt2 r j) (hlast : pt1.count r j = 1) (hi : Coarse (pt1.entry c i))
    (hpt : ¬ Coarse (pt.entry c i)) : Ledger c s pt pt2 := by
  have hin : i ∈ freshSet c pt pt1 := mem_freshSet.mpr ⟨hpt, hi⟩
  have hgone : ¬ Coarse (pt2.entry c i) := by
    rw [hf.last hlast]
    decide
  have hslot (q : L2Ptr) (l : Fin 4) : pt2.slotBase q l = pt1.slotBase q l := by
    unfold PageTables.slotBase
    rw [hf.pageBase]
  have hfresh : freshSet c pt pt2 = (freshSet c pt pt1).erase i := by
    ext i'
    rw [mem_freshSet, Finset.mem_erase, mem_freshSet]
    by_cases h1 : i' = i
    · rw [h1]
      exact ⟨fun h2 => absurd h2.2 hgone, fun h2 => absurd rfl h2.1⟩
    · rw [hf.elsewhere.entry i' h1]
      exact ⟨fun h2 => ⟨h1, h2⟩, fun h2 => h2.2⟩
  refine ⟨fun q hq => ?_, h.noMore_trans fun _ => hf.refs, hf.allocated.trans h.allocated,
    fun i' h1 => ?_, ?_, fun q l h1 => ?_,
    fun q => ?_, ?_⟩
  · rw [hf.refs, hf.pageBase]
    exact h.refs q hq
  · have h2 : i' ≠ i := fun h2 => hpt (h2 ▸ h1)
    rw [hf.elsewhere.entry i' h2]
    exact h.old i' h1
  · rw [hfresh]
    exact (Finset.erase_subset ..).trans h.fresh
  · rw [hf.count] at h1
    by_cases h2 : q = r ∧ l = j
    · rw [if_pos h2, hlast] at h1
      exact absurd rfl h1
    · rw [if_neg h2] at h1
      refine (h.count q l h1).imp_right fun ⟨i', hi', h3⟩ => ?_
      have h4 : i' ≠ i := fun h4 => by
        rw [h4, hf.table] at h3
        obtain ⟨h5, h6⟩ := hp1.slot_inj hf.mem (count_mem h1) h3
        exact h2 ⟨h5.symm, h6.symm⟩
      refine ⟨i', ?_, ?_⟩
      · rw [hfresh]
        exact Finset.mem_erase.mpr ⟨h4, hi'⟩
      · rw [hf.elsewhere.entry i' h4, hslot]
        exact h3
  · have hold : ((freshSet c pt pt1).erase i).filter (TableIn c pt2 q)
        = ((freshSet c pt pt1).filter (TableIn c pt1 q)).erase i := by
      rw [← Finset.filter_erase]
      refine Finset.filter_congr fun i' hi' => ?_
      unfold TableIn
      rw [hf.refs, hf.elsewhere.entry i' (Finset.mem_erase.mp hi').1]
      simp only [hslot]
    have hmine : TableIn c pt1 q i ↔ q = r := by
      refine ⟨fun h1 => ?_, fun h1 => ?_⟩
      · obtain ⟨h2, l, h3⟩ := h1
        exact (hp1.slot_inj h2 hf.mem (h3.symm.trans hf.table)).1
      · rw [h1]
        exact ⟨hf.mem, j, hf.table⟩
    rw [hfresh, hold, hf.used]
    by_cases h1 : q = r
    · have h2 : i ∈ (freshSet c pt pt1).filter (TableIn c pt1 q) :=
        Finset.mem_filter.mpr ⟨hin, hmine.mpr h1⟩
      have h3 := Finset.card_pos.mpr ⟨i, h2⟩
      have h4 := h.used q
      rw [if_pos ⟨h1, hlast⟩, Finset.card_erase_of_mem h2, ← h1, h4]
      unfold uintSub
      rw [if_pos (by omega)]
      omega
    · rw [if_neg fun h2 => h1 h2.1, h.used, Finset.erase_eq_of_notMem]
      exact fun h2 => h1 (hmine.mp (Finset.mem_filter.mp h2).2)
  · have h1 := Finset.card_pos.mpr ⟨i, hin⟩
    rw [hfresh, hf.usedAll, if_pos hlast, Finset.card_erase_of_mem hin, h.usedAll]
    unfold uintSub
    rw [if_pos (by omega)]
    omega

end

end SierraTee
