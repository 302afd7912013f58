import SierraTee.Paging.Sections

/-!
# The books of the pool

* `mapSmallPage_booked`  a small page in the counters of the pool;
* `mapSmallPage_sect`    and in the abstract table.
-/

namespace SierraTee
open Function FlatMemory

namespace PageTables
variable (pt : PageTables)

def count (r : L2Ptr) (j : Fin 4) : Nat := if r ∈ pt.refs then pt.page r j else 0

def used (r : L2Ptr) : Nat := if r ∈ pt.refs then pt.blkUsed r else 0

end PageTables

section
variable {c : PageConfig} {pt pt' : PageTables} {e : CpuPtEntry} {r r' : L2Ptr} {j j' : Fin 4}
  {i : BitVec 12} {n : Nat} {w : Word}

theorem count_of_mem (h : r ∈ pt.refs) (j : Fin 4) : pt.count r j = pt.page r j := if_pos h

theorem used_of_mem (h : r ∈ pt.refs) : pt.used r = pt.blkUsed r := if_pos h

theorem count_mem (h : pt.count r j ≠ 0) : r ∈ pt.refs := by
  by_contra h1
  exact h (if_neg h1)

theorem count_setPage (h : r ∈ pt.refs) (n : Nat) (r' : L2Ptr) (j' : Fin 4) :
    (pt.setPage r j n).count r' j' = if r' = r ∧ j' = j then n else pt.count r' j' := by
  show (if r' ∈ pt.refs then (pt.setPage r j n).page r' j' else 0) = _
  rw [setPage_page]
  by_cases h1 : r' = r ∧ j' = j
  · rw [if_pos h1, if_pos h1, h1.1, if_pos h]
  · rw [if_neg h1, if_neg h1]
    rfl

theorem used_takeTable (h : r ∈ pt.refs) (r' : L2Ptr) :
    (pt.takeTable r).used r' = pt.used r' + if r' = r then 1 else 0 := by
  show (if r' ∈ pt.refs then update pt.blkUsed r (pt.blkUsed r + 1) r' else 0) = _
  by_cases h1 : r' = r
  · rw [h1, if_pos h, if_pos rfl, update_self, used_of_mem h]
  · rw [update_of_ne h1, if_neg h1]
    rfl

theorem count_addPage (h : r ∉ pt.refs) (b : Word) (r' : L2Ptr) (j' : Fin 4) :
    (pt.addPage r b).count r' j' = pt.count r' j' := by
  show (if r' ∈ pt.refs ++ [r] then update pt.page r (fun _ => 0) r' j' else 0) = _
  by_cases h1 : r' = r
  · rw [h1, update_self, ite_self]
    exact (if_neg h).symm
  · rw [update_of_ne h1]
    simp only [List.mem_append, List.mem_singleton, h1, or_false]
    rfl

theorem used_addPage (h : r ∉ pt.refs) (b : Word) (r' : L2Ptr) :
    (pt.addPage r b).used r' = pt.used r' := by
  show (if r' ∈ pt.refs ++ [r] then update pt.blkUsed r 0 r' else 0) = _
  by_cases h1 : r' = r
  · rw [h1, update_self, ite_self]
    exact (if_neg h).symm
  · rw [update_of_ne h1]
    simp only [List.mem_append, List.mem_singleton, h1, or_false]
    rfl

theorem TablesOk.uses (hp : TablesOk c pt) (hr : r ∈ pt.refs)
    (h : tableOf c (pt.entry c i) = pt.slotBase r j) : pt.uses c i = pt.count r j := by
  unfold PageTables.uses
  rw [h, hp.findRef hr j, count_of_mem hr]
  rfl

/-! ## A table is taken -/

structure TakenBook (pt pt' : PageTables) (r : L2Ptr) : Prop where
  mem : r ∈ pt'.refs
  refs : ∀ q ∈ pt.refs, q ∈ pt'.refs ∧ pt'.pageBase q = pt.pageBase q
  noMore : pt.refs ≠ [] → pt'.refs = pt.refs
  first : pt.refs = [] → ∀ q ∈ pt'.refs, ∃ x, pt.reserve.head? = some x ∧ q = x.1 ∧
    pt'.pageBase q = x.2
  allocated : pt'.blkAllocated = pt.blkAllocated
  count : ∀ q k, pt'.count q k = pt.count q k
  used : ∀ q, pt'.used q = pt.used q + if q = r then 1 else 0
  usedAll : pt'.blkUsedAll = pt.blkUsedAll + 1

theorem TakenBook.of_alloc {b : Word}
    (h : pt.allocL2SecurePageTable = some (pt', b)) : ∃ r j, b = pt'.slotBase r j ∧
      TakenBook pt pt' r := by
  obtain ⟨hrefs, y, reserve, hres, he⟩ | ⟨y, hy, he⟩ := allocL2SecurePageTable_cases h
  · cases he
    have hx : y.1 ∉ (pt.withReserve reserve).refs := by
      show y.1 ∉ pt.refs
      rw [hrefs]
      exact List.not_mem_nil
    have hmem : y.1 ∈ ((pt.withReserve reserve).addPage y.1 y.2).refs :=
      List.mem_append_right _ List.mem_cons_self
    refine ⟨y.1, 0, ?_, hmem, fun q hq => ?_, fun h => absurd hrefs h, fun _ q hq => ?_, rfl,
      fun q k => ?_, fun q => ?_, rfl⟩
    · show y.2 = update pt.pageBase y.1 y.2 y.1 + 0#32
      rw [update_self, BitVec.add_zero]
    · rw [hrefs] at hq
      exact absurd hq List.not_mem_nil
    · have hq' : q ∈ pt.refs ++ [y.1] := hq
      rw [hrefs, List.nil_append, List.mem_singleton] at hq'
      refine ⟨y, by rw [hres]; rfl, hq', ?_⟩
      rw [hq']
      exact update_self ..
    · exact count_addPage hx y.2 q k
    · refine (used_takeTable hmem q).trans ?_
      rw [used_addPage hx]
      rfl
  · cases he
    obtain ⟨h1, -⟩ := findFree_some hy
    exact ⟨y.1, y.2, rfl, h1, fun q hq => ⟨hq, rfl⟩, fun _ => rfl,
      fun h => absurd h1 (by rw [h]; exact List.not_mem_nil), rfl, fun _ _ => rfl,
      fun q => used_takeTable h1 q, rfl⟩

/-! ## A page is written -/

/-- the books when a page of the entry `i` has been written, in the table `j` of `r` -/
structure Booked (c : PageConfig) (i : BitVec 12) (pt pt' : PageTables) (r : L2Ptr) (j : Fin 4) :
    Prop where
  mem : r ∈ pt'.refs
  table : tableOf c (pt'.entry c i) = pt'.slotBase r j
  refs : ∀ q ∈ pt.refs, q ∈ pt'.refs ∧ pt'.pageBase q = pt.pageBase q
  noMore : pt.refs ≠ [] → pt'.refs = pt.refs
  first : pt.refs = [] → ∀ q ∈ pt'.refs, ∃ x, pt.reserve.head? = some x ∧ q = x.1 ∧
    pt'.pageBase q = x.2
  allocated : pt'.blkAllocated = pt.blkAllocated
  count : ∀ q k, pt'.count q k = if q = r ∧ k = j then pt.count r j + 1 else pt.count q k
  used : ∀ q, pt'.used q = pt.used q + if q = r ∧ ¬ Coarse (pt.entry c i) then 1 else 0
  usedAll : pt'.blkUsedAll = pt.blkUsedAll + if Coarse (pt.entry c i) then 0 else 1
  old : Coarse (pt.entry c i) → r ∈ pt.refs ∧ tableOf c (pt'.entry c i) = tableOf c (pt.entry c i)
  new : ¬ Coarse (pt.entry c i) → pt.count r j = 0

theorem storeEntry_entry (hc : ConfigOk c) (h : PageOk c (pt.pageBase r)) (i : BitVec 12) (w d : Word)
    (j : Fin 4) (n : Nat) (k : BitVec 8) :
    (((pt.setEntry c i w).setPage r j n).store (nth (pt.slotBase r j) k.toNat) d).entry c i = w := by
  refine (update_of_ne (l1_ne_l2 hc h) ..).trans ?_
  exact (setEntry_entry' hc pt i w i).trans (if_pos rfl)

theorem Booked.newTable (hp : PoolOk c pt) (hi : ¬ Coarse (pt.entry c (l1Index e.va)))
    (h : pt.mapNewTable c e = some pt') : ∃ r j, Booked c (l1Index e.va) pt pt' r j := by
  obtain ⟨pt1, r, j, halloc, h1, ht, hset, rfl⟩ := mapNewTable_eq hp h
  obtain ⟨r', j', hslot, h2⟩ := TakenBook.of_alloc halloc
  obtain ⟨rfl, rfl⟩ := h1.ok.slot_inj h1.mem h2.mem hslot
  have hok := h1.ok.pageOk h1.mem
  refine ⟨r, j, h1.mem, ?_, h2.refs, h2.noMore, h2.first, h2.allocated, fun q k => ?_, fun q => ?_, ?_,
    fun h => absurd h hi, fun _ => ?_⟩
  · refine Eq.trans ?_ ht
    exact congrArg (tableOf c) (storeEntry_entry hp.config hok ..)
  · have h3 : r ∈ (pt1.setEntry c (l1Index e.va)
        (coarseEntry (secureVirToPhy c (pt1.slotBase r j)) e)).refs := h1.mem
    refine (count_setPage h3 _ q k).trans ?_
    show (if q = r ∧ k = j then pt1.page r j + 1 else pt1.count q k) = _
    rw [← count_of_mem h1.mem, h2.count, h2.count]
  · simp only [and_iff_left hi]
    exact h2.used q
  · rw [if_neg hi]
    exact h2.usedAll
  · rw [← h2.count, count_of_mem h1.mem]
    exact h1.free

theorem Booked.oldTable (hp : PoolOk c pt) (hi : Coarse (pt.entry c (l1Index e.va)))
    (h : pt.mapOldTable c e = some pt') : ∃ r j, Booked c (l1Index e.va) pt pt' r j := by
  obtain ⟨r, hr, j, ht, ht', hset, rfl⟩ := mapOldTable_eq hp hi h
  have hentry : tableOf c (((pt.setEntry c (l1Index e.va)
      (setDomain (pt.entry c (l1Index e.va)) e)).setPage r j (pt.page r j + 1)).store
        (nth (pt.slotBase r j) (l2Index e.va).toNat) (smallPageEntry e) |>.entry c (l1Index e.va))
      = pt.slotBase r j := by
    refine Eq.trans ?_ ht'
    exact congrArg (tableOf c) (storeEntry_entry hp.config (hp.pageOk hr) ..)
  refine ⟨r, j, hr, hentry, fun q hq => ⟨hq, rfl⟩, fun _ => rfl,
    fun h => absurd hr (by rw [h]; exact List.not_mem_nil), rfl, fun q k => ?_, fun q => ?_, ?_,
    fun _ => ⟨hr, hentry.trans ht.symm⟩, fun h => absurd hi h⟩
  · have h3 : r ∈ (pt.setEntry c (l1Index e.va)
        (setDomain (pt.entry c (l1Index e.va)) e)).refs := hr
    refine (count_setPage h3 _ q k).trans ?_
    show (if q = r ∧ k = j then pt.page r j + 1 else pt.count q k) = _
    rw [← count_of_mem hr]
  · rw [if_neg fun h => h.2 hi]
    rfl
  · rw [if_pos hi]
    rfl

theorem Booked.uses (h : Booked c i pt pt' r j) (hp : TablesOk c pt) (hp' : TablesOk c pt')
    (hs : Elsewhere c i pt pt') (hi : Coarse (pt'.entry c i)) {i' : BitVec 12} (hne : i' ≠ i)
    (hi' : Coarse (pt.entry c i')) : pt'.uses c i' = pt.uses c i' := by
  obtain ⟨q, hq, k, h1⟩ := hp.table i' hi'
  have h2 := h.refs q hq
  have h3 : tableOf c (pt'.entry c i') = pt'.slotBase q k := by
    rw [hs.entry i' hne, h1]
    unfold PageTables.slotBase
    rw [h2.2]
  rw [hp.uses hq h1, hp'.uses h2.1 h3, h.count, if_neg fun h4 => hne ?_]
  have hi2 : Coarse (pt'.entry c i') := by
    rw [hs.entry i' hne]
    exact hi'
  refine hp'.own i' i hi2 hi ?_
  rw [h3, h.table, h4.1, h4.2]

theorem Written.sect (h : Written c e pt pt') (hp : PoolOk c pt)
    (hb : Booked c (l1Index e.va) pt pt' r j) (hns : e.ns = 0)
    (hw : Fault (pt.entry c (l1Index e.va)) ∨ Coarse (pt.entry c (l1Index e.va))) :
    pt'.sect c = update (pt.sect c) (l1Index e.va)
      ((pt.sect c (l1Index e.va)).mapPage e.dom (l2Index e.va) (smallPageEntry e)) := by
  funext i
  by_cases h1 : i = l1Index e.va
  · have hcount := hb.count r j
    rw [if_pos ⟨rfl, rfl⟩] at hcount
    rw [h1, update_self, sect_coarse h.coarse, h.dom, h.ns, h.ok.uses hb.mem hb.table,
      hcount, hns]
    have hl2 : pt'.l2At c (l1Index e.va) = update
        (fun k => if Coarse (pt.entry c (l1Index e.va)) then pt.l2At c (l1Index e.va) k else 0)
        (l2Index e.va) (smallPageEntry e) := by
      funext k
      rw [h.l2At, update_apply]
    rw [hl2]
    obtain hf | hc := hw
    · have hc : ¬ Coarse (pt.entry c (l1Index e.va)) := fun hc => coarse_not_fault hc hf
      rw [sect_plain hc, Sect.mapPage_free hf, if_neg hc, hb.new hc]
      simp only [if_neg hc]
    · obtain ⟨hr, ht⟩ := hb.old hc
      have ht' : tableOf c (pt.entry c (l1Index e.va)) = pt.slotBase r j := by
        rw [← ht, hb.table]
        unfold PageTables.slotBase
        rw [(hb.refs r hr).2]
      rw [sect_coarse hc, if_pos hc, hp.uses hr ht']
      simp only [if_pos hc]
      rfl
  · rw [update_of_ne h1]
    unfold PageTables.sect
    rw [h.elsewhere.entry i h1]
    split_ifs with hc
    · rw [hb.uses hp.toTablesOk h.ok.toTablesOk h.elsewhere h.coarse h1 hc]
      congr 1
      funext k
      exact h.elsewhere.l2At i h1 hc k
    · rfl

theorem mapSmallPage_booked (hp : PoolOk c pt) {x : PageTables × Int}
    (h : pt.mapSmallPage c e = some x) :
    (x.2 = 0 ∧ (Fault (pt.entry c (l1Index e.va)) ∨ Coarse (pt.entry c (l1Index e.va))) ∧
      Written c e pt x.1 ∧ ∃ r j, Booked c (l1Index e.va) pt x.1 r j) ∨
    (x.2 ≠ 0 ∧ ¬ Fault (pt.entry c (l1Index e.va)) ∧ ¬ Coarse (pt.entry c (l1Index e.va)) ∧
      x.1 = pt) := by
  have hbook : x.2 = 0 → ∃ r j, Booked c (l1Index e.va) pt x.1 r j := by
    unfold PageTables.mapSmallPage at h
    split_ifs at h with h1 h2
    · obtain ⟨pt', h3, rfl⟩ := Option.map_eq_some_iff.mp h
      exact fun _ => Booked.newTable hp (fun h4 => coarse_not_fault h4 h1) h3
    · obtain ⟨pt', h3, rfl⟩ := Option.map_eq_some_iff.mp h
      exact fun _ => Booked.oldTable hp h2 h3
    · cases h
      exact fun h3 => absurd h3 (show ¬ (-1 : Int) = 0 by decide)
  obtain ⟨h1, h2, h3⟩ | ⟨h1, h2, h3, h4⟩ := mapSmallPage_spec hp h
  · exact Or.inl ⟨h1, h2, h3, hbook h1⟩
  · refine Or.inr ⟨?_, h2, h3, h4⟩
    rw [h1]
    decide

end

end SierraTee
