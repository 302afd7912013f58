import SierraTee.Paging.Tables
import Mathlib.Data.List.Pairwise

/-!
# The tables and their pool

* `mapSmallPage_spec`  a small page is written or refused, and the pool stays `PoolOk`.
-/

namespace SierraTee
open Function FlatMemory

def Coarse (w : Word) : Prop := descType w = pageDescTypeCoarse
def Fault (w : Word) : Prop := descType w = pageDescTypeFault

instance : DecidablePred Coarse := fun w => inferInstanceAs (Decidable (descType w = _))

namespace PageTables
variable (c : PageConfig) (pt : PageTables)

def l2At (i : BitVec 12) (k : BitVec 8) : Word := pt.mem (nth (tableOf c (pt.entry c i)) k.toNat)

def names : List L2Ptr := pt.refs ++ pt.reserve.map Prod.fst

def bases : List Word := pt.refs.map pt.pageBase ++ pt.reserve.map Prod.snd

end PageTables

structure PageOk (c : PageConfig) (b : Word) : Prop where
  aligned : b.toNat % 1024 = 0
  fits : b.toNat + 4096 < 2 ^ 32
  apart : b.toNat + 4096 ≤ c.pgd.toNat ∨ c.pgd.toNat + 16384 ≤ b.toNat

def Far (b b' : Word) : Prop := b.toNat + 4096 ≤ b'.toNat ∨ b'.toNat + 4096 ≤ b.toNat

structure ConfigOk (c : PageConfig) : Prop where
  pgd : c.pgd.toNat % 16384 = 0
  offset : c.offset.toNat % 1024 = 0

structure TablesOk (c : PageConfig) (pt : PageTables) : Prop where
  config : ConfigOk c
  names : pt.names.Nodup
  bases : pt.bases.Pairwise Far
  pages : ∀ b ∈ pt.bases, PageOk c b
  table : ∀ i, Coarse (pt.entry c i) → ∃ r ∈ pt.refs, ∃ j, tableOf c (pt.entry c i) = pt.slotBase r j
  own : ∀ i i', Coarse (pt.entry c i) → Coarse (pt.entry c i') →
    tableOf c (pt.entry c i) = tableOf c (pt.entry c i') → i = i'

/-- and no table that is in use is free -/
structure PoolOk (c : PageConfig) (pt : PageTables) : Prop extends TablesOk c pt where
  counted : ∀ i, Coarse (pt.entry c i) → ∀ r ∈ pt.refs, ∀ j,
    tableOf c (pt.entry c i) = pt.slotBase r j → pt.page r j ≠ 0

section
variable {c : PageConfig} {pt pt' : PageTables} {e : CpuPtEntry} {r r' : L2Ptr} {j j' : Fin 4}
  {i i' : BitVec 12} {k k' : BitVec 8} {b w : Word}

/-! ## Addresses -/

theorem nth_toNat {a : Word} {n : Nat} (h : a.toNat + 4 * n < 2 ^ 32) :
    (nth a n).toNat = a.toNat + 4 * n := by
  unfold nth
  rw [BitVec.toNat_add, BitVec.toNat_ofNat]
  omega

theorem l1_toNat (hc : ConfigOk c) (i : BitVec 12) :
    (nth c.pgd i.toNat).toNat = c.pgd.toNat + 4 * i.toNat := by
  have h1 := hc.pgd
  have h2 := i.isLt
  have h3 := c.pgd.isLt
  exact nth_toNat (by omega)

theorem l1_inj (hc : ConfigOk c) : nth c.pgd i.toNat = nth c.pgd i'.toNat ↔ i = i' := by
  refine ⟨fun h => ?_, fun h => by rw [h]⟩
  have h1 := congrArg BitVec.toNat h
  rw [l1_toNat hc, l1_toNat hc] at h1
  exact BitVec.eq_of_toNat_eq (by omega)

theorem slotBase_toNat (h : PageOk c (pt.pageBase r)) (j : Fin 4) :
    (pt.slotBase r j).toNat = (pt.pageBase r).toNat + 1024 * j := by
  have h1 := h.fits
  have h2 := j.isLt
  unfold PageTables.slotBase l2PageTableSize
  rw [BitVec.toNat_add, BitVec.toNat_ofNat]
  omega

theorem l2_toNat (h : PageOk c (pt.pageBase r)) (j : Fin 4) (k : BitVec 8) :
    (nth (pt.slotBase r j) k.toNat).toNat = (pt.pageBase r).toNat + 1024 * j + 4 * k.toNat := by
  have h1 := h.fits
  have h2 := j.isLt
  have h3 := k.isLt
  rw [nth_toNat (by rw [slotBase_toNat h]; omega), slotBase_toNat h]

theorem TablesOk.pageOk (hp : TablesOk c pt) (hr : r ∈ pt.refs) : PageOk c (pt.pageBase r) :=
  hp.pages _ (List.mem_append_left _ (List.mem_map_of_mem hr))

instance : DecidableRel Far := fun _ _ => inferInstanceAs (Decidable (_ ∨ _))

instance : Std.Symm Far := ⟨fun _ _ => Or.symm⟩

theorem Far.ne {b b' : Word} (h : Far b b') : b ≠ b' := fun e => by
  unfold Far at h
  rw [e] at h
  omega

theorem l1_ne_l2 (hc : ConfigOk c) (h : PageOk c (pt.pageBase r)) :
    nth c.pgd i.toNat ≠ nth (pt.slotBase r j) k.toNat := by
  intro e
  have h1 := congrArg BitVec.toNat e
  rw [l1_toNat hc, l2_toNat h] at h1
  have h4 := h.apart
  have h5 := i.isLt
  have h6 := j.isLt
  have h7 := k.isLt
  omega

theorem TablesOk.pageBase_inj (hp : TablesOk c pt) (hr : r ∈ pt.refs) (hr' : r' ∈ pt.refs)
    (h : pt.pageBase r = pt.pageBase r') : r = r' := by
  have h1 : (pt.refs.map pt.pageBase).Nodup := (List.pairwise_append.mp hp.bases).1.imp Far.ne
  exact List.inj_on_of_nodup_map h1 hr hr' h

theorem TablesOk.far (hp : TablesOk c pt) (hr : r ∈ pt.refs) (hr' : r' ∈ pt.refs) :
    pt.pageBase r = pt.pageBase r' ∨ Far (pt.pageBase r) (pt.pageBase r') := by
  by_cases h : pt.pageBase r = pt.pageBase r'
  · exact Or.inl h
  · exact Or.inr (hp.bases.forall (List.mem_append_left _ (List.mem_map_of_mem hr))
      (List.mem_append_left _ (List.mem_map_of_mem hr')) h)

theorem TablesOk.l2_inj (hp : TablesOk c pt) (hr : r ∈ pt.refs) (hr' : r' ∈ pt.refs)
    (h : nth (pt.slotBase r j) k.toNat = nth (pt.slotBase r' j') k'.toNat) :
    r = r' ∧ j = j' ∧ k = k' := by
  have h1 := congrArg BitVec.toNat h
  rw [l2_toNat (hp.pageOk hr), l2_toNat (hp.pageOk hr')] at h1
  have h4 := j.isLt
  have h5 := j'.isLt
  have h6 := k.isLt
  have h7 := k'.isLt
  obtain h2 | h2 := hp.far hr hr'
  · rw [h2] at h1
    exact ⟨hp.pageBase_inj hr hr' h2, Fin.ext (by omega), BitVec.eq_of_toNat_eq (by omega)⟩
  · unfold Far at h2
    omega

theorem TablesOk.slot_inj (hp : TablesOk c pt) (hr : r ∈ pt.refs) (hr' : r' ∈ pt.refs)
    (h : pt.slotBase r j = pt.slotBase r' j') : r = r' ∧ j = j' := by
  obtain ⟨h1, h2, -⟩ := hp.l2_inj hr hr'
    (show nth (pt.slotBase r j) (0 : BitVec 8).toNat = nth (pt.slotBase r' j') (0 : BitVec 8).toNat by
      rw [h])
  exact ⟨h1, h2⟩

theorem find_page {refs : List L2Ptr} {base : L2Ptr → Word}
    (hfits : ∀ q ∈ refs, (base q).toNat + 4096 < 2 ^ 32)
    (hfar : ∀ q ∈ refs, q = r ∨ Far (base q) (base r)) (hr : r ∈ refs) (j : Fin 4) :
    ((refs.find? fun q => base q ≤ base r + BitVec.ofNat 32 (l2PageTableSize * j) ∧
        base r + BitVec.ofNat 32 (l2PageTableSize * j) < base q + 4096).map fun q => (q, Fin.ofNat 4
      ((base r + BitVec.ofNat 32 (l2PageTableSize * j) - base q).toNat / l2PageTableSize)))
      = some (r, j) := by
  have hj := j.isLt
  have hsize : (BitVec.ofNat 32 (l2PageTableSize * j)).toNat = 1024 * j := by
    rw [BitVec.toNat_ofNat]
    unfold l2PageTableSize
    omega
  have hs : (base r + BitVec.ofNat 32 (l2PageTableSize * j)).toNat = (base r).toNat + 1024 * j := by
    have h1 := hfits r hr
    rw [BitVec.toNat_add, hsize]
    omega
  have htop (q : L2Ptr) (hq : q ∈ refs) : (base q + 4096).toNat = (base q).toNat + 4096 := by
    have h1 := hfits q hq
    rw [BitVec.toNat_add]
    show (_ + 4096) % _ = _
    omega
  have hindex : Fin.ofNat 4
      ((base r + BitVec.ofNat 32 (l2PageTableSize * j) - base r).toNat / l2PageTableSize) = j := by
    rw [BitVec.add_comm, BitVec.add_sub_cancel, hsize]
    apply Fin.ext
    show 1024 * (j : Nat) / 1024 % 4 = j
    omega
  generalize base r + BitVec.ofNat 32 (l2PageTableSize * j) = a at *
  have hin (q : L2Ptr) (hq : q ∈ refs) : (base q ≤ a ∧ a < base q + 4096) ↔ q = r := by
    rw [BitVec.le_def, BitVec.lt_def, htop q hq, hs]
    obtain rfl | h1 := hfar q hq
    · exact iff_of_true (by omega) rfl
    · have hne : q ≠ r := fun h => h1.ne (by rw [h])
      unfold Far at h1
      exact iff_of_false (by omega) hne
  have hfind : refs.find? (fun q => base q ≤ a ∧ a < base q + 4096) = some r := by
    cases hf : refs.find? (fun q => base q ≤ a ∧ a < base q + 4096) with
    | none => exact absurd (decide_eq_true ((hin r hr).mpr rfl)) (List.find?_eq_none.mp hf r hr)
    | some q =>
      have h1 := List.find?_some hf
      rw [(hin q (List.mem_of_find?_eq_some hf)).mp (of_decide_eq_true h1)]
  rw [hfind, Option.map_some, hindex]

theorem TablesOk.findRef (hp : TablesOk c pt) (hr : r ∈ pt.refs) (j : Fin 4) :
    pt.findRef (pt.slotBase r j) = some (r, j) :=
  find_page (fun _ hq => (hp.pageOk hq).fits)
    (fun _ hq => (hp.far hq hr).imp_left (hp.pageBase_inj hq hr)) hr j

theorem tableOf_congr {w w' : Word} (h : w.extractLsb' 10 22 = w'.extractLsb' 10 22) :
    tableOf c w = tableOf c w' := by
  unfold tableOf
  rw [pageTblMask_eq, high_congr rfl h]

theorem tableOf_setDomain (w : Word) (e : CpuPtEntry) :
    tableOf c (setDomain w e) = tableOf c w :=
  tableOf_congr (setDomain_reads e w (by omega) (by omega))

theorem tableOf_coarse (hc : ConfigOk c) (h : b.toNat % 1024 = 0) :
    tableOf c (coarseEntry (secureVirToPhy c b) e) = b := by
  have h1 : (secureVirToPhy c b).toNat % 2 ^ 10 = 0 := by
    have h2 := hc.offset
    have h3 := c.offset.isLt
    unfold secureVirToPhy
    rw [BitVec.toNat_sub]
    omega
  rw [tableOf_congr (coarseEntry_base e _)]
  unfold tableOf
  rw [pageTblMask_eq, high_self h1]
  exact BitVec.sub_add_cancel ..

/-! ## Writes -/

theorem setEntry_entry' (hc : ConfigOk c) (pt : PageTables) (i : BitVec 12) (w : Word)
    (i' : BitVec 12) :
    (pt.setEntry c i w).entry c i' = if i' = i then w else pt.entry c i' := by
  show update _ _ _ _ = _
  rw [update_apply]
  by_cases h : i' = i
  · rw [if_pos h, if_pos ((l1_inj hc).mpr h)]
  · rw [if_neg h, if_neg (mt (l1_inj hc).mp h)]
    rfl

theorem setEntry_table (hc : ConfigOk c) (h : PageOk c (pt.pageBase r)) :
    (pt.setEntry c i w).mem (nth (pt.slotBase r j) k.toNat)
      = pt.mem (nth (pt.slotBase r j) k.toNat) :=
  update_of_ne (l1_ne_l2 hc h).symm ..

theorem store_entry (hc : ConfigOk c) (h : PageOk c (pt.pageBase r)) (i : BitVec 12) :
    (pt.store (nth (pt.slotBase r j) k.toNat) w).entry c i = pt.entry c i :=
  update_of_ne (l1_ne_l2 hc h) ..

theorem clearTable_mem (b : Word) :
    (pt.clearTable b).mem = storeAll pt.mem b (List.replicate (l2PageTableSize / 4) 0) := by
  simp only [PageTables.clearTable]

theorem clearTable_entry (hc : ConfigOk c) (h : PageOk c (pt.pageBase r)) (i : BitVec 12) :
    (pt.clearTable (pt.slotBase r j)).entry c i = pt.entry c i := by
  unfold PageTables.entry
  rw [clearTable_mem, storeAll_outside]
  intro n hn
  rw [List.length_replicate] at hn
  have h1 : nth (pt.slotBase r j) n = nth (pt.slotBase r j) (BitVec.ofNat 8 n).toNat := by
    rw [BitVec.toNat_ofNat, Nat.mod_eq_of_lt (show n < 2 ^ 8 from hn)]
  rw [h1]
  exact l1_ne_l2 hc h

theorem clearTable_table (hp : TablesOk c pt) (hr : r ∈ pt.refs) (hr' : r' ∈ pt.refs) (j j' : Fin 4)
    (k : BitVec 8) :
    (pt.clearTable (pt.slotBase r j)).mem (nth (pt.slotBase r' j') k.toNat)
      = if r' = r ∧ j' = j then 0 else pt.mem (nth (pt.slotBase r' j') k.toNat) := by
  rw [clearTable_mem]
  by_cases h : r' = r ∧ j' = j
  · rw [if_pos h, h.1, h.2, storeAll_nth (by rw [List.length_replicate]; decide)
      (by rw [List.length_replicate]; exact k.isLt), List.get_eq_getElem, List.getElem_replicate]
  · rw [if_neg h, storeAll_outside]
    intro n hn e
    rw [List.length_replicate] at hn
    have h1 : nth (pt.slotBase r j) n = nth (pt.slotBase r j) (BitVec.ofNat 8 n).toNat := by
      rw [BitVec.toNat_ofNat, Nat.mod_eq_of_lt (show n < 2 ^ 8 from hn)]
    rw [h1] at e
    obtain ⟨h2, h3, -⟩ := hp.l2_inj hr' hr e
    exact h ⟨h2, h3⟩

/-! ## A table from the pool -/

structure Elsewhere (c : PageConfig) (i : BitVec 12) (pt pt' : PageTables) : Prop where
  entry : ∀ i', i' ≠ i → pt'.entry c i' = pt.entry c i'
  l2At : ∀ i', i' ≠ i → Coarse (pt.entry c i') → ∀ k, pt'.l2At c i' k = pt.l2At c i' k

theorem Elsewhere.refl (c : PageConfig) (i : BitVec 12) (pt : PageTables) : Elsewhere c i pt pt :=
  ⟨fun _ _ => rfl, fun _ _ _ _ => rfl⟩

theorem findFree_some {l : List L2Ptr} {x : L2Ptr × Fin 4} (h : pt.findFree l = some x) :
    x.1 ∈ l ∧ pt.page x.1 x.2 = 0 := by
  induction l with
  | nil => cases h
  | cons r l ih =>
    unfold PageTables.findFree at h
    split_ifs at h
    · exact (ih h).imp_left (List.mem_cons_of_mem _)
    · split at h
      · rename_i j hj
        cases h
        have h1 := List.find?_some hj
        exact ⟨List.mem_cons_self, of_decide_eq_true h1⟩
      · exact (ih h).imp_left (List.mem_cons_of_mem _)

structure Taken (c : PageConfig) (pt pt' : PageTables) (r : L2Ptr) (j : Fin 4) : Prop where
  ok : PoolOk c pt'
  mem : r ∈ pt'.refs
  free : pt'.page r j = 0
  entry : ∀ i, pt'.entry c i = pt.entry c i
  l2At : ∀ i, Coarse (pt.entry c i) → ∀ k, pt'.l2At c i k = pt.l2At c i k
  zero : ∀ k : BitVec 8, pt'.mem (nth (pt'.slotBase r j) k.toNat) = 0
  names : ∀ x, x ∈ pt'.names ↔ x ∈ pt.names
  bases : ∀ b, b ∈ pt'.bases ↔ b ∈ pt.bases
  reserve : pt'.reserve ⊆ pt.reserve

theorem Taken.of_clear (hp : PoolOk c pt) (hr : r ∈ pt.refs) (hfree : pt.page r j = 0)
    (bu : L2Ptr → Nat) (ba : Nat) :
    Taken c pt ({ pt with blkUsed := bu, blkUsedAll := ba }.clearTable (pt.slotBase r j)) r j := by
  have hok := hp.pageOk hr
  have hent (i : BitVec 12) : ({ pt with blkUsed := bu, blkUsedAll := ba }.clearTable
      (pt.slotBase r j)).entry c i = pt.entry c i := clearTable_entry hp.config hok i
  have htab {r' : L2Ptr} (hr' : r' ∈ pt.refs) (j' : Fin 4) (k : BitVec 8) :=
    clearTable_table hp.toTablesOk hr hr' j j' k
  refine ⟨⟨{ hp with table := fun i hi => ?_, own := fun i i' hi hi' h => ?_ },
    fun i hi r' hr' j' h => ?_⟩, hr, hfree, hent, fun i hi k => ?_, fun k => ?_,
    fun _ => Iff.rfl, fun _ => Iff.rfl, fun _ h => h⟩
  · rw [hent] at hi ⊢
    exact hp.table i hi
  · rw [hent] at hi h
    rw [hent] at hi' h
    exact hp.own i i' hi hi' h
  · rw [hent] at hi h
    exact hp.counted i hi r' hr' j' h
  · obtain ⟨r', hr', j', h⟩ := hp.table i hi
    unfold PageTables.l2At
    rw [hent, h]
    refine (htab hr' j' k).trans (if_neg fun e => ?_)
    rw [e.1, e.2] at h
    exact hp.counted i hi r hr j h hfree
  · exact (htab hr j k).trans (if_pos ⟨rfl, rfl⟩)

theorem PoolOk.nextPage {x : L2Ptr × Word} {reserve : List (L2Ptr × Word)} (hp : PoolOk c pt)
    (h : pt.reserve = x :: reserve) : PoolOk c (pt.withReserve reserve) ∧
      x.1 ∉ (pt.withReserve reserve).names ∧ (∀ b ∈ (pt.withReserve reserve).bases, Far x.2 b) ∧
      PageOk c x.2 := by
  have hn := hp.names
  have hb := hp.bases
  have hpages := hp.pages
  unfold PageTables.names at hn
  unfold PageTables.bases at hb hpages
  rw [h, List.map_cons] at hn hb hpages
  obtain ⟨hn1, hn2⟩ := List.nodup_cons.mp (List.nodup_middle.mp hn)
  obtain ⟨hb1, hb2⟩ := List.pairwise_cons.mp ((List.pairwise_middle Or.symm).mp hb)
  refine ⟨⟨⟨hp.config, hn2, hb2, fun b h1 => hpages b ?_, hp.table, hp.own⟩, hp.counted⟩, hn1, hb1,
    hpages _ (List.mem_append_right _ List.mem_cons_self)⟩
  obtain h1 | h1 := List.mem_append.mp h1
  · exact List.mem_append_left _ h1
  · exact List.mem_append_right _ (List.mem_cons_of_mem _ h1)

theorem PoolOk.addPage {x : L2Ptr} (hp : PoolOk c pt) (hx : x ∉ pt.names)
    (hb : ∀ y ∈ pt.bases, Far b y) (hpage : PageOk c b) : PoolOk c (pt.addPage x b) ∧
      (∀ y, y ∈ (pt.addPage x b).names ↔ y = x ∨ y ∈ pt.names) ∧
      (∀ y, y ∈ (pt.addPage x b).bases ↔ y = b ∨ y ∈ pt.bases) := by
  have hne {y : L2Ptr} (hy : y ∈ pt.refs) : y ≠ x :=
    fun e => hx (e ▸ List.mem_append_left _ hy)
  have hbase {y : L2Ptr} (hy : y ∈ pt.refs) : (pt.addPage x b).pageBase y = pt.pageBase y :=
    update_of_ne (hne hy) ..
  have hslot {y : L2Ptr} (hy : y ∈ pt.refs) (j : Fin 4) :
      (pt.addPage x b).slotBase y j = pt.slotBase y j := by
    unfold PageTables.slotBase
    rw [hbase hy]
  have hpg {y : L2Ptr} (hy : y ∈ pt.refs) : (pt.addPage x b).page y = pt.page y :=
    update_of_ne (hne hy) ..
  have hnames : (pt.addPage x b).names = pt.refs ++ x :: pt.reserve.map Prod.fst := by
    show (pt.refs ++ [x]) ++ _ = _
    rw [List.append_assoc]
    rfl
  have hbases : (pt.addPage x b).bases
      = pt.refs.map pt.pageBase ++ b :: pt.reserve.map Prod.snd := by
    show (pt.refs ++ [x]).map (pt.addPage x b).pageBase ++ _ = _
    have h1 : (pt.addPage x b).pageBase x = b := update_self ..
    rw [List.map_append, List.append_assoc, List.map_congr_left fun y hy => hbase hy,
      List.map_singleton, h1]
    rfl
  have hmem {y : L2Ptr} : y ∈ (pt.addPage x b).refs ↔ y ∈ pt.refs ∨ y = x := by
    show y ∈ pt.refs ++ [x] ↔ _
    rw [List.mem_append, List.mem_singleton]
  have hold {i : BitVec 12} {y : L2Ptr} {j : Fin 4} (hi : Coarse (pt.entry c i))
      (hy : y ∈ (pt.addPage x b).refs)
      (h : tableOf c (pt.entry c i) = (pt.addPage x b).slotBase y j) : y ∈ pt.refs := by
    refine (hmem.mp hy).resolve_right fun e => ?_
    obtain ⟨y', hy', j', h1⟩ := hp.table i hi
    have hx' : PageOk c ((pt.addPage x b).pageBase x) := by
      have h2 : (pt.addPage x b).pageBase x = b := update_self ..
      rw [h2]
      exact hpage
    rw [h1, e] at h
    have h2 := congrArg BitVec.toNat h
    rw [slotBase_toNat (hp.pageOk hy'), slotBase_toNat hx'] at h2
    have h3 := hb _ (List.mem_append_left _ (List.mem_map_of_mem hy'))
    have h4 : (pt.addPage x b).pageBase x = b := update_self ..
    have h5 := j.isLt
    have h6 := j'.isLt
    unfold Far at h3
    rw [h4] at h2
    omega
  refine ⟨⟨⟨hp.config, ?_, ?_, fun y hy => ?_, fun i hi => ?_, hp.own⟩, fun i hi y hy j h => ?_⟩,
    fun y => ?_, fun y => ?_⟩
  · rw [hnames]
    exact List.nodup_middle.mpr (List.nodup_cons.mpr ⟨hx, hp.names⟩)
  · rw [hbases]
    exact (List.pairwise_middle Or.symm).mpr (List.pairwise_cons.mpr ⟨hb, hp.bases⟩)
  · rw [hbases, List.mem_append, List.mem_cons] at hy
    obtain hy | rfl | hy := hy
    · exact hp.pages y (List.mem_append_left _ hy)
    · exact hpage
    · exact hp.pages y (List.mem_append_right _ hy)
  · obtain ⟨y, hy, j, h⟩ := hp.table i hi
    exact ⟨y, hmem.mpr (Or.inl hy), j, h.trans (hslot hy j).symm⟩
  · have hy' := hold hi hy h
    rw [hpg hy']
    exact hp.counted i hi y hy' j (h.trans (hslot hy' j))
  · rw [hnames, List.mem_append, List.mem_cons]
    unfold PageTables.names
    rw [List.mem_append]
    tauto
  · rw [hbases, List.mem_append, List.mem_cons]
    unfold PageTables.bases
    rw [List.mem_append]
    tauto

theorem allocL2SecurePageTable_cases {x : PageTables × Word}
    (h : pt.allocL2SecurePageTable = some x) :
    (pt.refs = [] ∧ ∃ y reserve, pt.reserve = y :: reserve ∧
        x = ((((pt.withReserve reserve).addPage y.1 y.2).takeTable y.1).clearTable y.2, y.2)) ∨
      ∃ y, pt.findFree pt.refs = some y ∧
        x = ((pt.takeTable y.1).clearTable (pt.slotBase y.1 y.2), pt.slotBase y.1 y.2) := by
  unfold PageTables.allocL2SecurePageTable at h
  split at h
  · rename_i hrefs
    split at h
    · cases h
    · rename_i y reserve hres
      exact Or.inl ⟨hrefs, y, reserve, hres, (Option.some.inj h).symm⟩
  · obtain ⟨y, hy, rfl⟩ := Option.map_eq_some_iff.mp h
    exact Or.inr ⟨y, hy, rfl⟩

theorem Taken.alloc (hp : PoolOk c pt) {x : PageTables × Word}
    (h : pt.allocL2SecurePageTable = some x) : ∃ r j, x.2 = x.1.slotBase r j ∧ Taken c pt x.1 r j := by
  obtain ⟨hrefs, y, reserve, hres, rfl⟩ | ⟨y, hy, rfl⟩ := allocL2SecurePageTable_cases h
  · have hnone (i : BitVec 12) : ¬ Coarse (pt.entry c i) := fun hi => by
      obtain ⟨r, hr, -⟩ := hp.table i hi
      rw [hrefs] at hr
      exact absurd hr List.not_mem_nil
    obtain ⟨h1, h2, h3, h4⟩ := hp.nextPage hres
    obtain ⟨h5, h6, h7⟩ := h1.addPage h2 h3 h4
    have hbase : ((pt.withReserve reserve).addPage y.1 y.2).slotBase y.1 0 = y.2 := by
      show update pt.pageBase y.1 y.2 y.1 + 0#32 = y.2
      rw [update_self, BitVec.add_zero]
    have hmem : y.1 ∈ ((pt.withReserve reserve).addPage y.1 y.2).refs :=
      List.mem_append_right _ List.mem_cons_self
    have hfree : ((pt.withReserve reserve).addPage y.1 y.2).page y.1 0 = 0 := by
      show update pt.page y.1 (fun _ => 0) y.1 0 = 0
      rw [update_self]
    have h8 : Taken c _ ((((pt.withReserve reserve).addPage y.1 y.2).takeTable y.1).clearTable
        (((pt.withReserve reserve).addPage y.1 y.2).slotBase y.1 0)) y.1 0 :=
      Taken.of_clear h5 hmem hfree _ _
    rw [hbase] at h8
    refine ⟨y.1, 0, hbase.symm, h8.ok, h8.mem, h8.free, h8.entry, fun i hi => absurd hi (hnone i),
      h8.zero, fun z => ?_, fun z => ?_, fun z hz => ?_⟩
    · rw [h8.names, h6]
      unfold PageTables.names
      rw [hres, List.map_cons, List.mem_append, List.mem_append, List.mem_cons]
      tauto
    · rw [h8.bases, h7]
      unfold PageTables.bases
      rw [hres, List.map_cons, List.mem_append, List.mem_append, List.mem_cons]
      tauto
    · rw [hres]
      exact List.mem_cons_of_mem _ (h8.reserve hz)
  · obtain ⟨h1, h2⟩ := findFree_some hy
    exact ⟨y.1, y.2, rfl, Taken.of_clear hp h1 h2 _ _⟩

/-! ## An entry of a table -/

theorem TablesOk.counterOf (hp : TablesOk c pt) (hr : r ∈ pt.refs) (j : Fin 4) :
    pt.counterOf (pt.slotBase r j) = some (r, j) := by
  unfold PageTables.counterOf
  rw [hp.findRef hr j]
  rfl

theorem mapL2_eq (hp : TablesOk c pt) (hr : r ∈ pt.refs) (j : Fin 4) (e : CpuPtEntry) :
    pt.mapL2 e (pt.slotBase r j) = some ((pt.setPage r j (pt.page r j + 1)).store
      (nth (pt.slotBase r j) (l2Index e.va).toNat) (smallPageEntry e)) := by
  unfold PageTables.mapL2
  rw [hp.counterOf hr j]
  rfl

theorem update_page (page : L2Ptr → Fin 4 → Nat) (r : L2Ptr) (j : Fin 4) (n : Nat) (r' : L2Ptr)
    (j' : Fin 4) : update page r (update (page r) j n) r' j'
      = if r' = r ∧ j' = j then n else page r' j' := by
  by_cases h : r' = r
  · rw [h, update_self, update_apply]
    simp only [true_and]
  · rw [update_of_ne h, if_neg fun h1 => h h1.1]

theorem setPage_page (pt : PageTables) (r : L2Ptr) (j : Fin 4) (n : Nat) (r' : L2Ptr) (j' : Fin 4) :
    (pt.setPage r j n).page r' j' = if r' = r ∧ j' = j then n else pt.page r' j' :=
  update_page pt.page r j n r' j'

structure Stored (c : PageConfig) (i : BitVec 12) (k : BitVec 8) (w : Word) (pt pt' : PageTables) :
    Prop where
  ok : PoolOk c pt'
  entry : ∀ i', pt'.entry c i' = pt.entry c i'
  l2At : ∀ i', Coarse (pt.entry c i') → ∀ k',
    pt'.l2At c i' k' = if i' = i ∧ k' = k then w else pt.l2At c i' k'

theorem Stored.of_setPage {n : Nat} (hn : n ≠ 0) (hp : TablesOk c pt) (hi : Coarse (pt.entry c i))
    (hr : r ∈ pt.refs) (ht : tableOf c (pt.entry c i) = pt.slotBase r j)
    (hcount : ∀ i', i' ≠ i → Coarse (pt.entry c i') → ∀ r' ∈ pt.refs, ∀ j',
      tableOf c (pt.entry c i') = pt.slotBase r' j' → pt.page r' j' ≠ 0) (k : BitVec 8) (w : Word) :
    Stored c i k w pt ((pt.setPage r j n).store (nth (pt.slotBase r j) k.toNat) w) := by
  have hok := hp.pageOk hr
  have hent (i' : BitVec 12) : ((pt.setPage r j n).store
      (nth (pt.slotBase r j) k.toNat) w).entry c i' = pt.entry c i' :=
    store_entry hp.config hok i'
  refine ⟨⟨{ hp with table := fun i' hi' => ?_, own := fun i1 i2 h1 h2 h => ?_ },
    fun i' hi' r' hr' j' h => ?_⟩, hent, fun i' hi' k' => ?_⟩
  · rw [hent] at hi' ⊢
    exact hp.table i' hi'
  · rw [hent] at h1 h
    rw [hent] at h2 h
    exact hp.own i1 i2 h1 h2 h
  · rw [hent] at hi' h
    have h1 : tableOf c (pt.entry c i') = pt.slotBase r' j' := h
    show (pt.setPage r j _).page r' j' ≠ 0
    rw [setPage_page]
    by_cases h2 : r' = r ∧ j' = j
    · rw [if_pos h2]
      exact hn
    · rw [if_neg h2]
      refine hcount i' (fun e => h2 ?_) hi' r' hr' j' h1
      rw [e, ht] at h1
      obtain ⟨h3, h4⟩ := hp.slot_inj hr hr' h1
      exact ⟨h3.symm, h4.symm⟩
  · obtain ⟨r', hr', j', h1⟩ := hp.table i' hi'
    unfold PageTables.l2At
    rw [hent, h1]
    show update pt.mem _ _ _ = _
    rw [update_apply]
    by_cases h2 : i' = i ∧ k' = k
    · rw [h2.1, ht] at h1
      rw [if_pos h2, if_pos (by rw [← h1, h2.2])]
    · rw [if_neg h2, if_neg fun e => h2 ?_]
      obtain ⟨h3, h4, h5⟩ := hp.l2_inj hr' hr e
      rw [h3, h4, ← ht] at h1
      exact ⟨hp.own i' i hi' hi h1, h5⟩

structure Written (c : PageConfig) (e : CpuPtEntry) (pt pt' : PageTables) : Prop where
  ok : PoolOk c pt'
  elsewhere : Elsewhere c (l1Index e.va) pt pt'
  coarse : Coarse (pt'.entry c (l1Index e.va))
  dom : (pt'.entry c (l1Index e.va)).extractLsb' 5 4 = e.dom
  ns : (pt'.entry c (l1Index e.va)).extractLsb' 3 1
    = if Coarse (pt.entry c (l1Index e.va)) then (pt.entry c (l1Index e.va)).extractLsb' 3 1 else e.ns
  l2At : ∀ k, pt'.l2At c (l1Index e.va) k = if k = l2Index e.va then smallPageEntry e
    else if Coarse (pt.entry c (l1Index e.va)) then pt.l2At c (l1Index e.va) k else 0
  names : ∀ x, x ∈ pt'.names ↔ x ∈ pt.names
  bases : ∀ b, b ∈ pt'.bases ↔ b ∈ pt.bases
  reserve : pt'.reserve ⊆ pt.reserve

theorem TablesOk.setEntry (hp : TablesOk c pt) (hr : r ∈ pt.refs) (ht : tableOf c w = pt.slotBase r j)
    (hown : ∀ i', i' ≠ i → Coarse (pt.entry c i') → tableOf c (pt.entry c i') ≠ pt.slotBase r j) :
    TablesOk c (pt.setEntry c i w) := by
  have hent (i' : BitVec 12) := setEntry_entry' hp.config pt i w i'
  refine { hp with table := fun i' hi' => ?_, own := fun i1 i2 h1 h2 h => ?_ }
  · rw [hent] at hi' ⊢
    split_ifs at hi' ⊢
    · exact ⟨r, hr, j, ht⟩
    · exact hp.table i' hi'
  · rw [hent] at h1 h2
    rw [hent, hent] at h
    split_ifs at h1 h2 h with h3 h4 h4
    · rw [h3, h4]
    · exact absurd (h.symm.trans ht) (hown i2 h4 h2)
    · exact absurd (h.trans ht) (hown i1 h3 h1)
    · exact hp.own i1 i2 h1 h2 h

theorem setEntry_l2At (hp : TablesOk c pt) (hr : r ∈ pt.refs) (ht : tableOf c w = pt.slotBase r j)
    (hi' : i' ≠ i → Coarse (pt.entry c i')) (k : BitVec 8) :
    (pt.setEntry c i w).l2At c i' k
      = if i' = i then pt.mem (nth (pt.slotBase r j) k.toNat) else pt.l2At c i' k := by
  unfold PageTables.l2At
  rw [setEntry_entry' hp.config]
  split_ifs with h
  · rw [ht]
    exact setEntry_table hp.config (hp.pageOk hr)
  · obtain ⟨r', hr', j', h1⟩ := hp.table i' (hi' h)
    rw [h1]
    exact setEntry_table hp.config (hp.pageOk hr')

theorem coarse_not_fault (h : Coarse w) : ¬ Fault w := fun h1 => by
  have h2 : pageDescTypeCoarse = pageDescTypeFault := h.symm.trans h1
  exact absurd h2 (by decide)

theorem mapNewTable_eq (hp : PoolOk c pt) (h : pt.mapNewTable c e = some pt') :
    ∃ pt1 r j, pt.allocL2SecurePageTable = some (pt1, pt1.slotBase r j) ∧ Taken c pt pt1 r j ∧
      tableOf c (coarseEntry (secureVirToPhy c (pt1.slotBase r j)) e) = pt1.slotBase r j ∧
      TablesOk c (pt1.setEntry c (l1Index e.va)
        (coarseEntry (secureVirToPhy c (pt1.slotBase r j)) e)) ∧
      pt' = ((pt1.setEntry c (l1Index e.va)
        (coarseEntry (secureVirToPhy c (pt1.slotBase r j)) e)).setPage r j
          (pt1.page r j + 1)).store (nth (pt1.slotBase r j) (l2Index e.va).toNat)
            (smallPageEntry e) := by
  obtain ⟨x, hx, h⟩ := Option.bind_eq_some_iff.mp h
  obtain ⟨r, j, hbase, h1⟩ := Taken.alloc hp hx
  have hok := h1.ok.pageOk h1.mem
  rw [hbase] at h
  have ht : tableOf c (coarseEntry (secureVirToPhy c (x.1.slotBase r j)) e) = x.1.slotBase r j := by
    refine tableOf_coarse hp.config ?_
    have h2 := hok.aligned
    rw [slotBase_toNat hok]
    omega
  have hset := h1.ok.setEntry (i := l1Index e.va) h1.mem ht fun i' _ h2 h3 =>
    h1.ok.counted i' h2 r h1.mem j h3 h1.free
  have hmap := mapL2_eq hset h1.mem j e
  have hslot : (x.1.setEntry c (l1Index e.va)
      (coarseEntry (secureVirToPhy c (x.1.slotBase r j)) e)).slotBase r j = x.1.slotBase r j := rfl
  rw [hslot, h] at hmap
  exact ⟨x.1, r, j, by rw [hx, ← hbase], h1, ht, hset, Option.some.inj hmap⟩

theorem mapOldTable_eq (hp : PoolOk c pt) (hi : Coarse (pt.entry c (l1Index e.va)))
    (h : pt.mapOldTable c e = some pt') : ∃ r ∈ pt.refs, ∃ j,
      tableOf c (pt.entry c (l1Index e.va)) = pt.slotBase r j ∧
      tableOf c (setDomain (pt.entry c (l1Index e.va)) e) = pt.slotBase r j ∧
      TablesOk c (pt.setEntry c (l1Index e.va) (setDomain (pt.entry c (l1Index e.va)) e)) ∧
      pt' = ((pt.setEntry c (l1Index e.va) (setDomain (pt.entry c (l1Index e.va)) e)).setPage r j
          (pt.page r j + 1)).store (nth (pt.slotBase r j) (l2Index e.va).toNat)
            (smallPageEntry e) := by
  obtain ⟨r, hr, j, ht⟩ := hp.table _ hi
  have ht' : tableOf c (setDomain (pt.entry c (l1Index e.va)) e) = pt.slotBase r j :=
    (tableOf_setDomain _ e).trans ht
  have hset := hp.setEntry (i := l1Index e.va) hr ht' fun i' hne h1 h2 =>
    hne (hp.own i' _ h1 hi (h2.trans ht.symm))
  have hmap := mapL2_eq hset hr j e
  have hslot : (pt.setEntry c (l1Index e.va)
      (setDomain (pt.entry c (l1Index e.va)) e)).slotBase r j = pt.slotBase r j := rfl
  change (pt.setEntry c (l1Index e.va) (setDomain (pt.entry c (l1Index e.va)) e)).mapL2 e
    (tableOf c (setDomain (pt.entry c (l1Index e.va)) e)) = some pt' at h
  rw [ht', ← hslot, hmap, hslot] at h
  exact ⟨r, hr, j, ht, ht', hset, (Option.some.inj h).symm⟩

theorem Written.newTable (hp : PoolOk c pt) (hi : ¬ Coarse (pt.entry c (l1Index e.va)))
    (h : pt.mapNewTable c e = some pt') : Written c e pt pt' := by
  obtain ⟨pt1, r, j, -, h1, ht, hset, hpt⟩ := mapNewTable_eq hp h
  have hc := hp.config
  have hent (i' : BitVec 12) := setEntry_entry' hc pt1 (l1Index e.va)
    (coarseEntry (secureVirToPhy c (pt1.slotBase r j)) e) i'
  have hcoarse : Coarse ((pt1.setEntry c (l1Index e.va)
      (coarseEntry (secureVirToPhy c (pt1.slotBase r j)) e)).entry c (l1Index e.va)) := by
    rw [hent, if_pos rfl]
    exact coarseEntry_type e _
  have htab : tableOf c ((pt1.setEntry c (l1Index e.va)
      (coarseEntry (secureVirToPhy c (pt1.slotBase r j)) e)).entry c (l1Index e.va))
        = pt1.slotBase r j := by
    rw [hent, if_pos rfl]
    exact ht
  have h2 := Stored.of_setPage (Nat.succ_ne_zero (pt1.page r j)) hset hcoarse h1.mem htab
    (fun i' hne hi' r' hr' j' h3 => by
      rw [hent, if_neg hne] at hi' h3
      exact h1.ok.counted i' hi' r' hr' j' h3) (l2Index e.va) (smallPageEntry e)
  change Stored c _ _ _ _ (((pt1.setEntry c (l1Index e.va)
    (coarseEntry (secureVirToPhy c (pt1.slotBase r j)) e)).setPage r j (pt1.page r j + 1)).store
      (nth (pt1.slotBase r j) (l2Index e.va).toNat) (smallPageEntry e)) at h2
  rw [← hpt] at h2
  have hentry (i' : BitVec 12) : pt'.entry c i' = if i' = l1Index e.va then
      coarseEntry (secureVirToPhy c (pt1.slotBase r j)) e else pt.entry c i' := by
    rw [h2.entry, hent, h1.entry]
  refine ⟨h2.ok, ⟨fun i' hne => by rw [hentry, if_neg hne], fun i' hne hi' k => ?_⟩, ?_, ?_, ?_,
    fun k => ?_, fun y => ?_, fun y => ?_, ?_⟩
  · have h3 : Coarse (pt1.entry c i') := by
      rw [h1.entry]
      exact hi'
    have h4 : Coarse ((pt1.setEntry c (l1Index e.va)
        (coarseEntry (secureVirToPhy c (pt1.slotBase r j)) e)).entry c i') := by
      rw [hent, if_neg hne]
      exact h3
    rw [h2.l2At i' h4, if_neg fun h5 => hne h5.1,
      setEntry_l2At h1.ok.toTablesOk h1.mem ht (fun _ => h3), if_neg hne, h1.l2At i' hi']
  · rw [hentry, if_pos rfl]
    exact coarseEntry_type e _
  · rw [hentry, if_pos rfl]
    exact coarseEntry_dom e _
  · rw [hentry, if_pos rfl, if_neg hi]
    exact coarseEntry_ns e _
  · rw [h2.l2At _ hcoarse, setEntry_l2At h1.ok.toTablesOk h1.mem ht fun h3 => absurd rfl h3,
      if_pos rfl, h1.zero, if_neg hi]
    simp only [true_and]
  · exact (hpt ▸ h1.names y)
  · exact (hpt ▸ h1.bases y)
  · exact (hpt ▸ h1.reserve)

theorem Written.oldTable (hp : PoolOk c pt) (hi : Coarse (pt.entry c (l1Index e.va)))
    (h : pt.mapOldTable c e = some pt') : Written c e pt pt' := by
  obtain ⟨r, hr, j, ht, ht', hset, hpt⟩ := mapOldTable_eq hp hi h
  have hc := hp.config
  have hent (i' : BitVec 12) := setEntry_entry' hc pt (l1Index e.va)
    (setDomain (pt.entry c (l1Index e.va)) e) i'
  have hcoarse : Coarse ((pt.setEntry c (l1Index e.va)
      (setDomain (pt.entry c (l1Index e.va)) e)).entry c (l1Index e.va)) := by
    rw [hent, if_pos rfl]
    exact (setDomain_type e _).trans hi
  have htab : tableOf c ((pt.setEntry c (l1Index e.va)
      (setDomain (pt.entry c (l1Index e.va)) e)).entry c (l1Index e.va)) = pt.slotBase r j := by
    rw [hent, if_pos rfl]
    exact ht'
  have h2 := Stored.of_setPage (Nat.succ_ne_zero (pt.page r j)) hset hcoarse hr htab
    (fun i' hne hi' r' hr' j' h3 => by
      rw [hent, if_neg hne] at hi' h3
      exact hp.counted i' hi' r' hr' j' h3) (l2Index e.va) (smallPageEntry e)
  change Stored c _ _ _ _ (((pt.setEntry c (l1Index e.va)
    (setDomain (pt.entry c (l1Index e.va)) e)).setPage r j (pt.page r j + 1)).store
      (nth (pt.slotBase r j) (l2Index e.va).toNat) (smallPageEntry e)) at h2
  rw [← hpt] at h2
  have hentry (i' : BitVec 12) : pt'.entry c i' = if i' = l1Index e.va then
      setDomain (pt.entry c (l1Index e.va)) e else pt.entry c i' := by
    rw [h2.entry, hent]
  refine ⟨h2.ok, ⟨fun i' hne => by rw [hentry, if_neg hne], fun i' hne hi' k => ?_⟩, ?_, ?_, ?_,
    fun k => ?_, fun y => ?_, fun y => ?_, ?_⟩
  · have h4 : Coarse ((pt.setEntry c (l1Index e.va)
        (setDomain (pt.entry c (l1Index e.va)) e)).entry c i') := by
      rw [hent, if_neg hne]
      exact hi'
    rw [h2.l2At i' h4, if_neg fun h5 => hne h5.1,
      setEntry_l2At hp.toTablesOk hr ht' (fun _ => hi'), if_neg hne]
  · rw [hentry, if_pos rfl]
    exact (setDomain_type e _).trans hi
  · rw [hentry, if_pos rfl]
    exact setDomain_dom e _
  · rw [hentry, if_pos rfl, if_pos hi]
    exact setDomain_reads e _ (by omega) (by omega)
  · rw [h2.l2At _ hcoarse, setEntry_l2At hp.toTablesOk hr ht' fun h3 => absurd rfl h3, if_pos rfl,
      if_pos hi, ← ht]
    simp only [true_and]
    rfl
  · exact hpt ▸ Iff.rfl
  · exact hpt ▸ Iff.rfl
  · exact hpt ▸ fun _ h => h

theorem mapSmallPage_spec (hp : PoolOk c pt) {x : PageTables × Int}
    (h : pt.mapSmallPage c e = some x) :
    (x.2 = 0 ∧ (Fault (pt.entry c (l1Index e.va)) ∨ Coarse (pt.entry c (l1Index e.va))) ∧
      Written c e pt x.1) ∨
    (x.2 = -1 ∧ ¬ Fault (pt.entry c (l1Index e.va)) ∧ ¬ Coarse (pt.entry c (l1Index e.va)) ∧
      x.1 = pt) := by
  unfold PageTables.mapSmallPage at h
  split_ifs at h with h1 h2
  · obtain ⟨pt', h3, rfl⟩ := Option.map_eq_some_iff.mp h
    exact Or.inl ⟨rfl, Or.inl h1, Written.newTable hp (fun h4 => coarse_not_fault h4 h1) h3⟩
  · obtain ⟨pt', h3, rfl⟩ := Option.map_eq_some_iff.mp h
    exact Or.inl ⟨rfl, Or.inr h2, Written.oldTable hp h2 h3⟩
  · cases h
    exact Or.inr ⟨rfl, h1, h2, rfl⟩

end

end SierraTee
