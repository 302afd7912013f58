import SierraTee.Paging.Books
import SierraTee.Paging.MapSecure
import SierraTee.Paging.Walk

/-!
# Tables in place

While the tables and the pages of the pool are mapped in place, the functions of `Walk` are those of
`PageTables`.

* `mapSmallPageEntry_linear`, `mapSecureMemory_linear`   the functions, which keep the tables so;
* `mapSecureMemory_complete`  when a range is mapped as asked.
-/

namespace SierraTee
open Function FlatMemory PageTables

def InPageAt (b a : Word) : Prop := b.toNat ≤ a.toNat ∧ a.toNat < b.toNat + 4096

namespace MmuConfig
variable (m : MmuConfig) (pt : PageTables)

def InPlace (a : Word) : Prop := m.reach pt a = some a

def TableAt (a : Word) : Prop :=
  m.pgd.toNat ≤ a.toNat ∧ a.toNat < m.pgd.toNat + 16384 ∨
    ∃ r ∈ pt.refs, InPageAt (pt.pageBase r) a

def Held (a : Word) : Prop := m.TableAt pt a ∨ ∃ x ∈ pt.reserve, InPageAt x.2 a

/-- a page that comes next: a static one is in place; one of the heap has the physical page in
place, and its section takes the mapping as a secure one or has mapped it in place -/
structure NextOk (x : L2Ptr × Word) : Prop where
  static : m.isStatic x.1 = true → ∀ a, InPageAt x.2 a → m.InPlace pt a
  heap : m.isStatic x.1 = false → x.2.toNat % 4096 = 0 ∧
    m.frame x.2 = secureVirToPhy m x.2 ∧
    (m.mmuEnabled = true → Coarse (pt.entry m (l1Index x.2)) →
      (pt.entry m (l1Index x.2)).extractLsb' 3 1 = 0#1) ∧
    (¬ Fault (pt.entry m (l1Index x.2)) →
      ¬ Coarse (pt.entry m (l1Index x.2)) → ∀ a, InPageAt x.2 a → m.InPlace pt a)

/-- the tables can be changed where the kernel looks for them -/
structure Placed : Prop where
  off : m.mmuEnabled = false → m.offset = 0
  aligned : ∀ r ∈ pt.refs, m.isStatic r = false → (pt.pageBase r).toNat % 4096 = 0
  tables : ∀ a, m.TableAt pt a → m.InPlace pt a

/-- the accesses to the tables arrive there, and the pages for the pool come in place -/
structure Linear : Prop extends m.Placed pt where
  next : ∀ x ∈ pt.reserve, m.NextOk pt x
  first : pt.refs = [] → ∀ x, pt.reserve.head? = some x → m.isStatic x.1 = true

/-- with the MMU on, and if the page can be mapped: it is none of those, and its section gets the
domain of the kernel if one of them is in it -/
def Apart (e : CpuPtEntry) : Prop := m.mmuEnabled = true →
  Fault (pt.entry m (l1Index e.va)) ∨ Coarse (pt.entry m (l1Index e.va)) →
  ∀ a, m.Held pt a → pageOf a ≠ pageOf e.va ∧ (l1Index a = l1Index e.va → e.dom = 0 ∧ e.ns = 0)

end MmuConfig

/-- every counter of the pool can be incremented `n` times -/
structure CountersFit (n : Nat) (pt : PageTables) : Prop where
  page : ∀ q j, pt.count q j + n < 2 ^ 32
  used : ∀ q, pt.used q + n < 2 ^ 32
  usedAll : pt.blkUsedAll + n < 2 ^ 32
  allocated : pt.blkAllocated + n < 2 ^ 32

theorem CountersFit.mono {n k : Nat} {pt : PageTables} (h : CountersFit n pt) (hk : k ≤ n) : CountersFit k pt :=
  ⟨fun q j => Nat.lt_of_le_of_lt (Nat.add_le_add_left hk _) (h.page q j),
    fun q => Nat.lt_of_le_of_lt (Nat.add_le_add_left hk _) (h.used q),
    Nat.lt_of_le_of_lt (Nat.add_le_add_left hk _) h.usedAll,
    Nat.lt_of_le_of_lt (Nat.add_le_add_left hk _) h.allocated⟩

namespace MmuConfig

section
variable {m : MmuConfig} {pt pt1 pt' : PageTables} {e : CpuPtEntry} {a b w : Word} {t : Prop}
  {r : L2Ptr} {j : Fin 4} {i : BitVec 12} {n : Nat}

/-! ## Accesses -/

theorem reach_congr (h : pt'.translate m a = pt.translate m a) :
    m.reach pt' a = m.reach pt a := by
  unfold reach
  rw [h]

theorem kernelWrites_domain {x : Attrs} (h : x.kernelWrites = true) : x.inDomain 0 = x := by
  have h1 : x.ns = 0 ∧ x.dom = 0 ∧ (x.ap = 1 ∨ x.ap = 2 ∨ x.ap = 3) := of_decide_eq_true h
  unfold Attrs.inDomain
  rw [← h1.2.1]

theorem InPlace.frame (h : m.InPlace pt a) (hf : FrameAt m t a pt pt') :
    m.InPlace pt' a := by
  unfold InPlace at *
  obtain h1 | ⟨-, -, h1⟩ := hf.translate
  · rw [reach_congr h1]
    exact h
  · rw [← h]
    unfold reach at *
    rw [h1]
    split_ifs at * with he
    · obtain ⟨x, hx, h2⟩ := Option.bind_eq_some_iff.mp h
      have h3 : x.2.kernelWrites = true := by
        by_contra h3
        rw [if_neg h3] at h2
        cases h2
      have h4 : domainZero x = x := Prod.ext rfl (kernelWrites_domain h3)
      rw [hx, Option.map_some, h4]
    · rfl

theorem InPlace.translate (h : m.InPlace pt a) (he : m.mmuEnabled = true) :
    ∃ x, pt.translate m a = some (secureVirToPhy m a, x) ∧
      x.kernelWrites = true := by
  unfold InPlace reach at h
  rw [if_pos he] at h
  obtain ⟨x, hx, h1⟩ := Option.bind_eq_some_iff.mp h
  split_ifs at h1 with h2
  refine ⟨x.2, hx.trans (congrArg some (Prod.ext ?_ rfl)), h2⟩
  rw [← Option.some.inj h1]
  exact (BitVec.add_sub_cancel ..).symm

theorem InPlace.of_translate {x : Attrs} (he : m.mmuEnabled = true)
    (h : pt.translate m a = some (secureVirToPhy m a, x))
    (hx : x.kernelWrites = true) : m.InPlace pt a := by
  unfold InPlace reach
  rw [if_pos he, h, Option.bind_some, if_pos hx]
  exact congrArg some (BitVec.sub_add_cancel ..)

theorem inPlace_of_on (h : m.mmuEnabled = true → m.InPlace pt a) : m.InPlace pt a := by
  by_cases he : m.mmuEnabled = true
  · exact h he
  · unfold InPlace reach
    rw [if_neg he]

theorem InPlace.store (h : m.InPlace pt a) (w : Word) : m.store pt a w = some (pt.store a w) := by
  unfold MmuConfig.store
  rw [show m.reach pt a = some a from h, Option.map_some]

theorem InPlace.clearTable (h : m.InPlace pt b) : m.clearTable pt b = some (pt.clearTable b) := by
  unfold MmuConfig.clearTable
  rw [show m.reach pt b = some b from h, Option.map_some]

theorem translate_low {x : Word × Attrs} (h : pt.translate m a = some x) :
    x.1.toNat % 4096 = a.toNat % 4096 := by
  unfold PageTables.translate at h
  split_ifs at h
  · have h1 := Option.some.inj h
    rw [← h1]
    unfold PageTables.translateL1
    split_ifs
    · show (_ ++ _ : BitVec 32).toNat % 4096 = _
      rw [append_toNat, extract_toNat, extract_toNat]
      omega
    · show (_ ++ _ : BitVec 32).toNat % 4096 = _
      rw [append_toNat, extract_toNat, extract_toNat]
      omega
  · unfold PageTables.translateL2 at h
    split_ifs at h
    · rw [← Option.some.inj h]
      show (_ ++ _ : BitVec 32).toNat % 4096 = _
      rw [append_toNat, extract_toNat, extract_toNat]
      omega
    · rw [← Option.some.inj h]
      show (_ ++ _ : BitVec 32).toNat % 4096 = _
      rw [append_toNat, extract_toNat, extract_toNat]
      omega

theorem join_low {p : Word} (h : p.toNat % 4096 = a.toNat % 4096) :
    p &&& 0xFFFFF000 ||| a &&& 0xFFF = p := by
  have h1 : (0xFFFFF000 : Word) = highMask 12 := by decide
  have h2 : (0xFFF : Word) = ~~~highMask 12 := by decide
  rw [h1, h2]
  ext i hi
  simp only [highMask, BitVec.getElem_or, BitVec.getElem_and, BitVec.getElem_not,
    BitVec.getElem_shiftLeft, BitVec.getElem_allOnes]
  by_cases h3 : i < 12
  · have h4 := congrArg (Nat.testBit · i) h
    have h5 (x : Word) : (x.toNat % 2 ^ 12).testBit i = x[i] := by
      rw [Nat.testBit_mod_two_pow, decide_eq_true h3, Bool.true_and]
      rfl
    change (p.toNat % 2 ^ 12).testBit i = (a.toNat % 2 ^ 12).testBit i at h4
    rw [h5, h5] at h4
    simp [h3, h4]
  · simp [h3]

theorem InPlace.tablePhy (h : m.InPlace pt b) (hoff : m.mmuEnabled = false → m.offset = 0) :
    m.tablePhy pt b = secureVirToPhy m b := by
  unfold MmuConfig.tablePhy
  by_cases he : m.mmuEnabled = true
  · obtain ⟨x, hx, -⟩ := h.translate he
    have h1 : physOf m pt b = some (secureVirToPhy m b) := by
      unfold physOf
      rw [hx]
      rfl
    unfold walkVirToPhy
    rw [if_pos he, h1, Option.getD_some]
    exact join_low (translate_low hx)
  · rw [if_neg he]
    unfold secureVirToPhy
    rw [hoff (Bool.eq_false_iff.mpr he)]
    exact (BitVec.sub_zero b).symm

theorem InPlace.phys_aligned (h : m.InPlace pt a) (he : m.mmuEnabled = true) (b : Word) :
    (secureVirToPhy m b).toNat % 4096 = 0 ↔ b.toNat % 4096 = 0 := by
  obtain ⟨x, hx, -⟩ := h.translate he
  have h1 := translate_low hx
  have h2 := a.isLt
  have h3 := b.isLt
  have h4 := m.offset.isLt
  unfold secureVirToPhy at *
  rw [sub_toNat] at h1 ⊢
  omega

theorem vir_way (a b : Word) : secureVirToPhy m b + (a - b)
    = secureVirToPhy m a := by
  apply BitVec.eq_of_toNat_eq
  have h1 := a.isLt
  have h2 := b.isLt
  have h3 := m.offset.isLt
  unfold secureVirToPhy
  rw [add_toNat, sub_toNat, sub_toNat, sub_toNat]
  omega

/-! ## What the parts of a call leave in place -/

theorem frame_same (he : pt'.entry m (l1Index a) = pt.entry m (l1Index a))
    (hl : Coarse (pt.entry m (l1Index a)) →
      pt'.l2At m (l1Index a) (l2Index a) = pt.l2At m (l1Index a) (l2Index a))
    (t : Prop) : FrameAt m t a pt pt' := by
  refine ⟨Or.inl he, Or.inl ?_⟩
  unfold PageTables.translate
  rw [he]
  split_ifs with h1 h2
  · rfl
  · have h3 := hl h2
    unfold PageTables.l2At at h3
    unfold PageTables.l2Entry
    rw [he, ← h3, he]
  · rfl

theorem Taken.frameAt (h : Taken m pt pt' r j) (t : Prop) (a : Word) :
    FrameAt m t a pt pt' :=
  frame_same (h.entry _) (fun hc => h.l2At _ hc _) t

theorem newEntry_frame (h : Taken m pt pt1 r j) (hf : Fault (pt.entry m i))
    (ht : tableOf m w = pt1.slotBase r j) (hc : Coarse w)
    (hns : l1Index a = i → w.extractLsb' 3 1 = 0#1) :
    FrameAt m True a pt1 (pt1.setEntry m i w) := by
  have hent (i' : BitVec 12) := setEntry_entry' h.ok.config pt1 i w i'
  have hl2 {i' : BitVec 12} (hi : i' ≠ i → Coarse (pt1.entry m i')) (k : BitVec 8) :=
    setEntry_l2At h.ok.toTablesOk h.mem ht hi k
  by_cases h1 : l1Index a = i
  · have hf1 : Fault (pt1.entry m (l1Index a)) := by
      rw [h.entry, h1]
      exact hf
    have hent' : (pt1.setEntry m i w).entry m (l1Index a) = w := by
      rw [hent, if_pos h1]
    refine ⟨Or.inr ⟨trivial, ?_, Or.inl ⟨hf1, ?_⟩⟩, Or.inl ?_⟩
    · rw [hent']
      exact hc
    · rw [hent']
      exact hns h1
    · rw [translate_fault hf1, translate_coarse (by rw [hent']; exact hc),
        hl2 fun h2 => absurd h1 h2, if_pos h1, h.zero]
      exact translateL2_none
  · have helse : Elsewhere m i pt1 (pt1.setEntry m i w) :=
      ⟨fun i' hi => by rw [hent, if_neg hi],
        fun i' hi hc' k => by rw [hl2 fun _ => hc', if_neg hi]⟩
    exact helse.frameAt h1 True

theorem oldEntry_frame (hp : PoolOk m pt) (hi : Coarse (pt.entry m i))
    (hdom : l1Index a = i → e.dom = 0) : FrameAt m True a pt
      (pt.setEntry m i (setDomain (pt.entry m i) e)) := by
  have hent (i' : BitVec 12) := setEntry_entry' hp.config pt i
    (setDomain (pt.entry m i) e) i'
  obtain ⟨r, hr, j, ht⟩ := hp.table i hi
  have ht' : tableOf m (setDomain (pt.entry m i) e) = pt.slotBase r j :=
    (tableOf_setDomain _ e).trans ht
  have hl2 {i' : BitVec 12} (h : i' ≠ i → Coarse (pt.entry m i')) (k : BitVec 8) :=
    setEntry_l2At hp.toTablesOk hr ht' h k
  have hcoarse : Coarse (setDomain (pt.entry m i) e) := (setDomain_type e _).trans hi
  have hns := setDomain_reads e (pt.entry m i) (j := 3) (m := 1) (by omega) (by omega)
  by_cases h1 : l1Index a = i
  · have hent' : (pt.setEntry m i (setDomain (pt.entry m i) e)).entry
        m (l1Index a) = setDomain (pt.entry m i) e := by
      rw [hent, if_pos h1]
    have hc : Coarse (pt.entry m (l1Index a)) := by
      rw [h1]
      exact hi
    have hl : (pt.setEntry m i (setDomain (pt.entry m i) e)).l2At
        m (l1Index a) (l2Index a) = pt.l2At m (l1Index a) (l2Index a) := by
      rw [hl2 fun h2 => absurd h1 h2, if_pos h1, h1, ← ht]
      rfl
    refine ⟨Or.inr ⟨trivial, ?_, Or.inr ⟨hc, ?_⟩⟩, Or.inr ⟨trivial, hc, ?_⟩⟩
    · rw [hent']
      exact hcoarse
    · rw [hent', h1]
      exact hns
    · rw [translate_coarse (by rw [hent']; exact hcoarse), translate_coarse hc, hent', hl, h1]
      refine translateL2_domain hns ?_
      rw [setDomain_dom, hdom h1]
      rfl
  · have helse : Elsewhere m i pt
        (pt.setEntry m i (setDomain (pt.entry m i) e)) :=
      ⟨fun i' hi => by rw [hent, if_neg hi],
        fun i' hi hc' k => by rw [hl2 fun _ => hc', if_neg hi]⟩
    exact helse.frameAt h1 True

/-! ## Addresses of tables -/

theorem l1_tableAt (hc : ConfigOk m) (pt : PageTables) (i : BitVec 12) :
    m.TableAt pt (nth m.pgd i.toNat) := by
  have h1 := l1_toNat hc i
  have h2 := i.isLt
  left
  omega

theorem l2_tableAt (hp : TablesOk m pt) (hr : r ∈ pt.refs) (j : Fin 4) (k : BitVec 8) :
    m.TableAt pt (nth (pt.slotBase r j) k.toNat) := by
  have h1 := l2_toNat (hp.pageOk hr) j k
  have h2 := j.isLt
  have h3 := k.isLt
  exact Or.inr ⟨r, hr, by omega, by omega⟩

theorem Placed.entry (hl : m.Placed pt) (hc : ConfigOk m) (i : BitVec 12) :
    m.entry pt i = some (pt.entry m i) := by
  have h : m.reach pt (nth m.pgd i.toNat) = some _ := hl.tables _ (l1_tableAt hc pt i)
  unfold MmuConfig.entry
  rw [h]
  rfl

theorem Placed.setEntry (hl : m.Placed pt) (hc : ConfigOk m) (i : BitVec 12) (w : Word) :
    m.setEntry pt i w = some (pt.setEntry m i w) :=
  (hl.tables _ (l1_tableAt hc pt i)).store w

theorem Linear.joined_aligned (hl : m.Linear pt) (hmore : pt.refs ≠ [] → pt'.refs = pt.refs)
    (hbase : ∀ q ∈ pt.refs, pt'.pageBase q = pt.pageBase q)
    (hfirst : pt.refs = [] → ∀ q ∈ pt'.refs, ∃ x, pt.reserve.head? = some x ∧ q = x.1 ∧
      pt'.pageBase q = x.2) (hr : r ∈ pt'.refs) (hs : m.isStatic r = false) :
    (pt'.pageBase r).toNat % 4096 = 0 := by
  by_cases hrefs : pt.refs = []
  · obtain ⟨x, hx, rfl, -⟩ := hfirst hrefs r hr
    rw [hl.first hrefs x hx] at hs
    cases hs
  · rw [hmore hrefs] at hr
    rw [hbase r hr]
    exact hl.aligned r hr hs

theorem Linear.joined (hl : m.Linear pt) (hmore : pt.refs ≠ [] → pt'.refs = pt.refs)
    (hbase : ∀ q ∈ pt.refs, pt'.pageBase q = pt.pageBase q)
    (hfirst : pt.refs = [] → ∀ q ∈ pt'.refs, ∃ x, pt.reserve.head? = some x ∧ q = x.1 ∧
      pt'.pageBase q = x.2) (ha : m.TableAt pt' a) : m.InPlace pt a ∧ m.Held pt a := by
  obtain h1 | ⟨q, hq, h1⟩ := ha
  · exact ⟨hl.tables a (Or.inl h1), Or.inl (Or.inl h1)⟩
  · by_cases hrefs : pt.refs = []
    · obtain ⟨x, hx, rfl, h2⟩ := hfirst hrefs q hq
      have hmem := List.mem_of_head? hx
      rw [h2] at h1
      exact ⟨(hl.next x hmem).static (hl.first hrefs x hx) a h1, Or.inr ⟨x, hmem, h1⟩⟩
    · rw [hmore hrefs] at hq
      rw [hbase q hq] at h1
      exact ⟨hl.tables a (Or.inr ⟨q, hq, h1⟩), Or.inl (Or.inr ⟨q, hq, h1⟩)⟩

/-! ## A small page -/

theorem takeTable_linear (h1 : pt.blkUsed r + 1 < 2 ^ 32) (h2 : pt.blkUsedAll + 1 < 2 ^ 32) :
    takeTable pt r = pt.takeTable r := by
  unfold MmuConfig.takeTable PageTables.takeTable uintAdd
  rw [Nat.mod_eq_of_lt h1, Nat.mod_eq_of_lt h2]

theorem slotBase_inPageAt (h : PageOk m (pt.pageBase r)) (j : Fin 4) :
    InPageAt (pt.pageBase r) (pt.slotBase r j) := by
  have h1 := slotBase_toNat h j
  have h2 := j.isLt
  exact ⟨by omega, by omega⟩

theorem allocL2SecurePageTable_linear (hl : m.Linear pt) (hp : PoolOk m pt)
    (hc : CountersFit 1 pt) : m.allocL2SecurePageTable pt = pt.allocL2SecurePageTable.map fun x =>
      (x.1, x.2, secureVirToPhy m x.2) := by
  unfold MmuConfig.allocL2SecurePageTable PageTables.allocL2SecurePageTable
  cases hrefs : pt.refs with
  | nil =>
    cases hres : pt.reserve with
    | nil => rfl
    | cons x reserve =>
      have hstatic := hl.first hrefs x (by rw [hres]; rfl)
      have hin : m.InPlace pt x.2 :=
        (hl.next x (by rw [hres]; exact List.mem_cons_self)).static hstatic x.2
          ⟨Nat.le_refl _, by omega⟩
      have hzero : ((pt.withReserve reserve).addPage x.1 x.2).blkUsed x.1 = 0 :=
        update_self ..
      have htake : takeTable ((pt.withReserve reserve).addPage x.1 x.2) x.1
          = ((pt.withReserve reserve).addPage x.1 x.2).takeTable x.1 :=
        takeTable_linear (by rw [hzero]; decide) hc.usedAll
      have hin' : m.InPlace (((pt.withReserve reserve).addPage x.1 x.2).takeTable x.1) x.2 := hin
      dsimp only
      rw [htake, hin'.clearTable, hin'.tablePhy hl.off]
      rfl
  | cons q l =>
    dsimp only
    rw [← hrefs]
    cases hfree : pt.findFree pt.refs with
    | none => rfl
    | some x =>
      obtain ⟨hr, -⟩ := findFree_some hfree
      have hin : m.InPlace pt (pt.slotBase x.1 x.2) :=
        hl.tables _ (Or.inr ⟨x.1, hr, slotBase_inPageAt (hp.pageOk hr) x.2⟩)
      have hused := hc.used x.1
      rw [used_of_mem hr] at hused
      have hin' : m.InPlace (pt.takeTable x.1) (pt.slotBase x.1 x.2) := hin
      rw [Option.bind_some, takeTable_linear hused hc.usedAll]
      show (m.clearTable (pt.takeTable x.1) (pt.slotBase x.1 x.2)).map (fun pt' =>
        (pt', pt.slotBase x.1 x.2, m.tablePhy (pt.takeTable x.1) (pt.slotBase x.1 x.2))) = _
      rw [hin'.clearTable, hin'.tablePhy hl.off]
      rfl

theorem mapL2_linear (hp : TablesOk m pt) (hr : r ∈ pt.refs)
    (hin : ∀ k : BitVec 8, m.InPlace pt (nth (pt.slotBase r j) k.toNat))
    (hc : pt.page r j + 1 < 2 ^ 32) :
    m.mapL2 pt e (pt.slotBase r j) = pt.mapL2 e (pt.slotBase r j) := by
  unfold MmuConfig.mapL2 PageTables.mapL2
  rw [hp.counterOf hr j, Option.bind_some, Option.map_some]
  dsimp only
  unfold uintAdd
  rw [Nat.mod_eq_of_lt hc]
  have h1 : m.InPlace (pt.setPage r j (pt.page r j + 1))
    (nth (pt.slotBase r j) (l2Index e.va).toNat) := hin _
  exact h1.store _

theorem mapNewTable_linear (hl : m.Linear pt) (hp : PoolOk m pt) (hc : CountersFit 1 pt)
    (hf : Fault (pt.entry m (l1Index e.va))) (hapart : m.Apart pt e) :
    m.mapNewTable pt e = pt.mapNewTable m e := by
  unfold MmuConfig.mapNewTable PageTables.mapNewTable
  rw [allocL2SecurePageTable_linear hl hp hc]
  cases halloc : pt.allocL2SecurePageTable with
  | none => rfl
  | some x =>
    obtain ⟨r, j, hbase, h1⟩ := Taken.alloc hp halloc
    obtain ⟨r', j', hslot, hb⟩ := TakenBook.of_alloc halloc
    obtain ⟨rfl, rfl⟩ := h1.ok.slot_inj h1.mem hb.mem (hbase.symm.trans hslot)
    have hok := h1.ok.pageOk h1.mem
    have ht : tableOf m (coarseEntry (secureVirToPhy m x.2) e)
        = x.1.slotBase r j := by
      rw [hbase]
      refine tableOf_coarse hp.config ?_
      have h2 := hok.aligned
      rw [slotBase_toNat hok]
      omega
    have hset := h1.ok.setEntry (i := l1Index e.va) h1.mem ht fun i' _ h2 h3 =>
      h1.ok.counted i' h2 r h1.mem j h3 h1.free
    have hfirst : m.InPlace x.1 (nth m.pgd (l1Index e.va).toNat) :=
      (hl.tables _ (l1_tableAt hp.config pt _)).frame (Taken.frameAt h1 True _)
    have hin (k : BitVec 8) : m.InPlace (x.1.setEntry m (l1Index e.va)
        (coarseEntry (secureVirToPhy m x.2) e)) (nth (x.1.slotBase r j) k.toNat) := by
      obtain ⟨h2, h3⟩ := hl.joined hb.noMore (fun q hq => (hb.refs q hq).2) hb.first
        (l2_tableAt h1.ok.toTablesOk h1.mem j k)
      refine inPlace_of_on fun he => (h2.frame (Taken.frameAt h1 True _)).frame
        (newEntry_frame h1 hf ht (coarseEntry_type e _) fun h4 => ?_)
      rw [coarseEntry_ns, ((hapart he (Or.inl hf) _ h3).2 h4).2]
      rfl
    rw [Option.map_some, Option.bind_some, Option.bind_some]
    dsimp only
    rw [show m.setEntry x.1 (l1Index e.va) _ = _ from hfirst.store _, Option.bind_some]
    rw [hbase] at hset hin ⊢
    refine mapL2_linear hset h1.mem hin ?_
    show x.1.page r j + 1 < 2 ^ 32
    rw [h1.free]
    decide

theorem mapOldTable_linear (hl : m.Linear pt) (hp : PoolOk m pt) (hc : CountersFit 1 pt)
    (hi : Coarse (pt.entry m (l1Index e.va))) (hapart : m.Apart pt e) :
    m.mapOldTable pt e (pt.entry m (l1Index e.va))
      = pt.mapOldTable m e := by
  unfold MmuConfig.mapOldTable PageTables.mapOldTable
  obtain ⟨r, hr, j, ht⟩ := hp.table _ hi
  have ht' : tableOf m (setDomain (pt.entry m (l1Index e.va)) e)
      = pt.slotBase r j := (tableOf_setDomain _ e).trans ht
  have hset := hp.setEntry (i := l1Index e.va) hr ht' fun i' hne h1 h2 =>
    hne (hp.own i' _ h1 hi (h2.trans ht.symm))
  have hpage := hc.page r j
  rw [count_of_mem hr] at hpage
  dsimp only
  rw [hl.setEntry hp.config, Option.bind_some, ht']
  refine mapL2_linear hset hr (fun k => ?_) hpage
  have h1 := l2_tableAt hp.toTablesOk hr j k
  exact inPlace_of_on fun he => (hl.tables _ h1).frame (oldEntry_frame hp hi fun h2 =>
    ((hapart he (Or.inr hi) _ (Or.inl h1)).2 h2).1)

theorem mapSmallPage_linear (hl : m.Linear pt) (hp : PoolOk m pt) (hc : CountersFit 1 pt)
    (hapart : m.Apart pt e) :
    m.mapSmallPage pt e = pt.mapSmallPage m e := by
  unfold MmuConfig.mapSmallPage PageTables.mapSmallPage
  rw [hl.entry hp.config, Option.bind_some]
  split_ifs with h1 h2
  · rw [mapNewTable_linear hl hp hc h1 hapart]
  · rw [mapOldTable_linear hl hp hc h2 hapart]
  · rfl

/-! ## What a small page leaves -/

theorem NextOk.frame {x : L2Ptr × Word} (h : m.NextOk pt x) (hf : m.mmuEnabled = true →
    ∀ a, InPageAt x.2 a → FrameAt m True a pt pt') : m.NextOk pt' x := by
  refine ⟨fun hs a ha => ?_, fun hs => ?_⟩
  · exact inPlace_of_on fun he => (h.static hs a ha).frame (hf he a ha)
  · obtain ⟨h1, h2, h3, h4⟩ := h.heap hs
    refine ⟨h1, h2, fun he hc => ?_, fun hnf hnc a ha => ?_⟩
    · obtain h5 | ⟨-, -, ⟨-, h5⟩ | ⟨hc', h5⟩⟩ := (hf he x.2 ⟨Nat.le_refl _, by omega⟩).entry
      · rw [h5] at hc ⊢
        exact h3 he hc
      · exact h5
      · exact h5.trans (h3 he hc')
    · refine inPlace_of_on fun he => ?_
      obtain h5 | ⟨-, hc, -⟩ := (hf he x.2 ⟨Nat.le_refl _, by omega⟩).entry
      · rw [h5] at hnf hnc
        exact (h4 hnf hnc a ha).frame (hf he a ha)
      · exact absurd hc hnc

theorem Linear.frame (hl : m.Linear pt)
    (hjoin : ∀ a, m.TableAt pt' a → m.InPlace pt a ∧ m.Held pt a)
    (hal : ∀ r ∈ pt'.refs, m.isStatic r = false → (pt'.pageBase r).toNat % 4096 = 0)
    (hr : pt'.reserve ⊆ pt.reserve) (hne : pt'.refs = [] → pt.refs = [] ∧ pt'.reserve = pt.reserve)
    (hf : m.mmuEnabled = true → ∀ a, m.Held pt a → FrameAt m True a pt pt') :
    m.Linear pt' := by
  refine ⟨⟨hl.off, hal, fun a ha => ?_⟩, fun x hx => ?_, fun h x hx => ?_⟩
  · obtain ⟨h1, h2⟩ := hjoin a ha
    exact inPlace_of_on fun he => h1.frame (hf he a h2)
  · exact (hl.next x (hr hx)).frame fun he a ha => hf he a (Or.inr ⟨x, hr hx, ha⟩)
  · obtain ⟨h1, h2⟩ := hne h
    rw [h2] at hx
    exact hl.first h1 x hx

theorem mapSmallPage_keeps (hl : m.Linear pt) (hp : PoolOk m pt) (hapart : m.Apart pt e)
    {x : PageTables × Int}
    (h : pt.mapSmallPage m e = some x) : m.Linear x.1 := by
  obtain ⟨-, hw, hwr, r, j, hb⟩ | ⟨-, -, -, h1⟩ := mapSmallPage_booked hp h
  · refine hl.frame (fun a ha => hl.joined hb.noMore (fun q hq => (hb.refs q hq).2) hb.first ha)
      (fun r hr => hl.joined_aligned hb.noMore (fun q hq => (hb.refs q hq).2) hb.first hr)
      hwr.reserve (fun h1 => absurd h1 (List.ne_nil_of_mem hb.mem)) fun he a ha => ?_
    obtain ⟨h1, h2⟩ := hapart he hw a ha
    by_cases h3 : l1Index a = l1Index e.va
    · exact (hwr.frameAt (h2 h3).1 (h2 h3).2 hw h1).mono fun _ => trivial
    · exact hwr.elsewhere.frameAt h3 True
  · rw [h1]
    exact hl

theorem mapSmallPage_counted (hp : PoolOk m pt) (hc : CountersFit (n + 1) pt)
    {x : PageTables × Int} (h : pt.mapSmallPage m e = some x) : CountersFit n x.1 := by
  obtain ⟨-, -, -, r, j, hb⟩ | ⟨-, -, -, h1⟩ := mapSmallPage_booked hp h
  · refine ⟨fun q k => ?_, fun q => ?_, ?_, ?_⟩
    · have h2 := hc.page r j
      have h3 := hc.page q k
      rw [hb.count]
      split_ifs <;> omega
    · have h2 := hc.used q
      rw [hb.used]
      split_ifs <;> omega
    · have h2 := hc.usedAll
      rw [hb.usedAll]
      split_ifs <;> omega
    · have h2 := hc.allocated
      rw [hb.allocated]
      omega
  · rw [h1]
    exact hc.mono (Nat.le_succ n)

/-! ## Another page for the pool -/

theorem pageOf_of_aligned (hb : b.toNat % 4096 = 0) : pageOf a = pageOf b ↔ InPageAt b a := by
  have h1 := a.isLt
  have h2 := b.isLt
  rw [pageOf_eq_iff]
  unfold InPageAt
  omega

theorem held_apart (hb : b.toNat % 4096 = 0)
    (hpage : PageOk m b) (hfar : ∀ x ∈ pt.bases, Far b x) (ha : m.Held pt a) :
    pageOf a ≠ pageOf b := by
  have hne {x : Word} (hx : x ∈ pt.bases) (h : InPageAt x a) : ¬ InPageAt b a := by
    have h1 := hfar x hx
    unfold Far at h1
    unfold InPageAt at h ⊢
    omega
  rw [ne_eq, pageOf_of_aligned hb]
  obtain (h1 | ⟨r, hr, h1⟩) | ⟨x, hx, h1⟩ := ha
  · have h2 := hpage.apart
    unfold InPageAt
    omega
  · exact hne (List.mem_append_left _ (List.mem_map_of_mem hr)) h1
  · exact hne (List.mem_append_right _ (List.mem_map_of_mem hx)) h1

theorem mapNewPage_inPlace {x : L2Ptr × Word} (hl : m.Linear pt) (hp : PoolOk m pt)
    (hc : CountersFit 1 pt) (hx : m.NextOk pt x) (hpage : PageOk m x.2)
    (hfar : ∀ b ∈ pt.bases, Far x.2 b) :
    m.mapNewPage pt x.1 x.2 = pt.mapNewPage m x.1 x.2 ∧
      ∀ pt1, pt.mapNewPage m x.1 x.2 = some pt1 →
        m.Linear pt1 ∧ ∀ a, InPageAt x.2 a → m.InPlace pt1 a := by
  unfold MmuConfig.mapNewPage PageTables.mapNewPage
  by_cases hs : m.isStatic x.1 = true
  · rw [if_pos hs, if_pos hs]
    refine ⟨rfl, fun pt1 h => ?_⟩
    cases h
    exact ⟨hl, hx.static hs⟩
  · obtain ⟨hb, hframe, hns, hplain⟩ := hx.heap (Bool.eq_false_iff.mpr hs)
    have hapart : m.Apart pt (secureEntry m ptfProtKrw x.2
        (secureVirToPhy m x.2)) :=
      fun _ _ a ha => ⟨held_apart hb hpage hfar ha, fun _ => ⟨rfl, rfl⟩⟩
    rw [if_neg hs, if_neg hs, hframe]
    refine ⟨by rw [mapSmallPage_linear hl hp hc hapart], fun pt1 h => ?_⟩
    obtain ⟨y, hy, rfl⟩ := Option.map_eq_some_iff.mp h
    have hkeep := mapSmallPage_keeps hl hp hapart hy
    refine ⟨hkeep, fun a ha => inPlace_of_on fun he => ?_⟩
    obtain ⟨-, hw, hwr⟩ | ⟨-, hnf, hnc, h1⟩ := mapSmallPage_spec hp hy
    · have hin := hl.tables _ (l1_tableAt hp.config pt 0)
      obtain ⟨z, h1, h2, h3⟩ := hwr.translate_page (a := a) hb
        ((hin.phys_aligned he _).mpr hb) ((pageOf_of_aligned hb).mpr ha)
      have h4 : z.ns = 0 := by
        rw [h2, hwr.ns]
        split_ifs with hc'
        · exact hns he hc'
        · rfl
      refine InPlace.of_translate he (h1.trans (congrArg some (Prod.ext ?_ rfl))) ?_
      · exact vir_way a x.2
      · rw [h3 h4]
        rfl
    · rw [h1]
      exact hplain hnf hnc a ha

theorem Linear.joinPage {x : L2Ptr × Word} (hl : m.Linear pt) (hx : x.1 ∉ pt.refs)
    (hal : m.isStatic x.1 = false → x.2.toNat % 4096 = 0)
    (hin : ∀ a, InPageAt x.2 a → m.InPlace pt a) : m.Linear (pt.joinPage x.1 x.2) := by
  have hold {q : L2Ptr} (hq : q ∈ pt.refs) : (pt.joinPage x.1 x.2).pageBase q = pt.pageBase q :=
    update_of_ne (fun h3 : q = x.1 => hx (h3 ▸ hq)) ..
  have hnew : (pt.joinPage x.1 x.2).pageBase x.1 = x.2 := update_self ..
  refine ⟨⟨hl.off, fun q hq hs => ?_, fun a ha => ?_⟩,
    fun y hy => (hl.next y hy).frame fun _ a _ => ⟨Or.inl rfl, Or.inl rfl⟩, fun h => ?_⟩
  · obtain hq | hq := List.mem_append.mp (show q ∈ pt.refs ++ [x.1] from hq)
    · rw [hold hq]
      exact hl.aligned q hq hs
    · obtain rfl := List.mem_singleton.mp hq
      rw [hnew]
      exact hal hs
  · obtain h1 | ⟨q, hq, h1⟩ := ha
    · exact hl.tables a (Or.inl h1)
    · obtain hq | hq := List.mem_append.mp (show q ∈ pt.refs ++ [x.1] from hq)
      · rw [hold hq] at h1
        exact hl.tables a (Or.inr ⟨q, hq, h1⟩)
      · obtain rfl := List.mem_singleton.mp hq
        rw [hnew] at h1
        exact hin a h1
  · exact absurd h (List.append_ne_nil_of_right_ne_nil _ (List.cons_ne_nil _ _))

theorem joinPage_bases {x : L2Ptr × Word} (hx : x.1 ∉ pt.refs) (h : b ∈ (pt.joinPage x.1 x.2).bases) :
    b = x.2 ∨ b ∈ pt.bases := by
  obtain h | h := List.mem_append.mp h
  · obtain ⟨q, hq, rfl⟩ := List.mem_map.mp h
    obtain hq | hq := List.mem_append.mp (show q ∈ pt.refs ++ [x.1] from hq)
    · have h1 : (pt.joinPage x.1 x.2).pageBase q = pt.pageBase q :=
        update_of_ne (fun h3 : q = x.1 => hx (h3 ▸ hq)) ..
      rw [h1]
      exact Or.inr (List.mem_append_left _ (List.mem_map_of_mem hq))
    · rw [List.mem_singleton.mp hq]
      exact Or.inl (update_self ..)
  · exact Or.inr (List.mem_append_right _ h)

theorem CountersFit.joinPage {x : L2Ptr × Word} (hx : x.1 ∉ pt.refs) (hc : CountersFit (n + 4) pt) :
    CountersFit n (pt.joinPage x.1 x.2) := by
  have hc' : CountersFit n pt := hc.mono (Nat.le_add_right n 4)
  refine ⟨fun q k => ?_, fun q => ?_, hc'.usedAll, ?_⟩
  · have h1 : (pt.joinPage x.1 x.2).count q k = pt.count q k := count_addPage hx x.2 q k
    rw [h1]
    exact hc'.page q k
  · have h1 : (pt.joinPage x.1 x.2).used q = pt.used q := used_addPage hx x.2 q
    rw [h1]
    exact hc'.used q
  · have h1 := hc.allocated
    show pt.blkAllocated + 4 + n < _
    omega

theorem mapNewPage_pages {x : L2Ptr × Word} (hp : PoolOk m pt)
    (h : pt.mapNewPage m x.1 x.2 = some pt1) :
    (∀ q, q ∈ pt1.names ↔ q ∈ pt.names) ∧ ∀ b, b ∈ pt1.bases ↔ b ∈ pt.bases := by
  unfold PageTables.mapNewPage at h
  split_ifs at h
  · cases h
    exact ⟨fun _ => Iff.rfl, fun _ => Iff.rfl⟩
  · obtain ⟨y, hy, rfl⟩ := Option.map_eq_some_iff.mp h
    obtain ⟨-, -, hwr⟩ | ⟨-, -, -, h1⟩ := mapSmallPage_spec hp hy
    · exact ⟨hwr.names, hwr.bases⟩
    · rw [h1]
      exact ⟨fun _ => Iff.rfl, fun _ => Iff.rfl⟩

theorem mapNewPage_counted {x : L2Ptr × Word} (hp : PoolOk m pt)
    (hc : CountersFit (n + 1) pt) (h : pt.mapNewPage m x.1 x.2 = some pt1) :
    CountersFit n pt1 := by
  unfold PageTables.mapNewPage at h
  split_ifs at h
  · cases h
    exact hc.mono (Nat.le_succ n)
  · obtain ⟨y, hy, rfl⟩ := Option.map_eq_some_iff.mp h
    exact mapSmallPage_counted hp hc hy

/-- what a call keeps, with counters that can be incremented `n` times behind it -/
structure Kept (m : MmuConfig) (n : Nat) (pt pt' : PageTables) : Prop where
  ok : PoolOk m pt'
  linear : m.Linear pt'
  counted : CountersFit n pt'
  bases : pt'.bases ⊆ pt.bases

theorem Kept.trans {k : Nat} (h1 : m.Kept k pt pt1) (h2 : m.Kept n pt1 pt') : m.Kept n pt pt' :=
  ⟨h2.ok, h2.linear, h2.counted, fun _ h => h1.bases (h2.bases h)⟩

theorem growPool_linear (hl : m.Linear pt) (hp : PoolOk m pt) (hc : CountersFit (n + 5) pt)
    (hne : pt.refs ≠ []) : m.growPool pt = pt.growPool m ∧
      ∀ pt', pt.growPool m = some pt' → m.Kept n pt pt' := by
  have hok {pt' : PageTables} (h : pt.growPool m = some pt') :=
    (growPool_spec hp h).1
  unfold MmuConfig.growPool PageTables.growPool
  unfold PageTables.growPool at hok
  by_cases hle : uintSub pt.blkAllocated pt.blkUsedAll ≤ 2
  · rw [if_pos hle, if_pos hle]
    simp only [if_pos hle] at hok
    cases hres : pt.reserve with
    | nil => exact ⟨rfl, nofun⟩
    | cons x reserve =>
      rw [hres] at hok
      obtain ⟨hp1, hx, hfar, hpage⟩ := hp.nextPage hres
      have hmem : x ∈ pt.reserve := by
        rw [hres]
        exact List.mem_cons_self
      have hnext : m.NextOk (pt.withReserve reserve) x :=
        (hl.next x hmem).frame fun _ a _ => ⟨Or.inl rfl, Or.inl rfl⟩
      have hl1 : m.Linear (pt.withReserve reserve) := by
        refine ⟨⟨hl.off, hl.aligned, hl.tables⟩, fun y hy => (hl.next y ?_).frame fun _ a _ =>
          ⟨Or.inl rfl, Or.inl rfl⟩, fun h => absurd h hne⟩
        rw [hres]
        exact List.mem_cons_of_mem _ hy
      have hc1 : CountersFit (n + 5) (pt.withReserve reserve) := { hc with }
      obtain ⟨h1, h2⟩ := mapNewPage_inPlace hl1 hp1 (hc1.mono (by omega)) hnext hpage hfar
      dsimp only at hok ⊢
      rw [h1]
      cases h3 : (pt.withReserve reserve).mapNewPage m x.1 x.2 with
      | none => exact ⟨rfl, nofun⟩
      | some pt1 =>
        obtain ⟨h4, h5⟩ := h2 pt1 h3
        have hc2 : CountersFit (n + 4) pt1 := mapNewPage_counted hp1 hc1 h3
        have hall := hc2.allocated
        obtain ⟨hnames, hbases⟩ := mapNewPage_pages hp1 h3
        have hnot : x.1 ∉ pt1.names := fun h6 => hx ((hnames _).mp h6)
        have hrefs : x.1 ∉ pt1.refs := fun h6 => hnot (List.mem_append_left _ h6)
        have hjoin : MmuConfig.joinPage pt1 x.1 x.2 = pt1.joinPage x.1 x.2 := by
          unfold MmuConfig.joinPage PageTables.joinPage uintAdd
          rw [Nat.mod_eq_of_lt (by omega)]
        rw [Option.map_some, Option.map_some, hjoin]
        rw [h3] at hok
        refine ⟨rfl, fun pt' h => ?_⟩
        have hok' := hok h
        cases h
        refine ⟨hok', h4.joinPage hrefs (fun hs => (hnext.heap hs).1) h5,
          CountersFit.joinPage hrefs hc2, fun b hb => ?_⟩
        obtain rfl | hb := joinPage_bases hrefs hb
        · exact List.mem_append_right _ (List.mem_map_of_mem hmem)
        · obtain hb | hb := List.mem_append.mp ((hbases b).mp hb)
          · exact List.mem_append_left _ hb
          · refine List.mem_append_right _ ?_
            rw [hres]
            exact List.mem_cons_of_mem _ hb
  · rw [if_neg hle, if_neg hle]
    refine ⟨rfl, fun pt' h => ?_⟩
    cases h
    exact ⟨hp, hl, hc.mono (Nat.le_add_right n 5), List.Subset.refl _⟩

theorem mapSmallPageEntry_linear (hl : m.Linear pt) (hp : PoolOk m pt)
    (hc : CountersFit (n + 6) pt) (hapart : m.Apart pt e) :
    m.mapSmallPageEntry pt e = pt.mapSmallPageEntry m e ∧
      ∀ x, pt.mapSmallPageEntry m e = some x → m.Kept n pt x.1 := by
  unfold MmuConfig.mapSmallPageEntry PageTables.mapSmallPageEntry
  rw [mapSmallPage_linear hl hp (hc.mono (by omega)) hapart]
  cases hy : pt.mapSmallPage m e with
  | none => exact ⟨rfl, nofun⟩
  | some y =>
    have hl1 := mapSmallPage_keeps hl hp hapart hy
    have hc1 : CountersFit (n + 5) y.1 := mapSmallPage_counted hp hc hy
    rw [Option.bind_some, Option.bind_some]
    obtain ⟨h1, hw, hwr, r, j, hb⟩ | ⟨h1, -, -, h2⟩ := mapSmallPage_booked hp hy
    · have hone : m.Kept (n + 5) pt y.1 :=
        ⟨hwr.ok, hl1, hc1, fun b hb => (hwr.bases b).mp hb⟩
      obtain ⟨h3, h4⟩ := growPool_linear hl1 hwr.ok hc1 (List.ne_nil_of_mem hb.mem)
      rw [if_pos h1, if_pos h1, h3]
      refine ⟨rfl, fun x h => ?_⟩
      obtain ⟨pt', h5, rfl⟩ := Option.map_eq_some_iff.mp h
      exact hone.trans (h4 pt' h5)
    · rw [if_neg h1, if_neg h1]
      refine ⟨rfl, fun x h => ?_⟩
      cases h
      rw [h2]
      exact ⟨hp, hl, hc.mono (Nat.le_add_right n 6), List.Subset.refl _⟩

/-! ## Ranges -/

theorem held_iff : m.Held pt a ↔ (m.pgd.toNat ≤ a.toNat ∧ a.toNat < m.pgd.toNat + 16384) ∨
    ∃ b ∈ pt.bases, InPageAt b a := by
  unfold Held TableAt PageTables.bases
  simp only [List.mem_append, List.mem_map, or_and_right, exists_or, or_assoc, ↓existsAndEq, and_true]

/-- with the MMU on, a range without the tables and the pages for the pool -/
def Clear (m : MmuConfig) (pt : PageTables) (va size : Word) : Prop :=
  m.mmuEnabled = true → ∀ a, m.Held pt a → ¬ InRange va size a

theorem clear_of_free {va size : Word} (hl : m.Linear pt)
    (hfree : ∀ a, InRange va size a → pt.translate m a = none)
    (haway : ∀ b, InRange va size b → Away m pt b) : m.Clear pt va size := by
  intro he a ha hin
  have hno : ¬ m.InPlace pt a := fun h => by
    obtain ⟨x, hx, -⟩ := h.translate he
    rw [hfree a hin] at hx
    cases hx
  obtain h1 | ⟨x, hx, h1⟩ := ha
  · exact hno (hl.tables a h1)
  · by_cases hs : m.isStatic x.1 = true
    · exact hno ((hl.next x hx).static hs a h1)
    · have hs := Bool.eq_false_iff.mpr hs
      exact haway a hin x hx hs ((pageOf_of_aligned ((hl.next x hx).heap hs).1).mpr h1)

theorem Kept.held (h : m.Kept n pt pt') (ha : m.Held pt' a) : m.Held pt a := by
  rw [held_iff] at ha ⊢
  exact ha.imp_right fun ⟨b, hb, h1⟩ => ⟨b, h.bases hb, h1⟩

theorem mapSectionEntry_linear (hl : m.Linear pt) (hp : PoolOk m pt)
    (hc : CountersFit n pt)
    (hclear : m.mmuEnabled = true → ∀ a, m.Held pt a → l1Index a ≠ l1Index e.va) :
    m.mapSectionEntry pt e = some (pt.mapSectionEntry m e) ∧
      m.Kept n pt (pt.mapSectionEntry m e).1 := by
  obtain ⟨h1, h2, h3, -, -⟩ := mapSectionEntry_spec hp e
  have hsame : (pt.mapSectionEntry m e).1.refs = pt.refs ∧
      (pt.mapSectionEntry m e).1.bases = pt.bases ∧
      CountersFit n (pt.mapSectionEntry m e).1 ∧
      (∀ r ∈ (pt.mapSectionEntry m e).1.refs, m.isStatic r = false →
        ((pt.mapSectionEntry m e).1.pageBase r).toNat % 4096 = 0) ∧
      ∀ a, m.TableAt (pt.mapSectionEntry m e).1 a → m.TableAt pt a := by
    unfold PageTables.mapSectionEntry
    split_ifs
    · exact ⟨rfl, rfl, { hc with }, hl.aligned, fun _ h => h⟩
    · exact ⟨rfl, rfl, hc, hl.aligned, fun _ h => h⟩
    · exact ⟨rfl, rfl, hc, hl.aligned, fun _ h => h⟩
  obtain ⟨hrefs, hbases, hcount, haligned, htable⟩ := hsame
  refine ⟨?_, h1, ?_, hcount, fun b hb => hbases ▸ hb⟩
  · unfold MmuConfig.mapSectionEntry PageTables.mapSectionEntry
    rw [hl.entry hp.config, Option.bind_some]
    split_ifs
    · rw [hl.setEntry hp.config]
      rfl
    · rfl
    · rfl
  · refine hl.frame (fun a ha => ⟨hl.tables a (htable a ha), Or.inl (htable a ha)⟩)
      haligned (fun _ h => h3 ▸ h) (fun h => ⟨hrefs ▸ h, h3⟩) fun he a ha => ?_
    exact h2.frameAt (hclear he a ha) True

theorem mapLoop_linear (ptf : Word) {va pa size : Word} (hl : m.Linear pt) (hp : PoolOk m pt)
    (hc : CountersFit (6 * n) pt) (hva : va.toNat % 4096 = 0) (hpa : pa.toNat % 4096 = 0)
    (hsize : size.toNat % 4096 = 0) (hclear : m.Clear pt va size) :
    m.mapLoop (secureEntry m ptf) n pt va pa size
        = pt.mapLoop m ptf n va pa size ∧
      ∀ pt', pt.mapLoop m ptf n va pa size = some pt' → m.Kept 0 pt pt' := by
  induction n generalizing pt va pa size with
  | zero =>
    unfold MmuConfig.mapLoop PageTables.mapLoop
    refine ⟨rfl, fun pt' h => ?_⟩
    split_ifs at h
    cases h
    exact ⟨hp, hl, hc, List.Subset.refl _⟩
  | succ n ih =>
    have hsection : (BitVec.ofNat 32 sectionBytes).toNat = 1048576 := rfl
    have hpage : (BitVec.ofNat 32 pageBytes).toNat = 4096 := rfl
    unfold MmuConfig.mapLoop PageTables.mapLoop
    have hrest {d : Word} {page : Prop} {pt1 : PageTables} (hd : FirstStep va pa size d page)
        (hk : m.Kept (6 * n) pt pt1) := ih hk.linear hk.ok hk.counted hd.va_rest hd.pa_rest
      (hd.size_rest hsize) fun he a ha h1 => hclear he a (hk.held ha)
        ((InRange.step hd.fits).mpr (Or.inr h1))
    by_cases h1 : size = 0
    · rw [if_pos h1, if_pos h1]
      refine ⟨rfl, fun pt' h => ?_⟩
      cases h
      exact ⟨hp, hl, hc.mono (Nat.zero_le _), List.Subset.refl _⟩
    · rw [if_neg h1, if_neg h1]
      by_cases h2 : BitVec.ofNat 32 sectionBytes ≤ size ∧ sectionAligned va ∧ sectionAligned pa
      · have hd := FirstStep.ofSection h2 hva hpa
        rw [if_pos h2, if_pos h2]
        have hfirst (he : m.mmuEnabled = true) (a : Word) (ha : m.Held pt a) :
            l1Index a ≠ l1Index (secureEntry m ptf va pa).va := fun h3 => by
          have h4 := (l1Index_way (hd.isSection id).2.1).mp h3
          exact hclear he a ha ((InRange.step hd.fits).mpr (Or.inl (by omega)))
        obtain ⟨h3, h4⟩ := mapSectionEntry_linear hl hp (hc.mono (show 6 * n ≤ _ by omega)) hfirst
        obtain ⟨h5, h6⟩ := hrest hd h4
        rw [h3, Option.bind_some, h5]
        exact ⟨rfl, fun pt' h => h4.trans (h6 pt' h)⟩
      · have hd := FirstStep.ofPage h1 h2 hva hpa hsize
        rw [if_neg h2, if_neg h2]
        have hfirst : m.Apart pt (secureEntry m ptf va pa) := fun he _ a ha => by
          refine ⟨fun h3 => ?_, fun _ => ⟨rfl, rfl⟩⟩
          have h4 := (pageOf_way hva).mp h3
          exact hclear he a ha ((InRange.step hd.fits).mpr (Or.inl (by omega)))
        obtain ⟨h3, h4⟩ := mapSmallPageEntry_linear hl hp hc hfirst
        rw [h3]
        cases hx : pt.mapSmallPageEntry m (secureEntry m ptf va pa) with
        | none => exact ⟨rfl, fun _ h => by cases h⟩
        | some x =>
          obtain ⟨h5, h6⟩ := hrest hd (h4 x hx)
          rw [Option.bind_some, Option.bind_some, h5]
          exact ⟨rfl, fun pt' h => (h4 x hx).trans (h6 pt' h)⟩

theorem mapSecureMemory_linear (ptf pa : Word) {va size : Word} (hl : m.Linear pt)
    (hp : PoolOk m pt) (hc : CountersFit (6 * (size.toNat / pageBytes)) pt)
    (hclear : m.Clear pt va size) :
    m.mapSecureMemory pt va pa size ptf = pt.mapSecureMemory m va pa size ptf ∧
      ∀ x, pt.mapSecureMemory m va pa size ptf = some x → m.Kept 0 pt x.1 := by
  unfold MmuConfig.mapSecureMemory PageTables.mapSecureMemory
  by_cases h1 : pageAligned size ∧ pageAligned va ∧ pageAligned pa
  · obtain ⟨h2, h3⟩ := mapLoop_linear ptf hl hp hc (pageAligned_iff.mp h1.2.1)
      (pageAligned_iff.mp h1.2.2) (pageAligned_iff.mp h1.1) hclear
    rw [if_pos h1, if_pos h1, h2]
    refine ⟨rfl, fun x h => ?_⟩
    obtain ⟨pt', h4, rfl⟩ := Option.map_eq_some_iff.mp h
    exact h3 pt' h4
  · rw [if_neg h1, if_neg h1]
    refine ⟨rfl, fun x h => ?_⟩
    cases h
    exact ⟨hp, hl, hc.mono (Nat.zero_le _), List.Subset.refl _⟩

end

end MmuConfig

/-! ## A table -/

/-- the MMU is on -/
def plainMmu : MmuConfig where
  toPageConfig := plainConfig
  mmuEnabled := true
  frame := id

theorem sectionTable_inPlace (w : Word) {a : Word} (h : a.toNat < 1048576) :
    plainMmu.InPlace (sectionTable w) a := by
  have hi : l1Index a = 0 := by
    apply BitVec.eq_of_toNat_eq
    unfold l1Index
    rw [extract_toNat]
    show a.toNat / 2 ^ 20 % 2 ^ 12 = 0
    omega
  have hentry : (sectionTable w).entry plainConfig (l1Index a) = 0x402 := by
    rw [hi]
    rfl
  refine MmuConfig.InPlace.of_translate (x := sectionAttrs 0x402) rfl ?_ (by decide)
  unfold PageTables.translate
  rw [show PageTables.entry plainMmu.toPageConfig _ _ = _ from hentry, if_pos (by decide)]
  refine congrArg some (Prod.ext (BitVec.eq_of_toNat_eq ?_) rfl)
  have h1 : a - 0 = a := BitVec.sub_zero a
  show ((0 : BitVec 12) ++ a.extractLsb' 0 20 : BitVec 32).toNat = (a - 0).toNat
  rw [append_toNat, extract_toNat, h1]
  show 0 * 2 ^ 20 + a.toNat / 2 ^ 0 % 2 ^ 20 = a.toNat
  omega

theorem sectionTable_held {w a : Word} (h : plainMmu.Held (sectionTable w) a) :
    0x4000 ≤ a.toNat ∧ a.toNat < 0x12000 := by
  have hpgd : plainMmu.pgd.toNat = 0x4000 := rfl
  obtain h1 | ⟨b, hb, h1⟩ := MmuConfig.held_iff.mp h
  · omega
  · have h2 : b = 0x10000 ∨ b = 0x11000 := by
      simpa [PageTables.bases, sectionTable] using hb
    obtain ⟨h3, h4⟩ := h1
    have h5 : (0x10000 : Word).toNat = 0x10000 := rfl
    have h6 : (0x11000 : Word).toNat = 0x11000 := rfl
    rcases h2 with rfl | rfl <;> omega

theorem sectionTable_linear (w : Word) : plainMmu.Linear (sectionTable w) := by
  have hin {a : Word} (h : plainMmu.Held (sectionTable w) a) : plainMmu.InPlace (sectionTable w) a :=
    sectionTable_inPlace w (Nat.lt_trans (sectionTable_held h).2 (by decide))
  refine ⟨⟨fun _ => rfl, fun r hr => absurd hr List.not_mem_nil, fun a ha => hin (Or.inl ha)⟩,
    fun x hx => ?_, fun _ _ _ => rfl⟩
  exact ⟨fun _ a ha => hin (Or.inr ⟨x, hx, ha⟩), fun h => absurd (show true = false from h) (by decide)⟩

theorem sectionTable_counted (w : Word) {n : Nat} (h : 4 + n < 2 ^ 32) :
    CountersFit n (sectionTable w) := by
  have h1 : n < 2 ^ 32 := by omega
  refine ⟨fun q j => ?_, fun q => ?_, ?_, h⟩
  · show (if q ∈ [] then _ else 0) + n < _
    rw [if_neg List.not_mem_nil, Nat.zero_add]
    exact h1
  · show (if q ∈ [] then _ else 0) + n < _
    rw [if_neg List.not_mem_nil, Nat.zero_add]
    exact h1
  · rw [show (sectionTable w).blkUsedAll = 0 from rfl, Nat.zero_add]
    exact h1

end SierraTee
