import SierraTee.Paging.InPlace
import SierraTee.Paging.RangeSections

/-!
# Unmapping with the tables in place

* `Freed.placed`               a page that is unmapped leaves the tables in place, if none of them
                               is in it;
* `unmapSmallPageEntry_agree`  up to the call for a page that is given back;
* `unmapLoop_linear`           the loop of `unmap_secure_memory` behind that of `map_secure_memory`.
-/

namespace SierraTee
open FlatMemory PageTables

namespace MmuConfig
variable {m : MmuConfig} {pt pt' pt0 : PageTables} {a va size w : Word} {r : L2Ptr} {j : Fin 4}
  {i : BitVec 12} {k : BitVec 8} {n : Nat}

/-- with the MMU on, and if the page can be unmapped: it is none of the tables, and none is in its
section if it is the last one there by the counter -/
def Bare (m : MmuConfig) (pt : PageTables) (va : Word) : Prop := m.mmuEnabled = true →
  Coarse (pt.entry m (l1Index va)) → ∀ a, m.TableAt pt a →
    pageOf a ≠ pageOf va ∧ (l1Index a = l1Index va → pt.uses m (l1Index va) ≠ 1)

theorem Freed.tableAt (h : Freed m i k pt pt' r j) : m.TableAt pt' a ↔ m.TableAt pt a := by
  unfold TableAt
  rw [h.refs, h.pageBase]

theorem Freed.placed (h : Freed m (l1Index va) (l2Index va) pt pt' r j)
    (hp : PoolOk m pt) (hc : Coarse (pt.entry m (l1Index va)))
    (hl : m.Placed pt) (hbare : m.Bare pt va) : m.Placed pt' := by
  refine ⟨hl.off, fun q hq => ?_, fun a ha => ?_⟩
  · rw [h.refs] at hq
    rw [h.pageBase]
    exact hl.aligned q hq
  have ha := (Freed.tableAt h).mp ha
  refine inPlace_of_on fun he => ?_
  obtain ⟨h1, h2⟩ := hbare he hc a ha
  by_cases h3 : l1Index a = l1Index va
  · have h4 : pt.count r j ≠ 1 := fun h4 => h2 h3 ((hp.uses h.mem h.table).trans h4)
    obtain ⟨h5, h6⟩ := h.more h4
    refine (hl.tables a ha).frame (frame_same ?_ (fun _ => ?_) True)
    · rw [h3, h5]
    · rw [h3, h6, if_neg fun h7 => h1 (pageOf_iff.mpr ⟨h3, h7⟩)]
  · exact (hl.tables a ha).frame (h.elsewhere.frameAt h3 True)

theorem releaseTable_linear (h : m.InPlace pt (nth m.pgd i.toNat)) :
    m.releaseTable pt i r j = some (pt.releaseTable m i r j) := by
  have h1 : m.InPlace (pt.setPage r j (uintSub (pt.page r j) 1)) (nth m.pgd i.toNat) := h
  unfold MmuConfig.releaseTable PageTables.releaseTable
  dsimp only
  split_ifs
  · rw [show m.setEntry _ i 0 = _ from h1.store 0]
    rfl
  · rfl

/-- the call in place is that of `PageTables`, and leaves the tables in place -/
def Agree (m : MmuConfig) (n : Nat) (pt : PageTables) (va : Word) : Prop :=
  m.unmapSmallPageEntry n pt va = PageTables.unmapSmallPageEntry m n pt va ∧
    ∀ x, PageTables.unmapSmallPageEntry m n pt va = some x → m.Placed x.1

theorem Placed.dropPage (h : m.Placed pt) (r : L2Ptr) : m.Placed (pt.dropPage r) := by
  refine ⟨h.off, fun q hq => h.aligned q (List.mem_of_mem_erase hq),
    fun a ha => h.tables a (ha.imp_right ?_)⟩
  rintro ⟨q, hq, h1⟩
  exact ⟨q, List.mem_of_mem_erase hq, h1⟩

theorem unmapSmallPageEntry_agree (hp : PoolOk m pt) (hl : m.Placed pt)
    (hbare : m.Bare pt va) (hrec : ∀ pt' r j, Coarse (pt.entry m (l1Index va)) →
      Freed m (l1Index va) (l2Index va) pt pt' r j → m.Placed pt' →
      pt'.shrinks r = true → m.isStatic r = false → ∀ k < n, m.Agree k (pt'.dropPage r) (pt'.pageBase r)) :
    m.Agree n pt va := by
  unfold Agree
  by_cases hi : Coarse (pt.entry m (l1Index va))
  · obtain ⟨r, hr, j, ht⟩ := hp.table _ hi
    have hfreed := Freed.of_release hp hi hr ht (l2Index va)
    have hplaced := Freed.placed hfreed hp hi hl hbare
    have hrest := hrec _ r j hi hfreed hplaced
    have hin : m.InPlace pt (nth (pt.slotBase r j) (l2Index va).toNat) :=
      hl.tables _ (l2_tableAt hp.toTablesOk hr j _)
    have hfind : (pt.store (nth (pt.slotBase r j) (l2Index va).toNat) 0).findRef (pt.slotBase r j)
        = some (r, j) := hp.findRef hr j
    have hfirst : m.InPlace (pt.store (nth (pt.slotBase r j) (l2Index va).toNat) 0)
        (nth m.pgd (l1Index va).toNat) := by
      have h1 := l1_tableAt hp.config pt (l1Index va)
      have hst := Stored.of_setPage (hp.counted _ hi r hr j ht) hp.toTablesOk hi hr ht
        (fun i' _ hi' q hq l h => hp.counted i' hi' q hq l h) (l2Index va) 0
      rw [setPage_self] at hst
      refine inPlace_of_on fun he =>
        (hl.tables _ h1).frame (frame_same (hst.entry _) (fun hc => ?_) True)
      rw [hst.l2At _ hc, if_neg]
      exact fun h2 => (hbare he hi _ h1).1 (pageOf_iff.mpr h2)
    generalize hpt' : (pt.store (nth (pt.slotBase r j) (l2Index va).toNat) 0).releaseTable
      m (l1Index va) r j = pt' at hplaced hrest
    have hdesc : descType (pt.entry m (l1Index va)) = pageDescTypeCoarse := hi
    unfold MmuConfig.unmapSmallPageEntry PageTables.unmapSmallPageEntry
    rw [hl.entry hp.config, Option.bind_some, if_pos hdesc]
    simp only [if_pos hdesc, ht, hfind, hpt']
    rw [hin.store, Option.bind_some]
    simp only [hfind]
    rw [releaseTable_linear hfirst, Option.bind_some, hpt']
    split_ifs with hs hstatic
    · refine ⟨rfl, fun x h => ?_⟩
      cases h
      exact hplaced.dropPage r
    · cases n with
      | zero => exact ⟨rfl, nofun⟩
      | succ n =>
        obtain ⟨h1, h2⟩ := hrest hs (Bool.eq_false_iff.mpr hstatic) n (Nat.lt_succ_self n)
        dsimp only
        rw [h1]
        refine ⟨rfl, fun x h => ?_⟩
        obtain ⟨y, hy, rfl⟩ := Option.map_eq_some_iff.mp h
        exact h2 y hy
    · refine ⟨rfl, fun x h => ?_⟩
      cases h
      exact hplaced
  · have hdesc : ¬ descType (pt.entry m (l1Index va)) = pageDescTypeCoarse := hi
    unfold MmuConfig.unmapSmallPageEntry PageTables.unmapSmallPageEntry
    rw [hl.entry hp.config, Option.bind_some, if_neg hdesc]
    simp only [if_neg hdesc]
    refine ⟨trivial, fun x h => ?_⟩
    cases h
    exact hl

/-! ## A range -/

structure Within (m : MmuConfig) (pt pt' : PageTables) : Prop where
  tables : ∀ a, m.TableAt pt' a → m.TableAt pt a
  coarse : ∀ i, Coarse (pt'.entry m i) → Coarse (pt.entry m i)

theorem Within.refl (pt : PageTables) : m.Within pt pt := ⟨fun _ h => h, fun _ h => h⟩

theorem Freed.within (h : Freed m i k pt pt' r j)
    (hi : Coarse (pt.entry m i)) : m.Within pt pt' := by
  refine ⟨fun a => (Freed.tableAt h).mp, fun i' hi' => ?_⟩
  by_cases h1 : i' = i
  · rw [h1]
    exact hi
  · rw [← h.elsewhere.entry i' h1]
    exact hi'

theorem unmapSectionEntry_linear (va : Word) (hp : PoolOk m pt) (hl : m.Placed pt)
    (hclear : m.mmuEnabled = true → ∀ a, m.TableAt pt a → l1Index a ≠ l1Index va) :
    m.unmapSectionEntry pt va = some (pt.unmapSectionEntry m va) ∧
      m.Placed (pt.unmapSectionEntry m va) ∧
      m.Within pt (pt.unmapSectionEntry m va) := by
  unfold MmuConfig.unmapSectionEntry PageTables.unmapSectionEntry
  rw [hl.entry hp.config, Option.bind_some]
  split_ifs
  · obtain ⟨-, helse⟩ := hp.setPlain (l1Index va) (show ¬ Coarse (0 : Word) by decide)
    refine ⟨hl.setEntry hp.config _ 0, ⟨hl.off, hl.aligned, fun a ha => ?_⟩, fun _ h => h, fun i hi => ?_⟩
    · exact inPlace_of_on fun he => (hl.tables a ha).frame (helse.frameAt (hclear he a ha) True)
    · rw [setEntry_entry' hp.config] at hi
      split_ifs at hi
      · exact absurd hi (by decide)
      · exact hi
  · exact ⟨rfl, hl, Within.refl pt⟩

/-- a table at an address in a section with a second-level table: the section had one at the
start -/
def Anchored (m : MmuConfig) (pt0 pt : PageTables) : Prop := m.mmuEnabled = true →
  ∀ a, m.TableAt pt a → Coarse (pt.entry m (l1Index a)) →
    Coarse (pt0.entry m (l1Index a))

theorem Anchored.within (h : m.Anchored pt0 pt) (hw : m.Within pt pt') : m.Anchored pt0 pt' :=
  fun he a ha hc => h he a (hw.tables a ha) (hw.coarse _ hc)

end MmuConfig

end SierraTee
