import SierraTee.Paging.Unmap

/-!
# The counters of the tables

* `mapSmallPageEntry_useOk`  a page that is mapped is counted.
-/

namespace SierraTee
open FlatMemory PageTables

/-- an address has an entry in a second-level table, which is no fault entry -/
def Mapped (c : PageConfig) (pt : PageTables) (a : Word) : Prop :=
  Coarse (pt.entry c (l1Index a)) ∧ ¬ Fault (pt.l2At c (l1Index a) (l2Index a))

/-- the entries of the table of `i` that are no fault entries -/
def pagesOf (c : PageConfig) (pt : PageTables) (i : BitVec 12) : Finset (BitVec 8) :=
  Finset.univ.filter fun k => ¬ Fault (pt.l2At c i k)

/-- every counter is the number of entries -/
def Exact (c : PageConfig) (pt : PageTables) : Prop :=
  ∀ i, Coarse (pt.entry c i) → pt.uses c i = (pagesOf c pt i).card

def Tallied (pt : PageTables) : Prop :=
  ∀ q, pt.used q = (Finset.univ.filter fun j : Fin 4 => pt.count q j ≠ 0).card

def SelfMapped (c : PageConfig) (pt : PageTables) : Prop :=
  ∀ r ∈ pt.refs, c.isStatic r = false → Mapped c pt (pt.pageBase r) ∨
    ¬ Fault (pt.entry c (l1Index (pt.pageBase r))) ∧ ¬ Coarse (pt.entry c (l1Index (pt.pageBase r)))

structure UseOk (c : PageConfig) (pt : PageTables) : Prop where
  pool : PoolOk c pt
  exact : Exact c pt
  tallied : Tallied pt
  self : SelfMapped c pt

def InPool (c : PageConfig) (pt : PageTables) (a : Word) : Prop :=
  ∃ r ∈ pt.refs, c.isStatic r = false ∧ pageOf a = pageOf (pt.pageBase r)

section
variable {c : PageConfig} {pt pt' : PageTables} {e : CpuPtEntry} {r : L2Ptr} {j : Fin 4}
  {i : BitVec 12} {k : BitVec 8} {a b : Word} {n : Nat}

theorem mem_pagesOf : k ∈ pagesOf c pt i ↔ ¬ Fault (pt.l2At c i k) := by
  unfold pagesOf
  rw [Finset.mem_filter, and_iff_right (Finset.mem_univ k)]

theorem small_not_fault {d : Word} (h : d.extractLsb' 1 1 = 1#1) : ¬ Fault d := fun h1 => by
  have h2 : descType d = 0 := h1
  rw [type_eq] at h2
  have h3 := congrArg BitVec.toNat h2
  have h4 := congrArg BitVec.toNat h
  rw [BitVec.toNat_setWidth, extract_toNat] at h3
  rw [extract_toNat] at h4
  have h5 : (1#1 : BitVec 1).toNat = 1 := rfl
  have h6 : (0 : Word).toNat = 0 := rfl
  omega

theorem fault_zero : Fault 0 := rfl

theorem translate_unmapped (hc : Coarse (pt.entry c (l1Index a)))
    (h : Fault (pt.l2At c (l1Index a) (l2Index a))) : pt.translate c a = none := by
  have h1 : descType (pt.l2At c (l1Index a) (l2Index a)) = 0 := h
  rw [type_eq] at h1
  have h2 := congrArg BitVec.toNat h1
  rw [BitVec.toNat_setWidth, extract_toNat] at h2
  have h3 : (0 : Word).toNat = 0 := rfl
  rw [translate_coarse hc]
  unfold PageTables.translateL2
  rw [if_neg, if_neg]
  · intro h4
    have h5 := congrArg BitVec.toNat h4
    rw [extract_toNat] at h5
    have h6 : (1#1 : BitVec 1).toNat = 1 := rfl
    omega
  · intro h4
    have h5 := congrArg BitVec.toNat h4
    rw [extract_toNat] at h5
    have h6 : (1#1 : BitVec 1).toNat = 1 := rfl
    omega

theorem Mapped.of_page (h : Mapped c pt a) (hb : pageOf b = pageOf a) : Mapped c pt b := by
  obtain ⟨h1, h2⟩ := pageOf_iff.mp hb
  unfold Mapped
  rw [h1, h2]
  exact h

/-! ## A page is written -/

theorem Written.mapped (h : Written c e pt pt')
    (hw : Fault (pt.entry c (l1Index e.va)) ∨ Coarse (pt.entry c (l1Index e.va))) :
    Mapped c pt' a ↔ pageOf a = pageOf e.va ∨ Mapped c pt a := by
  by_cases h1 : l1Index a = l1Index e.va
  · have hc : Coarse (pt'.entry c (l1Index a)) := by
      rw [h1]
      exact h.coarse
    have h2 := h.l2At (l2Index a)
    unfold Mapped
    rw [and_iff_right hc, pageOf_iff, and_iff_right h1, h1, h2]
    by_cases h3 : l2Index a = l2Index e.va
    · rw [if_pos h3]
      exact iff_of_true (small_not_fault (smallPageEntry_type e)) (Or.inl h3)
    · rw [if_neg h3, or_iff_right h3]
      obtain hf | hc := hw
      · rw [if_neg fun hc => coarse_not_fault hc hf]
        exact iff_of_false (fun h4 => h4 fault_zero) fun h4 => coarse_not_fault h4.1 hf
      · rw [if_pos hc, and_iff_right hc]
  · have h2 : pageOf a ≠ pageOf e.va := fun h2 => h1 (pageOf_iff.mp h2).1
    rw [or_iff_right h2]
    unfold Mapped
    rw [h.elsewhere.entry _ h1]
    refine and_congr_right fun hc => ?_
    rw [h.elsewhere.l2At _ h1 hc]

theorem Written.exact (h : Written c e pt pt') (hp : PoolOk c pt)
    (hb : Booked c (l1Index e.va) pt pt' r j) (hx : Exact c pt) (hnew : ¬ Mapped c pt e.va) :
    Exact c pt' := by
  intro i hi
  by_cases h1 : i = l1Index e.va
  · have hcount := hb.count r j
    rw [if_pos ⟨rfl, rfl⟩] at hcount
    rw [h1, h.ok.uses hb.mem hb.table, hcount]
    by_cases hc : Coarse (pt.entry c (l1Index e.va))
    · obtain ⟨hr, ht⟩ := hb.old hc
      have ht' : tableOf c (pt.entry c (l1Index e.va)) = pt.slotBase r j := by
        rw [← ht, hb.table]
        unfold PageTables.slotBase
        rw [(hb.refs r hr).2]
      have hpages : pagesOf c pt' (l1Index e.va)
          = insert (l2Index e.va) (pagesOf c pt (l1Index e.va)) := by
        ext k
        rw [mem_pagesOf, h.l2At, Finset.mem_insert, mem_pagesOf, if_pos hc]
        split_ifs with h2
        · exact iff_of_true (small_not_fault (smallPageEntry_type e)) (Or.inl h2)
        · exact (or_iff_right h2).symm
      have hnot : l2Index e.va ∉ pagesOf c pt (l1Index e.va) := fun h2 =>
        hnew ⟨hc, mem_pagesOf.mp h2⟩
      rw [hpages, Finset.card_insert_of_notMem hnot, ← hx _ hc, hp.uses hr ht']
    · have hpages : pagesOf c pt' (l1Index e.va) = {l2Index e.va} := by
        ext k
        rw [mem_pagesOf, h.l2At, Finset.mem_singleton, if_neg hc]
        split_ifs with h2
        · exact iff_of_true (small_not_fault (smallPageEntry_type e)) h2
        · exact iff_of_false (fun h3 => h3 fault_zero) h2
      rw [hpages, Finset.card_singleton, hb.new hc]
  · have hi' : Coarse (pt.entry c i) := by
      rw [← h.elsewhere.entry i h1]
      exact hi
    have hpages : pagesOf c pt' i = pagesOf c pt i := by
      ext k
      rw [mem_pagesOf, mem_pagesOf, h.elsewhere.l2At i h1 hi']
    rw [hb.uses hp.toTablesOk h.ok.toTablesOk h.elsewhere h.coarse h1 hi', hpages]
    exact hx i hi'

theorem Booked.tallied (hb : Booked c i pt pt' r j) (hp : PoolOk c pt) (h : Tallied pt) :
    Tallied pt' := by
  intro q
  have hold (hq : q ≠ r ∨ Coarse (pt.entry c i)) (l : Fin 4) :
      pt'.count q l ≠ 0 ↔ pt.count q l ≠ 0 := by
    rw [hb.count]
    by_cases h1 : q = r ∧ l = j
    · obtain hq | hc := hq
      · exact absurd h1.1 hq
      · obtain ⟨hr, ht⟩ := hb.old hc
        rw [if_pos h1, h1.1, h1.2, count_of_mem hr]
        refine iff_of_true (Nat.succ_ne_zero _) (hp.counted i hc r hr j ?_)
        rw [← ht, hb.table]
        unfold PageTables.slotBase
        rw [(hb.refs r hr).2]
    · rw [if_neg h1]
  by_cases h1 : q = r ∧ ¬ Coarse (pt.entry c i)
  · have hset : (Finset.univ.filter fun l : Fin 4 => pt'.count q l ≠ 0)
        = insert j (Finset.univ.filter fun l : Fin 4 => pt.count q l ≠ 0) := by
      ext l
      rw [Finset.mem_insert, Finset.mem_filter, Finset.mem_filter, hb.count]
      by_cases h2 : l = j
      · rw [if_pos ⟨h1.1, h2⟩]
        exact iff_of_true ⟨Finset.mem_univ l, Nat.succ_ne_zero _⟩ (Or.inl h2)
      · rw [if_neg fun h3 => h2 h3.2, or_iff_right h2]
    have hnot : j ∉ Finset.univ.filter fun l : Fin 4 => pt.count q l ≠ 0 := fun h2 => by
      rw [Finset.mem_filter, h1.1] at h2
      exact h2.2 (hb.new h1.2)
    rw [hset, Finset.card_insert_of_notMem hnot, hb.used, if_pos h1, h q]
  · have h2 : q ≠ r ∨ Coarse (pt.entry c i) := by
      by_contra h2
      obtain ⟨h3, h4⟩ := not_or.mp h2
      exact h1 ⟨not_not.mp h3, h4⟩
    rw [hb.used, if_neg h1, Nat.add_zero, h q]
    congr 1
    ext l
    rw [Finset.mem_filter, Finset.mem_filter, hold h2 l]

theorem Written.self (h : Written c e pt pt')
    (hw : Fault (pt.entry c (l1Index e.va)) ∨ Coarse (pt.entry c (l1Index e.va)))
    (hb : Booked c (l1Index e.va) pt pt' r j) (hs : SelfMapped c pt)
    (hfirst : pt.refs = [] → ∀ x, pt.reserve.head? = some x → c.isStatic x.1 = true) :
    SelfMapped c pt' := by
  intro q hq hheap
  by_cases hrefs : pt.refs = []
  · obtain ⟨x, hx, h1, -⟩ := hb.first hrefs q hq
    have h2 := hfirst hrefs x hx
    rw [← h1, hheap] at h2
    exact absurd h2 (by decide)
  · rw [hb.noMore hrefs] at hq
    rw [(hb.refs q hq).2]
    obtain h1 | ⟨h1, h2⟩ := hs q hq hheap
    · exact Or.inl ((h.mapped hw).mpr (Or.inr h1))
    · right
      rw [h.elsewhere.entry _ fun h3 => ?_]
      · exact ⟨h1, h2⟩
      · rw [h3] at h1 h2
        exact hw.elim h1 h2

theorem Written.useOk (h : Written c e pt pt') (hu : UseOk c pt)
    (hw : Fault (pt.entry c (l1Index e.va)) ∨ Coarse (pt.entry c (l1Index e.va)))
    (hb : Booked c (l1Index e.va) pt pt' r j) (hnew : ¬ Mapped c pt e.va)
    (hfirst : pt.refs = [] → ∀ x, pt.reserve.head? = some x → c.isStatic x.1 = true) :
    UseOk c pt' :=
  ⟨h.ok, h.exact hu.pool hb hu.exact hnew, hb.tallied hu.pool hu.tallied, h.self hw hb hu.self hfirst⟩

theorem UseOk.withReserve (h : UseOk c pt) {reserve : List (L2Ptr × Word)}
    (hp : PoolOk c (pt.withReserve reserve)) : UseOk c (pt.withReserve reserve) :=
  { h with pool := hp }

theorem UseOk.joinPage (h : UseOk c pt) {x : L2Ptr} (hx : x ∉ pt.names) (hb : ∀ y ∈ pt.bases, Far b y)
    (hpage : PageOk c b) (hself : c.isStatic x = false → Mapped c pt b ∨
      ¬ Fault (pt.entry c (l1Index b)) ∧ ¬ Coarse (pt.entry c (l1Index b))) :
    UseOk c (pt.joinPage x b) := by
  obtain ⟨hp, -, -⟩ := h.pool.addPage hx hb hpage
  have hp' : PoolOk c (pt.joinPage x b) :=
    ⟨{ hp with }, hp.counted⟩
  have hnot : x ∉ pt.refs := fun h1 => hx (List.mem_append_left _ h1)
  have hbase {q : L2Ptr} (hq : q ∈ pt.refs) : (pt.joinPage x b).pageBase q = pt.pageBase q := by
    have h1 : q ≠ x := fun h1 => hnot (h1 ▸ hq)
    exact Function.update_of_ne h1 ..
  have hin {q : L2Ptr} (hq : q ∈ pt.refs) : q ∈ (pt.joinPage x b).refs :=
    List.mem_append_left _ hq
  have hcount (q : L2Ptr) (l : Fin 4) : (pt.joinPage x b).count q l = pt.count q l :=
    count_addPage hnot b q l
  refine ⟨hp', fun i hi => ?_, fun q => ?_, fun q hq hheap => ?_⟩
  · obtain ⟨r, hr, j, ht⟩ := h.pool.table i hi
    have ht' : tableOf c ((pt.joinPage x b).entry c i) = (pt.joinPage x b).slotBase r j := by
      unfold PageTables.slotBase
      rw [hbase hr]
      exact ht
    rw [hp'.uses (hin hr) ht', hcount, ← h.pool.uses hr ht]
    exact h.exact i hi
  · have h1 : (pt.joinPage x b).used q = pt.used q := used_addPage hnot b q
    rw [h1, h.tallied q]
    simp only [hcount]
  · obtain hq | hq := List.mem_append.mp (show q ∈ pt.refs ++ [x] from hq)
    · rw [hbase hq]
      exact h.self q hq hheap
    · have hq := List.mem_singleton.mp hq
      have h1 : (pt.joinPage x b).pageBase q = b := by
        rw [hq]
        exact Function.update_self ..
      rw [h1]
      exact hself (hq ▸ hheap)

theorem growPool_useOk (h : UseOk c pt)
    (hnew : ∀ x ∈ pt.reserve, c.isStatic x.1 = false → ¬ Mapped c pt x.2)
    (hne : pt.refs ≠ []) (hg : pt.growPool c = some pt') : UseOk c pt' := by
  unfold PageTables.growPool at hg
  split_ifs at hg
  · split at hg
    · cases hg
    · rename_i x reserve hres
      obtain ⟨pt1, h1, rfl⟩ := Option.map_eq_some_iff.mp hg
      obtain ⟨h2, h3, h4, h5⟩ := h.pool.nextPage hres
      have hu := h.withReserve h2
      unfold PageTables.mapNewPage at h1
      split_ifs at h1 with hs
      · cases h1
        exact hu.joinPage h3 h4 h5 fun h6 => absurd (h6.symm.trans hs) (by decide)
      · have hheap : c.isStatic x.1 = false := Bool.eq_false_iff.mpr hs
        have hfree : ¬ Mapped c pt x.2 := by
          refine hnew x ?_ hheap
          rw [hres]
          exact List.mem_cons_self
        obtain ⟨y, h6, rfl⟩ := Option.map_eq_some_iff.mp h1
        obtain ⟨-, hw, hwr, r, j, hb⟩ | ⟨-, hf, hc, hsame⟩ := mapSmallPage_booked h2 h6
        · have hu1 := hwr.useOk hu hw hb hfree fun h7 => absurd h7 hne
          exact hu1.joinPage (mt (hwr.names _).mp h3) (fun z hz => h4 z ((hwr.bases z).mp hz)) h5
            fun _ => Or.inl ((hwr.mapped hw).mpr (Or.inl rfl))
        · rw [hsame]
          exact hu.joinPage h3 h4 h5 fun _ => Or.inr ⟨hf, hc⟩
  · cases hg
    exact h

structure Supply (c : PageConfig) (pt : PageTables) (va : Word) (reserve : List (L2Ptr × Word)) :
    Prop where
  ok : PoolOk c (pt.withReserve reserve)
  new : ∀ x ∈ reserve, c.isStatic x.1 = false → ¬ Mapped c pt x.2 ∧ pageOf x.2 ≠ pageOf va
  first : pt.refs = [] → ∀ x, reserve.head? = some x → c.isStatic x.1 = true

theorem mapSmallPageEntry_useOk (h : UseOk c pt) {reserve : List (L2Ptr × Word)}
    (hs : Supply c pt e.va reserve) (hnew : ¬ Mapped c pt e.va) {x : PageTables × Int}
    (hm : (pt.withReserve reserve).mapSmallPageEntry c e = some x) : UseOk c x.1 := by
  have hu := h.withReserve hs.ok
  obtain ⟨y, h1, hm⟩ := Option.bind_eq_some_iff.mp hm
  obtain ⟨hr, hw, hwr, r, j, hb⟩ | ⟨hr, -, -, hsame⟩ := mapSmallPage_booked hs.ok h1
  · rw [if_pos hr] at hm
    obtain ⟨pt2, h2, rfl⟩ := Option.map_eq_some_iff.mp hm
    refine growPool_useOk (hwr.useOk hu hw hb hnew hs.first) (fun z hz hheap h3 => ?_) ?_ h2
    · obtain ⟨h4, h5⟩ := hs.new z (hwr.reserve hz) hheap
      exact ((hwr.mapped hw).mp h3).elim h5 h4
    · exact List.ne_nil_of_mem hb.mem
  · rw [if_neg hr] at hm
    cases hm
    rw [hsame]
    exact hu

end

end SierraTee
