import SierraTee.Paging.Teardown

/-!
# Blocks of addresses in the page table

A range that is not mapped is mapped, page by page and section by section, and unmapped again.

* `mapLoop_ranged`    the loop of `map_secure_memory`;
* `unmapLoop_ranged`  the same for a range that is unmapped.
-/

namespace SierraTee
open FlatMemory PageTables

def Regular (c : PageConfig) (pt : PageTables) : Prop :=
  ∀ i, Fault (pt.entry c i) ∨ Coarse (pt.entry c i) ∨
    descType (pt.entry c i) = pageDescTypeSection

structure Stocked (c : PageConfig) (pt : PageTables) : Prop where
  new : ∀ x ∈ pt.reserve, c.isStatic x.1 = false → ¬ Mapped c pt x.2
  first : pt.refs = [] → ∀ x, pt.reserve.head? = some x → c.isStatic x.1 = true

section
variable {c : PageConfig} {pt pt1 pt' : PageTables} {e : CpuPtEntry} {a b va pa size d : Word}
  {w : Word} {i : BitVec 12} {page : Prop}

/-! ## Addresses that are not mapped -/

theorem physOf_section (h : descType (pt.entry c (l1Index a)) = pageDescTypeSection) :
    physOf c pt a ≠ none := by
  unfold physOf PageTables.translate
  rw [if_pos h]
  exact Option.some_ne_none _

theorem physOf_fault (h : Fault (pt.entry c (l1Index a))) : physOf c pt a = none := by
  unfold physOf
  rw [translate_fault h]
  rfl

theorem physOf_coarse (h : Coarse (pt.entry c (l1Index a))) :
    physOf c pt a = none ↔ ¬ Mapped c pt a := by
  refine ⟨fun h1 h2 => ?_, fun h1 => ?_⟩
  · refine h2.2 ?_
    unfold physOf at h1
    rw [translate_coarse h] at h1
    unfold PageTables.translateL2 at h1
    split_ifs at h1 with h3 h4
    · cases h1
    · cases h1
    · show descType _ = 0
      rw [type_eq]
      apply BitVec.eq_of_toNat_eq
      rw [BitVec.toNat_setWidth, extract_toNat]
      rw [← BitVec.toNat_inj, extract_toNat] at h3 h4
      have h5 : (1#1 : BitVec 1).toNat = 1 := rfl
      have h6 : (0 : Word).toNat = 0 := rfl
      omega
  · have h2 : Fault (pt.l2At c (l1Index a) (l2Index a)) := by
      by_contra h2
      exact h1 ⟨h, h2⟩
    unfold physOf
    rw [translate_unmapped h h2]
    rfl

theorem Mapped.physOf (h : Mapped c pt a) : physOf c pt a ≠ none := fun h1 =>
  (physOf_coarse h.1).mp h1 h

theorem Regular.free (hreg : Regular c pt) (h : physOf c pt a = none) :
    Fault (pt.entry c (l1Index a)) ∨ Coarse (pt.entry c (l1Index a)) := by
  obtain h1 | h1 | h1 := hreg (l1Index a)
  · exact Or.inl h1
  · exact Or.inr h1
  · exact absurd h (physOf_section h1)

theorem UseOk.fault_of_unmapped (hu : UseOk c pt) (hreg : Regular c pt)
    (h : ∀ a, l1Index a = i → physOf c pt a = none) : Fault (pt.entry c i) := by
  have h1 := hreg.free (h (pageAt i 0) (l1Index_pageAt i 0))
  rw [l1Index_pageAt] at h1
  refine h1.resolve_right fun hc => ?_
  obtain ⟨r, hr, j, ht⟩ := hu.pool.table i hc
  have hpos := hu.pool.counted i hc r hr j ht
  rw [← count_of_mem hr, ← hu.pool.uses hr ht, hu.exact i hc] at hpos
  obtain ⟨k, hk⟩ := Finset.card_ne_zero.mp hpos
  have hm : Mapped c pt (pageAt i k) := by
    unfold Mapped
    rw [l1Index_pageAt, l2Index_pageAt]
    exact ⟨hc, mem_pagesOf.mp hk⟩
  exact hm.physOf (h (pageAt i k) (l1Index_pageAt i k))

theorem physOf_congr (h : pt'.translate c a = pt.translate c a ∨
    pt'.translate c a = (pt.translate c a).map domainZero) : physOf c pt' a = physOf c pt a := by
  unfold physOf
  obtain h | h := h
  · rw [h]
  · rw [h, Option.map_map]
    rfl

/-! ## A range is mapped -/

/-- the addresses `rng` are mapped to `to`, those of `small` in pages; the others are as they were,
but for the pages that the pool has taken -/
structure RangeMapped (c : PageConfig) (rng small : Word → Prop) (phys : Word → Word)
    (pt pt' : PageTables) : Prop where
  useOk : UseOk c pt'
  regular : Regular c pt'
  stocked : Stocked c pt'
  reserve : pt'.reserve ⊆ pt.reserve
  pool : ∀ a, InPool c pt' a → InPool c pt a ∨ ¬ Away c pt a
  there : ∀ a, rng a → Away c pt a → physOf c pt' a = some (phys a) ∧ (Mapped c pt' a ↔ small a)
  others : ∀ a, ¬ rng a → Away c pt a → physOf c pt' a = physOf c pt a ∧
    (Mapped c pt' a ↔ Mapped c pt a)

theorem RangeMapped.nil (hu : UseOk c pt) (hreg : Regular c pt) (hs : Stocked c pt) {rng : Word → Prop}
    (hr : ∀ a, ¬ rng a) (small : Word → Prop) (phys : Word → Word) :
    RangeMapped c rng small phys pt pt :=
  ⟨hu, hreg, hs, List.Subset.refl _, fun _ h => Or.inl h, fun a h => absurd h (hr a),
    fun _ _ _ => ⟨rfl, Iff.rfl⟩⟩

theorem RangeMapped.trans {rng rng1 rng2 small : Word → Prop} {phys : Word → Word}
    (h1 : RangeMapped c rng1 small phys pt pt1) (h2 : RangeMapped c rng2 small phys pt1 pt')
    (hr : ∀ a, rng a ↔ rng1 a ∨ rng2 a) : RangeMapped c rng small phys pt pt' := by
  have haway {a : Word} (ha : Away c pt a) : Away c pt1 a := ha.mono h1.reserve
  refine ⟨h2.useOk, h2.regular, h2.stocked, fun _ h => h1.reserve (h2.reserve h), fun a ha => ?_,
    fun a ha hw => ?_, fun a ha hw => ?_⟩
  · obtain h | h := h2.pool a ha
    · exact h1.pool a h
    · exact Or.inr fun hw => h (haway hw)
  · by_cases hlater : rng2 a
    · exact h2.there a hlater (haway hw)
    · obtain ⟨h3, h4⟩ := h1.there a (((hr a).mp ha).resolve_right hlater) hw
      obtain ⟨h5, h6⟩ := h2.others a hlater (haway hw)
      exact ⟨h5.trans h3, h6.trans h4⟩
  · obtain ⟨h3, h4⟩ := not_or.mp (mt (hr a).mpr ha)
    obtain ⟨h5, h6⟩ := h1.others a h3 hw
    obtain ⟨h7, h8⟩ := h2.others a h4 (haway hw)
    exact ⟨h7.trans h5, h8.trans h6⟩

theorem RangeMapped.congr {rng rng' small small' : Word → Prop} {phys phys' : Word → Word}
    (h : RangeMapped c rng small phys pt pt') (hr : ∀ a, rng' a ↔ rng a)
    (hsmall : ∀ a, rng a → (small' a ↔ small a)) (hphys : ∀ a, rng a → phys' a = phys a) :
    RangeMapped c rng' small' phys' pt pt' := by
  refine { h with there := fun a ha hw => ?_, others := fun a ha hw => ?_ }
  · have h1 := (hr a).mp ha
    rw [hphys a h1, hsmall a h1]
    exact h.there a h1 hw
  · exact h.others a (mt (hr a).mpr ha) hw

/-! ## Pages and sections -/

theorem Written.regular (h : Written c e pt pt') (hreg : Regular c pt) : Regular c pt' := fun i => by
  by_cases hi : i = l1Index e.va
  · rw [hi]
    exact Or.inr (Or.inl h.coarse)
  · rw [h.elsewhere.entry i hi]
    exact hreg i

theorem Written.others (h : Written c e pt pt') (hdom : e.dom = 0)
    (hw : Fault (pt.entry c (l1Index e.va)) ∨ Coarse (pt.entry c (l1Index e.va)))
    (ha : pageOf a ≠ pageOf e.va) :
    physOf c pt' a = physOf c pt a ∧ (Mapped c pt' a ↔ Mapped c pt a) := by
  refine ⟨physOf_congr ((h.translate_other hdom hw ha).imp_right fun h1 => h1.2.2), ?_⟩
  exact (h.mapped hw).trans (or_iff_right ha)

theorem Far.pageOf_ne (h : Far a b) : pageOf a ≠ pageOf b := fun h1 => by
  rw [pageOf_eq_iff] at h1
  unfold Far at h
  omega

theorem mapNewPage_others {x : L2Ptr × Word} {reserve : List (L2Ptr × Word)} (hp : PoolOk c pt)
    (hreg : Regular c pt) (hne : pt.refs ≠ []) (hres : pt.reserve = x :: reserve)
    (h : (pt.withReserve reserve).mapNewPage c x.1 x.2 = some pt1) :
    Regular c pt1 ∧ pt1.refs = pt.refs ∧ (∀ q ∈ pt.refs, pt1.pageBase q = pt.pageBase q) ∧
      pt1.reserve ⊆ reserve ∧ ∀ a, (c.isStatic x.1 = false → pageOf a ≠ pageOf x.2) →
        physOf c pt1 a = physOf c pt a ∧ (Mapped c pt1 a ↔ Mapped c pt a) := by
  have hsame : Regular c (pt.withReserve reserve) ∧ (pt.withReserve reserve).refs = pt.refs ∧
      (∀ q ∈ pt.refs, (pt.withReserve reserve).pageBase q = pt.pageBase q) ∧
      (pt.withReserve reserve).reserve ⊆ reserve ∧
      ∀ a, (c.isStatic x.1 = false → pageOf a ≠ pageOf x.2) →
        physOf c (pt.withReserve reserve) a = physOf c pt a ∧
          (Mapped c (pt.withReserve reserve) a ↔ Mapped c pt a) :=
    ⟨hreg, rfl, fun _ _ => rfl, List.Subset.refl _, fun _ _ => ⟨rfl, Iff.rfl⟩⟩
  obtain ⟨hp1, -, -, -⟩ := hp.nextPage hres
  unfold PageTables.mapNewPage at h
  split_ifs at h with hstatic
  · cases h
    exact hsame
  · obtain ⟨y, hy, rfl⟩ := Option.map_eq_some_iff.mp h
    obtain ⟨-, hw, hwr, r, j, hb⟩ | ⟨-, -, -, heq⟩ := mapSmallPage_booked hp1 hy
    · refine ⟨hwr.regular hreg, hb.noMore hne, fun q hq => (hb.refs q hq).2, hwr.reserve,
        fun a ha => ?_⟩
      exact hwr.others rfl hw (ha (Bool.eq_false_iff.mpr hstatic))
    · rw [heq]
      exact hsame

theorem growPool_mapped (hu : UseOk c pt) (hreg : Regular c pt) (hs : Stocked c pt)
    (hne : pt.refs ≠ []) (rng : Word → Prop) (hr : ∀ a, ¬ rng a) (small : Word → Prop)
    (phys : Word → Word) (h : pt.growPool c = some pt') : RangeMapped c rng small phys pt pt' := by
  have hu' := growPool_useOk hu hs.new hne h
  unfold PageTables.growPool at h
  split_ifs at h
  · cases hres : pt.reserve with
    | nil =>
      rw [hres] at h
      cases h
    | cons x reserve =>
      rw [hres] at h
      obtain ⟨pt1, h1, rfl⟩ := Option.map_eq_some_iff.mp h
      obtain ⟨hreg1, hrefs, hbase, hreserve, hothers⟩ :=
        mapNewPage_others hu.pool hreg hne hres h1
      obtain ⟨-, hx, hfar, -⟩ := hu.pool.nextPage hres
      have hmem : x ∈ pt.reserve := by
        rw [hres]
        exact List.mem_cons_self
      have hnot : x.1 ∉ pt.refs := fun h2 => hx (List.mem_append_left _ h2)
      refine ⟨hu', hreg1, ⟨fun y hy hheap h2 => ?_, fun h2 => ?_⟩, fun y hy => ?_, fun a ha => ?_,
        fun a h2 => absurd h2 (hr a), fun a _ hw => ?_⟩
      · have hy1 : y ∈ reserve := hreserve hy
        have hy2 : y ∈ pt.reserve := by
          rw [hres]
          exact List.mem_cons_of_mem _ hy1
        refine hs.new y hy2 hheap ((hothers y.2 fun _ => ?_).2.mp h2)
        have h3 := hfar y.2 (List.mem_append_right _ (List.mem_map_of_mem hy1))
        exact h3.pageOf_ne.symm
      · exact absurd h2 (List.append_ne_nil_of_right_ne_nil _ (List.cons_ne_nil _ _))
      · rw [hres]
        exact List.mem_cons_of_mem _ (hreserve hy)
      · obtain ⟨q, hq, hheap, h2⟩ := ha
        obtain hq | hq := List.mem_append.mp hq
        · rw [hrefs] at hq
          have hne' : q ≠ x.1 := fun h3 => hnot (h3 ▸ hq)
          have h3 : (pt1.joinPage x.1 x.2).pageBase q = pt.pageBase q :=
            (Function.update_of_ne hne' ..).trans (hbase q hq)
          exact Or.inl ⟨q, hq, hheap, h2.trans (congrArg pageOf h3)⟩
        · have hq := List.mem_singleton.mp hq
          have h3 : (pt1.joinPage x.1 x.2).pageBase q = x.2 := by
            rw [hq]
            exact Function.update_self ..
          rw [h3] at h2
          exact Or.inr fun hw => hw x hmem (hq ▸ hheap) h2
      · exact hothers a (hw x hmem)
  · cases h
    exact RangeMapped.nil hu hreg hs hr small phys

theorem mapSmallPageEntry_mapped (hu : UseOk c pt) (hreg : Regular c pt) (hs : Stocked c pt)
    (hdom : e.dom = 0) (hva : e.va.toNat % 4096 = 0) (hpa : e.pa.toNat % 4096 = 0)
    (hfree : physOf c pt e.va = none) (haway : Away c pt e.va) {x : PageTables × Int}
    (h : pt.mapSmallPageEntry c e = some x) :
    RangeMapped c (fun a => pageOf a = pageOf e.va) (fun _ => True) (fun a => e.pa + (a - e.va))
      pt x.1 := by
  obtain ⟨y, hy, h⟩ := Option.bind_eq_some_iff.mp h
  have hopen := hreg.free hfree
  obtain ⟨hr, hw, hwr, r, j, hb⟩ | ⟨-, hf, hc, -⟩ := mapSmallPage_booked hu.pool hy
  · rw [if_pos hr] at h
    obtain ⟨pt2, h2, rfl⟩ := Option.map_eq_some_iff.mp h
    have hnew : ¬ Mapped c pt e.va := fun h1 => h1.physOf hfree
    have hu1 := hwr.useOk hu hw hb hnew hs.first
    have hreg1 := hwr.regular hreg
    have hs1 : Stocked c y.1 := by
      refine ⟨fun z hz hheap h3 => ?_, fun h3 => absurd h3 (List.ne_nil_of_mem hb.mem)⟩
      obtain h4 | h4 := (hwr.mapped hw).mp h3
      · exact haway z (hwr.reserve hz) hheap h4.symm
      · exact hs.new z (hwr.reserve hz) hheap h4
    have hpage : RangeMapped c (fun a => pageOf a = pageOf e.va) (fun _ => True)
        (fun a => e.pa + (a - e.va)) pt y.1 := by
      refine ⟨hu1, hreg1, hs1, hwr.reserve, fun a ha => ?_, fun a ha _ => ⟨?_, ?_⟩,
        fun a ha _ => hwr.others hdom hw ha⟩
      · obtain ⟨q, hq, hheap, h3⟩ := ha
        by_cases hrefs : pt.refs = []
        · obtain ⟨z, hz, h4, -⟩ := hb.first hrefs q hq
          have h5 := hs.first hrefs z hz
          rw [← h4, hheap] at h5
          cases h5
        · rw [hb.noMore hrefs] at hq
          rw [(hb.refs q hq).2] at h3
          exact Or.inl ⟨q, hq, hheap, h3⟩
      · obtain ⟨z, h3, -⟩ := hwr.translate_page hva hpa ha
        unfold physOf
        rw [h3]
        rfl
      · exact iff_of_true ((hwr.mapped hw).mpr (Or.inl ha)) trivial
    have hgrow := growPool_mapped hu1 hreg1 hs1 (List.ne_nil_of_mem hb.mem) (fun _ => False)
      (fun _ => id) (fun _ => True) (fun a => e.pa + (a - e.va)) h2
    exact hpage.trans hgrow fun a => (or_iff_left id).symm
  · exact absurd hopen (not_or.mpr ⟨hf, hc⟩)

theorem Elsewhere.mapped (h : Elsewhere c i pt pt') (ha : l1Index a ≠ i) :
    Mapped c pt' a ↔ Mapped c pt a := by
  unfold Mapped
  rw [h.entry _ ha]
  refine and_congr_right fun hc => ?_
  rw [h.l2At _ ha hc]

theorem UseOk.setPlain (hu : UseOk c pt) (hw : ¬ Coarse w)
    (hself : ∀ r ∈ pt.refs, c.isStatic r = false → l1Index (pt.pageBase r) = i → ¬ Fault w) :
    UseOk c (pt.setEntry c i w) := by
  obtain ⟨hp, helse⟩ := hu.pool.setPlain i hw
  have hent (i' : BitVec 12) := setEntry_entry' hu.pool.config pt i w i'
  have hne {i' : BitVec 12} (h : Coarse ((pt.setEntry c i w).entry c i')) : i' ≠ i := fun h1 => by
    rw [hent, if_pos h1] at h
    exact hw h
  refine ⟨hp, fun i' hi' => ?_, hu.tallied, fun r hr hheap => ?_⟩
  · have h1 := hne hi'
    have h2 : Coarse (pt.entry c i') := by
      rw [← helse.entry i' h1]
      exact hi'
    have hpages : pagesOf c (pt.setEntry c i w) i' = pagesOf c pt i' := by
      ext k
      rw [mem_pagesOf, mem_pagesOf, helse.l2At i' h1 h2]
    obtain ⟨r, hr, j, ht⟩ := hu.pool.table i' h2
    have ht' : tableOf c ((pt.setEntry c i w).entry c i') = (pt.setEntry c i w).slotBase r j := by
      rw [helse.entry i' h1]
      exact ht
    have huses := hp.uses (show r ∈ (pt.setEntry c i w).refs from hr) ht'
    rw [hpages, huses, ← hu.exact i' h2, hu.pool.uses hr ht]
    rfl
  · have hbase : (pt.setEntry c i w).pageBase r = pt.pageBase r := rfl
    rw [hbase]
    by_cases h1 : l1Index (pt.pageBase r) = i
    · rw [hent, if_pos h1]
      exact Or.inr ⟨hself r hr hheap h1, hw⟩
    · rw [helse.entry _ h1]
      exact (hu.self r hr hheap).imp_left (helse.mapped h1).mpr

theorem mapSectionEntry_mapped (hu : UseOk c pt) (hreg : Regular c pt) (hs : Stocked c pt)
    (hva : e.va.toNat % 1048576 = 0) (hpa : e.pa.toNat % 1048576 = 0)
    (hfree : ∀ a, l1Index a = l1Index e.va → physOf c pt a = none) :
    RangeMapped c (fun a => l1Index a = l1Index e.va) (fun _ => False) (fun a => e.pa + (a - e.va))
      pt (pt.mapSectionEntry c e).1 := by
  have hfault := hu.fault_of_unmapped hreg hfree
  obtain ⟨-, helse, -, hset, -⟩ := mapSectionEntry_spec hu.pool e
  have hentry := hset hfault
  have heq : (pt.mapSectionEntry c e).1 = pt.setEntry c (l1Index e.va) (sectionEntry e) := by
    unfold PageTables.mapSectionEntry
    rw [if_pos (show descType (pt.entry c (l1Index e.va)) = pageDescTypeFault from hfault)]
  have hsection := section_not_fault (sectionEntry_type e)
  have hu' := hu.setPlain (i := l1Index e.va) (sectionEntry_plain e) fun _ _ _ _ => hsection
  rw [heq] at helse hentry ⊢
  have hnot {a : Word} (ha : l1Index a = l1Index e.va) :
      ¬ Mapped c (pt.setEntry c (l1Index e.va) (sectionEntry e)) a := fun h => by
    have h1 := h.1
    rw [ha, hentry] at h1
    exact sectionEntry_plain e h1
  refine ⟨hu', fun i => ?_, ⟨fun x hx hheap h1 => ?_, hs.first⟩, List.Subset.refl _,
    fun a ha => Or.inl ha, fun a ha _ => ⟨?_, iff_of_false (hnot ha) id⟩, fun a ha _ => ?_⟩
  · by_cases hi : i = l1Index e.va
    · rw [hi, hentry]
      exact Or.inr (Or.inr (sectionEntry_type e))
    · rw [helse.entry i hi]
      exact hreg i
  · by_cases hx1 : l1Index x.2 = l1Index e.va
    · exact hnot hx1 h1
    · exact hs.new x hx hheap ((helse.mapped hx1).mp h1)
  · unfold physOf
    rw [translate_section (ha ▸ hentry) hva hpa ha]
    rfl
  · refine ⟨?_, helse.mapped ha⟩
    unfold physOf
    rw [helse.translate ha]

/-! ## The loop -/

theorem mapLoop_ranged {ptf : Word} {n : Nat} (hu : UseOk c pt) (hreg : Regular c pt)
    (hs : Stocked c pt) (hva : va.toNat % 4096 = 0) (hpa : pa.toNat % 4096 = 0)
    (hsize : size.toNat % 4096 = 0) (hfree : ∀ a, InRange va size a → physOf c pt a = none)
    (haway : ∀ a, InRange va size a → Away c pt a) (h : pt.mapLoop c ptf n va pa size = some pt') :
    RangeMapped c (InRange va size) (fun a => ¬ BySection va pa size a) (fun a => pa + (a - va))
      pt pt' := by
  have hempty {va : Word} (a : Word) : ¬ InRange va 0 a := Nat.not_lt_zero _
  induction n generalizing pt va pa size with
  | zero =>
    unfold PageTables.mapLoop at h
    split_ifs at h with h1
    cases h
    rw [h1]
    exact RangeMapped.nil hu hreg hs hempty _ _
  | succ n ih =>
    unfold PageTables.mapLoop at h
    have hsection : (BitVec.ofNat 32 sectionBytes).toNat = 1048576 := rfl
    have hpage : (BitVec.ofNat 32 pageBytes).toNat = 4096 := rfl
    have hstep {d : Word} {page : Prop} {pt1 : PageTables} (hd : FirstStep va pa size d page)
        (h1 : RangeMapped c (fun a => (a - va).toNat < d.toNat) (fun _ => page)
          (fun a => pa + (a - va)) pt pt1)
        (h2 : pt1.mapLoop c ptf n (va + d) (pa + d) (size - d) = some pt') :
        RangeMapped c (InRange va size) (fun a => ¬ BySection va pa size a)
          (fun a => pa + (a - va)) pt pt' := by
      have hin {a : Word} (ha : InRange (va + d) (size - d) a) : InRange va size a :=
        (InRange.step hd.fits).mpr (Or.inr ha)
      have hrest := ih h1.useOk h1.regular h1.stocked hd.va_rest hd.pa_rest (hd.size_rest hsize)
        (fun a ha => ?_) (fun a ha => (haway a (hin ha)).mono h1.reserve) h2
      · refine (h1.congr (fun _ => Iff.rfl) (fun a ha => ?_) fun _ _ => rfl).trans
          (hrest.congr (fun _ => Iff.rfl) (fun a ha => ?_) fun a _ => ?_) fun a => InRange.step hd.fits
        · rw [hd.bySection ha, not_not]
        · rw [hd.bySection_rest (ha.rest hd.fits)]
        · exact (way_target va pa a d).symm
      · have h3 := ha.rest hd.fits
        have h4 : ¬ (a - va).toNat < d.toNat := by omega
        rw [(h1.others a h4 (haway a (hin ha))).1]
        exact hfree a (hin ha)
    split_ifs at h with h1 h2
    · cases h
      rw [h1]
      exact RangeMapped.nil hu hreg hs hempty _ _
    · have hd := FirstStep.ofSection h2 hva hpa
      obtain ⟨-, h3, h4⟩ := hd.isSection id
      have hin (a : Word) : (a - va).toNat < (BitVec.ofNat 32 sectionBytes).toNat
          ↔ l1Index a = l1Index va := by
        rw [hsection, l1Index_way h3]
      refine hstep hd ((mapSectionEntry_mapped (e := secureEntry c ptf va pa) hu hreg hs h3 h4
        fun a ha => ?_).congr hin (fun _ _ => Iff.rfl) fun _ _ => rfl) h
      exact hfree a ((InRange.step hd.fits).mpr (Or.inl ((hin a).mpr ha)))
    · obtain ⟨x, hx, h⟩ := Option.bind_eq_some_iff.mp h
      have hd := FirstStep.ofPage h1 h2 hva hpa hsize
      have hin (a : Word) : (a - va).toNat < (BitVec.ofNat 32 pageBytes).toNat
          ↔ pageOf a = pageOf va := by
        rw [hpage, pageOf_way hva]
      have hfirst : InRange va size va :=
        (InRange.step hd.fits).mpr (Or.inl ((hin va).mpr rfl))
      refine hstep hd ((mapSmallPageEntry_mapped (e := secureEntry c ptf va pa) hu hreg hs rfl hva
        hpa (hfree va hfirst) (haway va hfirst) hx).congr hin (fun _ _ => Iff.rfl)
          fun _ _ => rfl) h

/-! ## A range is unmapped -/

/-- the addresses `rng` are not mapped any more; the others are as they were, but for the pages of
the pool that it has given back -/
structure RangeUnmapped (c : PageConfig) (rng : Word → Prop) (pt pt' : PageTables) : Prop where
  useOk : UseOk c pt'
  regular : Regular c pt'
  refs : pt'.refs ⊆ pt.refs
  base : pt'.pageBase = pt.pageBase
  gone : ∀ a, rng a → ¬ InPool c pt a → physOf c pt' a = none
  others : ∀ a, ¬ rng a → ¬ InPool c pt a → physOf c pt' a = physOf c pt a ∧
    (Mapped c pt' a ↔ Mapped c pt a)

theorem RangeUnmapped.pool {rng : Word → Prop} (h : RangeUnmapped c rng pt pt') (a : Word)
    (ha : InPool c pt' a) : InPool c pt a := by
  obtain ⟨q, hq, hheap, h1⟩ := ha
  rw [h.base] at h1
  exact ⟨q, h.refs hq, hheap, h1⟩

theorem RangeUnmapped.tableAt {m : MmuConfig} {rng : Word → Prop}
    (h : RangeUnmapped m rng pt pt') (ha : m.TableAt pt' a) : m.TableAt pt a := by
  refine ha.imp_right fun ⟨q, hq, h1⟩ => ?_
  rw [h.base] at h1
  exact ⟨q, h.refs hq, h1⟩

theorem RangeUnmapped.nil (hu : UseOk c pt) (hreg : Regular c pt) {rng : Word → Prop}
    (hr : ∀ a, ¬ rng a) : RangeUnmapped c rng pt pt :=
  ⟨hu, hreg, List.Subset.refl _, rfl, fun a h => absurd h (hr a), fun _ _ _ => ⟨rfl, Iff.rfl⟩⟩

theorem RangeUnmapped.trans {rng rng1 rng2 : Word → Prop} (h1 : RangeUnmapped c rng1 pt pt1)
    (h2 : RangeUnmapped c rng2 pt1 pt') (hr : ∀ a, rng a ↔ rng1 a ∨ rng2 a) :
    RangeUnmapped c rng pt pt' := by
  have hpool {a : Word} (ha : ¬ InPool c pt a) : ¬ InPool c pt1 a := mt (h1.pool a) ha
  refine ⟨h2.useOk, h2.regular, fun q hq => h1.refs (h2.refs hq), h2.base.trans h1.base,
    fun a ha hp => ?_, fun a ha hp => ?_⟩
  · by_cases hlater : rng2 a
    · exact h2.gone a hlater (hpool hp)
    · rw [(h2.others a hlater (hpool hp)).1]
      exact h1.gone a (((hr a).mp ha).resolve_right hlater) hp
  · obtain ⟨h3, h4⟩ := not_or.mp (mt (hr a).mpr ha)
    obtain ⟨h5, h6⟩ := h1.others a h3 hp
    obtain ⟨h7, h8⟩ := h2.others a h4 (hpool hp)
    exact ⟨h7.trans h5, h8.trans h6⟩

theorem RangeUnmapped.congr {rng rng' : Word → Prop} (h : RangeUnmapped c rng pt pt')
    (hr : ∀ a, rng' a ↔ rng a) : RangeUnmapped c rng' pt pt' :=
  ⟨h.useOk, h.regular, h.refs, h.base, fun a ha => h.gone a ((hr a).mp ha),
    fun a ha => h.others a (mt (hr a).mpr ha)⟩

theorem Freed.entries {r : L2Ptr} {j : Fin 4} {k : BitVec 8} (h : Freed c i k pt pt' r j)
    (i' : BitVec 12) : pt'.entry c i' = pt.entry c i' ∨ Fault (pt'.entry c i') := by
  by_cases hi : i' = i
  · rw [hi]
    by_cases h1 : pt.count r j = 1
    · rw [h.last h1]
      exact Or.inr fault_zero
    · exact Or.inl (h.more h1).1
  · exact Or.inl (h.elsewhere.entry i' hi)

theorem unmapSmallPageEntry_entries {n : Nat} (hu : UseOk c pt)
    (hm : Coarse (pt.entry c (l1Index b)) → Mapped c pt b) (hnot : ¬ InPool c pt b)
    {x : PageTables × Int} (h : unmapSmallPageEntry c n pt b = some x) :
    x.1.pageBase = pt.pageBase ∧
      ∀ i, x.1.entry c i = pt.entry c i ∨ Fault (x.1.entry c i) := by
  induction n using Nat.strong_induction_on generalizing pt b x with
  | _ n ih =>
    obtain ⟨-, hx⟩ | ⟨hi, r, j, pt1, hf, hx⟩ := unmapSmallPageEntry_cases hu.pool h
    · rw [hx]
      exact ⟨rfl, fun _ => Or.inl rfl⟩
    · have hr : r ∈ pt1.refs := by
        rw [hf.refs]
        exact hf.mem
      have hu1 := hf.useOk hu (hm hi) hnot
      obtain hx | ⟨hs, ⟨-, hx⟩ | ⟨hheap, m, y, hn, hy, hx⟩⟩ := hx
      · rw [hx]
        exact ⟨hf.pageBase, hf.entries⟩
      · rw [hx]
        exact ⟨hf.pageBase, hf.entries⟩
      · rw [hx]
        obtain ⟨h1, h2⟩ := ih m (by omega) (hu1.dropPage hr (of_decide_eq_true hs).1)
          (fun hc => (hu1.self r hr hheap).resolve_right fun h3 => h3.2 hc)
          (hu1.pool.dropped hr) hy
        refine ⟨h1.trans hf.pageBase, fun i => ?_⟩
        obtain h3 | h3 := h2 i
        · have h4 : y.1.entry c i = pt1.entry c i := h3
          rw [h4]
          exact hf.entries i
        · exact Or.inr h3

theorem unmapSmallPageEntry_ranged {n : Nat} (hu : UseOk c pt) (hreg : Regular c pt)
    (hm : Mapped c pt va) (hnot : ¬ InPool c pt va) {x : PageTables × Int}
    (h : unmapSmallPageEntry c n pt va = some x) :
    RangeUnmapped c (fun a => pageOf a = pageOf va) pt x.1 := by
  have hun := unmapSmallPageEntry_unmapped hu (fun _ => hm) hnot h
  obtain ⟨hbase, hentries⟩ := unmapSmallPageEntry_entries hu (fun _ => hm) hnot h
  have hback {a : Word} (ha : GivenBack c pt x.1 a) : InPool c pt a := by
    obtain ⟨q, hq, -, hheap, h1⟩ := ha
    exact ⟨q, hq, hheap, h1⟩
  refine ⟨hun.useOk, fun i => ?_, hun.refs, hbase, fun a ha hp => ?_, fun a ha hp => ⟨?_, ?_⟩⟩
  · obtain h1 | h1 := hentries i
    · rw [h1]
      exact hreg i
    · exact Or.inl h1
  · have hnone : ¬ Mapped c x.1 a := fun h1 => ((hun.mapped a).mp h1).2.1 ha
    obtain h1 | h1 := hentries (l1Index a)
    · have hc : Coarse (x.1.entry c (l1Index a)) := by
        rw [h1]
        exact (hm.of_page ha).1
      exact (physOf_coarse hc).mpr hnone
    · exact physOf_fault h1
  · unfold physOf
    rw [hun.translate a ha (mt hback hp)]
  · rw [hun.mapped]
    exact and_iff_left ⟨ha, mt hback hp⟩

theorem unmapSectionEntry_ranged (hu : UseOk c pt) (hreg : Regular c pt)
    (h : descType (pt.entry c (l1Index va)) = pageDescTypeSection)
    (hnot : ∀ a, l1Index a = l1Index va → ¬ InPool c pt a) :
    RangeUnmapped c (fun a => l1Index a = l1Index va) pt (pt.unmapSectionEntry c va) := by
  have hplain : ¬ Coarse (0 : Word) := by decide
  have heq : pt.unmapSectionEntry c va = pt.setEntry c (l1Index va) 0 := if_pos h
  obtain ⟨hp, helse⟩ := hu.pool.setPlain (l1Index va) hplain
  have hentry : (pt.setEntry c (l1Index va) 0).entry c (l1Index va) = 0 :=
    (setEntry_entry' hu.pool.config ..).trans (if_pos rfl)
  have hu' := hu.setPlain (i := l1Index va) hplain fun r hr hheap h1 =>
    absurd ⟨r, hr, hheap, rfl⟩ (hnot _ h1)
  rw [heq]
  refine ⟨hu', fun i => ?_, List.Subset.refl _, rfl, fun a ha _ => ?_, fun a ha _ =>
    ⟨?_, helse.mapped ha⟩⟩
  · by_cases hi : i = l1Index va
    · rw [hi, hentry]
      exact Or.inl fault_zero
    · rw [helse.entry i hi]
      exact hreg i
  · refine physOf_fault ?_
    rw [ha, hentry]
    exact fault_zero
  · unfold physOf
    rw [helse.translate ha]

theorem Regular.section (hreg : Regular c pt) (h : physOf c pt a ≠ none) (hm : ¬ Mapped c pt a) :
    descType (pt.entry c (l1Index a)) = pageDescTypeSection := by
  obtain h1 | h1 | h1 := hreg (l1Index a)
  · exact absurd (physOf_fault h1) h
  · exact absurd ((physOf_coarse h1).mpr hm) h
  · exact h1

/-- a range that has been mapped with the physical addresses from `pa` on -/
structure RangeAt (c : PageConfig) (va pa size : Word) (pt : PageTables) : Prop where
  there : ∀ a, InRange va size a → physOf c pt a = some (pa + (a - va))
  mapped : ∀ a, InRange va size a → (Mapped c pt a ↔ ¬ BySection va pa size a)

theorem FirstStep.first (hd : FirstStep va pa size d page) (hpos : 0 < d.toNat) :
    InRange va size va ∧ (va - va).toNat < d.toNat := by
  have h1 : (va - va).toNat < d.toNat := by
    rw [BitVec.sub_self]
    exact hpos
  exact ⟨(InRange.step hd.fits).mpr (Or.inl h1), h1⟩

theorem RangeAt.rest (h : RangeAt c va pa size pt) (hd : FirstStep va pa size d page)
    (h1 : RangeUnmapped c (fun a => (a - va).toNat < d.toNat) pt pt1)
    (hpool : ∀ a, InRange va size a → ¬ InPool c pt a) :
    RangeAt c (va + d) (pa + d) (size - d) pt1 := by
  have hin {a : Word} (ha : InRange (va + d) (size - d) a) : InRange va size a :=
    (InRange.step hd.fits).mpr (Or.inr ha)
  have hlater {a : Word} (ha : InRange (va + d) (size - d) a) : ¬ (a - va).toNat < d.toNat := by
    have h2 := ha.rest hd.fits
    omega
  refine ⟨fun a ha => ?_, fun a ha => ?_⟩
  · rw [(h1.others a (hlater ha) (hpool a (hin ha))).1, way_target]
    exact h.there a (hin ha)
  · rw [(h1.others a (hlater ha) (hpool a (hin ha))).2, hd.bySection_rest (ha.rest hd.fits)]
    exact h.mapped a (hin ha)

theorem unmapLoop_ranged {m : MmuConfig} {n : Nat} (hu : UseOk m pt)
    (hreg : Regular m pt) (hl : m.Placed pt)
    (hva : va.toNat % 4096 = 0) (hpa : pa.toNat % 4096 = 0) (hsize : size.toNat % 4096 = 0)
    (hn : size.toNat ≤ 4096 * n) (hsec : ∀ a, BySection va va size a → BySection va pa size a)
    (hat : RangeAt m va pa size pt)
    (hpool : ∀ a, InRange va size a → ¬ InPool m pt a)
    (hclear : m.mmuEnabled = true → ∀ a, m.TableAt pt a → ¬ InRange va size a) :
    ∃ pt', m.unmapLoop n pt va size = some pt' ∧
      RangeUnmapped m (InRange va size) pt pt' ∧ m.Placed pt' := by
  have hempty {va : Word} (a : Word) : ¬ InRange va 0 a := Nat.not_lt_zero _
  induction n generalizing pt va pa size with
  | zero =>
    have h1 : size = 0 := BitVec.eq_of_toNat_eq (by
      show size.toNat = 0
      omega)
    rw [h1]
    exact ⟨pt, rfl, RangeUnmapped.nil hu hreg hempty, hl⟩
  | succ n ih =>
    unfold MmuConfig.unmapLoop
    have hsection : (BitVec.ofNat 32 sectionBytes).toNat = 1048576 := rfl
    have hpage : (BitVec.ofNat 32 pageBytes).toNat = 4096 := rfl
    have hstep {d : Word} {page : Prop} {pt1 : PageTables} (hd : FirstStep va pa size d page)
        (hself : FirstStep va va size d page) (hd4 : 4096 ≤ d.toNat)
        (h1 : RangeUnmapped m (fun a => (a - va).toNat < d.toNat) pt pt1)
        (hl1 : m.Placed pt1) : ∃ pt', m.unmapLoop n pt1 (va + d) (size - d) = some pt' ∧
          RangeUnmapped m (InRange va size) pt pt' ∧ m.Placed pt' := by
      have hsec' (a : Word) (ha : BySection (va + d) (va + d) (size - d) a) :
          BySection (va + d) (pa + d) (size - d) a := by
        have h2 := (ha.section rfl).2.rest hd.fits
        exact (hd.bySection_rest h2).mpr (hsec a ((hself.bySection_rest h2).mp ha))
      have hsize' : (size - d).toNat ≤ 4096 * n := by
        rw [size_sub hd.fits]
        omega
      obtain ⟨pt', h2, h3, h4⟩ := ih h1.useOk h1.regular hl1 hd.va_rest hd.pa_rest
        (hd.size_rest hsize) hsize' hsec' (hat.rest hd h1 hpool)
        (fun a ha hp => hpool a ((InRange.step hd.fits).mpr (Or.inr ha)) (h1.pool a hp))
        fun he a ha h2 => hclear he a (h1.tableAt ha) ((InRange.step hd.fits).mpr (Or.inr h2))
      exact ⟨pt', h2, h1.trans h3 fun a => InRange.step hd.fits, h4⟩
    by_cases h1 : size = 0
    · rw [if_pos h1, h1]
      exact ⟨pt, rfl, RangeUnmapped.nil hu hreg hempty, hl⟩
    · rw [if_neg h1]
      by_cases h2 : BitVec.ofNat 32 sectionBytes ≤ size ∧ sectionAligned va
      · rw [if_pos h2]
        have hself := FirstStep.ofSection ⟨h2.1, h2.2, h2.2⟩ hva hva
        obtain ⟨hrng, hfirst⟩ := hself.first (by omega)
        have hby := hsec va ((hself.bySection hfirst).mpr id)
        have hpa' : sectionAligned pa = true := by
          rw [sectionAligned_iff]
          have h3 : va.toNat % 1048576 = pa.toNat % 1048576 := hby.1
          have h4 := sectionAligned_iff.mp h2.2
          omega
        have hd := FirstStep.ofSection ⟨h2.1, h2.2, hpa'⟩ hva hpa
        have hin (a : Word) : (a - va).toNat < (BitVec.ofNat 32 sectionBytes).toNat
            ↔ l1Index a = l1Index va := by
          rw [hsection, l1Index_way (hd.isSection id).2.1]
        have hrange {a : Word} (ha : l1Index a = l1Index va) : InRange va size a :=
          (InRange.step hd.fits).mpr (Or.inl ((hin a).mpr ha))
        have hthere : physOf m pt va ≠ none := by
          rw [hat.there va hrng]
          exact Option.some_ne_none _
        have hentry := hreg.section hthere fun h3 => (hat.mapped va hrng).mp h3 hby
        obtain ⟨h3, hl1, -⟩ := MmuConfig.unmapSectionEntry_linear va hu.pool hl
          fun he a ha h4 => hclear he a ha (hrange h4)
        rw [h3, Option.bind_some]
        exact hstep hd hself (by omega) ((unmapSectionEntry_ranged hu hreg hentry
          fun a ha => hpool a (hrange ha)).congr hin) hl1
      · rw [if_neg h2]
        have hself := FirstStep.ofPage h1 (fun h3 => h2 ⟨h3.1, h3.2.1⟩) hva hva hsize
        have hd := FirstStep.ofPage h1 (fun h3 => h2 ⟨h3.1, h3.2.1⟩) hva hpa hsize
        obtain ⟨hrng, hfirst⟩ := hd.first (by omega)
        have hm := (hat.mapped va hrng).mpr fun h3 => (hd.bySection hfirst).mp h3 trivial
        obtain ⟨x, hx⟩ :=
          unmapSmallPageEntry_returns (c := m) (Nat.le_refl pt.refs.length) va
        have hin (a : Word) : (a - va).toNat < (BitVec.ofNat 32 pageBytes).toNat
            ↔ pageOf a = pageOf va := by
          rw [hpage, pageOf_way hva]
        obtain ⟨h3, h4⟩ := MmuConfig.unmapSmallPageEntry_linear (n := pt.refs.length) hu hl
          (fun _ => hm) (hpool va hrng) fun he _ a ha h5 =>
            hclear he a ha ((InRange.step hd.fits).mpr (Or.inl ((hin a).mpr h5)))
        rw [h3, hx]
        exact hstep hd hself (by omega)
          ((unmapSmallPageEntry_ranged hu hreg hm (hpool va hrng) hx).congr hin) (h4 x hx)

/-! ## The calls -/

/-- **`map_secure_memory`** for a range of which nothing is mapped: it is refused, or done. -/
theorem mapSecureMemory_ranged {ptf : Word} (hu : UseOk c pt) (hreg : Regular c pt)
    (hs : Stocked c pt) (hfree : ∀ a, InRange va size a → physOf c pt a = none)
    (haway : ∀ a, InRange va size a → Away c pt a) {x : PageTables × Int}
    (h : pt.mapSecureMemory c va pa size ptf = some x) :
    (x.2 ≠ 0 ∧ x.1 = pt) ∨ (x.2 = 0 ∧ va.toNat % 4096 = 0 ∧ pa.toNat % 4096 = 0 ∧
      RangeMapped c (InRange va size) (fun a => ¬ BySection va pa size a) (fun a => pa + (a - va))
        pt x.1) := by
  unfold PageTables.mapSecureMemory at h
  split_ifs at h with h1
  · obtain ⟨hsize, hva, hpa⟩ := h1
    obtain ⟨pt', h2, rfl⟩ := Option.map_eq_some_iff.mp h
    have hva := pageAligned_iff.mp hva
    have hpa := pageAligned_iff.mp hpa
    exact Or.inr ⟨rfl, hva, hpa, mapLoop_ranged hu hreg hs hva hpa (pageAligned_iff.mp hsize) hfree
      haway h2⟩
  · cases h
    exact Or.inl ⟨show ¬ (-1 : Int) = 0 by decide, rfl⟩

theorem unmapSecureMemory_ranged {m : MmuConfig} (hu : UseOk m pt)
    (hreg : Regular m pt) (hl : m.Placed pt)
    (hva : va.toNat % 4096 = 0) (hpa : pa.toNat % 4096 = 0) (hsize : size.toNat % 4096 = 0)
    (hsec : ∀ a, BySection va va size a → BySection va pa size a)
    (hat : RangeAt m va pa size pt)
    (hpool : ∀ a, InRange va size a → ¬ InPool m pt a)
    (hclear : m.mmuEnabled = true → ∀ a, m.TableAt pt a → ¬ InRange va size a) :
    ∃ pt', m.unmapSecureMemory pt va size = some (pt', 0) ∧
      RangeUnmapped m (InRange va size) pt pt' ∧ m.Placed pt' := by
  have hn : size.toNat ≤ 4096 * (size.toNat / pageBytes) := by
    unfold pageBytes
    omega
  obtain ⟨pt', h1, h2⟩ := unmapLoop_ranged hu hreg hl hva hpa hsize hn hsec hat hpool hclear
  refine ⟨pt', ?_, h2⟩
  unfold MmuConfig.unmapSecureMemory
  rw [if_pos ⟨pageAligned_iff.mpr hsize, pageAligned_iff.mpr hva⟩, h1]
  rfl

end

end SierraTee
