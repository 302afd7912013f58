import SierraTee.Paging.Pool

/-!
# What a written entry does to addresses

* `Written.translate_page`   the page that was asked for;
* `Written.translate_other`  every other address;
* `mapSectionEntry_spec`     the same for a section;
* `growPool_spec`            a new page for the pool is mapped in the kernel, and nothing else.
-/

namespace SierraTee
open FlatMemory

/-! ## Addresses in pages and sections -/

def pageOf (a : Word) : BitVec 20 := a.extractLsb' 12 20

section
variable {a b : Word}

theorem extract_toNat (a : Word) (k n : Nat) :
    (a.extractLsb' k n).toNat = a.toNat / 2 ^ k % 2 ^ n := by
  rw [BitVec.extractLsb'_toNat, Nat.shiftRight_eq_div_pow]

theorem pageOf_eq_iff : pageOf a = pageOf b ↔ a.toNat / 4096 = b.toNat / 4096 := by
  have ha := a.isLt
  have hb := b.isLt
  unfold pageOf
  rw [← BitVec.toNat_inj, extract_toNat, extract_toNat]
  omega

theorem l1Index_eq_iff : l1Index a = l1Index b ↔ a.toNat / 1048576 = b.toNat / 1048576 := by
  have ha := a.isLt
  have hb := b.isLt
  unfold l1Index
  rw [← BitVec.toNat_inj, extract_toNat, extract_toNat]
  omega

theorem l2Index_eq_iff :
    l2Index a = l2Index b ↔ a.toNat / 4096 % 256 = b.toNat / 4096 % 256 := by
  unfold l2Index
  rw [← BitVec.toNat_inj, extract_toNat, extract_toNat]
  omega

theorem pageOf_iff : pageOf a = pageOf b ↔ l1Index a = l1Index b ∧ l2Index a = l2Index b := by
  rw [pageOf_eq_iff, l1Index_eq_iff, l2Index_eq_iff]
  omega

theorem append_toNat {m n : Nat} (x : BitVec m) (y : BitVec n) :
    (x ++ y).toNat = x.toNat * 2 ^ n + y.toNat := by
  rw [BitVec.toNat_append, ← Nat.shiftLeft_add_eq_or_of_lt y.isLt, Nat.shiftLeft_eq]

theorem sub_toNat (a b : Word) : (a - b).toNat = (2 ^ 32 - b.toNat + a.toNat) % 2 ^ 32 :=
  BitVec.toNat_sub ..

theorem page_way {va pa : Word} (hva : va.toNat % 4096 = 0) (hpa : pa.toNat % 4096 = 0)
    (h : pageOf a = pageOf va) :
    pa.extractLsb' 12 20 ++ a.extractLsb' 0 12 = pa + (a - va) := by
  rw [pageOf_eq_iff] at h
  apply BitVec.eq_of_toNat_eq
  have h1 := pa.isLt
  have h2 := a.isLt
  rw [append_toNat, extract_toNat, extract_toNat, BitVec.toNat_add, sub_toNat]
  omega

theorem section_way {va pa : Word} (hva : va.toNat % 1048576 = 0) (hpa : pa.toNat % 1048576 = 0)
    (h : l1Index a = l1Index va) :
    pa.extractLsb' 20 12 ++ a.extractLsb' 0 20 = pa + (a - va) := by
  rw [l1Index_eq_iff] at h
  apply BitVec.eq_of_toNat_eq
  have h1 := pa.isLt
  have h2 := a.isLt
  rw [append_toNat, extract_toNat, extract_toNat, BitVec.toNat_add, sub_toNat]
  omega

end

/-! ## A small page -/

section
variable {c : PageConfig} {pt pt' : PageTables} {e : CpuPtEntry} {a : Word} {w w' d : Word}

def Attrs.inDomain (x : Attrs) (dom : BitVec 4) : Attrs := { x with dom := dom }

def domainZero (x : Word × Attrs) : Word × Attrs := (x.1, x.2.inDomain 0)

theorem translateL2_none : PageTables.translateL2 w 0 a = none := by
  unfold PageTables.translateL2
  rw [if_neg (by decide), if_neg (by decide)]

theorem translateL2_domain (hns : w'.extractLsb' 3 1 = w.extractLsb' 3 1)
    (hdom : w'.extractLsb' 5 4 = 0#4) :
    PageTables.translateL2 w' d a = (PageTables.translateL2 w d a).map domainZero := by
  have h1 : smallAttrs w' d = (smallAttrs w d).inDomain 0 := by
    unfold smallAttrs Attrs.inDomain
    rw [hns, hdom]
    rfl
  have h2 : largeAttrs w' d = (largeAttrs w d).inDomain 0 := by
    unfold largeAttrs
    rw [h1]
    rfl
  unfold PageTables.translateL2
  rw [h1, h2]
  split_ifs <;> rfl

theorem translate_coarse (h : Coarse (pt.entry c (l1Index a))) :
    pt.translate c a = PageTables.translateL2 (pt.entry c (l1Index a)) (pt.l2At c (l1Index a) (l2Index a)) a := by
  have h1 : descType (pt.entry c (l1Index a)) = pageDescTypeCoarse := h
  unfold PageTables.translate
  rw [if_neg, if_pos h1]
  · rfl
  · rw [h1]
    decide

theorem translate_fault (h : Fault (pt.entry c (l1Index a))) : pt.translate c a = none := by
  unfold PageTables.translate
  rw [if_neg (by rw [h]; decide), if_neg (by rw [h]; decide)]

theorem Elsewhere.translate {i : BitVec 12} (h : Elsewhere c i pt pt') (ha : l1Index a ≠ i) :
    pt'.translate c a = pt.translate c a := by
  unfold PageTables.translate
  rw [h.entry _ ha]
  split_ifs with h1 h2
  · rfl
  · have h3 := h.l2At _ ha h2 (l2Index a)
    unfold PageTables.l2At at h3
    unfold PageTables.l2Entry
    rw [h3]
  · rfl

theorem Written.translate_page (h : Written c e pt pt') (hva : e.va.toNat % 4096 = 0)
    (hpa : e.pa.toNat % 4096 = 0) (ha : pageOf a = pageOf e.va) :
    ∃ x, pt'.translate c a = some (e.pa + (a - e.va), x) ∧
      x.ns = (pt'.entry c (l1Index e.va)).extractLsb' 3 1 ∧
      (x.ns = e.ns → x = e.attrs) := by
  obtain ⟨h1, h2⟩ := pageOf_iff.mp ha
  have hc := h.coarse
  rw [← h1] at hc
  refine ⟨_, ?_, rfl, fun h3 => small_reads e _ h3 h.dom⟩
  rw [translate_coarse hc, h1, h2, h.l2At, if_pos rfl]
  unfold PageTables.translateL2
  rw [if_pos (smallPageEntry_type e), smallPageEntry_base, page_way hva hpa ha]

theorem Written.translate_other (h : Written c e pt pt') (hdom : e.dom = 0)
    (hw : Fault (pt.entry c (l1Index e.va)) ∨ Coarse (pt.entry c (l1Index e.va)))
    (ha : pageOf a ≠ pageOf e.va) :
    pt'.translate c a = pt.translate c a ∨
      (l1Index a = l1Index e.va ∧ Coarse (pt.entry c (l1Index e.va)) ∧
        pt'.translate c a = (pt.translate c a).map domainZero) := by
  by_cases h1 : l1Index a = l1Index e.va
  · have h2 : l2Index a ≠ l2Index e.va := fun h3 => ha (pageOf_iff.mpr ⟨h1, h3⟩)
    have hc' : Coarse (pt'.entry c (l1Index a)) := by
      rw [h1]
      exact h.coarse
    rw [translate_coarse hc', h1, h.l2At, if_neg h2]
    obtain hf | hc := hw
    · left
      rw [if_neg fun hc => coarse_not_fault hc hf, translateL2_none, translate_fault (h1 ▸ hf)]
    · right
      have hns := h.ns
      rw [if_pos hc] at hns
      refine ⟨rfl, hc, ?_⟩
      rw [if_pos hc, translate_coarse (h1 ▸ hc), h1]
      refine translateL2_domain hns ?_
      rw [h.dom, hdom]
      rfl
  · exact Or.inl (h.elsewhere.translate h1)

/-! ## A section -/

theorem PoolOk.setPlain (hp : PoolOk c pt) (i : BitVec 12) (hw : ¬ Coarse w) :
    PoolOk c (pt.setEntry c i w) ∧ Elsewhere c i pt (pt.setEntry c i w) := by
  have hent (i' : BitVec 12) := setEntry_entry' hp.config pt i w i'
  have hold {i' : BitVec 12} (h : Coarse ((pt.setEntry c i w).entry c i')) :
      i' ≠ i ∧ Coarse (pt.entry c i') := by
    rw [hent] at h
    split_ifs at h with h1
    · exact absurd h hw
    · exact ⟨h1, h⟩
  refine ⟨⟨{ hp with table := fun i' h => ?_, own := fun i1 i2 h1 h2 h => ?_ },
    fun i' h r hr j h1 => ?_⟩, fun i' h => by rw [hent, if_neg h], fun i' h hi' k => ?_⟩
  · rw [hent, if_neg (hold h).1]
    exact hp.table i' (hold h).2
  · rw [hent, hent, if_neg (hold h1).1, if_neg (hold h2).1] at h
    exact hp.own i1 i2 (hold h1).2 (hold h2).2 h
  · rw [hent, if_neg (hold h).1] at h1
    exact hp.counted i' (hold h).2 r hr j h1
  · obtain ⟨r, hr, j, h1⟩ := hp.table i' hi'
    unfold PageTables.l2At
    rw [hent, if_neg h, h1]
    exact setEntry_table hp.config (hp.pageOk hr)

theorem translate_section (h : pt.entry c (l1Index a) = sectionEntry e)
    (hva : e.va.toNat % 1048576 = 0) (hpa : e.pa.toNat % 1048576 = 0)
    (ha : l1Index a = l1Index e.va) : pt.translate c a = some (e.pa + (a - e.va), e.attrs) := by
  unfold PageTables.translate PageTables.translateL1
  rw [h, if_pos (sectionEntry_type e), if_pos (sectionEntry_super e), sectionEntry_base,
    section_way hva hpa ha, section_reads]

theorem mapSectionEntry_spec (hp : PoolOk c pt) (e : CpuPtEntry) :
    PoolOk c (pt.mapSectionEntry c e).1 ∧ Elsewhere c (l1Index e.va) pt (pt.mapSectionEntry c e).1 ∧
      (pt.mapSectionEntry c e).1.reserve = pt.reserve ∧
      (Fault (pt.entry c (l1Index e.va)) →
        (pt.mapSectionEntry c e).1.entry c (l1Index e.va) = sectionEntry e) ∧
      (¬ Fault (pt.entry c (l1Index e.va)) → (pt.mapSectionEntry c e).1 = pt) := by
  have hplain : ¬ Coarse (sectionEntry e) := fun h => by
    have h1 : pageDescTypeCoarse = pageDescTypeSection := h.symm.trans (sectionEntry_type e)
    exact absurd h1 (by decide)
  unfold PageTables.mapSectionEntry
  split_ifs with h1 h2
  · obtain ⟨h3, h4⟩ := hp.setPlain (l1Index e.va) hplain
    refine ⟨h3, h4, rfl, fun _ => ?_, fun h => absurd h1 h⟩
    exact (setEntry_entry' hp.config ..).trans (if_pos rfl)
  · exact ⟨hp, Elsewhere.refl .., rfl, fun h => absurd h h1, fun _ => rfl⟩
  · exact ⟨hp, Elsewhere.refl .., rfl, fun h => absurd h h1, fun _ => rfl⟩

/-! ## The other addresses -/

def Loosens (w w' : Word) : Prop :=
  Coarse w' ∧ (Fault w ∧ w'.extractLsb' 3 1 = 0#1 ∨ Coarse w ∧ w'.extractLsb' 3 1 = w.extractLsb' 3 1)

/-- an address that is not mapped itself; `touched` says that a page of its section may be -/
structure FrameAt (c : PageConfig) (touched : Prop) (a : Word) (pt pt' : PageTables) : Prop where
  entry : pt'.entry c (l1Index a) = pt.entry c (l1Index a) ∨
    touched ∧ Loosens (pt.entry c (l1Index a)) (pt'.entry c (l1Index a))
  translate : pt'.translate c a = pt.translate c a ∨
    touched ∧ Coarse (pt.entry c (l1Index a)) ∧
      pt'.translate c a = (pt.translate c a).map domainZero

theorem FrameAt.refl (t : Prop) (a : Word) (pt : PageTables) : FrameAt c t a pt pt :=
  ⟨Or.inl rfl, Or.inl rfl⟩

theorem Loosens.trans {w1 w2 w3 : Word} (h1 : Loosens w1 w2) (h2 : Loosens w2 w3) :
    Loosens w1 w3 := by
  obtain ⟨hc, h3⟩ := h1
  obtain ⟨hc', ⟨hf, -⟩ | ⟨-, h4⟩⟩ := h2
  · exact absurd hf (coarse_not_fault hc)
  · exact ⟨hc', h3.imp (And.imp_right h4.trans) (And.imp_right h4.trans)⟩

theorem domainZero_twice (x : Option (Word × Attrs)) :
    (x.map domainZero).map domainZero = x.map domainZero := by
  cases x <;> rfl

theorem FrameAt.trans {t : Prop} {pt1 : PageTables} (h1 : FrameAt c t a pt pt1)
    (h2 : FrameAt c t a pt1 pt') : FrameAt c t a pt pt' := by
  refine ⟨?_, ?_⟩
  · obtain h3 | ⟨ht, h3⟩ := h1.entry
    · rw [← h3]
      exact h2.entry
    · obtain h4 | ⟨-, h4⟩ := h2.entry
      · rw [h4]
        exact Or.inr ⟨ht, h3⟩
      · exact Or.inr ⟨ht, h3.trans h4⟩
  · obtain h3 | ⟨ht, hc, h3⟩ := h1.translate
    · obtain h4 | ⟨ht, hc', h4⟩ := h2.translate
      · exact Or.inl (h4.trans h3)
      · rw [h3] at h4
        obtain h5 | ⟨-, h5, ⟨hf, -⟩ | ⟨hc, -⟩⟩ := h1.entry
        · exact Or.inr ⟨ht, h5 ▸ hc', h4⟩
        · left
          rw [h4, translate_fault hf]
          rfl
        · exact Or.inr ⟨ht, hc, h4⟩
    · refine Or.inr ⟨ht, hc, ?_⟩
      obtain h4 | ⟨-, -, h4⟩ := h2.translate
      · exact h4.trans h3
      · rw [h4, h3, domainZero_twice]

theorem FrameAt.mono {t t' : Prop} (h : FrameAt c t a pt pt') (ht : t → t') : FrameAt c t' a pt pt' :=
  ⟨h.entry.imp_right (And.imp_left ht), h.translate.imp_right (And.imp_left ht)⟩

theorem Elsewhere.frameAt {i : BitVec 12} (h : Elsewhere c i pt pt') (ha : l1Index a ≠ i) (t : Prop) :
    FrameAt c t a pt pt' :=
  ⟨Or.inl (h.entry _ ha), Or.inl (h.translate ha)⟩

theorem Written.frameAt (h : Written c e pt pt') (hdom : e.dom = 0) (hns : e.ns = 0)
    (hw : Fault (pt.entry c (l1Index e.va)) ∨ Coarse (pt.entry c (l1Index e.va)))
    (ha : pageOf a ≠ pageOf e.va) : FrameAt c (l1Index a = l1Index e.va) a pt pt' := by
  refine ⟨?_, ?_⟩
  · by_cases h1 : l1Index a = l1Index e.va
    · refine Or.inr ⟨h1, ?_⟩
      rw [h1]
      have h2 := h.ns
      obtain hf | hc := hw
      · rw [if_neg fun hc => coarse_not_fault hc hf, hns] at h2
        exact ⟨h.coarse, Or.inl ⟨hf, h2⟩⟩
      · rw [if_pos hc] at h2
        exact ⟨h.coarse, Or.inr ⟨hc, h2⟩⟩
    · exact Or.inl (h.elsewhere.entry _ h1)
  · obtain h1 | ⟨h1, h2, h3⟩ := h.translate_other hdom hw ha
    · exact Or.inl h1
    · exact Or.inr ⟨h1, h1 ▸ h2, h3⟩

/-- the address is in none of the pages of the heap that the pool may take -/
def Away (c : PageConfig) (pt : PageTables) (a : Word) : Prop :=
  ∀ x ∈ pt.reserve, c.isStatic x.1 = false → pageOf a ≠ pageOf x.2

def Near (c : PageConfig) (pt : PageTables) (a : Word) : Prop :=
  ∃ x ∈ pt.reserve, c.isStatic x.1 = false ∧ l1Index a = l1Index x.2

theorem growPool_spec (hp : PoolOk c pt) (h : pt.growPool c = some pt') :
    PoolOk c pt' ∧ pt'.reserve ⊆ pt.reserve ∧
      ∀ a, Away c pt a → FrameAt c (Near c pt a) a pt pt' := by
  unfold PageTables.growPool at h
  split_ifs at h
  · split at h
    · cases h
    · rename_i x reserve hres
      obtain ⟨pt1, h1, rfl⟩ := Option.map_eq_some_iff.mp h
      obtain ⟨h2, h3, h4, h5⟩ := hp.nextPage hres
      have hmem : x ∈ pt.reserve := by
        rw [hres]
        exact List.mem_cons_self
      have hmap : PoolOk c pt1 ∧ pt1.reserve ⊆ reserve ∧ (∀ y, y ∈ pt1.names ↔
          y ∈ (pt.withReserve reserve).names) ∧ (∀ y, y ∈ pt1.bases ↔
          y ∈ (pt.withReserve reserve).bases) ∧
          ∀ a, Away c pt a → FrameAt c (Near c pt a) a pt pt1 := by
        unfold PageTables.mapNewPage at h1
        split_ifs at h1 with hs
        · cases h1
          exact ⟨h2, fun _ h => h, fun _ => Iff.rfl, fun _ => Iff.rfl, fun a _ =>
            ⟨Or.inl rfl, Or.inl rfl⟩⟩
        · obtain ⟨y, h6, rfl⟩ := Option.map_eq_some_iff.mp h1
          have hheap : c.isStatic x.1 = false := Bool.eq_false_iff.mpr hs
          obtain ⟨-, h7, h8⟩ | ⟨-, -, -, h8⟩ := mapSmallPage_spec h2 h6
          · refine ⟨h8.ok, h8.reserve, h8.names, h8.bases, fun a ha => ?_⟩
            have h9 := (h8.frameAt rfl rfl h7 (ha x hmem hheap)).mono fun h10 =>
              (⟨x, hmem, hheap, h10⟩ : Near c pt a)
            exact ⟨h9.entry, h9.translate⟩
          · rw [h8]
            exact ⟨h2, fun _ h => h, fun _ => Iff.rfl, fun _ => Iff.rfl, fun a _ =>
              ⟨Or.inl rfl, Or.inl rfl⟩⟩
      obtain ⟨h6, h7, h8, h9, h10⟩ := hmap
      obtain ⟨h11, -, -⟩ := h6.addPage (mt (h8 _).mp h3) (fun y hy => h4 y ((h9 y).mp hy)) h5
      refine ⟨⟨{ h11 with }, h11.counted⟩,
        fun y hy => ?_, fun a ha => ⟨(h10 a ha).entry, (h10 a ha).translate⟩⟩
      rw [hres]
      exact List.mem_cons_of_mem _ (h7 hy)
  · cases h
    exact ⟨hp, fun _ h => h, fun a _ => FrameAt.refl _ a pt⟩

end

end SierraTee
