import SierraTee.Paging.Mapped

/-!
# Ranges of addresses

* `InRange.step`, `FirstStep.bySection`   a range is its first page or section, and the rest.
-/

namespace SierraTee
open FlatMemory PageTables

/-- the addresses of a range, which may go over the end of the address space -/
def InRange (va size a : Word) : Prop := (a - va).toNat < size.toNat

def BySection (va pa size a : Word) : Prop :=
  va.toNat % sectionBytes = pa.toNat % sectionBytes ∧ a.toNat % sectionBytes ≤ (a - va).toNat ∧
    (a - va).toNat - a.toNat % sectionBytes + sectionBytes ≤ size.toNat

instance (va size a : Word) : Decidable (InRange va size a) := inferInstanceAs (Decidable (_ < _))

instance (va pa size a : Word) : Decidable (BySection va pa size a) :=
  inferInstanceAs (Decidable (_ ∧ _ ∧ _))

section
variable {va pa size a b d : Word}

theorem pageAligned_iff : pageAligned a = true ↔ a.toNat % 4096 = 0 := by
  have h : a.toNat &&& 4095 = a.toNat % 4096 := Nat.and_two_pow_sub_one_eq_mod _ 12
  unfold pageAligned
  rw [decide_eq_true_iff, ← BitVec.toNat_inj]
  show a.toNat &&& 4095 = 0 ↔ _
  rw [h]

theorem sectionAligned_iff : sectionAligned a = true ↔ a.toNat % 1048576 = 0 := by
  have h : a.toNat &&& 1048575 = a.toNat % 1048576 := Nat.and_two_pow_sub_one_eq_mod _ 20
  unfold sectionAligned
  rw [decide_eq_true_iff, ← BitVec.toNat_inj]
  show a.toNat &&& 1048575 = 0 ↔ _
  rw [h]

theorem add_toNat (a b : Word) : (a + b).toNat = (a.toNat + b.toNat) % 2 ^ 32 := BitVec.toNat_add ..

theorem way_cases (va a : Word) : a.toNat = va.toNat + (a - va).toNat ∨
    a.toNat + 2 ^ 32 = va.toNat + (a - va).toNat := by
  have h1 := a.isLt
  have h2 := va.isLt
  rw [sub_toNat]
  omega

theorem way_later (h : d.toNat ≤ (a - va).toNat) :
    (a - (va + d)).toNat = (a - va).toNat - d.toNat := by
  have h1 := a.isLt
  have h2 := va.isLt
  have h3 := d.isLt
  rw [sub_toNat] at h
  rw [sub_toNat, sub_toNat, add_toNat]
  omega

theorem way_earlier (h : (a - va).toNat < d.toNat) :
    (a - (va + d)).toNat = (a - va).toNat + 2 ^ 32 - d.toNat := by
  have h1 := a.isLt
  have h2 := va.isLt
  have h3 := d.isLt
  rw [sub_toNat] at h
  rw [sub_toNat, sub_toNat, add_toNat]
  omega

theorem way_target (va pa a d : Word) : pa + d + (a - (va + d)) = pa + (a - va) := by
  apply BitVec.eq_of_toNat_eq
  have h1 := a.isLt
  have h2 := va.isLt
  have h3 := d.isLt
  have h4 := pa.isLt
  rw [add_toNat, add_toNat, add_toNat, sub_toNat, sub_toNat, add_toNat]
  omega

theorem size_sub (h : d.toNat ≤ size.toNat) : (size - d).toNat = size.toNat - d.toNat := by
  have h1 := size.isLt
  rw [sub_toNat]
  omega

theorem InRange.step (h : d.toNat ≤ size.toNat) :
    InRange va size a ↔ (a - va).toNat < d.toNat ∨ InRange (va + d) (size - d) a := by
  unfold InRange
  rw [size_sub h]
  by_cases h1 : (a - va).toNat < d.toNat
  · refine ⟨fun _ => Or.inl h1, fun _ => by omega⟩
  · rw [way_later (by omega)]
    omega

theorem InRange.rest (h : d.toNat ≤ size.toNat) (ha : InRange (va + d) (size - d) a) :
    d.toNat ≤ (a - va).toNat := by
  unfold InRange at ha
  rw [size_sub h] at ha
  by_contra h1
  rw [way_earlier (by omega)] at ha
  have h2 := size.isLt
  have h3 := d.isLt
  omega

theorem pageOf_way (hva : va.toNat % 4096 = 0) : pageOf a = pageOf va ↔ (a - va).toNat < 4096 := by
  have h1 := a.isLt
  have h2 := va.isLt
  rw [pageOf_eq_iff, sub_toNat]
  omega

theorem l1Index_way (hva : va.toNat % 1048576 = 0) :
    l1Index a = l1Index va ↔ (a - va).toNat < 1048576 := by
  have h1 := a.isLt
  have h2 := va.isLt
  rw [l1Index_eq_iff, sub_toNat]
  omega

theorem BySection.section (h : BySection va pa size a) (hb : l1Index b = l1Index a) :
    BySection va pa size b ∧ InRange va size b := by
  obtain ⟨h1, h2, h3⟩ := h
  unfold BySection InRange sectionBytes at *
  rw [l1Index_eq_iff] at hb
  have h4 := way_cases va a
  have h5 := way_cases va b
  have h6 := (b - va).isLt
  have h7 := (a - va).isLt
  have h8 := size.isLt
  refine ⟨⟨h1, ?_, ?_⟩, ?_⟩ <;> omega

structure FirstStep (va pa size d : Word) (page : Prop) : Prop where
  fits : d.toNat ≤ size.toNat
  vaPage : va.toNat % 4096 = 0
  paPage : pa.toNat % 4096 = 0
  isPage : page → d.toNat = 4096 ∧
    (va.toNat % 1048576 = 0 → pa.toNat % 1048576 = 0 → size.toNat < 1048576)
  isSection : ¬ page → d.toNat = 1048576 ∧ va.toNat % 1048576 = 0 ∧ pa.toNat % 1048576 = 0

variable {page : Prop}

theorem FirstStep.bySection (h : FirstStep va pa size d page) (ha : (a - va).toNat < d.toNat) :
    BySection va pa size a ↔ ¬ page := by
  obtain ⟨h1, h2, h3, h4, h5⟩ := h
  unfold BySection sectionBytes
  have h6 := way_cases va a
  by_cases hp : page
  · obtain ⟨h7, h8⟩ := h4 hp
    refine ⟨fun h9 _ => ?_, fun h9 => absurd hp h9⟩
    obtain ⟨h9, h10, h11⟩ := h9
    have h12 := h8 (by omega) (by omega)
    omega
  · obtain ⟨h7, h8, h9⟩ := h5 hp
    refine ⟨fun _ => hp, fun _ => ⟨by omega, by omega, by omega⟩⟩

theorem FirstStep.bySection_rest (h : FirstStep va pa size d page)
    (ha : d.toNat ≤ (a - va).toNat) :
    BySection (va + d) (pa + d) (size - d) a ↔ BySection va pa size a := by
  obtain ⟨h1, h2, h3, h4, h5⟩ := h
  unfold BySection sectionBytes
  rw [way_later ha, size_sub h1, add_toNat, add_toNat]
  have h6 := way_cases va a
  have h7 := va.isLt
  have h8 := pa.isLt
  by_cases hp : page
  · obtain ⟨h9, h10⟩ := h4 hp
    refine ⟨fun h => ?_, fun h => ?_⟩
    · obtain ⟨h11, h12, h13⟩ := h
      refine ⟨?_, ?_, ?_⟩ <;> omega
    · obtain ⟨h11, h12, h13⟩ := h
      refine ⟨?_, ?_, ?_⟩
      · omega
      · by_contra h14
        have h15 := h10 (by omega) (by omega)
        omega
      · omega
  · obtain ⟨h9, h10, h11⟩ := h5 hp
    refine ⟨fun h => ?_, fun h => ?_⟩
    · obtain ⟨h12, h13, h14⟩ := h
      refine ⟨?_, ?_, ?_⟩ <;> omega
    · obtain ⟨h12, h13, h14⟩ := h
      refine ⟨?_, ?_, ?_⟩ <;> omega

theorem FirstStep.ofSection (h : BitVec.ofNat 32 sectionBytes ≤ size ∧ sectionAligned va = true ∧
    sectionAligned pa = true) (hva : va.toNat % 4096 = 0) (hpa : pa.toNat % 4096 = 0) :
    FirstStep va pa size (BitVec.ofNat 32 sectionBytes) False := by
  obtain ⟨h1, h2, h3⟩ := h
  rw [BitVec.le_def] at h1
  rw [sectionAligned_iff] at h2 h3
  exact ⟨h1, hva, hpa, fun h => h.elim, fun _ => ⟨rfl, h2, h3⟩⟩

theorem FirstStep.ofPage (h0 : ¬ size = 0) (h : ¬ (BitVec.ofNat 32 sectionBytes ≤ size ∧
    sectionAligned va = true ∧ sectionAligned pa = true)) (hva : va.toNat % 4096 = 0)
    (hpa : pa.toNat % 4096 = 0) (hsize : size.toNat % 4096 = 0) :
    FirstStep va pa size (BitVec.ofNat 32 pageBytes) True := by
  have h1 : size.toNat ≠ 0 := fun h1 => h0 (BitVec.eq_of_toNat_eq h1)
  have h2 : (BitVec.ofNat 32 pageBytes).toNat = 4096 := rfl
  refine ⟨by omega, hva, hpa, fun _ => ⟨h2, fun h3 h4 => ?_⟩, fun h => absurd trivial h⟩
  have h5 : (BitVec.ofNat 32 sectionBytes).toNat = 1048576 := rfl
  by_contra h6
  refine h ⟨BitVec.le_def.mpr ?_, sectionAligned_iff.mpr h3, sectionAligned_iff.mpr h4⟩
  omega

theorem FirstStep.step_aligned (h : FirstStep va pa size d page) : d.toNat % 4096 = 0 := by
  by_cases hp : page
  · obtain ⟨h1, -⟩ := h.isPage hp
    omega
  · obtain ⟨h1, -⟩ := h.isSection hp
    omega

theorem FirstStep.va_rest (h : FirstStep va pa size d page) : (va + d).toNat % 4096 = 0 := by
  have h1 := h.step_aligned
  have h2 := h.vaPage
  rw [add_toNat]
  omega

theorem FirstStep.pa_rest (h : FirstStep va pa size d page) : (pa + d).toNat % 4096 = 0 := by
  have h1 := h.step_aligned
  have h2 := h.paPage
  rw [add_toNat]
  omega

theorem FirstStep.size_rest (h : FirstStep va pa size d page) (hsize : size.toNat % 4096 = 0) :
    (size - d).toNat % 4096 = 0 := by
  have h1 := h.step_aligned
  rw [size_sub h.fits]
  omega

end

end SierraTee
