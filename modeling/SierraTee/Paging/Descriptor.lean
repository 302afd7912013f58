import SierraTee.Lib.FlatMemory

/-!
# Descriptors of the page tables (`page_table.h`)

* `section_reads`, `small_reads`  the hardware reads what was asked for.
-/

namespace SierraTee
open FlatMemory

/-- `struct cpu_pt_entry` -/
structure CpuPtEntry where
  va : Word
  pa : Word
  ns : BitVec 1
  ng : BitVec 1
  s : BitVec 1
  tex : BitVec 3
  ap : BitVec 3
  dom : BitVec 4
  xn : BitVec 1
  c : BitVec 1
  b : BitVec 1

def pageDescTypeMask : Word := 0x3
def pageDescTypeFault : Word := 0x0
def pageDescTypeCoarse : Word := 0x1
def pageDescTypeSection : Word := 0x2
def pageDescTypeSmall : Word := 0x2

def pageDescPageTblMask : Word := 0xFFFFFC00
def pageDescSecMask : Word := 0xFFF00000
def pageDescPageMask : Word := 0xFFFFF000
def pageDescDomainMaskEntry : Word := 0xF <<< 5
def pageDescL1SecNsMaskEntry : Word := 1 <<< 19

/-- `va >> 20` -/
def l1Index (va : Word) : BitVec 12 := va.extractLsb' 20 12

def l2Index (va : Word) : BitVec 8 := va.extractLsb' 12 8

def field {n : Nat} (x : BitVec n) (k : Nat) : Word := x.setWidth 32 <<< k

def sectionEntry (e : CpuPtEntry) : Word :=
  (e.pa &&& pageDescSecMask) ||| pageDescTypeSection ||| field e.dom 5 ||| field e.b 2
    ||| field e.c 3 ||| field e.tex 12 ||| field e.xn 4 ||| field (e.ap.extractLsb' 0 2) 10
    ||| field (e.ap.extractLsb' 2 1) 15 ||| field e.s 16 ||| field e.ng 17 ||| field e.ns 19

def coarseEntry (l2Base : Word) (e : CpuPtEntry) : Word :=
  (l2Base &&& pageDescPageTblMask) ||| pageDescTypeCoarse ||| field e.dom 5 ||| field e.ns 3

/-- the domain of a first-level entry is replaced -/
def setDomain (w : Word) (e : CpuPtEntry) : Word := (w &&& ~~~pageDescDomainMaskEntry) ||| field e.dom 5

def smallPageEntry (e : CpuPtEntry) : Word :=
  (e.pa &&& pageDescPageMask) ||| pageDescTypeSmall ||| field e.b 2 ||| field e.c 3
    ||| field e.tex 6 ||| field e.xn 0 ||| field (e.ap.extractLsb' 0 2) 4
    ||| field (e.ap.extractLsb' 2 1) 9 ||| field e.s 10 ||| field e.ng 11

def descType (w : Word) : Word := w &&& pageDescTypeMask

/-! ## What the hardware reads -/

structure Attrs where
  ns : BitVec 1
  ng : BitVec 1
  s : BitVec 1
  tex : BitVec 3
  ap : BitVec 3
  dom : BitVec 4
  xn : BitVec 1
  c : BitVec 1
  b : BitVec 1

def CpuPtEntry.attrs (e : CpuPtEntry) : Attrs where
  ns := e.ns
  ng := e.ng
  s := e.s
  tex := e.tex
  ap := e.ap
  dom := e.dom
  xn := e.xn
  c := e.c
  b := e.b

def sectionAttrs (w : Word) : Attrs where
  ns := w.extractLsb' 19 1
  ng := w.extractLsb' 17 1
  s := w.extractLsb' 16 1
  tex := w.extractLsb' 12 3
  ap := w.extractLsb' 15 1 ++ w.extractLsb' 10 2
  dom := w.extractLsb' 5 4
  xn := w.extractLsb' 4 1
  c := w.extractLsb' 3 1
  b := w.extractLsb' 2 1

/-- a small page `d` in the table of the first-level entry `w` -/
def smallAttrs (w d : Word) : Attrs where
  ns := w.extractLsb' 3 1
  ng := d.extractLsb' 11 1
  s := d.extractLsb' 10 1
  tex := d.extractLsb' 6 3
  ap := d.extractLsb' 9 1 ++ d.extractLsb' 4 2
  dom := w.extractLsb' 5 4
  xn := d.extractLsb' 0 1
  c := d.extractLsb' 3 1
  b := d.extractLsb' 2 1

/-- a large page `d`, with its `xn` and `tex` in other places -/
def largeAttrs (w d : Word) : Attrs :=
  { smallAttrs w d with tex := d.extractLsb' 12 3, xn := d.extractLsb' 15 1 }

/-! ## Bits of a descriptor -/

section
variable {n : Nat}

theorem field_reads (x : BitVec n) {k : Nat} (h : k + n ≤ 32) : (field x k).extractLsb' k n = x := by
  ext i hi
  simp only [field, BitVec.getElem_extractLsb', BitVec.getLsbD_shiftLeft, BitVec.getLsbD_setWidth]
  have h1 : k + i < 32 := by omega
  have h2 : i < 32 := by omega
  have h3 : ¬ k + i < k := by omega
  simp [h1, h2, h3, BitVec.getLsbD_eq_getElem hi]

theorem field_apart (x : BitVec n) {k j m : Nat} (h : j + m ≤ k ∨ k + n ≤ j) :
    (field x k).extractLsb' j m = 0#m := by
  ext i hi
  simp only [field, BitVec.getElem_extractLsb', BitVec.getLsbD_shiftLeft, BitVec.getLsbD_setWidth]
  by_cases h1 : j + i < k
  · simp [h1]
  · have h2 : n ≤ j + i - k := by omega
    simp [BitVec.getLsbD_of_ge x _ h2]

def highMask (k : Nat) : Word := BitVec.allOnes 32 <<< k

theorem high_reads (w : Word) {k j m : Nat} (h : k ≤ j) (hj : j + m ≤ 32) :
    (w &&& highMask k).extractLsb' j m = w.extractLsb' j m := by
  ext i hi
  simp only [highMask, BitVec.getElem_extractLsb', BitVec.getLsbD_and, BitVec.getLsbD_shiftLeft,
    BitVec.getLsbD_allOnes]
  have h1 : j + i < 32 := by omega
  have h2 : ¬ j + i < k := by omega
  have h3 : j + i - k < 32 := by omega
  simp [h1, h2, h3]

theorem high_apart (w : Word) {k j m : Nat} (h : j + m ≤ k) :
    (w &&& highMask k).extractLsb' j m = 0#m := by
  ext i hi
  simp only [highMask, BitVec.getElem_extractLsb', BitVec.getLsbD_and, BitVec.getLsbD_shiftLeft]
  have h1 : j + i < k := by omega
  simp [h1]

theorem high_congr {w w' : Word} {k m : Nat} (hk : k + m = 32)
    (h : w.extractLsb' k m = w'.extractLsb' k m) : w &&& highMask k = w' &&& highMask k := by
  ext i hi
  simp only [highMask, BitVec.getElem_and, BitVec.getElem_shiftLeft, BitVec.getElem_allOnes]
  by_cases h1 : i < k
  · simp [h1]
  · have h2 : (w.extractLsb' k m)[i - k] = (w'.extractLsb' k m)[i - k] := by
      simp only [h]
    have h3 : k + (i - k) = i := by omega
    rw [BitVec.getElem_extractLsb', BitVec.getElem_extractLsb', h3, BitVec.getLsbD_eq_getElem hi,
      BitVec.getLsbD_eq_getElem hi] at h2
    rw [h2]

theorem high_self {w : Word} {k : Nat} (h : w.toNat % 2 ^ k = 0) : w &&& highMask k = w := by
  ext i hi
  simp only [highMask, BitVec.getElem_and, BitVec.getElem_shiftLeft, BitVec.getElem_allOnes]
  by_cases h1 : i < k
  · have h2 := Nat.testBit_mod_two_pow w.toNat k i
    rw [h, Nat.zero_testBit, decide_eq_true h1, Bool.true_and] at h2
    have h3 : w[i] = false := h2.symm
    simp [h3]
  · simp [h1]

theorem type_eq (w : Word) : descType w = (w.extractLsb' 0 2).setWidth 32 := by
  apply BitVec.eq_of_toNat_eq
  have h : w.toNat &&& 3 = w.toNat % 4 := Nat.and_two_pow_sub_one_eq_mod _ 2
  rw [BitVec.toNat_setWidth, BitVec.extractLsb'_toNat, Nat.shiftRight_zero]
  show w.toNat &&& 3 = w.toNat % 4 % 2 ^ 32
  omega

theorem clear_reads (w : Word) (x : BitVec n) {k j m : Nat} (h : j + m ≤ k ∨ k + n ≤ j)
    (hj : j + m ≤ 32) : (w &&& ~~~field x k).extractLsb' j m = w.extractLsb' j m := by
  ext i hi
  have h1 : (field x k).getLsbD (j + i) = ((field x k).extractLsb' j m)[i] := by
    rw [BitVec.getElem_extractLsb']
  rw [field_apart x h, BitVec.getElem_zero] at h1
  have h2 : j + i < 32 := by omega
  rw [BitVec.getElem_extractLsb', BitVec.getElem_extractLsb', BitVec.getLsbD_and,
    BitVec.getLsbD_not, h1, decide_eq_true h2, Bool.not_false, Bool.and_true, Bool.and_true]

theorem clear_field (w : Word) {k : Nat} (h : k + n ≤ 32) :
    (w &&& ~~~field (BitVec.allOnes n) k).extractLsb' k n = 0#n := by
  ext i hi
  have h1 : (field (BitVec.allOnes n) k).getLsbD (k + i)
      = ((field (BitVec.allOnes n) k).extractLsb' k n)[i] := by
    rw [BitVec.getElem_extractLsb']
  rw [field_reads _ h, BitVec.getElem_allOnes] at h1
  rw [BitVec.getElem_extractLsb', BitVec.getLsbD_and, BitVec.getLsbD_not, h1, Bool.not_true,
    Bool.and_false, Bool.and_false, BitVec.getElem_zero]

theorem secMask_eq : pageDescSecMask = highMask 20 := by decide
theorem pageMask_eq : pageDescPageMask = highMask 12 := by decide
theorem pageTblMask_eq : pageDescPageTblMask = highMask 10 := by decide
theorem typeSection_eq : pageDescTypeSection = field 2#2 0 := by decide
theorem typeCoarse_eq : pageDescTypeCoarse = field 1#2 0 := by decide
theorem domainMask_eq : pageDescDomainMaskEntry = field (BitVec.allOnes 4) 5 := by decide
theorem typeSmall_eq : pageDescTypeSmall = field 1#1 1 := by decide

theorem ap_join (x : BitVec 3) : x.extractLsb' 2 1 ++ x.extractLsb' 0 2 = x := by
  exact BitVec.extractLsb'_append_extractLsb'

variable (e : CpuPtEntry)

/-! ## The descriptors -/

theorem sectionEntry_base : (sectionEntry e).extractLsb' 20 12 = e.pa.extractLsb' 20 12 := by
  unfold sectionEntry
  rw [secMask_eq, typeSection_eq]
  simp (disch := omega) only [BitVec.extractLsb'_or, field_apart, high_reads, BitVec.or_zero]

theorem sectionEntry_type : descType (sectionEntry e) = pageDescTypeSection := by
  unfold sectionEntry
  rw [type_eq, secMask_eq, typeSection_eq]
  simp (disch := omega) only [BitVec.extractLsb'_or, field_apart, field_reads, high_apart,
    BitVec.or_zero, BitVec.zero_or]
  decide

theorem sectionEntry_super : (sectionEntry e).extractLsb' 18 1 = 0#1 := by
  unfold sectionEntry
  rw [secMask_eq, typeSection_eq]
  simp (disch := omega) only [BitVec.extractLsb'_or, field_apart, high_apart, BitVec.or_zero]

theorem section_reads : sectionAttrs (sectionEntry e) = e.attrs := by
  unfold sectionAttrs sectionEntry
  rw [secMask_eq, typeSection_eq]
  simp (disch := omega) only [BitVec.extractLsb'_or, field_apart, field_reads, high_apart,
    BitVec.or_zero, BitVec.zero_or, ap_join]
  rfl

theorem coarseEntry_type (b : Word) : descType (coarseEntry b e) = pageDescTypeCoarse := by
  unfold coarseEntry
  rw [type_eq, pageTblMask_eq, typeCoarse_eq]
  simp (disch := omega) only [BitVec.extractLsb'_or, field_apart, field_reads, high_apart,
    BitVec.or_zero, BitVec.zero_or]
  decide

theorem coarseEntry_base (b : Word) :
    (coarseEntry b e).extractLsb' 10 22 = b.extractLsb' 10 22 := by
  unfold coarseEntry
  rw [pageTblMask_eq, typeCoarse_eq]
  simp (disch := omega) only [BitVec.extractLsb'_or, field_apart, high_reads, BitVec.or_zero]

theorem coarseEntry_ns (b : Word) : (coarseEntry b e).extractLsb' 3 1 = e.ns := by
  unfold coarseEntry
  rw [pageTblMask_eq, typeCoarse_eq]
  simp (disch := omega) only [BitVec.extractLsb'_or, field_apart, field_reads, high_apart,
    BitVec.or_zero, BitVec.zero_or]

theorem coarseEntry_dom (b : Word) : (coarseEntry b e).extractLsb' 5 4 = e.dom := by
  unfold coarseEntry
  rw [pageTblMask_eq, typeCoarse_eq]
  simp (disch := omega) only [BitVec.extractLsb'_or, field_apart, field_reads, high_apart,
    BitVec.or_zero, BitVec.zero_or]

theorem setDomain_dom (w : Word) : (setDomain w e).extractLsb' 5 4 = e.dom := by
  unfold setDomain
  rw [domainMask_eq, BitVec.extractLsb'_or, clear_field w (by omega), field_reads _ (by omega),
    BitVec.zero_or]

theorem setDomain_reads (w : Word) {j m : Nat} (h : j + m ≤ 5 ∨ 9 ≤ j) (hj : j + m ≤ 32) :
    (setDomain w e).extractLsb' j m = w.extractLsb' j m := by
  unfold setDomain
  rw [domainMask_eq, BitVec.extractLsb'_or, clear_reads w _ h hj, field_apart _ h, BitVec.or_zero]

theorem setDomain_type (w : Word) : descType (setDomain w e) = descType w := by
  rw [type_eq, type_eq, setDomain_reads e w (by omega) (by omega)]

theorem smallPageEntry_base : (smallPageEntry e).extractLsb' 12 20 = e.pa.extractLsb' 12 20 := by
  unfold smallPageEntry
  rw [pageMask_eq, typeSmall_eq]
  simp (disch := omega) only [BitVec.extractLsb'_or, field_apart, high_reads, BitVec.or_zero]

theorem smallPageEntry_type : (smallPageEntry e).extractLsb' 1 1 = 1#1 := by
  unfold smallPageEntry
  rw [pageMask_eq, typeSmall_eq]
  simp (disch := omega) only [BitVec.extractLsb'_or, field_apart, field_reads, high_apart,
    BitVec.or_zero, BitVec.zero_or]

theorem small_reads (w : Word) (hns : w.extractLsb' 3 1 = e.ns) (hdom : w.extractLsb' 5 4 = e.dom) :
    smallAttrs w (smallPageEntry e) = e.attrs := by
  unfold smallAttrs smallPageEntry
  rw [pageMask_eq, typeSmall_eq, hns, hdom]
  simp (disch := omega) only [BitVec.extractLsb'_or, field_apart, field_reads, high_apart,
    BitVec.or_zero, BitVec.zero_or, ap_join]
  rfl

end

end SierraTee
