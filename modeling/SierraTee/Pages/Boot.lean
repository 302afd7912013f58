import SierraTee.Pages.Counts

/-!
# The page bitmaps at boot

* `init_pages`    what `sw_meminfo_init` leaves;
* `init_counted`  when both counters are right.
-/

namespace SierraTee
open Bitmap FlatMemory

def bootPages (start tot : Word) : Nat := ((start + tot).toNat - start.toNat + 4095) / 4096

section
variable {info t : MemInfo} {side : PageSide} {start stop a : Word} {i k : Nat}

/-! ## The loops -/

theorem reserveBoot_none (h : 2 ^ 32 - 4096 + a.toNat % 4096 < stop.toNat) :
    info.reserveBoot side stop k a = none := by
  induction k generalizing info a with
  | zero => rfl
  | succ k ih =>
    have hlt := a.isLt
    have h1 : a < stop := BitVec.lt_def.mpr (by omega)
    have h2 : (a + 0x1000).toNat = (a.toNat + 4096) % 2 ^ 32 := BitVec.toNat_add a 0x1000
    show (if a < stop then (info.takePage side (info.pageOf side a)).reserveBoot side stop k
      (a + 0x1000) else some info) = none
    rw [if_pos h1]
    refine ih ?_
    rw [h2]
    omega

theorem pageOf_eq (h : (info.area side).addrStart = start) (ha : a.toNat = start.toNat + 4096 * i) :
    info.pageOf side a = i := by
  have h1 := a.isLt
  unfold MemInfo.pageOf
  rw [h, shr12_toNat, BitVec.toNat_sub]
  omega

theorem reserveBoot_some (hstart : (info.area side).addrStart = start)
    (ha : a.toNat = start.toNat + 4096 * i) (h : info.reserveBoot side stop k a = some t) :
    t = info.takePages side i ((stop.toNat - start.toNat + 4095) / 4096 - i) := by
  induction k generalizing info a i with
  | zero => cases h
  | succ k ih =>
    change (if a < stop then (info.takePage side (info.pageOf side a)).reserveBoot side stop k
      (a + 0x1000) else some info) = some t at h
    have h2 : (a + 0x1000).toNat = (a.toNat + 4096) % 2 ^ 32 := BitVec.toNat_add a 0x1000
    have hstop := stop.isLt
    split_ifs at h with hlt
    · have hlt' := BitVec.lt_def.mp hlt
      rw [pageOf_eq hstart ha] at h
      by_cases hw : a.toNat + 4096 < 2 ^ 32
      · have hs : ((info.takePage side i).area side).addrStart = start :=
          ((sameLayout_takePages info side i 1).start side).trans hstart
        have h3 := ih (i := i + 1) hs (by rw [h2]; omega) h
        have e : (stop.toNat - start.toNat + 4095) / 4096 - i
            = (stop.toNat - start.toNat + 4095) / 4096 - (i + 1) + 1 := by omega
        rw [h3, e]
        rfl
      · rw [reserveBoot_none (by rw [h2]; omega)] at h
        cases h
    · have hge : stop.toNat ≤ a.toNat := Nat.not_lt.mp (mt BitVec.lt_def.mpr hlt)
      have e : (stop.toNat - start.toNat + 4095) / 4096 - i = 0 := by omega
      cases h
      rw [e]
      rfl

theorem reserveBoot_isSome (hstop : stop.toNat + 4096 ≤ 2 ^ 32)
    (hk : stop.toNat + 4096 ≤ a.toNat + 4096 * k) (hpos : 0 < k) :
    ∃ t, info.reserveBoot side stop k a = some t := by
  induction k generalizing info a with
  | zero => exact absurd hpos (by decide)
  | succ k ih =>
    have h2 : (a + 0x1000).toNat = (a.toNat + 4096) % 2 ^ 32 := BitVec.toNat_add a 0x1000
    show ∃ t, (if a < stop then (info.takePage side (info.pageOf side a)).reserveBoot side stop k
      (a + 0x1000) else some info) = some t
    split_ifs with hlt
    · have hlt' := BitVec.lt_def.mp hlt
      exact ih (by rw [h2]; omega) (by omega)
    · exact ⟨info, rfl⟩

theorem init_pages {ramStart ramEnd codeStart codeEnd : Word} {mem : Words}
    (h : swMeminfoInit ramStart ramEnd codeStart codeEnd mem = some t) :
    t = ((meminfoStart ramStart ramEnd codeStart mem).takePages .phy 0
      (bootPages (phyRegion ramStart ramEnd).1 (codeEnd - codeStart + 0x100000))).takePages .vir 0
        (bootPages codeStart (codeEnd - codeStart + 0x100000)) := by
  unfold swMeminfoInit at h
  rw [Option.bind_eq_some_iff] at h
  obtain ⟨u, hu, ht⟩ := h
  have h1 := reserveBoot_some (i := 0) rfl (by rw [Nat.mul_zero, Nat.add_zero]) hu
  have hs : (u.area .vir).addrStart = codeStart := by
    rw [h1]
    exact (sameLayout_takePages _ _ _ _).start .vir
  have h2 := reserveBoot_some (i := 0) hs (by rw [Nat.mul_zero, Nat.add_zero]) ht
  rw [h2, h1]
  rfl

theorem init_isSome {ramStart ramEnd codeStart codeEnd : Word} (mem : Words)
    (hphy : ((phyRegion ramStart ramEnd).1 + (codeEnd - codeStart + 0x100000)).toNat + 4096 ≤ 2 ^ 32)
    (hvir : (codeStart + (codeEnd - codeStart + 0x100000)).toNat + 4096 ≤ 2 ^ 32) :
    ∃ t, swMeminfoInit ramStart ramEnd codeStart codeEnd mem = some t := by
  have hfuel : 2 ^ 32 ≤ 4096 * bootFuel := by decide
  have h1 : ∃ u, (meminfoStart ramStart ramEnd codeStart mem).reserveBoot .phy
      ((phyRegion ramStart ramEnd).1 + (codeEnd - codeStart + 0x100000)) bootFuel
      (phyRegion ramStart ramEnd).1 = some u := reserveBoot_isSome hphy (by omega) (by decide)
  obtain ⟨u, hu⟩ := h1
  have h2 : ∃ t, u.reserveBoot .vir (codeStart + (codeEnd - codeStart + 0x100000)) bootFuel
      codeStart = some t := reserveBoot_isSome hvir (by omega) (by decide)
  obtain ⟨t, ht⟩ := h2
  refine ⟨t, ?_⟩
  unfold swMeminfoInit
  rw [Option.bind_eq_some_iff]
  exact ⟨u, hu, ht⟩

/-! ## The layout -/

theorem lenMask_toNat (x : Word) : (x &&& 3).toNat = x.toNat % 4 := by
  have h : x.toNat &&& 3 = x.toNat % 4 := Nat.and_two_pow_sub_one_eq_mod _ 2
  rw [BitVec.toNat_and]
  exact h

theorem virBmapLen_toNat (size : Word) : ((size >>> 15) + 1).toNat = size.toNat / 32768 + 1 := by
  have h := size.isLt
  have h1 : ((size >>> 15) + 1).toNat = ((size >>> 15).toNat + 1) % 2 ^ 32 := BitVec.toNat_add _ 1
  rw [h1, BitVec.toNat_ushiftRight, Nat.shiftRight_eq_div_pow]
  omega

theorem phyBmapLen_toNat (size : Word) :
    (phyBmapLen size).toNat = (size.toNat / 32768 + 4) / 4 * 4 := by
  have h := size.isLt
  have h1 := virBmapLen_toNat size
  have e (x : Word) (hx : (size >>> 15) + 1 = x) :
      phyBmapLen size = if x &&& 3 ≠ 0 then x + (4 - (x &&& 3)) else x := by
    rw [← hx]
    rfl
  generalize hx : (size >>> 15) + 1 = x at h1
  rw [e x hx]
  have h2 := lenMask_toNat x
  split_ifs with hm
  · have h3 : (4 - (x &&& 3)).toNat = (2 ^ 32 - (x &&& 3).toNat + 4) % 2 ^ 32 :=
      BitVec.toNat_sub 4 _
    have h4 : x.toNat % 4 ≠ 0 := by
      intro e
      refine hm (BitVec.eq_of_toNat_eq ?_)
      rw [h2, e]
      rfl
    rw [BitVec.toNat_add, h3, h2, h1]
    omega
  · have h4 : x.toNat % 4 = 0 := by
      rw [← h2, not_not.mp hm]
      rfl
    omega

theorem meminfoStart_laid (ramStart ramEnd codeStart : Word) (mem : Words) :
    Laid (meminfoStart ramStart ramEnd codeStart mem) := by
  have h1 := phyBmapLen_toNat (phyRegion ramStart ramEnd).2
  have h2 := virBmapLen_toNat (ramEnd - ramStart + 1)
  have h3 := (phyRegion ramStart ramEnd).2.isLt
  have h4 := (ramEnd - ramStart + 1).isLt
  refine ⟨rfl, ?_, fun side => ?_, fun side => ?_⟩
  · show 32 * ((phyBmapLen (phyRegion ramStart ramEnd).2).toNat / 4)
      = 8 * (phyBmapLen (phyRegion ramStart ramEnd).2).toNat
    omega
  · cases side with
    | phy =>
      show ((phyRegion ramStart ramEnd).2 >>> 12).toNat
        < 8 * (phyBmapLen (phyRegion ramStart ramEnd).2).toNat
      rw [shr12_toNat]
      omega
    | vir =>
      show ((ramEnd - ramStart + 1) >>> 12).toNat < 8 * (((ramEnd - ramStart + 1) >>> 15) + 1).toNat
      rw [shr12_toNat]
      omega
  · cases side with
    | phy =>
      show 8 * (phyBmapLen (phyRegion ramStart ramEnd).2).toNat < _
      omega
    | vir =>
      show 8 * (((ramEnd - ramStart + 1) >>> 15) + 1).toNat < _
      omega

theorem init_laid {ramStart ramEnd codeStart codeEnd : Word} {mem : Words}
    (h : swMeminfoInit ramStart ramEnd codeStart codeEnd mem = some t) : Laid t := by
  rw [init_pages h]
  exact ((meminfoStart_laid ramStart ramEnd codeStart mem).of_same
    (sameLayout_takePages _ _ _ _)).of_same (sameLayout_takePages _ _ _ _)

end

/-! ## The counters -/

/-- what the board has to be like: the RAM begins on a page, the code with another megabyte fits into
both regions, and a page bit that `sw_memset` does not reach is 0 in the memory already -/
structure BootFits (ramStart ramEnd codeStart codeEnd : Word) (mem : Words) : Prop where
  aligned : ramStart.toNat % 4096 = 0
  phy : bootPages ramStart (codeEnd - codeStart + 0x100000)
    ≤ (ramEnd - ramStart + 1).toNat / 4096
  vir : bootPages codeStart (codeEnd - codeStart + 0x100000)
    ≤ (ramEnd - ramStart + 1).toNat / 4096
  clean : ∀ i < (ramEnd - ramStart + 1).toNat / 4096,
    (ramEnd - ramStart + 1).toNat / 32768 + 1 ≤ 4 * (i / 32) + (31 - i % 32) / 8 →
    bit mem ((phyBmapLen (phyRegion ramStart ramEnd).2).toNat / 4) i = false

section
variable {ramStart ramEnd codeStart codeEnd : Word} {mem : Words} {t : MemInfo}

theorem phyRegion_of_aligned (ramEnd : Word) (h : ramStart.toNat % 4096 = 0) :
    (phyRegion ramStart ramEnd).1 = ramStart ∧
      ((phyRegion ramStart ramEnd).2 >>> 12).toNat = (ramEnd - ramStart + 1).toNat / 4096 := by
  have h0 : ¬ ramStart &&& 0xFFF ≠ 0 := not_not.mpr (pageMask_eq_zero.mpr h)
  have hm := pageMask_toNat (ramEnd - ramStart + 1)
  have hlt := (ramEnd - ramStart + 1).isLt
  refine ⟨if_neg h0, ?_⟩
  rw [shr12_toNat]
  unfold phyRegion
  simp only [if_neg h0]
  split_ifs
  · rw [BitVec.toNat_sub, hm]
    omega
  · rfl

theorem getLsbD_zero_word (p : Nat) : (0 : BitVec 32).getLsbD p = false := BitVec.getLsbD_zero

theorem bit_zeroBytes (m : Words) (count base i : Nat)
    (h : count ≤ 4 * (base + i / 32) + (31 - i % 32) / 8 → bit m base i = false) :
    bit (zeroBytes m count) base i = false := by
  unfold bit zeroBytes
  split_ifs with h1 h2
  · exact getLsbD_zero_word _
  · rw [BitVec.getLsbD_shiftLeft]
    by_cases h3 : 31 - i % 32 < 8 * (count - 4 * (base + i / 32))
    · simp [h3]
    · have h4 : 8 * (count - 4 * (base + i / 32)) + (31 - i % 32 - 8 * (count - 4 * (base + i / 32)))
          = 31 - i % 32 := by omega
      rw [BitVec.getLsbD_ushiftRight, h4]
      have h5 : (m (base + i / 32)).getLsbD (31 - i % 32) = false := h (by omega)
      rw [h5, Bool.and_false]
  · exact h (by omega)

theorem meminfoStart_bits (hb : BootFits ramStart ramEnd codeStart codeEnd mem) (side : PageSide)
    {i : Nat} (hi : i < (meminfoStart ramStart ramEnd codeStart mem).pages side) :
    (meminfoStart ramStart ramEnd codeStart mem).bits side i = false := by
  have hlaid := meminfoStart_laid ramStart ramEnd codeStart mem
  have hroom := hlaid.room side
  have hsmall := hlaid.small side
  have hlen := phyBmapLen_toNat (phyRegion ramStart ramEnd).2
  have h3 := (phyRegion ramStart ramEnd).2.isLt
  have h4 := (ramEnd - ramStart + 1).isLt
  have hcount : (phyBmapLen (phyRegion ramStart ramEnd).2 + (((ramEnd - ramStart + 1) >>> 15) + 1)).toNat
      = (phyBmapLen (phyRegion ramStart ramEnd).2).toNat + ((ramEnd - ramStart + 1).toNat / 32768 + 1) := by
    rw [BitVec.toNat_add, virBmapLen_toNat]
    omega
  cases side with
  | phy =>
    have hroom' : i < 8 * (phyBmapLen (phyRegion ramStart ramEnd).2).toNat := hi.trans hroom
    refine bit_zeroBytes mem _ 0 i fun h => ?_
    rw [hcount] at h
    omega
  | vir =>
    have hp := hi
    change i < ((ramEnd - ramStart + 1) >>> 12).toNat at hp
    rw [shr12_toNat] at hp
    refine bit_zeroBytes mem _ ((phyBmapLen (phyRegion ramStart ramEnd).2).toNat / 4) i fun h => ?_
    rw [hcount] at h
    exact hb.clean i hp (by omega)

theorem meminfoStart_counted (hb : BootFits ramStart ramEnd codeStart codeEnd mem)
    (side : PageSide) : (meminfoStart ramStart ramEnd codeStart mem).Counted side := by
  have hnum : ((meminfoStart ramStart ramEnd codeStart mem).area side).numPagFree.toNat
      = (meminfoStart ramStart ramEnd codeStart mem).pages side := by
    cases side with
    | phy =>
      show ((ramEnd - ramStart + 1) >>> 12).toNat = ((phyRegion ramStart ramEnd).2 >>> 12).toNat
      rw [(phyRegion_of_aligned ramEnd hb.aligned).2, shr12_toNat]
    | vir => rfl
  unfold MemInfo.Counted
  rw [hnum]
  have e : clearBits ((meminfoStart ramStart ramEnd codeStart mem).bits side)
      ((meminfoStart ramStart ramEnd codeStart mem).pages side)
      = Finset.range ((meminfoStart ramStart ramEnd codeStart mem).pages side) :=
    Finset.filter_eq_self.mpr fun i hi => meminfoStart_bits hb side (Finset.mem_range.mp hi)
  rw [e, Finset.card_range]

theorem init_counted (hb : BootFits ramStart ramEnd codeStart codeEnd mem)
    (h : swMeminfoInit ramStart ramEnd codeStart codeEnd mem = some t) (side : PageSide) :
    t.Counted side := by
  have hlaid := meminfoStart_laid ramStart ramEnd codeStart mem
  have hclear (x : PageSide) (n : Nat) (hn : n ≤ (meminfoStart ramStart ramEnd codeStart mem).pages x)
      (i : Nat) (_ : 0 ≤ i) (hi : i < 0 + n) :
      (meminfoStart ramStart ramEnd codeStart mem).bits x i = false :=
    meminfoStart_bits hb x (by omega)
  obtain ⟨hstart, hpages⟩ := phyRegion_of_aligned ramEnd hb.aligned
  have hphy : bootPages (phyRegion ramStart ramEnd).1 (codeEnd - codeStart + 0x100000)
      ≤ (meminfoStart ramStart ramEnd codeStart mem).pages .phy := by
    show _ ≤ ((phyRegion ramStart ramEnd).2 >>> 12).toNat
    rw [hstart, hpages]
    exact hb.phy
  have hvir : bootPages codeStart (codeEnd - codeStart + 0x100000)
      ≤ (meminfoStart ramStart ramEnd codeStart mem).pages .vir := by
    show _ ≤ ((ramEnd - ramStart + 1) >>> 12).toNat
    rw [shr12_toNat]
    exact hb.vir
  have hin : (meminfoStart ramStart ramEnd codeStart mem).Inside .phy 0
      (bootPages (phyRegion ramStart ramEnd).1 (codeEnd - codeStart + 0x100000)) :=
    inside_of_le (by rw [Nat.zero_add]; exact hphy)
  have hlt := pages_lt (meminfoStart ramStart ramEnd codeStart mem)
  rw [init_pages h]
  set info := meminfoStart ramStart ramEnd codeStart mem with hinfo
  set n1 := bootPages (phyRegion ramStart ramEnd).1 (codeEnd - codeStart + 0x100000) with hn1
  set n2 := bootPages codeStart (codeEnd - codeStart + 0x100000) with hn2
  have hc1 (x : PageSide) : (info.takePages .phy 0 n1).Counted x := by
    by_cases hx : x = .phy
    · rw [hx]
      exact (count_take_iff (meminfoStart_counted hb .phy) (hclear .phy n1 hphy)
        (hphy.trans_lt (hlt .phy))).mpr hin
    · exact (count_take_other hlaid hx fun _ => hin).mpr (meminfoStart_counted hb x)
  have hlaid' := hlaid.of_same (sameLayout_takePages info .phy 0 n1)
  have hpages' := (sameLayout_takePages info .phy 0 n1).pages .vir
  have hin' : (info.takePages .phy 0 n1).Inside .vir 0 n2 := inside_of_le (by rw [hpages']; omega)
  by_cases hx : side = .vir
  · rw [hx]
    refine (count_take_iff (hc1 .vir) (fun i h1 h2 => ?_) (hvir.trans_lt (hlt .vir))).mpr hin'
    have hi : i < info.pages .vir := by omega
    rw [hlaid.bits_take_other (by decide) hi fun _ => hin]
    exact hclear .vir n2 hvir i h1 h2
  · exact (count_take_other hlaid' hx fun _ => hin').mpr (hc1 side)

end

end SierraTee
