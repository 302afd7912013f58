import SierraTee.Pages.Counts

/-!
# Pages that are taken and given back

* `givePages_takePages`  a run of clear pages that is taken and given back leaves all as it was;
* `given_back_iff`       after a run of pages was taken, another one has to be the same;
* `scan_eq_some_iff`     the run that is found, in terms of the bitmap.
-/

namespace SierraTee
open Function Bitmap FlatMemory

structure SmallSize (size : Word) (n : Nat) : Prop where
  size : size.toNat = 4096 * n
  small : n < 16

section
variable {info t : MemInfo} {side other : PageSide} {s r n m : Nat} {size addr : Word}

theorem memInfo_ext (hm : info.mem = t.mem) (ha : info.area = t.area) : info = t := by
  cases info
  cases t
  cases hm
  cases ha
  rfl

theorem givePages_takePages (h : Clear info.mem (info.area side).bmap s n) :
    (info.takePages side s n).givePages side s n = info := by
  have hbmap := (sameLayout_takePages info side s n).bmap side
  refine memInfo_ext ?_ ?_
  · rw [givePages_mem, hbmap, takePages_mem, clearRun_setRun h]
  · rw [givePages_area, takePages_area, update_self, update_idem]
    show update info.area side { info.area side with
      numPagFree := (info.area side).numPagFree - BitVec.ofNat 32 n + BitVec.ofNat 32 n } = _
    rw [BitVec.sub_add_cancel]
    exact update_eq_self side info.area

/-! ## Counters -/

theorem takePages_free (info : MemInfo) (side other : PageSide) (s n : Nat) :
    ((info.takePages side s n).area other).numPagFree = if other = side
      then (info.area side).numPagFree - BitVec.ofNat 32 n else (info.area other).numPagFree := by
  rw [takePages_area, update_apply]
  split_ifs <;> rfl

theorem givePages_free (info : MemInfo) (side other : PageSide) (s n : Nat) :
    ((info.givePages side s n).area other).numPagFree = if other = side
      then (info.area side).numPagFree + BitVec.ofNat 32 n else (info.area other).numPagFree := by
  rw [givePages_area, update_apply]
  split_ifs <;> rfl

theorem ofNat_eq_zero_iff (h : n < 2 ^ 32) : BitVec.ofNat 32 n = 0 ↔ n = 0 := by
  rw [← BitVec.toNat_inj, BitVec.toNat_ofNat, Nat.mod_eq_of_lt h]
  exact Iff.rfl

theorem givePages_eq_iff (h : n < 2 ^ 32) : info.givePages side s n = info ↔ n = 0 := by
  constructor
  · intro he
    have h1 := congrArg (fun i : MemInfo => (i.area side).numPagFree) he
    rw [givePages_free, if_pos rfl] at h1
    refine (ofNat_eq_zero_iff h).mp ?_
    generalize (info.area side).numPagFree = x at h1
    generalize BitVec.ofNat 32 n = y at h1
    bv_omega
  · rintro rfl
    rfl

theorem given_back_iff (hn : n < 2 ^ 32) (hm : m < 2 ^ 32) (hpos : 0 < n)
    (h : Clear info.mem (info.area side).bmap s n) :
    (info.takePages side s n).givePages side r m = info ↔ m = n ∧ r = s := by
  constructor
  · intro he
    have h1 := congrArg (fun i : MemInfo => (i.area side).numPagFree) he
    rw [givePages_free, if_pos rfl, takePages_free, if_pos rfl] at h1
    have h2 : BitVec.ofNat 32 m = BitVec.ofNat 32 n := by
      generalize (info.area side).numPagFree = x at h1
      generalize BitVec.ofNat 32 m = y at h1
      generalize BitVec.ofNat 32 n = z at h1
      bv_omega
    have h3 : m = n := by
      have h4 := congrArg BitVec.toNat h2
      rwa [BitVec.toNat_ofNat, BitVec.toNat_ofNat, Nat.mod_eq_of_lt hm, Nat.mod_eq_of_lt hn] at h4
    refine ⟨h3, ?_⟩
    have hbit (i : Nat) (h4 : s ≤ i) (h5 : i < s + n) : r ≤ i ∧ i < r + m := by
      by_contra hout
      have h6 : ((info.takePages side s n).givePages side r m).bits side i = info.bits side i :=
        congrArg (fun t : MemInfo => t.bits side i) he
      have h7 : decide (s ≤ i ∧ i < s + n) = true := decide_eq_true ⟨h4, h5⟩
      rw [bits_givePages_self, bits_takePages_self, h7, decide_eq_false hout,
        show info.bits side i = false from h i h4 h5] at h6
      cases h6
    have h7 := hbit s (Nat.le_refl s) (by omega)
    have h8 := hbit (s + n - 1) (by omega) (by omega)
    omega
  · rintro ⟨rfl, rfl⟩
    exact givePages_takePages h

/-! ## Sizes -/

theorem SmallSize.up (h : SmallSize size n) : pageUp size = size := by
  have h1 := h.size
  unfold pageUp
  rw [if_neg]
  rw [not_not, pageMask_eq_zero]
  omega

theorem SmallSize.reqCnt (h : SmallSize size n) : reqCnt size = n := by
  rw [reqCnt_eq, h.up, h.size]
  omega

theorem SmallSize.tempCnt (h : SmallSize size n) : tempCnt size = n := by
  rw [tempCnt_eq, h.reqCnt]

theorem SmallSize.shift (h : SmallSize size n) : (pageUp size).sshiftRight 12 = BitVec.ofNat 32 n := by
  have h1 := h.size
  have h2 := h.small
  rw [h.up, BitVec.sshiftRight_eq_of_msb_false]
  · rw [← BitVec.toNat_inj, shr12_toNat, BitVec.toNat_ofNat]
    omega
  · rw [BitVec.msb_eq_decide, decide_eq_false_iff_not]
    omega

theorem SmallSize.pgCnt (h : SmallSize size n) : (pgCnt size).toNat = n := by
  have h1 := h.small
  have h2 : SierraTee.pgCnt size = BitVec.ofNat 32 n := h.shift
  rw [h2, BitVec.toNat_ofNat]
  omega

theorem SmallSize.sizeCnt (h : SmallSize size n) : sizeCnt size = n := by
  have h1 := h.size
  have h2 := h.small
  have h3 : size.toInt = size.toNat := by
    rw [BitVec.toInt_eq_toNat_cond, if_pos (by omega)]
  unfold SierraTee.sizeCnt
  rw [h.up, h3]
  split_ifs <;> omega

theorem pageOf_lt (info : MemInfo) (side : PageSide) (addr : Word) :
    info.pageOf side addr < 2 ^ 20 := by
  have h := (addr - (info.area side).addrStart).isLt
  unfold MemInfo.pageOf
  rw [shr12_toNat]
  omega

theorem SmallSize.upTo (h : SmallSize size n) (info : MemInfo) (side : PageSide) (addr : Word) :
    MemInfo.upTo (BitVec.ofNat 32 (info.pageOf side addr)) (BitVec.ofNat 32 n) = n := by
  have h1 := h.small
  have h2 := pageOf_lt info side addr
  unfold MemInfo.upTo
  rw [BitVec.toNat_add, BitVec.toNat_ofNat, BitVec.toNat_ofNat]
  omega

theorem SmallSize.tmpCnt (h : SmallSize size n) : info.tmpCnt side addr size = n := by
  unfold MemInfo.tmpCnt
  rw [h.shift]
  exact h.upTo info side addr

theorem SmallSize.avlCnt (h : SmallSize size n) :
    info.avlCnt side addr size = (SierraTee.pgCnt size).toNat ↔
      Clear info.mem (info.area side).bmap (info.pageOf side addr) n := by
  have h1 : SierraTee.pgCnt size = BitVec.ofNat 32 n := h.shift
  unfold MemInfo.avlCnt
  rw [h.pgCnt, h1, h.upTo]
  exact clearLength_eq_iff

/-! ## The calls with such a size -/

theorem outside_takePages (info : MemInfo) (side other : PageSide) (s n : Nat) (addr : Word) :
    (info.takePages side s n).outside other addr = info.outside other addr := by
  have h := sameLayout_takePages info side s n
  unfold MemInfo.outside
  rw [h.start, h.size]

theorem pageOf_takePages (info : MemInfo) (side other : PageSide) (s n : Nat) (addr : Word) :
    (info.takePages side s n).pageOf other addr = info.pageOf other addr := by
  unfold MemInfo.pageOf
  rw [(sameLayout_takePages info side s n).start]

theorem pageOf_addrOf (info : MemInfo) (side : PageSide) (start : Nat) :
    info.pageOf side (info.addrOf side start) = start % 2 ^ 20 := by
  unfold MemInfo.pageOf MemInfo.addrOf
  rw [BitVec.add_sub_cancel, shr12_toNat, BitVec.toNat_shiftLeft, BitVec.toNat_ofNat,
    Nat.shiftLeft_eq]
  omega

def MemInfo.CanReserve (info : MemInfo) (side : PageSide) (addr : Word) (n : Nat) : Prop :=
  info.outside side addr = false ∧
    Clear info.mem (info.area side).bmap (info.pageOf side addr) n

instance decidableCanReserve : Decidable (info.CanReserve side addr n) :=
  inferInstanceAs (Decidable (_ ∧ _))

theorem SmallSize.addrReserve (h : SmallSize size n) (hok : info.CanReserve side addr n) :
    info.addrReserve side addr size = .ok (info.takePages side (info.pageOf side addr) n) := by
  unfold MemInfo.addrReserve
  rw [if_neg (by rw [hok.1]; exact Bool.false_ne_true),
    if_neg (not_not.mpr (h.avlCnt.mpr hok.2)), h.tempCnt]

theorem SmallSize.addrReserve_refused (h : SmallSize size n) (hno : ¬ info.CanReserve side addr n) :
    info.addrReserve side addr size = .error .einval := by
  unfold MemInfo.addrReserve
  by_cases h1 : info.outside side addr = true
  · rw [if_pos h1]
  · rw [if_neg h1, if_pos fun h2 => hno ⟨Bool.eq_false_iff.mpr h1, h.avlCnt.mp h2⟩]

theorem SmallSize.virFreeReserve (h : SmallSize size n) :
    (swVirFreeReserve addr size info).toOption.getD info =
      if info.outside .vir addr then info
      else info.givePages .vir (info.pageOf .vir addr) n := by
  unfold swVirFreeReserve
  rw [h.sizeCnt]
  split_ifs <;> rfl

theorem SmallSize.phyAddrFree (h : SmallSize size n) :
    (swPhyAddrFree addr size info).toOption.getD info =
      if info.outside .phy addr then info
      else info.givePages .phy (info.pageOf .phy addr) n := by
  unfold swPhyAddrFree MemInfo.giveRange
  rw [h.tmpCnt]
  split_ifs <;> rfl

/-- `start` is the first run of `n` clear bits that the scan comes to -/
structure MemInfo.FirstRun (info : MemInfo) (side : PageSide) (n start : Nat) : Prop where
  enough : n ≤ (info.area side).numPagFree.toNat
  bound : start < info.scanBound side n
  clear : Clear info.mem (info.area side).bmap start n
  first : ∀ q, q < start → ¬ Clear info.mem (info.area side).bmap q n

theorem scan_eq_some_iff : info.scan side size = some s ↔ info.FirstRun side (reqCnt size) s := by
  unfold MemInfo.scan
  constructor
  · intro h
    split_ifs at h with hfew
    obtain ⟨h1, h2, h3⟩ := firstClear_some h
    exact ⟨Nat.le_of_not_lt hfew, by omega, h2, fun q hq => h3 q (Nat.zero_le q) hq⟩
  · rintro ⟨h1, h2, h3, h4⟩
    rw [if_neg (Nat.not_lt.mpr h1)]
    cases hf : firstClear info.mem (info.area side).bmap (reqCnt size) 0
        (info.scanBound side (reqCnt size)) with
    | none => exact absurd h3 (firstClear_none hf (Nat.zero_le s) (by omega))
    | some r =>
      obtain ⟨-, h5, h6⟩ := firstClear_some hf
      obtain hlt | heq | hlt := Nat.lt_trichotomy r s
      · exact absurd h5 (h4 r hlt)
      · rw [heq]
      · exact absurd h3 (h6 s (Nat.zero_le s) hlt)

end

end SierraTee
