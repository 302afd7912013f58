import SierraTee.Pages.Bits

/-!
# Page counts

* `pageUp_toNat`  sizes that are aligned to the next page;
* `scan_fits`     the first run of clear bits is in the region if there is one in the region;
* `avlCnt_clear`  a reservation has looked at every bit that it sets.
-/

namespace SierraTee
open Bitmap FlatMemory

section
variable {info : MemInfo} {side : PageSide} {s n : Nat} {size addr x : Word}

/-! ## Words -/

theorem shr12_toNat (x : Word) : (x >>> 12).toNat = x.toNat / 4096 := by
  rw [BitVec.toNat_ushiftRight, Nat.shiftRight_eq_div_pow]

theorem pageMask_toNat (x : Word) : (x &&& 0xFFF).toNat = x.toNat % 4096 := by
  have h : x.toNat &&& 4095 = x.toNat % 4096 := Nat.and_two_pow_sub_one_eq_mod _ 12
  rw [BitVec.toNat_and]
  exact h

theorem pageMask_eq_zero : x &&& 0xFFF = 0 ↔ x.toNat % 4096 = 0 := by
  rw [← BitVec.toNat_inj, pageMask_toNat]
  exact Iff.rfl

theorem pageFrame_toNat (x : Word) : (x &&& ~~~0xFFF#32).toNat = x.toNat / 4096 * 4096 := by
  have hmask : ∀ i : Fin 32, (~~~0xFFF#32).getLsbD i = decide (12 ≤ i.1) := by decide
  have e : x &&& ~~~0xFFF#32 = x >>> 12 <<< 12 := by
    refine BitVec.eq_of_getLsbD_eq fun i hi => ?_
    have h1 : (~~~0xFFF#32).getLsbD i = decide (12 ≤ i) := hmask ⟨i, hi⟩
    rw [BitVec.getLsbD_and, BitVec.getLsbD_shiftLeft, BitVec.getLsbD_ushiftRight]
    rw [h1]
    by_cases h2 : 12 ≤ i
    · have h3 : 12 + (i - 12) = i := by omega
      have h4 : ¬ i < 12 := by omega
      simp [h2, h3, h4, hi]
    · have h4 : i < 12 := by omega
      simp [h2, h4]
  have hlt := x.isLt
  rw [e, BitVec.toNat_shiftLeft, shr12_toNat, Nat.shiftLeft_eq]
  omega

theorem pageUp_toNat (size : Word) :
    (pageUp size).toNat = (size.toNat + 4095) / 4096 * 4096 % 2 ^ 32 := by
  have hlt := size.isLt
  unfold pageUp
  split_ifs with h
  · have h1 : size.toNat % 4096 ≠ 0 := fun e => h (pageMask_eq_zero.mpr e)
    have h2 : (0x1000 : Word).toNat = 4096 := rfl
    have e : size.toNat / 4096 * 4096 + 4096 = (size.toNat + 4095) / 4096 * 4096 := by omega
    have h3 : (size &&& ~~~0xFFF).toNat = size.toNat / 4096 * 4096 := pageFrame_toNat size
    rw [BitVec.toNat_add, h2, h3, e]
  · have h1 : size.toNat % 4096 = 0 := pageMask_eq_zero.mp (not_not.mp h)
    omega

theorem pageUp_aligned (size : Word) : (pageUp size).toNat % 4096 = 0 := by
  rw [pageUp_toNat]
  omega

theorem pageUp_pageUp (size : Word) : pageUp (pageUp size) = pageUp size := by
  unfold pageUp
  exact if_neg (not_not.mpr (pageMask_eq_zero.mpr (pageUp_aligned size)))

theorem reqCnt_eq (size : Word) : reqCnt size = (pageUp size).toNat / 4096 := shr12_toNat _

theorem tempCnt_eq (size : Word) : tempCnt size = reqCnt size := (reqCnt_eq size).symm

theorem reqCnt_pageUp (size : Word) : reqCnt (pageUp size) = reqCnt size := by
  rw [reqCnt_eq, reqCnt_eq, pageUp_pageUp]

theorem reqCnt_lt (size : Word) : reqCnt size < 2 ^ 20 := by
  rw [reqCnt_eq]
  have h := (pageUp size).isLt
  omega

theorem sizeCnt_lt (size : Word) : sizeCnt size < 2 ^ 32 := by
  have h := (pageUp size).isLt
  unfold sizeCnt
  split_ifs <;> omega

theorem upTo_lt (i n : Word) : MemInfo.upTo i n < 2 ^ 32 := by
  have h := (i + n).isLt
  unfold MemInfo.upTo
  omega

theorem upTo_le (i n : Word) : MemInfo.upTo i n ≤ n.toNat := by
  have h1 := i.isLt
  have h2 := n.isLt
  unfold MemInfo.upTo
  rw [BitVec.toNat_add]
  omega

theorem div_le_pgCnt (size : Word) : tempCnt size ≤ (pgCnt size).toNat := by
  unfold tempCnt pgCnt
  have hlt := (pageUp size).isLt
  cases h : (pageUp size).msb with
  | false =>
    rw [BitVec.toNat_sshiftRight_of_msb_false h, Nat.shiftRight_eq_div_pow]
  | true =>
    rw [BitVec.toNat_sshiftRight_of_msb_true h, Nat.shiftRight_eq_div_pow]
    omega

/-! ## The scan -/

def MemInfo.Fitting (info : MemInfo) (side : PageSide) (n : Nat) : Prop :=
  ∃ q, q + n ≤ info.pages side ∧ Clear info.mem (info.area side).bmap q n

theorem inside_of_le (h : s + n ≤ info.pages side) : info.Inside side s n :=
  fun _ _ h2 => Nat.lt_of_lt_of_le h2 h

theorem Inside_le (h : info.Inside side s n) (hn : 0 < n) : s + n ≤ info.pages side := by
  have h1 := h (s + n - 1) (by omega) (by omega)
  omega

theorem scan_some (h : info.scan side size = some s) :
    Clear info.mem (info.area side).bmap s (reqCnt size) ∧
      ∀ q, q < s → ¬ Clear info.mem (info.area side).bmap q (reqCnt size) := by
  unfold MemInfo.scan at h
  split_ifs at h
  obtain ⟨-, h1, h2⟩ := firstClear_some h
  exact ⟨h1, fun q hq => h2 q (Nat.zero_le q) hq⟩

theorem scan_fits (h : info.scan side size = some s) :
    info.Inside side s (reqCnt size) ↔ info.Fitting side (reqCnt size) := by
  obtain ⟨hclear, hfirst⟩ := scan_some h
  constructor
  · intro hin
    by_cases hn : 0 < reqCnt size
    · exact ⟨s, Inside_le hin hn, hclear⟩
    · refine ⟨0, by omega, fun j h1 h2 => absurd h2 (by omega)⟩
  · rintro ⟨q, hq, hclear'⟩
    have h1 : ¬ q < s := fun hlt => hfirst q hlt hclear'
    exact inside_of_le (by omega)

/-! ## The check of a reservation -/

theorem avlCnt_clear (h : info.avlCnt side addr size = (pgCnt size).toNat) :
    ∀ i, info.pageOf side addr ≤ i → i < info.pageOf side addr + tempCnt size →
      info.bits side i = false := by
  have h1 := clearLength_le info.mem (info.area side).bmap (info.pageOf side addr)
    (MemInfo.upTo (BitVec.ofNat 32 (info.pageOf side addr)) (pgCnt size))
  have h2 := upTo_le (BitVec.ofNat 32 (info.pageOf side addr)) (pgCnt size)
  have h3 := div_le_pgCnt size
  have e : MemInfo.upTo (BitVec.ofNat 32 (info.pageOf side addr)) (pgCnt size)
      = (pgCnt size).toNat := by
    refine le_antisymm h2 ?_
    rw [← h]
    exact h1
  have hclear := clearLength_eq_iff.mp (h.trans e.symm)
  rw [e] at hclear
  exact fun i hi hlt => hclear i hi (by omega)

end

end SierraTee
