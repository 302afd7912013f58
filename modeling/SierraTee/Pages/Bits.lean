import SierraTee.Pages.MemInfo

/-!
# What the loops do to the page bitmaps

* `bits_takePages`, `bits_givePages`   the bits behind a loop;
* `count_take_iff`, `count_give_iff`   when the counter of a side still fits.
-/

namespace SierraTee
open Function Bitmap FlatMemory

namespace MemInfo

def bits (info : MemInfo) (side : PageSide) (i : Nat) : Bool :=
  bit info.mem (info.area side).bmap i

def pages (info : MemInfo) (side : PageSide) : Nat := ((info.area side).memregionSize >>> 12).toNat

def Inside (info : MemInfo) (side : PageSide) (s n : Nat) : Prop :=
  ∀ i, s ≤ i → i < s + n → i < info.pages side

/-- the counter is the number of pages of the region with a clear bit -/
def Counted (info : MemInfo) (side : PageSide) : Prop :=
  (info.area side).numPagFree.toNat = (clearBits (info.bits side) (info.pages side)).card

end MemInfo

structure SameLayout (info t : MemInfo) : Prop where
  bmap : ∀ side, (t.area side).bmap = (info.area side).bmap
  len : ∀ side, (t.area side).memBmapLen = (info.area side).memBmapLen
  start : ∀ side, (t.area side).addrStart = (info.area side).addrStart
  size : ∀ side, (t.area side).memregionSize = (info.area side).memregionSize

/-- the bitmap of the virtual pages is behind that of the physical ones, and there is a bit for each
page -/
structure Laid (info : MemInfo) : Prop where
  phy : (info.area .phy).bmap = 0
  vir : 32 * (info.area .vir).bmap = 8 * (info.area .phy).memBmapLen.toNat
  room : ∀ side, info.pages side < 8 * (info.area side).memBmapLen.toNat
  small : ∀ side, 8 * (info.area side).memBmapLen.toNat < 2 ^ 32

section
variable {info t u : MemInfo} {side other : PageSide} {s n i : Nat}

/-! ## Layouts -/

theorem SameLayout.refl (info : MemInfo) : SameLayout info info :=
  ⟨fun _ => rfl, fun _ => rfl, fun _ => rfl, fun _ => rfl⟩

theorem SameLayout.trans (h : SameLayout info t) (h' : SameLayout t u) : SameLayout info u :=
  ⟨fun x => (h'.bmap x).trans (h.bmap x), fun x => (h'.len x).trans (h.len x),
    fun x => (h'.start x).trans (h.start x), fun x => (h'.size x).trans (h.size x)⟩

theorem SameLayout.pages (h : SameLayout info t) (side : PageSide) : t.pages side = info.pages side := by
  unfold MemInfo.pages
  rw [h.size side]

theorem Laid.of_same (h : Laid info) (hs : SameLayout info t) : Laid t := by
  refine ⟨(hs.bmap _).trans h.phy, ?_, fun x => ?_, fun x => ?_⟩
  · rw [hs.bmap, hs.len]
    exact h.vir
  · rw [hs.pages, hs.len]
    exact h.room x
  · rw [hs.len]
    exact h.small x

theorem sameLayout_update (info : MemInfo) (side : PageSide) (m : Words) (c : Word) :
    SameLayout info ⟨m, update info.area side { info.area side with numPagFree := c }⟩ := by
  have h {X : Type} (f : PageArea → X)
      (hf : f { info.area side with numPagFree := c } = f (info.area side)) (x : PageSide) :
      f (update info.area side { info.area side with numPagFree := c } x)
        = f (info.area x) := by
    by_cases e : x = side
    · rw [e, update_self, hf]
    · rw [update_of_ne e]
  exact ⟨h _ rfl, h _ rfl, h _ rfl, h _ rfl⟩

/-! ## The loops -/

theorem takePages_mem (info : MemInfo) (side : PageSide) (s n : Nat) :
    (info.takePages side s n).mem = setRun info.mem (info.area side).bmap s n := by
  induction n generalizing info s with
  | zero => rfl
  | succ n ih =>
    show ((info.takePage side s).takePages side (s + 1) n).mem = _
    rw [ih]
    show setRun _ (update info.area side _ side).bmap _ _ = _
    rw [update_self]
    rfl

theorem givePages_mem (info : MemInfo) (side : PageSide) (s n : Nat) :
    (info.givePages side s n).mem = clearRun info.mem (info.area side).bmap s n := by
  induction n generalizing info s with
  | zero => rfl
  | succ n ih =>
    show ((info.givePage side s).givePages side (s + 1) n).mem = _
    rw [ih]
    show clearRun _ (update info.area side _ side).bmap _ _ = _
    rw [update_self]
    rfl

theorem takePages_area (info : MemInfo) (side : PageSide) (s n : Nat) :
    (info.takePages side s n).area = update info.area side
      { info.area side with
        numPagFree := (info.area side).numPagFree - BitVec.ofNat 32 n } := by
  induction n generalizing info s with
  | zero =>
    show info.area = _
    rw [BitVec.sub_zero]
    exact (update_eq_self side info.area).symm
  | succ n ih =>
    show ((info.takePage side s).takePages side (s + 1) n).area = _
    rw [ih]
    show update (update info.area side _) side
      { update info.area side _ side with
        numPagFree := (update info.area side _ side).numPagFree - _ } = _
    rw [update_self, update_idem, Nat.add_comm, BitVec.ofNat_add,
      ← BitVec.sub_sub]
    rfl

theorem givePages_area (info : MemInfo) (side : PageSide) (s n : Nat) :
    (info.givePages side s n).area = update info.area side
      { info.area side with
        numPagFree := (info.area side).numPagFree + BitVec.ofNat 32 n } := by
  induction n generalizing info s with
  | zero =>
    show info.area = _
    rw [BitVec.add_zero]
    exact (update_eq_self side info.area).symm
  | succ n ih =>
    show ((info.givePage side s).givePages side (s + 1) n).area = _
    rw [ih]
    show update (update info.area side _) side
      { update info.area side _ side with
        numPagFree := (update info.area side _ side).numPagFree + _ } = _
    rw [update_self, update_idem, Nat.add_comm n 1, BitVec.ofNat_add,
      ← BitVec.add_assoc]
    rfl

theorem sameLayout_takePages (info : MemInfo) (side : PageSide) (s n : Nat) :
    SameLayout info (info.takePages side s n) := by
  have h := sameLayout_update info side
    (info.takePages side s n).mem ((info.area side).numPagFree - BitVec.ofNat 32 n)
  rw [← takePages_area info side s n] at h
  exact h

theorem sameLayout_givePages (info : MemInfo) (side : PageSide) (s n : Nat) :
    SameLayout info (info.givePages side s n) := by
  have h := sameLayout_update info side
    (info.givePages side s n).mem ((info.area side).numPagFree + BitVec.ofNat 32 n)
  rw [← givePages_area info side s n] at h
  exact h

theorem bits_takePages (info : MemInfo) (side other : PageSide) (s n i : Nat) :
    (info.takePages side s n).bits other i =
      (decide (32 * (info.area side).bmap + s ≤ 32 * (info.area other).bmap + i ∧
        32 * (info.area other).bmap + i < 32 * (info.area side).bmap + s + n) ||
        info.bits other i) := by
  unfold MemInfo.bits
  rw [takePages_mem, (sameLayout_takePages info side s n).bmap, bit_setRun]

theorem bits_givePages (info : MemInfo) (side other : PageSide) (s n i : Nat) :
    (info.givePages side s n).bits other i =
      (!decide (32 * (info.area side).bmap + s ≤ 32 * (info.area other).bmap + i ∧
        32 * (info.area other).bmap + i < 32 * (info.area side).bmap + s + n) &&
        info.bits other i) := by
  unfold MemInfo.bits
  rw [givePages_mem, (sameLayout_givePages info side s n).bmap, bit_clearRun]

theorem bits_takePages_self (info : MemInfo) (side : PageSide) (s n i : Nat) :
    (info.takePages side s n).bits side i
      = (decide (s ≤ i ∧ i < s + n) || info.bits side i) := by
  rw [bits_takePages]
  congr 1
  refine decide_eq_decide.mpr ?_
  omega

theorem bits_givePages_self (info : MemInfo) (side : PageSide) (s n i : Nat) :
    (info.givePages side s n).bits side i
      = (!decide (s ≤ i ∧ i < s + n) && info.bits side i) := by
  rw [bits_givePages]
  congr 2
  refine decide_eq_decide.mpr ?_
  omega

/-! ## The other side -/

theorem Laid.apart (hl : Laid info) (hne : other ≠ side) (hi : i < info.pages other)
    (hin : side = .phy → info.Inside side s n) :
    ¬ (32 * (info.area side).bmap + s ≤ 32 * (info.area other).bmap + i ∧
      32 * (info.area other).bmap + i < 32 * (info.area side).bmap + s + n) := by
  have h1 := hl.phy
  have h2 := hl.vir
  have h3 := hl.room .phy
  cases side with
  | phy =>
    cases other with
    | phy => exact absurd rfl hne
    | vir =>
      rintro ⟨h4, h5⟩
      have h6 := hin rfl (8 * (info.area .phy).memBmapLen.toNat + i) (by omega) (by omega)
      omega
  | vir =>
    cases other with
    | vir => exact absurd rfl hne
    | phy =>
      rintro ⟨h4, -⟩
      omega

theorem Laid.bits_take_other (hl : Laid info) (hne : other ≠ side) (hi : i < info.pages other)
    (hin : side = .phy → info.Inside side s n) :
    (info.takePages side s n).bits other i = info.bits other i := by
  rw [bits_takePages, decide_eq_false (hl.apart hne hi hin), Bool.false_or]

theorem Laid.bits_give_other (hl : Laid info) (hne : other ≠ side) (hi : i < info.pages other)
    (hin : side = .phy → info.Inside side s n) :
    (info.givePages side s n).bits other i = info.bits other i := by
  rw [bits_givePages, decide_eq_false (hl.apart hne hi hin), Bool.not_false, Bool.true_and]

/-! ## Counters -/

theorem counted_congr (hs : SameLayout info t)
    (hn : (t.area side).numPagFree = (info.area side).numPagFree)
    (hb : ∀ i, i < info.pages side → t.bits side i = info.bits side i) :
    t.Counted side ↔ info.Counted side := by
  unfold MemInfo.Counted
  rw [hn, hs.pages, clearBits_congr hb]

theorem count_take_other (hl : Laid info) (hne : other ≠ side)
    (hin : side = .phy → info.Inside side s n) :
    (info.takePages side s n).Counted other ↔ info.Counted other := by
  refine counted_congr (sameLayout_takePages info side s n) ?_
    fun i hi => hl.bits_take_other hne hi hin
  rw [takePages_area, update_of_ne hne]

theorem count_give_other (hl : Laid info) (hne : other ≠ side)
    (hin : side = .phy → info.Inside side s n) :
    (info.givePages side s n).Counted other ↔ info.Counted other := by
  refine counted_congr (sameLayout_givePages info side s n) ?_
    fun i hi => hl.bits_give_other hne hi hin
  rw [givePages_area, update_of_ne hne]

theorem pages_lt (info : MemInfo) (side : PageSide) : info.pages side < 2 ^ 32 :=
  ((info.area side).memregionSize >>> 12).isLt

theorem count_take_iff (hc : info.Counted side) (hclear : ∀ i, s ≤ i → i < s + n →
    info.bits side i = false) (hn : n < 2 ^ 32) :
    (info.takePages side s n).Counted side ↔ info.Inside side s n := by
  have hcard := card_clearBits_set (n := info.pages side)
    fun i (_ : i < info.pages side) => bits_takePages_self info side s n i
  have hle := card_inter_Ico_le (f := info.bits side) (n := info.pages side) (s := s) (k := n)
  have hpages := pages_lt info side
  have hmax := card_clearBits_le (info.bits side) (info.pages side)
  have hiff : info.Inside side s n ↔
      (clearBits (info.bits side) (info.pages side) ∩ Finset.Ico s (s + n)).card = n := by
    rw [card_inter_Ico_eq_iff]
    exact forall_congr' fun i => forall_congr' fun h1 => forall_congr' fun h2 =>
      (and_iff_left (hclear i h1 h2)).symm
  have hnum : ((info.takePages side s n).area side).numPagFree.toNat
      = (2 ^ 32 - n + (info.area side).numPagFree.toNat) % 2 ^ 32 := by
    rw [takePages_area, update_self]
    show ((info.area side).numPagFree - BitVec.ofNat 32 n).toNat = _
    rw [BitVec.toNat_sub, BitVec.toNat_ofNat, Nat.mod_eq_of_lt hn]
  unfold MemInfo.Counted at hc ⊢
  rw [hiff, hnum, (sameLayout_takePages info side s n).pages, hc]
  omega

theorem count_give_iff (hc : info.Counted side) (hn : n < 2 ^ 32) :
    (info.givePages side s n).Counted side ↔
      ∀ i, s ≤ i → i < s + n → i < info.pages side ∧ info.bits side i = true := by
  have hcard := card_clearBits_clear (n := info.pages side)
    fun i (_ : i < info.pages side) => bits_givePages_self info side s n i
  have hle := card_filter_Ico_le (f := info.bits side) (n := info.pages side) (s := s) (k := n)
  have hpages := pages_lt info side
  have hmax := card_clearBits_le ((info.givePages side s n).bits side) (info.pages side)
  have hnum : ((info.givePages side s n).area side).numPagFree.toNat
      = ((info.area side).numPagFree.toNat + n) % 2 ^ 32 := by
    rw [givePages_area, update_self]
    show ((info.area side).numPagFree + BitVec.ofNat 32 n).toNat = _
    rw [BitVec.toNat_add, BitVec.toNat_ofNat, Nat.mod_eq_of_lt hn]
  unfold MemInfo.Counted at hc ⊢
  rw [← card_filter_Ico_eq_iff, hnum, (sameLayout_givePages info side s n).pages, hc, hcard]
  omega

end

end SierraTee
