import SierraTee.Pages.Boot
import SierraTee.Lib.Runs

/-!
# The counters of free pages

* `pages_counted_iff`  the counters are right along a run exactly when every call fits;
* `free_page_freed`    a free of a page that is free already.
-/

namespace SierraTee
open Bitmap FlatMemory Runs

namespace MemInfo
variable (info : MemInfo) (side : PageSide)

def Taken (s n : Nat) : Prop :=
  ∀ i, s ≤ i → i < s + n → i < info.pages side ∧ info.bits side i = true

def ReserveFits (addr size : Word) : Prop :=
  info.outside side addr = false → info.avlCnt side addr size = (pgCnt size).toNat →
    info.Inside side (info.pageOf side addr) (tempCnt size)

def FreeFits (addr size : Word) : Prop :=
  info.outside .phy addr = false →
    info.Taken .phy (info.pageOf .phy addr) (info.tmpCnt .phy addr size)

end MemInfo

/-- a run is found in the region if it is found at all, a range that is reserved is in the region,
and all pages that are freed are taken -/
def PagesFit (info : MemInfo) : MemCall → Prop
  | .phyPageAlloc size =>
    (info.scan .phy size).isSome → info.Fitting .phy (reqCnt size)
  | .virPageAlloc size =>
    (info.scan .vir size).isSome → ∀ start, info.scan .phy (pageUp size) = some start →
      info.Fitting .phy (reqCnt size) ∧
        (info.addrOf .phy start ≠ 0 → info.Fitting .vir (reqCnt size))
  | .phyAddrReserve addr size => info.ReserveFits .phy addr size
  | .virAddrReserve addr size => info.ReserveFits .vir addr size
  | .virFreeReserve addr size =>
    info.outside .vir addr = false → info.Taken .vir (info.pageOf .vir addr) (sizeCnt size)
  | .phyAddrFree addr size => info.FreeFits addr size
  | .virAddrFree addr size phyAddr =>
    info.outsideWords .vir addr = false →
      info.Taken .vir (info.pageOf .vir addr) (info.tmpCnt .vir addr size) ∧
        info.FreeFits phyAddr (pageUp size)

def FreesOther (info : MemInfo) : MemCall → Prop
  | .virFreeReserve addr size => ¬ info.Taken .vir (info.pageOf .vir addr) (sizeCnt size)
  | .phyAddrFree addr size =>
    ¬ info.Taken .phy (info.pageOf .phy addr) (info.tmpCnt .phy addr size)
  | .virAddrFree addr size _ =>
    ¬ info.Taken .vir (info.pageOf .vir addr) (info.tmpCnt .vir addr size)
  | _ => False

/-- the counters are right, and a free of other pages is refused -/
structure PagesKept (info : MemInfo) (c : MemCall) : Prop where
  counted : ∀ t, memStep info c = some t → ∀ side, t.Counted side
  refused : FreesOther info c → (memCall info c).toOption = none

structure PagesOk (info : MemInfo) : Prop where
  laid : Laid info
  counted : ∀ side, info.Counted side

section
variable {info t : MemInfo} {side : PageSide} {s n : Nat} {addr size phyAddr : Word} {c : MemCall}

/-! ## One call -/

theorem PagesOk.of_take (h : PagesOk info) (hclear : ∀ i, s ≤ i → i < s + n →
    info.bits side i = false) (hn : n < 2 ^ 32) :
    (∀ x, (info.takePages side s n).Counted x) ↔ info.Inside side s n := by
  constructor
  · intro hc
    exact (count_take_iff (h.counted side) hclear hn).mp (hc side)
  · intro hin x
    by_cases hx : x = side
    · rw [hx]
      exact (count_take_iff (h.counted side) hclear hn).mpr hin
    · exact (count_take_other h.laid hx fun _ => hin).mpr (h.counted x)

theorem PagesOk.of_give (h : PagesOk info) (side : PageSide) (s : Nat) (hn : n < 2 ^ 32) :
    (∀ x, (info.givePages side s n).Counted x) ↔ info.Taken side s n := by
  constructor
  · intro hc
    exact (count_give_iff (h.counted side) hn).mp (hc side)
  · intro htaken x
    by_cases hx : x = side
    · rw [hx]
      exact (count_give_iff (h.counted side) hn).mpr htaken
    · exact (count_give_other h.laid hx fun _ i h1 h2 => (htaken i h1 h2).1).mpr (h.counted x)

theorem phyPageAlloc_some {start : Nat} (h : info.scan .phy size = some start) :
    swPhyPageAlloc size info
      = (info.takePages .phy start (reqCnt size), info.addrOf .phy start) := by
  unfold swPhyPageAlloc
  rw [h]
  rfl

theorem phyPageAlloc_none (h : info.scan .phy size = none) : swPhyPageAlloc size info = (info, 0) := by
  unfold swPhyPageAlloc
  rw [h]
  rfl

theorem virPageAlloc_none (h : info.scan .vir size = none) : swVirPageAlloc size info = (info, 0) := by
  unfold swVirPageAlloc
  rw [h]
  rfl

theorem virPageAlloc_some {start : Nat} (h : info.scan .vir size = some start) :
    swVirPageAlloc size info =
      if (swPhyPageAlloc (pageUp size) info).2 = 0 then ((swPhyPageAlloc (pageUp size) info).1, 0)
      else ((swPhyPageAlloc (pageUp size) info).1.takePages .vir start (reqCnt size),
        info.addrOf .vir start) := by
  unfold swVirPageAlloc
  rw [h]
  rfl

theorem PagesOk.phyPageAlloc (h : PagesOk info) :
    (∀ x, (swPhyPageAlloc size info).1.Counted x) ↔
      ((info.scan .phy size).isSome → info.Fitting .phy (reqCnt size)) := by
  cases hs : info.scan .phy size with
  | none =>
    rw [phyPageAlloc_none hs]
    exact iff_of_true h.counted fun hc => by cases hc
  | some start =>
    rw [phyPageAlloc_some hs, ← scan_fits hs]
    have hn := reqCnt_lt size
    rw [h.of_take (scan_some hs).1 (by omega)]
    exact ⟨fun h1 _ => h1, fun h1 => h1 rfl⟩

theorem Laid.vir_bits (hl : Laid info) (hin : info.Inside .phy s n) (j : Nat) :
    (info.takePages .phy s n).bits .vir j = info.bits .vir j := by
  rw [bits_takePages, decide_eq_false, Bool.false_or]
  rintro ⟨h1, h2⟩
  have h3 := hl.phy
  have h4 := hl.vir
  have h5 := hl.room .phy
  have h6 := hin (32 * (info.area .vir).bmap + j) (by omega) (by omega)
  omega

theorem PagesOk.take_two {a b m : Nat} (h : PagesOk info)
    (hphy : ∀ i, a ≤ i → i < a + m → info.bits .phy i = false) (hm : m < 2 ^ 32)
    (hvir : ∀ i, b ≤ i → i < b + n → info.bits .vir i = false) (hn : n < 2 ^ 32) :
    (∀ x, ((info.takePages .phy a m).takePages .vir b n).Counted x) ↔
      info.Inside .phy a m ∧ info.Inside .vir b n := by
  have hlaid := h.laid.of_same (sameLayout_takePages info .phy a m)
  have hpages := (sameLayout_takePages info .phy a m).pages .vir
  have first (hc : ((info.takePages .phy a m).takePages .vir b n).Counted .phy) :
      info.Inside .phy a m :=
    (count_take_iff (h.counted .phy) hphy hm).mp
      ((count_take_other hlaid (by decide) fun e => by cases e).mp hc)
  have second (hin : info.Inside .phy a m) :
      (∀ x, ((info.takePages .phy a m).takePages .vir b n).Counted x) ↔ info.Inside .vir b n := by
    have hok : PagesOk (info.takePages .phy a m) := ⟨hlaid, (h.of_take hphy hm).mpr hin⟩
    have e : (info.takePages .phy a m).Inside .vir b n ↔ info.Inside .vir b n := by
      unfold MemInfo.Inside
      rw [hpages]
    rw [← e]
    refine hok.of_take (fun j h3 h4 => ?_) hn
    rw [h.laid.vir_bits hin]
    exact hvir j h3 h4
  constructor
  · intro hc
    exact ⟨first (hc .phy), (second (first (hc .phy))).mp hc⟩
  · rintro ⟨h1, h2⟩
    exact (second h1).mpr h2

theorem PagesOk.virPageAlloc (h : PagesOk info) :
    (∀ x, (swVirPageAlloc size info).1.Counted x) ↔ PagesFit info (.virPageAlloc size) := by
  show _ ↔ ((info.scan .vir size).isSome → ∀ start, info.scan .phy (pageUp size) = some start →
    info.Fitting .phy (reqCnt size) ∧ (info.addrOf .phy start ≠ 0 → info.Fitting .vir (reqCnt size)))
  cases hs : info.scan .vir size with
  | none =>
    rw [virPageAlloc_none hs]
    exact iff_of_true h.counted fun hc => by cases hc
  | some b =>
    rw [virPageAlloc_some hs]
    cases hs' : info.scan .phy (pageUp size) with
    | none =>
      rw [phyPageAlloc_none hs', if_pos rfl]
      exact iff_of_true h.counted fun _ a ha => by cases ha
    | some a =>
      have hn := reqCnt_lt size
      have hfits := scan_fits hs'
      have hclear := (scan_some hs').1
      rw [reqCnt_pageUp] at hfits hclear
      rw [phyPageAlloc_some hs', reqCnt_pageUp]
      split_ifs with ha
      · rw [h.of_take hclear (by omega), hfits]
        constructor
        · intro h1 _ start hstart
          cases hstart
          exact ⟨h1, fun hne => absurd ha hne⟩
        · intro h1
          exact (h1 rfl a rfl).1
      · rw [h.take_two hclear (by omega) (scan_some hs).1 (by omega), hfits, scan_fits hs]
        constructor
        · rintro ⟨h1, h2⟩ _ start hstart
          cases hstart
          exact ⟨h1, fun _ => h2⟩
        · intro h1
          obtain ⟨h2, h3⟩ := h1 rfl a rfl
          exact ⟨h2, h3 ha⟩

theorem counted_getD {r : Except PageError MemInfo} (h : PagesOk info) :
    (∀ t, some (r.toOption.getD info) = some t → ∀ x, t.Counted x) ↔
      ∀ t, r = .ok t → ∀ x, t.Counted x := by
  cases r with
  | error e => exact iff_of_true (fun t ht => by cases ht; exact h.counted) fun t ht => by cases ht
  | ok u =>
    constructor
    · intro h1 t ht
      cases ht
      exact h1 u rfl
    · intro h1 t ht
      cases ht
      exact h1 u rfl

theorem PagesOk.addrReserve (h : PagesOk info) :
    (∀ t, info.addrReserve side addr size = .ok t → ∀ x, t.Counted x) ↔
      info.ReserveFits side addr size := by
  unfold MemInfo.addrReserve MemInfo.ReserveFits
  have hn : tempCnt size < 2 ^ 32 := by
    rw [tempCnt_eq]
    exact (reqCnt_lt size).trans (by decide)
  cases hout : info.outside side addr with
  | true => exact iff_of_true (fun t ht => by cases ht) fun hc => by cases hc
  | false =>
    rw [if_neg (by decide)]
    by_cases havl : info.avlCnt side addr size = (pgCnt size).toNat
    · rw [if_neg (not_not.mpr havl)]
      have h1 := h.of_take (avlCnt_clear havl) hn
      constructor
      · intro hc _ _
        exact h1.mp (hc _ rfl)
      · intro hin t ht
        cases ht
        exact h1.mpr (hin rfl havl)
    · rw [if_pos havl]
      exact iff_of_true (fun t ht => by cases ht) fun _ hc => absurd hc havl

theorem PagesOk.virFreeReserve (h : PagesOk info) :
    (∀ t, swVirFreeReserve addr size info = .ok t → ∀ x, t.Counted x) ↔
      PagesFit info (.virFreeReserve addr size) := by
  show _ ↔ (info.outside .vir addr = false → _)
  unfold swVirFreeReserve
  cases hout : info.outside .vir addr with
  | true => exact iff_of_true (fun t ht => by cases ht) fun hc => by cases hc
  | false =>
    rw [if_neg (by decide)]
    have h1 := h.of_give .vir (info.pageOf .vir addr) (sizeCnt_lt size)
    constructor
    · intro hc _
      exact h1.mp (hc _ rfl)
    · intro htaken t ht
      cases ht
      exact h1.mpr (htaken rfl)

theorem tmpCnt_lt (info : MemInfo) (side : PageSide) (addr size : Word) :
    info.tmpCnt side addr size < 2 ^ 32 := upTo_lt _ _

theorem PagesOk.phyAddrFree (h : PagesOk info) :
    (∀ t, swPhyAddrFree addr size info = .ok t → ∀ x, t.Counted x) ↔ info.FreeFits addr size := by
  unfold swPhyAddrFree MemInfo.FreeFits
  cases hout : info.outside .phy addr with
  | true => exact iff_of_true (fun t ht => by cases ht) fun hc => by cases hc
  | false =>
    rw [if_neg (by decide)]
    have h1 := h.of_give .phy (info.pageOf .phy addr)
      (tmpCnt_lt info .phy addr size)
    constructor
    · intro hc _
      exact h1.mp (hc _ rfl)
    · intro htaken t ht
      cases ht
      exact h1.mpr (htaken rfl)

theorem PagesOk.give_two {a b m : Nat} (h : PagesOk info) (hm : m < 2 ^ 32) (hn : n < 2 ^ 32) :
    (∀ x, ((info.givePages .vir b n).givePages .phy a m).Counted x) ↔
      info.Taken .vir b n ∧ info.Taken .phy a m := by
  have hsame := sameLayout_givePages info .vir b n
  have hlaid := h.laid.of_same hsame
  have hphy : (info.givePages .vir b n).Counted .phy :=
    (count_give_other h.laid (by decide) fun e => by cases e).mpr (h.counted .phy)
  have htaken : (info.givePages .vir b n).Taken .phy a m ↔ info.Taken .phy a m := by
    unfold MemInfo.Taken
    refine forall_congr' fun i => forall_congr' fun _ => forall_congr' fun _ => ?_
    rw [hsame.pages]
    refine and_congr_right fun hi => ?_
    rw [h.laid.bits_give_other (by decide) hi fun e => by cases e]
  have hfirst := count_give_iff (s := a) hphy hm
  have hsecond (hin : info.Taken .phy a m) :
      ((info.givePages .vir b n).givePages .phy a m).Counted .vir ↔ info.Taken .vir b n := by
    rw [count_give_other hlaid (by decide) fun _ i h1 h2 => ((htaken.mpr hin) i h1 h2).1]
    exact count_give_iff (h.counted .vir) hn
  constructor
  · intro hc
    have h1 := htaken.mp (hfirst.mp (hc .phy))
    exact ⟨(hsecond h1).mp (hc .vir), h1⟩
  · rintro ⟨h1, h2⟩ x
    cases x with
    | phy => exact hfirst.mpr (htaken.mpr h2)
    | vir => exact (hsecond h2).mpr h1

theorem SameLayout.pageOf (h : SameLayout info t) (side : PageSide) (addr : Word) :
    t.pageOf side addr = info.pageOf side addr := by
  unfold MemInfo.pageOf
  rw [h.start]

theorem SameLayout.outside (h : SameLayout info t) (side : PageSide) (addr : Word) :
    t.outside side addr = info.outside side addr := by
  unfold MemInfo.outside
  rw [h.start, h.size]

theorem SameLayout.tmpCnt (h : SameLayout info t) (side : PageSide) (addr size : Word) :
    t.tmpCnt side addr size = info.tmpCnt side addr size := by
  unfold MemInfo.tmpCnt
  rw [h.pageOf]

theorem PagesOk.virAddrFree (h : PagesOk info) :
    (∀ t, swVirAddrFree addr size phyAddr info = .ok t → ∀ x, t.Counted x) ↔
      PagesFit info (.virAddrFree addr size phyAddr) := by
  show _ ↔ (info.outsideWords .vir addr = false → _)
  unfold swVirAddrFree
  cases hout : info.outsideWords .vir addr with
  | true => exact iff_of_true (fun t ht => by cases ht) fun hc => by cases hc
  | false =>
    rw [if_neg (by decide)]
    have hsame : SameLayout info (info.giveRange .vir addr size) := sameLayout_givePages _ _ _ _
    have hpick (u : MemInfo) :
        (∀ t, (Except.ok u : Except PageError MemInfo) = .ok t → ∀ x, t.Counted x) ↔
          ∀ x, u.Counted x :=
      ⟨fun h1 => h1 u rfl, fun h1 t ht => by cases ht; exact h1⟩
    have hfalse {P : Prop} : (false = false → P) ↔ P := ⟨fun h1 => h1 rfl, fun h1 _ => h1⟩
    rw [hpick, hfalse]
    unfold swPhyAddrFree MemInfo.FreeFits
    rw [hsame.outside]
    cases hout' : info.outside .phy phyAddr with
    | true =>
      rw [if_pos rfl]
      have h1 := h.of_give .vir (info.pageOf .vir addr)
        (tmpCnt_lt info .vir addr size)
      refine h1.trans (and_iff_left ?_).symm
      intro hc
      cases hc
    | false =>
      rw [if_neg (by decide), hfalse]
      show (∀ x, ((info.giveRange .vir addr size).giveRange .phy phyAddr (pageUp size)).Counted x) ↔ _
      unfold MemInfo.giveRange
      rw [(sameLayout_givePages info .vir _ _).pageOf, (sameLayout_givePages info .vir _ _).tmpCnt]
      exact h.give_two (tmpCnt_lt _ _ _ _) (tmpCnt_lt _ _ _ _)

/-! ## Runs of calls -/

theorem PagesOk.kept_iff (h : PagesOk info) :
    (∀ t, memStep info c = some t → ∀ x, t.Counted x) ↔ PagesFit info c := by
  unfold memStep
  rw [counted_getD h]
  cases c with
  | phyPageAlloc size =>
    exact Iff.trans ⟨fun h1 => h1 _ rfl, fun h1 t ht => by cases ht; exact h1⟩ h.phyPageAlloc
  | virPageAlloc size =>
    exact Iff.trans ⟨fun h1 => h1 _ rfl, fun h1 t ht => by cases ht; exact h1⟩ h.virPageAlloc
  | phyAddrReserve addr size => exact h.addrReserve
  | virAddrReserve addr size => exact h.addrReserve
  | virFreeReserve addr size => exact h.virFreeReserve
  | phyAddrFree addr size => exact h.phyAddrFree
  | virAddrFree addr size phyAddr => exact h.virAddrFree

theorem refused_of_fit (h : PagesFit info c) (hf : FreesOther info c) :
    (memCall info c).toOption = none := by
  cases c with
  | virFreeReserve addr size =>
    show (swVirFreeReserve addr size info).toOption = none
    unfold swVirFreeReserve
    cases hout : info.outside .vir addr with
    | true => rfl
    | false => exact absurd (h hout) hf
  | phyAddrFree addr size =>
    show (swPhyAddrFree addr size info).toOption = none
    unfold swPhyAddrFree
    cases hout : info.outside .phy addr with
    | true => rfl
    | false => exact absurd (h hout) hf
  | virAddrFree addr size phyAddr =>
    show (swVirAddrFree addr size phyAddr info).toOption = none
    unfold swVirAddrFree
    cases hout : info.outsideWords .vir addr with
    | true => rfl
    | false => exact absurd (h hout).1 hf
  | _ => exact hf.elim

theorem sameLayout_phyPageAlloc (info : MemInfo) (size : Word) :
    SameLayout info (swPhyPageAlloc size info).1 := by
  cases hs : info.scan .phy size with
  | none =>
    rw [phyPageAlloc_none hs]
    exact .refl info
  | some a =>
    rw [phyPageAlloc_some hs]
    exact sameLayout_takePages _ _ _ _

theorem sameLayout_virPageAlloc (info : MemInfo) (size : Word) :
    SameLayout info (swVirPageAlloc size info).1 := by
  cases hs : info.scan .vir size with
  | none =>
    rw [virPageAlloc_none hs]
    exact .refl info
  | some a =>
    rw [virPageAlloc_some hs]
    split_ifs
    · exact sameLayout_phyPageAlloc info _
    · exact (sameLayout_phyPageAlloc info _).trans (sameLayout_takePages _ _ _ _)

theorem sameLayout_addrReserve (h : info.addrReserve side addr size = .ok t) : SameLayout info t := by
  unfold MemInfo.addrReserve at h
  split_ifs at h
  cases h
  exact sameLayout_takePages _ _ _ _

theorem sameLayout_virFreeReserve (h : swVirFreeReserve addr size info = .ok t) :
    SameLayout info t := by
  unfold swVirFreeReserve at h
  split_ifs at h
  cases h
  exact sameLayout_givePages _ _ _ _

theorem sameLayout_phyAddrFree (h : swPhyAddrFree addr size info = .ok t) : SameLayout info t := by
  unfold swPhyAddrFree at h
  split_ifs at h
  cases h
  exact sameLayout_givePages _ _ _ _

theorem sameLayout_virAddrFree (h : swVirAddrFree addr size phyAddr info = .ok t) :
    SameLayout info t := by
  unfold swVirAddrFree at h
  split_ifs at h
  cases h
  have h1 : SameLayout info (info.giveRange .vir addr size) := sameLayout_givePages _ _ _ _
  cases hr : swPhyAddrFree phyAddr (pageUp size) (info.giveRange .vir addr size) with
  | error e => exact h1
  | ok u => exact h1.trans (sameLayout_phyAddrFree hr)

theorem sameLayout_pageStep (h : memStep info c = some t) : SameLayout info t := by
  have ok {r : Except PageError MemInfo} (hr : ∀ u, r = .ok u → SameLayout info u)
      (h : some (r.toOption.getD info) = some t) : SameLayout info t := by
    cases r with
    | error e =>
      cases h
      exact .refl info
    | ok u =>
      cases h
      exact hr u rfl
  cases c with
  | phyPageAlloc size =>
    refine ok (fun u hu => ?_) h
    cases hu
    exact sameLayout_phyPageAlloc info size
  | virPageAlloc size =>
    refine ok (fun u hu => ?_) h
    cases hu
    exact sameLayout_virPageAlloc info size
  | phyAddrReserve addr size => exact ok (fun u hu => sameLayout_addrReserve hu) h
  | virAddrReserve addr size => exact ok (fun u hu => sameLayout_addrReserve hu) h
  | virFreeReserve addr size => exact ok (fun u hu => sameLayout_virFreeReserve hu) h
  | phyAddrFree addr size => exact ok (fun u hu => sameLayout_phyAddrFree hu) h
  | virAddrFree addr size phyAddr => exact ok (fun u hu => sameLayout_virAddrFree hu) h

/-- **The counters** of a region that fits are right at boot, and they stay right and every free of
pages that are not allocated is refused in exactly the runs whose calls fit. -/
theorem pages_counted_iff {ramStart ramEnd codeStart codeEnd : Word} {mem : Words}
    (hb : BootFits ramStart ramEnd codeStart codeEnd mem)
    (h : swMeminfoInit ramStart ramEnd codeStart codeEnd mem = some info) (l : List MemCall) :
    (∀ x, info.Counted x) ∧
      (Along memStep PagesFit info l ↔ Along memStep PagesKept info l) := by
  have hok : PagesOk info := ⟨init_laid h, init_counted hb h⟩
  refine ⟨hok.counted, along_iff PagesOk (fun u c t hu hc ht => ?_) (fun u c hu => ?_) hok l⟩
  · exact ⟨hu.laid.of_same (sameLayout_pageStep ht), hu.kept_iff.mpr hc t ht⟩
  · exact ⟨fun hc => ⟨hu.kept_iff.mpr hc, refused_of_fit hc⟩, fun hc => hu.kept_iff.mp hc.counted⟩

end

/-! ## A page that is freed twice -/

/-- 4 MB of RAM, with 64 KB of code -/
def smallRam : Word × Word := (0x3C000000, 0x3C3FFFFF)

theorem smallRam_fits : BootFits smallRam.1 smallRam.2 0x40000000 0x40010000 fun _ => 0 := by
  refine ⟨by decide, by decide, by decide, fun i _ _ => ?_⟩
  exact getLsbD_zero_word _

theorem smallRam_boots :
    ∃ t, swMeminfoInit smallRam.1 smallRam.2 0x40000000 0x40010000 (fun _ => 0) = some t :=
  init_isSome _ (by decide) (by decide)

theorem pages_counted_iff_smallRam : ∃ info : MemInfo,
    swMeminfoInit smallRam.1 smallRam.2 0x40000000 0x40010000 (fun _ => 0) = some info ∧
    (∀ x, info.Counted x) ∧
      (Along memStep PagesFit info [.phyPageAlloc 0x2000, .virPageAlloc 0x1000] ↔
        Along memStep PagesKept info [.phyPageAlloc 0x2000, .virPageAlloc 0x1000]) := by
  obtain ⟨info, h⟩ := smallRam_boots
  exact ⟨info, h, pages_counted_iff smallRam_fits h _⟩

theorem free_page_freed :
    ¬ ∀ (ramStart ramEnd codeStart codeEnd : Word) (mem : Words) (info : MemInfo),
      swMeminfoInit ramStart ramEnd codeStart codeEnd mem = some info →
      ∀ l, Along memStep PagesKept info l := by
  intro hall
  obtain ⟨info, h⟩ := smallRam_boots
  have hok : PagesOk info := ⟨init_laid h, init_counted smallRam_fits h⟩
  have hkept := (hall _ _ _ _ _ info h [.phyAddrFree 0x3C200000 0x1000]).1
  have hfit : info.FreeFits 0x3C200000 0x1000 := hok.kept_iff.mp hkept.counted
  have hlaid := meminfoStart_laid smallRam.1 smallRam.2 0x40000000 fun _ => 0
  have hinit := init_pages h
  have hpages : (meminfoStart smallRam.1 smallRam.2 0x40000000 fun _ => 0).pages .phy = 1024 := by
    decide
  have hsame : SameLayout (meminfoStart smallRam.1 smallRam.2 0x40000000 fun _ => 0) info := by
    rw [hinit]
    exact (sameLayout_takePages _ _ _ _).trans (sameLayout_takePages _ _ _ _)
  have hout : info.outside .phy 0x3C200000 = false := by
    rw [hsame.outside]
    decide
  have hcnt : info.tmpCnt .phy 0x3C200000 0x1000 = 1 := by
    rw [hsame.tmpCnt]
    decide
  have hpage : info.pageOf .phy 0x3C200000 = 512 := by
    rw [hsame.pageOf]
    decide
  have h1 := hfit hout
  rw [hcnt, hpage] at h1
  have h2 := (h1 512 (by decide) (by decide)).2
  have hboot : bootPages (phyRegion smallRam.1 smallRam.2).1 (0x40010000 - 0x40000000 + 0x100000)
      = 272 := by decide
  have hvir {m : MemInfo} (hl : Laid m) (hp : m.pages .phy = 1024) (n : Nat) :
      (m.takePages .vir 0 n).bits .phy 512 = m.bits .phy 512 :=
    hl.bits_take_other (by decide) (by rw [hp]; decide) fun e => by cases e
  have h3 : info.bits .phy 512 = false := by
    rw [hinit, hboot, hvir (hlaid.of_same (sameLayout_takePages _ _ _ _))
      ((sameLayout_takePages _ _ _ _).pages _ |>.trans hpages), bits_takePages_self,
      meminfoStart_bits smallRam_fits .phy (by rw [hpages]; decide)]
    rfl
  rw [h3] at h2
  cases h2

end SierraTee
