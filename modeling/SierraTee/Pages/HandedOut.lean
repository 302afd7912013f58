import SierraTee.Pages.Account

/-!
# Pages that are handed out

* `handed_separate`  the outstanding runs and ranges are in their region and disjoint;
* `end_reserved`     a reservation of the page behind the region.
-/

namespace SierraTee
open Function Bitmap FlatMemory Runs

/-- a run that was returned or a range that was accepted: its address, the size of the call, and the
bytes -/
structure Handed where
  addr : Word
  size : Word
  len : Nat
  deriving DecidableEq

structure Hands where
  info : MemInfo
  out : PageSide → List Handed

inductive HandCall where
  | phyPageAlloc (size : Word)
  | virPageAlloc (size : Word)
  | phyAddrReserve (addr size : Word)
  | virAddrReserve (addr size : Word)
  | virFreeReserve (e : Handed)
  | phyAddrFree (e : Handed)
  /-- `p` is the run at the result of `secure_vir_to_phy` -/
  | virAddrFree (e p : Handed)

namespace Hands
variable (h : Hands) (info : MemInfo) (side : PageSide) (e : Handed)

def hand : Hands := ⟨info, update h.out side (e :: h.out side)⟩

def back : Hands := ⟨info, update h.out side ((h.out side).erase e)⟩

def handRun (addr size : Word) : Hands :=
  if addr = 0 then ⟨info, h.out⟩ else h.hand info side ⟨addr, size, 4096 * reqCnt size⟩

def handRange (addr size : Word) (r : Except PageError MemInfo) : Hands :=
  r.toOption.elim h fun info => h.hand info side ⟨addr, size, size.toNat⟩

def backRange (r : Except PageError MemInfo) : Hands :=
  r.toOption.elim h fun info => h.back info side e

end Hands

def handStep (h : Hands) : HandCall → Option Hands
  | .phyPageAlloc size =>
    let r := swPhyPageAlloc size h.info
    some (h.handRun r.1 .phy r.2 size)
  | .virPageAlloc size =>
    let p := swPhyPageAlloc (pageUp size) h.info
    let r := swVirPageAlloc size h.info
    if h.info.scan .vir size = none ∨ p.2 = 0 then some ⟨r.1, h.out⟩
    else some ((h.hand p.1 .phy ⟨p.2, pageUp size, 4096 * reqCnt size⟩).handRun r.1 .vir r.2 size)
  | .phyAddrReserve addr size => some (h.handRange .phy addr size (swPhyAddrReserve addr size h.info))
  | .virAddrReserve addr size => some (h.handRange .vir addr size (swVirAddrReserve addr size h.info))
  | .virFreeReserve e =>
    if e ∈ h.out .vir then some (h.backRange .vir e (swVirFreeReserve e.addr e.size h.info)) else none
  | .phyAddrFree e =>
    if e ∈ h.out .phy then some (h.backRange .phy e (swPhyAddrFree e.addr e.size h.info)) else none
  | .virAddrFree e p =>
    if e ∈ h.out .vir ∧ p ∈ h.out .phy ∧ p.size = pageUp e.size then
      some ((swVirAddrFree e.addr e.size p.addr h.info).toOption.elim h fun info =>
        if h.info.outside .phy p.addr then h.back info .vir e
        else (h.back info .vir e).back info .phy p)
    else none

/-! ## What the calls have to be like -/

namespace MemInfo
variable (info : MemInfo) (side : PageSide)

def offset (addr : Word) : Nat := (addr - (info.area side).addrStart).toNat

def Within (addr : Word) (len : Nat) : Prop :=
  ∀ b, info.offset side addr ≤ b → b < info.offset side addr + len →
    b < (info.area side).memregionSize.toNat

def Covered (addr size : Word) (len : Nat) : Prop :=
  ∀ b, info.offset side addr ≤ b → b < info.offset side addr + len →
    b / 4096 < info.pageOf side addr + reqCnt size

def RangeFits (addr size : Word) : Prop :=
  info.outside side addr = false → info.avlCnt side addr size = (pgCnt size).toNat →
    info.Within side addr size.toNat ∧ info.Covered side addr size size.toNat

end MemInfo

def SizeFits (size : Word) : Prop := (pageUp size).toNat < 2 ^ 31

/-- what the calls have to be like -/
def HandFits (h : Hands) : HandCall → Prop
  | .phyPageAlloc size => PagesFit h.info (.phyPageAlloc size)
  | .virPageAlloc size => PagesFit h.info (.virPageAlloc size)
  | .phyAddrReserve addr size => h.info.RangeFits .phy addr size
  | .virAddrReserve addr size => h.info.RangeFits .vir addr size
  | .virFreeReserve _ => True
  | .phyAddrFree e => SizeFits e.size
  | .virAddrFree e _ => SizeFits e.size

/-- **All that is outstanding** is in its region, and nothing overlaps. -/
structure HandedApart (h : Hands) : Prop where
  within : ∀ side, ∀ e ∈ h.out side, h.info.Within side e.addr e.len
  disjoint : ∀ side, (h.out side).Pairwise fun e f => ∀ b,
    ¬ ((h.info.offset side e.addr ≤ b ∧ b < h.info.offset side e.addr + e.len) ∧
      h.info.offset side f.addr ≤ b ∧ b < h.info.offset side f.addr + f.len)

/-! ## The invariant -/

def MemInfo.TakenFor (info : MemInfo) (side : PageSide) (e : Handed) (i : Nat) : Prop :=
  info.pageOf side e.addr ≤ i ∧ i < info.pageOf side e.addr + reqCnt e.size

structure HandedOk (info : MemInfo) (side : PageSide) (e : Handed) : Prop where
  within : info.Within side e.addr e.len
  covered : info.Covered side e.addr e.size e.len
  set : ∀ i, info.TakenFor side e i →
    i < 8 * (info.area side).memBmapLen.toNat ∧ info.bits side i = true

structure HandsOk (h : Hands) : Prop where
  laid : Laid h.info
  handed : ∀ side, ∀ e ∈ h.out side, HandedOk h.info side e
  apart : ∀ side, (h.out side).Pairwise fun e f =>
    ∀ i, ¬ (h.info.TakenFor side e i ∧ h.info.TakenFor side f i)

section
variable {h h' : Hands} {info t : MemInfo} {side other : PageSide} {e f p : Handed} {s n i : Nat}
  {addr size : Word}

theorem SameLayout.takenFor (hs : SameLayout info t) : t.TakenFor side e i ↔ info.TakenFor side e i := by
  unfold MemInfo.TakenFor
  rw [hs.pageOf]

theorem SameLayout.within (hs : SameLayout info t) {len : Nat} :
    t.Within side addr len ↔ info.Within side addr len := by
  unfold MemInfo.Within MemInfo.offset
  rw [hs.start, hs.size]

theorem SameLayout.covered (hs : SameLayout info t) {len : Nat} :
    t.Covered side addr size len ↔ info.Covered side addr size len := by
  unfold MemInfo.Covered MemInfo.offset
  rw [hs.start, hs.pageOf]

theorem HandedOk.of_bits (h : HandedOk info side e) (hs : SameLayout info t)
    (hb : ∀ i, info.TakenFor side e i → info.bits side i = true → t.bits side i = true) :
    HandedOk t side e := by
  refine ⟨hs.within.mpr h.within, hs.covered.mpr h.covered, fun i hi => ?_⟩
  obtain ⟨h1, h2⟩ := h.set i (hs.takenFor.mp hi)
  rw [hs.len]
  exact ⟨h1, hb i (hs.takenFor.mp hi) h2⟩

theorem HandsOk.of_bits (hok : HandsOk h) (hs : SameLayout h.info t)
    (hb : ∀ side, ∀ e ∈ h.out side, ∀ i, h.info.TakenFor side e i → h.info.bits side i = true →
      t.bits side i = true) : HandsOk ⟨t, h.out⟩ := by
  refine ⟨hok.laid.of_same hs, fun x e he => (hok.handed x e he).of_bits hs (hb x e he), fun x => ?_⟩
  refine (hok.apart x).imp fun hef i hi => ?_
  exact hef i ⟨hs.takenFor.mp hi.1, hs.takenFor.mp hi.2⟩

theorem HandsOk.separate (hok : HandsOk h) : HandedApart h := by
  refine ⟨fun x e he => (hok.handed x e he).within, fun x => ?_⟩
  refine (hok.apart x).imp_of_mem fun {e f} he hf hef b => ?_
  rintro ⟨⟨h1, h2⟩, h3, h4⟩
  have page {g : Handed} (hg : g ∈ h.out x) (h5 : h.info.offset x g.addr ≤ b)
      (h6 : b < h.info.offset x g.addr + g.len) : h.info.TakenFor x g (b / 4096) := by
    refine ⟨?_, (hok.handed x g hg).covered b h5 h6⟩
    unfold MemInfo.pageOf
    rw [shr12_toNat]
    exact Nat.div_le_div_right h5
  exact hef (b / 4096) ⟨page he h1 h2, page hf h3 h4⟩

/-! ## Taking pages -/

theorem bits_takePages_mono (h : info.bits other i = true) :
    (info.takePages side s n).bits other i = true := by
  rw [bits_takePages, h, Bool.or_true]

theorem HandsOk.hand (hok : HandsOk h)
    (hclear : ∀ i, s ≤ i → i < s + n → h.info.bits side i = false)
    (hpage : h.info.pageOf side e.addr = s) (hn : reqCnt e.size = n)
    (hin : ∀ i, s ≤ i → i < s + n → i < 8 * (h.info.area side).memBmapLen.toNat)
    (hwithin : h.info.Within side e.addr e.len)
    (hcovered : h.info.Covered side e.addr e.size e.len) :
    HandsOk (h.hand (h.info.takePages side s n) side e) := by
  have hs := sameLayout_takePages h.info side s n
  have hold := hok.of_bits hs fun _ _ _ _ _ hi => bits_takePages_mono hi
  have hrun (i : Nat) : h.info.TakenFor side e i ↔ s ≤ i ∧ i < s + n := by
    unfold MemInfo.TakenFor
    rw [hpage, hn]
  have hnew : HandedOk (h.info.takePages side s n) side e := by
    refine ⟨hs.within.mpr hwithin, hs.covered.mpr hcovered, fun i hi => ?_⟩
    obtain ⟨h1, h2⟩ := (hrun i).mp (hs.takenFor.mp hi)
    rw [hs.len]
    refine ⟨hin i h1 h2, ?_⟩
    rw [bits_takePages_self, decide_eq_true ⟨h1, h2⟩, Bool.true_or]
  refine ⟨hold.laid, fun x f hf => ?_, fun x => ?_⟩
  · by_cases hx : x = side
    · subst hx
      change f ∈ update h.out x (e :: h.out x) x at hf
      rw [update_self] at hf
      rcases List.mem_cons.mp hf with rfl | hf
      · exact hnew
      · exact hold.handed x f hf
    · change f ∈ update h.out side (e :: h.out side) x at hf
      rw [update_of_ne hx] at hf
      exact hold.handed x f hf
  · by_cases hx : x = side
    · subst hx
      show (update h.out x (e :: h.out x) x).Pairwise _
      rw [update_self, List.pairwise_cons]
      refine ⟨fun f hf i hi => ?_, hold.apart x⟩
      obtain ⟨h1, h2⟩ := (hrun i).mp (hs.takenFor.mp hi.1)
      have h3 := ((hok.handed x f hf).set i (hs.takenFor.mp hi.2)).2
      rw [hclear i h1 h2] at h3
      cases h3
    · show (update h.out side (e :: h.out side) x).Pairwise _
      rw [update_of_ne hx]
      exact hold.apart x

theorem scan_start (hscan : info.scan side size = some s) (hn : reqCnt size = 0) : s = 0 := by
  by_contra h
  exact (scan_some hscan).2 0 (Nat.pos_of_ne_zero h) fun j _ h2 => by omega

theorem HandsOk.handRun (hok : HandsOk h)
    (hclear : ∀ i, s ≤ i → i < s + reqCnt size → h.info.bits side i = false)
    (hin : h.info.Inside side s (reqCnt size)) (hzero : reqCnt size = 0 → s = 0) :
    HandsOk (h.handRun (h.info.takePages side s (reqCnt size)) side (h.info.addrOf side s) size) := by
  unfold Hands.handRun
  split_ifs with h0
  · exact hok.of_bits (sameLayout_takePages _ _ _ _) fun _ _ _ _ _ hi => bits_takePages_mono hi
  · have hroom := hok.laid.room side
    have hsmall := hok.laid.small side
    have hs : s < 2 ^ 20 := by
      by_cases hn : 0 < reqCnt size
      · have h1 := Inside_le hin hn
        have h2 := (h.info.area side).memregionSize.isLt
        unfold MemInfo.pages at h1
        rw [shr12_toNat] at h1
        omega
      · have h1 := hzero (by omega)
        omega
    have hoff : h.info.offset side (h.info.addrOf side s) = 4096 * s := by
      unfold MemInfo.offset MemInfo.addrOf
      rw [BitVec.add_sub_cancel, BitVec.toNat_shiftLeft, BitVec.toNat_ofNat, Nat.shiftLeft_eq]
      omega
    have hpage : h.info.pageOf side (h.info.addrOf side s) = s := by
      unfold MemInfo.pageOf
      unfold MemInfo.offset at hoff
      rw [shr12_toNat, hoff]
      omega
    refine hok.hand hclear hpage rfl (fun i h1 h2 => (hin i h1 h2).trans hroom)
      (fun b h1 h2 => ?_) fun b h1 h2 => ?_
    · have h3 := hin (b / 4096)
      have h4 : h.info.pages side = (h.info.area side).memregionSize.toNat / 4096 := shr12_toNat _
      rw [hoff] at h1 h2
      change b < 4096 * s + 4096 * reqCnt size at h2
      rw [h4] at h3
      omega
    · rw [hoff] at h1 h2
      change b < 4096 * s + 4096 * reqCnt size at h2
      show b / 4096 < h.info.pageOf side (h.info.addrOf side s) + reqCnt size
      rw [hpage]
      omega

/-! ## Giving pages back -/

theorem HandsOk.back (hok : HandsOk h) (side : PageSide) (he : e ∈ h.out side)
    (hn : n ≤ reqCnt e.size) :
    HandsOk (h.back (h.info.givePages side (h.info.pageOf side e.addr) n) side e) := by
  have hs := sameLayout_givePages h.info side (h.info.pageOf side e.addr) n
  have hlast (i : Nat) (hi : i < n) :
      h.info.pageOf side e.addr + i < 8 * (h.info.area side).memBmapLen.toNat :=
    ((hok.handed side e he).set (h.info.pageOf side e.addr + i) ⟨by omega, by omega⟩).1
  have hother (x : PageSide) (hx : x ≠ side) (i : Nat)
      (hi : i < 8 * (h.info.area x).memBmapLen.toNat) :
      (h.info.givePages side (h.info.pageOf side e.addr) n).bits x i = h.info.bits x i := by
    rw [bits_givePages, decide_eq_false, Bool.not_false, Bool.true_and]
    rintro ⟨h1, h2⟩
    have h3 := hok.laid.phy
    have h4 := hok.laid.vir
    cases side with
    | phy =>
      cases x with
      | phy => exact absurd rfl hx
      | vir =>
        have h5 := hlast (32 * (h.info.area .vir).bmap + i
          - (32 * (h.info.area .phy).bmap + h.info.pageOf .phy e.addr)) (by omega)
        omega
    | vir =>
      cases x with
      | vir => exact absurd rfl hx
      | phy => omega
  have hmem (f : Handed) (hf : f ∈ (h.out side).erase e) (i : Nat)
      (hi : h.info.TakenFor side f i) : ¬ h.info.TakenFor side e i := by
    have hperm := List.perm_cons_erase he
    have hpair := (hperm.pairwise_iff fun {a b} hab i hi => hab i ⟨hi.2, hi.1⟩).mp (hok.apart side)
    exact fun hi' => (List.pairwise_cons.mp hpair).1 f hf i ⟨hi', hi⟩
  have hself (f : Handed) (hf : f ∈ (h.out side).erase e) :
      HandedOk (h.info.givePages side (h.info.pageOf side e.addr) n) side f := by
    refine (hok.handed side f (List.mem_of_mem_erase hf)).of_bits hs fun i hi hb => ?_
    rw [bits_givePages_self, hb, Bool.and_true, decide_eq_false, Bool.not_false]
    rintro ⟨h1, h2⟩
    exact hmem f hf i hi ⟨h1, by omega⟩
  refine ⟨hok.laid.of_same hs, fun x f hf => ?_, fun x => ?_⟩
  · by_cases hx : x = side
    · subst hx
      change f ∈ update h.out x ((h.out x).erase e) x at hf
      rw [update_self] at hf
      exact hself f hf
    · change f ∈ update h.out side ((h.out side).erase e) x at hf
      rw [update_of_ne hx] at hf
      refine (hok.handed x f hf).of_bits hs fun i hi hb => ?_
      exact (hother x hx i ((hok.handed x f hf).set i hi).1).trans hb
  · have hpair : ((h.out x).Pairwise fun e' f => ∀ i,
        ¬ ((h.info.givePages side (h.info.pageOf side e.addr) n).TakenFor x e' i ∧
          (h.info.givePages side (h.info.pageOf side e.addr) n).TakenFor x f i)) :=
      (hok.apart x).imp fun hef i hi => hef i ⟨hs.takenFor.mp hi.1, hs.takenFor.mp hi.2⟩
    by_cases hx : x = side
    · subst hx
      show (update h.out x ((h.out x).erase e) x).Pairwise _
      rw [update_self]
      exact hpair.sublist List.erase_sublist
    · show (update h.out side ((h.out side).erase e) x).Pairwise _
      rw [update_of_ne hx]
      exact hpair

theorem sizeCnt_le (size : Word) : sizeCnt size ≤ reqCnt size := by
  rw [reqCnt_eq]
  unfold sizeCnt
  split_ifs
  · exact Nat.le_refl _
  · exact Nat.zero_le _

theorem tmpCnt_le (h : SizeFits size) : info.tmpCnt side addr size ≤ reqCnt size := by
  refine (upTo_le _ _).trans ?_
  have hmsb : (pageUp size).msb = false := BitVec.msb_eq_false_iff_two_mul_lt.mpr (by
    unfold SizeFits at h
    omega)
  rw [BitVec.toNat_sshiftRight_of_msb_false hmsb, Nat.shiftRight_eq_div_pow, reqCnt_eq]

/-! ## Calls and runs -/

theorem HandsOk.handRange (hok : HandsOk h) (hfit : h.info.RangeFits side addr size) :
    HandsOk (h.handRange side addr size (h.info.addrReserve side addr size)) := by
  unfold MemInfo.addrReserve
  cases hout : h.info.outside side addr with
  | true => exact hok
  | false =>
    rw [if_neg (by decide)]
    by_cases havl : h.info.avlCnt side addr size = (pgCnt size).toNat
    · rw [if_neg (not_not.mpr havl)]
      obtain ⟨hwithin, hcovered⟩ := hfit hout havl
      have hclear := avlCnt_clear havl
      rw [tempCnt_eq] at hclear ⊢
      refine hok.hand hclear rfl rfl (fun i h1 h2 => ?_) hwithin hcovered
      have hroom := hok.laid.room side
      have hreq := reqCnt_eq size
      rw [pageUp_toNat] at hreq
      have hpage : h.info.pageOf side addr = h.info.offset side addr / 4096 := shr12_toNat _
      have hpages : h.info.pages side = (h.info.area side).memregionSize.toNat / 4096 :=
        shr12_toNat _
      have hlast := hwithin (h.info.offset side addr + size.toNat - 1)
      have hlt := size.isLt
      omega
    · rw [if_pos havl]
      exact hok

theorem HandsOk.virPageAlloc (hok : HandsOk h) (hfit : PagesFit h.info (.virPageAlloc size))
    (hstep : handStep h (.virPageAlloc size) = some h') : HandsOk h' := by
  change (if h.info.scan .vir size = none ∨ (swPhyPageAlloc (pageUp size) h.info).2 = 0 then
    some (⟨(swVirPageAlloc size h.info).1, h.out⟩ : Hands)
    else some ((h.hand (swPhyPageAlloc (pageUp size) h.info).1 .phy
      ⟨(swPhyPageAlloc (pageUp size) h.info).2, pageUp size, 4096 * reqCnt size⟩).handRun
        (swVirPageAlloc size h.info).1 .vir (swVirPageAlloc size h.info).2 size)) = some h' at hstep
  cases hs : h.info.scan .vir size with
  | none =>
    rw [if_pos (Or.inl hs), virPageAlloc_none hs] at hstep
    cases hstep
    exact hok
  | some b =>
    cases hs' : h.info.scan .phy (pageUp size) with
    | none =>
      rw [virPageAlloc_some hs, phyPageAlloc_none hs', if_pos (Or.inr rfl), if_pos rfl] at hstep
      cases hstep
      exact hok
    | some a =>
      have hsome : (h.info.scan .vir size).isSome := by
        rw [hs]
        rfl
      obtain ⟨hphy, hvir⟩ := hfit hsome a hs'
      have hin := (scan_fits hs').mpr (by rw [reqCnt_pageUp]; exact hphy)
      have hrun := hok.handRun (scan_some hs').1 hin (scan_start hs')
      unfold Hands.handRun at hrun
      rw [virPageAlloc_some hs, phyPageAlloc_some hs'] at hstep
      rw [reqCnt_pageUp] at hstep hrun hin
      by_cases h0 : h.info.addrOf .phy a = 0
      · rw [if_pos (Or.inr h0), if_pos h0] at hstep
        rw [if_pos h0] at hrun
        cases hstep
        exact hrun
      · rw [if_neg (by rw [hs]; exact fun h1 => h1.elim (fun e => by cases e) h0), if_neg h0]
          at hstep
        rw [if_neg h0] at hrun
        cases hstep
        have hsame := sameLayout_takePages h.info .phy a (reqCnt size)
        have hinVir := (scan_fits hs).mpr (hvir h0)
        have hclear : ∀ i, b ≤ i → i < b + reqCnt size →
            (h.info.takePages .phy a (reqCnt size)).bits .vir i = false := by
          intro i h1 h2
          rw [hok.laid.vir_bits hin]
          exact (scan_some hs).1 i h1 h2
        have haddr : h.info.addrOf .vir b = (h.info.takePages .phy a (reqCnt size)).addrOf .vir b := by
          unfold MemInfo.addrOf
          rw [hsame.start]
        rw [haddr]
        refine HandsOk.handRun hrun hclear ?_ (scan_start hs)
        intro i h1 h2
        exact (hinVir i h1 h2).trans_eq (hsame.pages .vir).symm

theorem HandsOk.virAddrFree (hok : HandsOk h) (hfit : SizeFits e.size)
    (hstep : handStep h (.virAddrFree e p) = some h') : HandsOk h' := by
  change (if e ∈ h.out .vir ∧ p ∈ h.out .phy ∧ p.size = pageUp e.size then some _ else none)
    = some h' at hstep
  by_cases hmem : e ∈ h.out .vir ∧ p ∈ h.out .phy ∧ p.size = pageUp e.size
  · rw [if_pos hmem] at hstep
    obtain ⟨he, hp, hsize⟩ := hmem
    cases hstep
    unfold swVirAddrFree
    cases hout : h.info.outsideWords .vir e.addr with
    | true => exact hok
    | false =>
      rw [if_neg (by decide)]
      have hsame : SameLayout h.info (h.info.giveRange .vir e.addr e.size) :=
        sameLayout_givePages _ _ _ _
      have hback : HandsOk (h.back (h.info.giveRange .vir e.addr e.size) .vir e) :=
        hok.back .vir he (tmpCnt_le hfit)
      unfold swPhyAddrFree
      rw [hsame.outside]
      cases hout' : h.info.outside .phy p.addr with
      | true => exact hback
      | false =>
        have hmem : p ∈ (h.back (h.info.giveRange .vir e.addr e.size) .vir e).out .phy := by
          show p ∈ update h.out .vir ((h.out .vir).erase e) .phy
          rw [update_of_ne (by decide)]
          exact hp
        have hfit' : SizeFits (pageUp e.size) := by
          unfold SizeFits
          rw [pageUp_pageUp]
          exact hfit
        refine HandsOk.back hback _ hmem ?_
        rw [hsize]
        exact tmpCnt_le hfit'
  · rw [if_neg hmem] at hstep
    cases hstep

theorem HandsOk.step {c : HandCall} (hok : HandsOk h) (hfit : HandFits h c)
    (hstep : handStep h c = some h') : HandsOk h' := by
  cases c with
  | phyPageAlloc size =>
    cases hstep
    cases hs : h.info.scan .phy size with
    | none =>
      rw [phyPageAlloc_none hs]
      exact hok
    | some a =>
      rw [phyPageAlloc_some hs]
      refine hok.handRun (scan_some hs).1 ((scan_fits hs).mpr (hfit ?_)) (scan_start hs)
      rw [hs]
      rfl
  | virPageAlloc size => exact hok.virPageAlloc hfit hstep
  | phyAddrReserve addr size =>
    cases hstep
    exact hok.handRange hfit
  | virAddrReserve addr size =>
    cases hstep
    exact hok.handRange hfit
  | virFreeReserve e =>
    change (if e ∈ h.out .vir then some _ else none) = some h' at hstep
    split_ifs at hstep with he
    cases hstep
    unfold swVirFreeReserve
    split_ifs
    · exact hok
    · exact hok.back .vir he (sizeCnt_le e.size)
  | phyAddrFree e =>
    change (if e ∈ h.out .phy then some _ else none) = some h' at hstep
    split_ifs at hstep with he
    cases hstep
    unfold swPhyAddrFree
    split_ifs
    · exact hok
    · exact hok.back .phy he (tmpCnt_le hfit)
  | virAddrFree e p => exact hok.virAddrFree hfit hstep

/-- **Outstanding runs and ranges** are in their region and disjoint, in every state. -/
theorem handed_separate {ramStart ramEnd codeStart codeEnd : Word} {mem : Words}
    (hinit : swMeminfoInit ramStart ramEnd codeStart codeEnd mem = some info) {l : List HandCall}
    (hl : Along handStep HandFits ⟨info, fun _ => []⟩ l)
    (h : run handStep ⟨info, fun _ => []⟩ l = some h') : HandedApart h' := by
  have h0 : HandsOk ⟨info, fun _ => []⟩ :=
    ⟨init_laid hinit, fun _ e he => (by cases he), fun _ => List.Pairwise.nil⟩
  exact (run_invariant HandsOk (fun _ _ _ hok hc h => hok.step hc h) h0 hl h).separate

end

/-! ## A page behind the region -/

theorem smallRam_layout {info : MemInfo}
    (h : swMeminfoInit smallRam.1 smallRam.2 0x40000000 0x40010000 (fun _ => 0) = some info) :
    SameLayout (meminfoStart smallRam.1 smallRam.2 0x40000000 fun _ => 0) info := by
  rw [init_pages h]
  exact (sameLayout_takePages _ _ _ _).trans (sameLayout_takePages _ _ _ _)

theorem sameLayout_handRange (h : Hands) (side : PageSide) (addr size : Word) : SameLayout h.info
    (h.handRange side addr size (h.info.addrReserve side addr size)).info := by
  cases hr : h.info.addrReserve side addr size with
  | error e => exact SameLayout.refl h.info
  | ok t => exact sameLayout_addrReserve hr

/-- two runs are reserved, and the first one is given back -/
def twoRuns : List HandCall :=
  [.phyAddrReserve 0x3C300000 0x1800, .phyAddrReserve 0x3C310000 0x1000,
    .phyAddrFree ⟨0x3C300000, 0x1800, 0x1800⟩]

theorem handed_separate_smallRam : ∃ info h',
    swMeminfoInit smallRam.1 smallRam.2 0x40000000 0x40010000 (fun _ => 0) = some info ∧
    run handStep ⟨info, fun _ => []⟩ twoRuns = some h' ∧
    h'.out .phy = [⟨0x3C310000, 0x1000, 0x1000⟩] ∧ HandedApart h' := by
  obtain ⟨info, h⟩ := smallRam_boots
  have hsame := smallRam_layout h
  have hrun : (run handStep ⟨info, fun _ => []⟩ twoRuns).map (fun h => h.out .phy)
      = some [⟨0x3C310000, 0x1000, 0x1000⟩] := by
    rw [init_pages h]
    decide +kernel
  obtain ⟨h', hh', hout⟩ := Option.map_eq_some_iff.mp hrun
  have hl : Along handStep HandFits ⟨info, fun _ => []⟩ twoRuns := by
    refine along_of_step (fun _ _ => ⟨hsame.within.mpr fun b _ h2 => ?_,
      hsame.covered.mpr fun b _ h2 => ?_⟩) rfl ?_
    · have h3 : b < 0x301800 := h2
      show b < 0x400000
      omega
    · have h3 : b < 0x301800 := h2
      show b / 4096 < 0x302
      omega
    · have hnext := hsame.trans (sameLayout_handRange ⟨info, fun _ => []⟩ .phy 0x3C300000 0x1800)
      refine along_of_step (fun _ _ => ⟨hnext.within.mpr fun b _ h2 => ?_,
        hnext.covered.mpr fun b _ h2 => ?_⟩) rfl (along_singleton (show (pageUp 0x1800).toNat < 2 ^ 31 by decide))
      · have h3 : b < 0x311000 := h2
        show b < 0x400000
        omega
      · have h3 : b < 0x311000 := h2
        show b / 4096 < 0x311
        omega
  exact ⟨info, h', h, hh', hout, handed_separate h hl hh'⟩

theorem end_reserved :
    ¬ ∀ (ramStart ramEnd codeStart codeEnd : Word) (mem : Words) (info : MemInfo),
      swMeminfoInit ramStart ramEnd codeStart codeEnd mem = some info →
      ∀ l h', run handStep ⟨info, fun _ => []⟩ l = some h' → HandedApart h' := by
  intro hall
  obtain ⟨info, h⟩ := smallRam_boots
  have hsame := smallRam_layout h
  have hout : info.outside .phy 0x3C400000 = false := by
    rw [hsame.outside]
    decide
  have hpage : info.pageOf .phy 0x3C400000 = 1024 := by
    rw [hsame.pageOf]
    decide
  have hbit : info.bits .phy 1024 = false := by
    have hb : ∀ side, ((meminfoStart smallRam.1 smallRam.2 0x40000000 fun _ => 0).area side).bmap
        = if side = .phy then 0 else 33 := by
      intro side
      cases side <;> decide
    have h0 : (meminfoStart smallRam.1 smallRam.2 0x40000000 fun _ => 0).bits .phy 1024 = false := by
      decide
    rw [init_pages h, bits_takePages, (sameLayout_takePages _ _ _ _).bmap,
      (sameLayout_takePages _ _ _ _).bmap, hb, hb, bits_takePages_self, h0]
    decide
  have havl : info.avlCnt .phy 0x3C400000 0x1000 = (pgCnt 0x1000).toNat := by
    unfold MemInfo.avlCnt
    rw [hpage]
    show (if bit info.mem (info.area .phy).bmap 1024 then 0 else 0 + 1) = 1
    rw [show bit info.mem (info.area .phy).bmap 1024 = false from hbit]
    rfl
  have hcall : swPhyAddrReserve 0x3C400000 0x1000 info
      = .ok (info.takePages .phy (info.pageOf .phy 0x3C400000) (tempCnt 0x1000)) := by
    show info.addrReserve .phy _ _ = _
    unfold MemInfo.addrReserve
    rw [hout, if_neg (by decide), if_neg (not_not.mpr havl)]
  have hstep : handStep ⟨info, fun _ => []⟩ (.phyAddrReserve 0x3C400000 0x1000)
      = some (Hands.hand ⟨info, fun _ => []⟩
        (info.takePages .phy (info.pageOf .phy 0x3C400000) (tempCnt 0x1000)) .phy
        ⟨0x3C400000, 0x1000, 0x1000⟩) := by
    show some (Hands.handRange _ .phy 0x3C400000 0x1000 (swPhyAddrReserve 0x3C400000 0x1000 info)) = _
    rw [hcall]
    rfl
  have hsep := hall _ _ _ _ _ info h [.phyAddrReserve 0x3C400000 0x1000] _ (by
    rw [run_cons, hstep]
    rfl)
  have hmem : (⟨0x3C400000, 0x1000, 0x1000⟩ : Handed) ∈ (Hands.hand ⟨info, fun _ => []⟩
      (info.takePages .phy (info.pageOf .phy 0x3C400000) (tempCnt 0x1000)) .phy
      ⟨0x3C400000, 0x1000, 0x1000⟩).out .phy := by
    show _ ∈ update (fun _ => []) PageSide.phy _ .phy
    rw [update_self]
    exact List.mem_cons_self
  have hwithin := (hsame.trans (sameLayout_takePages info _ _ _)).within.mp (hsep.within .phy _ hmem)
  have hlast := hwithin 0x400000 (by decide) (by decide)
  revert hlast
  decide

end SierraTee
