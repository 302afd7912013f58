import SierraTee.Kernel.Stacks

/-!
# The guard pages of the stacks

* `stackRun_guarded`  the guard pages in a run without a stack for a task with a user mode;
* `user_page_open`    a run with one page for it.
-/

namespace SierraTee
open Function Bitmap FlatMemory PageTables Runs

def Stack.hand (k : Stack) (side : PageSide) : Handed :=
  ⟨k.base side, newSize k.size, (newSize k.size).toNat⟩

def kernelStack (c : PageConfig) (size phy : Word) : Stack :=
  ⟨false, size, securePhyToVir c phy + 0x1000, phy, securePhyToVir c phy⟩

structure LiveOk (c : PageConfig) (s : StackState) (k : Stack) : Prop where
  kernel : k.user = false
  sp : k.sp = k.vir + 0x1000
  pos : 0 < (pageUp k.size).toNat
  small : (pageUp k.size).toNat + 4096 < 2 ^ 31
  spPage : k.sp.toNat % 4096 = 0
  phyPage : (k.phy + 0x1000).toNat % 4096 = 0
  inside : ∀ side, s.info.outside side (k.base side) = false
  whole : ∀ a, BySection k.sp k.sp (pageUp k.size) a →
    BySection k.sp (k.phy + 0x1000) (pageUp k.size) a
  range : RangeAt c k.sp (k.phy + 0x1000) (pageUp k.size) s.pt
  guard : ∀ a, (a - k.vir).toNat < 4096 → physOf c s.pt a = none

structure StacksOk (m : MmuConfig) (others : PageSide → List Handed) (s : StackState) : Prop where
  hands : HandsOk ⟨s.info, fun side => s.live.map (Stack.hand · side) ++ others side⟩
  useOk : UseOk m s.pt
  regular : Regular m s.pt
  live : ∀ k ∈ s.live, LiveOk m s k
  clear : ∀ a, s.info.offset .vir a < (s.info.area .vir).memregionSize.toNat →
    s.info.bits .vir (s.info.pageOf .vir a) = false → physOf m s.pt a = none
  pool : ∀ a, InPool m s.pt a → ∃ e ∈ others .vir, s.info.Holds .vir e a
  placed : m.Placed s.pt
  tables : ∀ a, m.TableAt s.pt a → s.info.OfRest others a

/-- a state without stacks; the virtual pages that are not taken are not mapped, and the page tables are
in place -/
structure StackStart (m : MmuConfig) (others : PageSide → List Handed) (s : StackState) : Prop where
  live : s.live = []
  hands : HandsOk ⟨s.info, others⟩
  useOk : UseOk m s.pt
  regular : Regular m s.pt
  clear : ∀ a, s.info.offset .vir a < (s.info.area .vir).memregionSize.toNat →
    s.info.bits .vir (s.info.pageOf .vir a) = false → physOf m s.pt a = none
  pool : ∀ a, InPool m s.pt a → ∃ e ∈ others .vir, s.info.Holds .vir e a
  placed : m.Placed s.pt
  tables : ∀ a, m.TableAt s.pt a → s.info.OfRest others a

section
variable {c : PageConfig} {m : MmuConfig} {others out : PageSide → List Handed}
  {s t : StackState} {info : MemInfo}
  {side : PageSide} {e : Handed} {k k' : Stack} {a b size : Word} {i : Nat}
  {reserve : List (L2Ptr × Word)}

/-! ## Bytes and pages -/

theorem holds_iff (h : info.Within side e.addr e.len) (hpos : 0 < e.len) :
    info.Holds side e a ↔ (a - e.addr).toNat < e.len := by
  have h1 := h (info.offset side e.addr + e.len - 1) (by omega) (by omega)
  have h2 := (info.area side).memregionSize.isLt
  have h3 := a.isLt
  have h4 := e.addr.isLt
  have h5 := (info.area side).addrStart.isLt
  unfold MemInfo.Holds MemInfo.offset at *
  rw [sub_toNat] at *
  rw [sub_toNat, sub_toNat] at *
  omega

theorem page_offset (info : MemInfo) (side : PageSide) (a : Word) :
    info.pageOf side a = info.offset side a / 4096 := shr12_toNat _

theorem HandedOk.page (h : HandedOk info side e) (ha : info.Holds side e a) :
    info.TakenFor side e (info.pageOf side a) := by
  obtain ⟨h1, h2⟩ := ha
  refine ⟨?_, ?_⟩
  · rw [page_offset, page_offset]
    exact Nat.div_le_div_right h1
  · rw [page_offset info side a]
    exact h.covered _ h1 h2

theorem HandedOk.bit (h : HandedOk info side e) (ha : info.Holds side e a) :
    info.bits side (info.pageOf side a) = true := (h.set _ (h.page ha)).2

theorem SameLayout.reserved {u : MemInfo} (h : SameLayout info u) :
    k.Reserved u side i ↔ k.Reserved info side i := by
  unfold Stack.Reserved
  rw [h.pageOf]

theorem SameLayout.holds {u : MemInfo} (h : SameLayout info u) :
    u.Holds side e a ↔ info.Holds side e a := by
  unfold MemInfo.Holds MemInfo.offset
  rw [h.start]

theorem SameLayout.ofRest {u : MemInfo} (h : SameLayout info u) :
    u.OfRest others a ↔ info.OfRest others a := by
  unfold MemInfo.OfRest MemInfo.offset
  simp only [h.holds, h.size, h.start]

theorem HandsOk.sublist {out' : PageSide → List Handed} (h : HandsOk ⟨info, out⟩)
    (hsub : ∀ side, (out' side).Sublist (out side)) : HandsOk ⟨info, out'⟩ :=
  ⟨h.laid, fun side e he => h.handed side e ((hsub side).subset he),
    fun side => (h.apart side).sublist (hsub side)⟩

theorem HandsOk.perm {out' : PageSide → List Handed} (h : HandsOk ⟨info, out⟩)
    (hp : ∀ side, (out side).Perm (out' side)) : HandsOk ⟨info, out'⟩ := by
  refine ⟨h.laid, fun side e he => h.handed side e ((hp side).mem_iff.mpr he), fun side => ?_⟩
  exact ((hp side).pairwise_iff fun hef i hi => hef i ⟨hi.2, hi.1⟩).mp (h.apart side)

/-! ## The pages of a stack -/

theorem owns_vir (hsp : k.sp = k.vir + 0x1000) (hsmall : (pageUp k.size).toNat + 4096 < 2 ^ 31) :
    k.Owns .vir a ↔ (a - k.vir).toNat < 4096 ∨ InRange k.sp (pageUp k.size) a := by
  have h1 : (0x1000 : Word).toNat = 4096 := rfl
  have h2 := newSize_toNat hsmall
  have h3 : newSize k.size - 0x1000 = pageUp k.size := BitVec.add_sub_cancel ..
  have h4 : InRange k.vir (newSize k.size) a ↔ (a - k.vir).toNat < (0x1000 : Word).toNat ∨
      InRange (k.vir + 0x1000) (newSize k.size - 0x1000) a := InRange.step (by omega)
  rw [h3, ← hsp, h1] at h4
  exact h4

theorem newSize_pos (h : (pageUp size).toNat + 4096 < 2 ^ 31) : 0 < (newSize size).toNat := by
  rw [newSize_toNat h]
  omega

theorem owns_iff (h : HandedOk info side (k.hand side))
    (hsmall : (pageUp k.size).toNat + 4096 < 2 ^ 31) :
    k.Owns side a ↔ info.Holds side (k.hand side) a :=
  (holds_iff h.within (newSize_pos hsmall)).symm

theorem reserved_page (h : HandedOk info side (k.hand side))
    (hsmall : (pageUp k.size).toNat + 4096 < 2 ^ 31) :
    k.Reserved info side (info.pageOf side a) ↔ k.Owns side a := by
  rw [owns_iff h hsmall]
  refine ⟨fun h1 => ?_, fun h1 => h.page h1⟩
  have h2 := newSize_pos hsmall
  have h3 := reqCnt_newSize k.size
  have h4 := h.covered (info.offset side (k.base side) + (newSize k.size).toNat - 1)
    (show info.offset side (k.base side) ≤ _ by omega)
    (show _ < info.offset side (k.base side) + (newSize k.size).toNat by omega)
  change _ / 4096 < info.pageOf side (k.base side) + reqCnt (newSize k.size) at h4
  unfold Stack.Reserved at h1
  unfold MemInfo.Holds
  change info.offset side (k.base side) ≤ info.offset side a ∧
    info.offset side a < info.offset side (k.base side) + (newSize k.size).toNat
  rw [page_offset] at h4
  rw [page_offset, page_offset] at h1
  omega

theorem StacksOk.handed (hs : StacksOk m others s) (hk : k ∈ s.live) (side : PageSide) :
    HandedOk s.info side (k.hand side) :=
  hs.hands.handed side _ (List.mem_append_left _ (List.mem_map_of_mem hk))

theorem StacksOk.owns_bit (hs : StacksOk m others s) (hk : k ∈ s.live) (ha : k.Owns side a) :
    s.info.bits side (s.info.pageOf side a) = true :=
  (hs.handed hk side).bit ((owns_iff (hs.handed hk side) (hs.live k hk).small).mp ha)

theorem StacksOk.bytes (hs : StacksOk m others s) (side : PageSide) :
    (s.live.map (Stack.hand · side) ++ others side).Pairwise fun e f =>
      ∀ a, ¬ (s.info.Holds side e a ∧ s.info.Holds side f a) :=
  (hs.hands.separate.disjoint side).imp fun h a ha => h (s.info.offset side a) ha

theorem StacksOk.owns_others (hs : StacksOk m others s) (hk : k ∈ s.live) (he : e ∈ others side)
    (ha : k.Owns side a) : ¬ s.info.Holds side e a := fun h => by
  obtain ⟨-, -, h1⟩ := List.pairwise_append.mp (hs.bytes side)
  exact h1 _ (List.mem_map_of_mem hk) e he a
    ⟨(owns_iff (hs.handed hk side) (hs.live k hk).small).mp ha, h⟩

theorem StacksOk.apart (hs : StacksOk m others s) :
    s.live.Pairwise fun k k' => ∀ side a, ¬ (k.Owns side a ∧ k'.Owns side a) := by
  have h1 (side : PageSide) := (List.pairwise_append.mp (hs.bytes side)).1
  have h2 : s.live.Pairwise fun k k' => ∀ side a,
      ¬ (s.info.Holds side (k.hand side) a ∧ s.info.Holds side (k'.hand side) a) := by
    have h3 := List.pairwise_map.mp (h1 .phy)
    have h4 := List.pairwise_map.mp (h1 .vir)
    refine (h3.and h4).imp fun h side => ?_
    cases side with
    | phy => exact h.1
    | vir => exact h.2
  refine h2.imp_of_mem fun hk hk' h side a ha => h side a ⟨?_, ?_⟩
  · exact (owns_iff (hs.handed hk side) (hs.live _ hk).small).mp ha.1
  · exact (owns_iff (hs.handed hk' side) (hs.live _ hk').small).mp ha.2

theorem StacksOk.owns_pool (hs : StacksOk m others s) (hk : k ∈ s.live) (ha : k.Owns .vir a) :
    ¬ InPool m s.pt a := fun h => by
  obtain ⟨e, he, h1⟩ := hs.pool a h
  exact hs.owns_others hk he ha h1

theorem StacksOk.owns_table (hs : StacksOk m others s) (hk : k ∈ s.live) (ha : k.Owns .vir a) :
    ¬ m.TableAt s.pt a := fun h => by
  obtain ⟨e, he, h1⟩ | h1 := hs.tables a h
  · exact hs.owns_others hk he ha h1
  · have hhand := hs.handed hk .vir
    have h2 := (owns_iff hhand (hs.live k hk).small).mp ha
    have h3 := hhand.within _ h2.1 h2.2
    omega

theorem StacksOk.clear_pool (hs : StacksOk m others s)
    (ha : s.info.bits .vir (s.info.pageOf .vir a) = false) : ¬ InPool m s.pt a := fun h => by
  obtain ⟨e, he, h1⟩ := hs.pool a h
  have h2 := (hs.hands.handed .vir e (List.mem_append_right _ he)).bit h1
  rw [ha] at h2
  cases h2

theorem StacksOk.owns_away (hs : StacksOk m others s) (hsup : Supplied m others s reserve)
    (hk : k ∈ s.live) (ha : k.Owns .vir a) : Away m (s.pt.withReserve reserve) a :=
  fun x hx hheap h => by
    obtain ⟨e, he, h1⟩ := hsup.held x hx hheap
    exact hs.owns_others hk he ha (h1 a h)

theorem StacksOk.clear_away (hs : StacksOk m others s) (hsup : Supplied m others s reserve)
    (ha : s.info.bits .vir (s.info.pageOf .vir a) = false) : Away m (s.pt.withReserve reserve) a :=
  fun x hx hheap h => by
    obtain ⟨e, he, h1⟩ := hsup.held x hx hheap
    have h2 := (hs.hands.handed .vir e (List.mem_append_right _ he)).bit (h1 a h)
    rw [ha] at h2
    cases h2

theorem LiveOk.frame (h : LiveOk c s k) (hsame : SameLayout s.info t.info)
    (hpt : ∀ a, k.Owns .vir a → physOf c t.pt a = physOf c s.pt a ∧
      (Mapped c t.pt a ↔ Mapped c s.pt a)) : LiveOk c t k := by
  have hrange {a : Word} (ha : InRange k.sp (pageUp k.size) a) : k.Owns .vir a :=
    (owns_vir h.sp h.small).mpr (Or.inr ha)
  have hguard {a : Word} (ha : (a - k.vir).toNat < 4096) : k.Owns .vir a :=
    (owns_vir h.sp h.small).mpr (Or.inl ha)
  refine { h with
    inside := fun side => ?_
    range := ⟨fun a ha => ?_, fun a ha => ?_⟩
    guard := fun a ha => ?_ }
  · rw [hsame.outside]
    exact h.inside side
  · rw [(hpt a (hrange ha)).1]
    exact h.range.there a ha
  · rw [(hpt a (hrange ha)).2]
    exact h.range.mapped a ha
  · rw [(hpt a (hguard ha)).1]
    exact h.guard a ha

/-! ## A stack is freed -/

theorem walkVirToPhy_eq {pt : PageTables} {p : Word} (h : physOf c pt a = some p)
    (ha : a.toNat % 4096 = 0) (hp : p.toNat % 4096 = 0) : walkVirToPhy c pt a = p := by
  have h1 : p &&& 0xFFFFF000 = p := by
    apply BitVec.eq_of_toNat_eq
    have h2 := pageFrame_toNat p
    change (p &&& 0xFFFFF000).toNat = p.toNat / 4096 * 4096 at h2
    omega
  unfold walkVirToPhy
  rw [h, pageMask_eq_zero.mpr ha]
  show p &&& 0xFFFFF000 ||| 0 = p
  rw [h1]
  exact BitVec.or_zero

def StackState.given (s : StackState) (k : Stack) : MemInfo :=
  (s.info.givePages .vir (s.info.pageOf .vir k.vir) (reqCnt (newSize k.size))).givePages .phy
    (s.info.pageOf .phy k.phy) (reqCnt (newSize k.size))

/-- **A free of a live stack** gives back its pages, and unmaps them. -/
theorem StacksOk.free (hs : StacksOk m others s) (hk : k ∈ s.live) : ∃ t,
    stackStep m s (.free k) = some t ∧ t.live = s.live.erase k ∧ t.info = s.given k ∧
      RangeUnmapped m (InRange k.sp (pageUp k.size)) s.pt t.pt ∧ m.Placed t.pt := by
  have hl := hs.live k hk
  have hsize := sizeFits_newSize hl.small
  have hfirst : InRange k.sp (pageUp k.size) k.sp := by
    unfold InRange
    rw [BitVec.sub_self]
    exact hl.pos
  have hphy : walkVirToPhy m s.pt k.sp - 0x1000 = k.phy := by
    have h1 := hl.range.there k.sp hfirst
    rw [BitVec.sub_self, BitVec.add_zero] at h1
    rw [walkVirToPhy_eq h1 hl.spPage hl.phyPage, BitVec.add_sub_cancel]
  have hvir : k.sp - 0x1000 = k.vir := by
    rw [hl.sp, BitVec.add_sub_cancel]
  have howns {a : Word} (ha : InRange k.sp (pageUp k.size) a) : k.Owns .vir a :=
    (owns_vir hl.sp hl.small).mpr (Or.inr ha)
  obtain ⟨pt', hpt, hunmapped, hplaced⟩ := unmapSecureMemory_ranged hs.useOk hs.regular hs.placed
    hl.spPage hl.phyPage (pageUp_aligned k.size) hl.whole hl.range
    (fun a ha => hs.owns_pool hk (howns ha)) fun _ a ha hin => hs.owns_table hk (howns hin) ha
  have hsame := sameLayout_givePages s.info .vir (s.info.pageOf .vir k.vir) (reqCnt (newSize k.size))
  have hgive : givePhy k.phy (newSize k.size) (giveVir k.vir (newSize k.size) s.info)
      = s.given k := by
    have h1 : giveVir k.vir (newSize k.size) s.info = _ := giveVir_eq hsize (hl.inside .vir)
    have h2 : (giveVir k.vir (newSize k.size) s.info).outside .phy k.phy = false := by
      rw [h1]
      exact (hsame.outside .phy k.phy).trans (hl.inside .phy)
    rw [givePhy_eq hsize h2, h1]
    exact congrArg (MemInfo.givePages _ .phy · _) (hsame.pageOf .phy k.phy)
  refine ⟨⟨s.given k, pt', s.live.erase k⟩, ?_, rfl, rfl, hunmapped, hplaced⟩
  show (if k ∈ s.live then freeStack m s k else none) = _
  unfold freeStack freeKernelStack
  dsimp only
  rw [if_pos hk, hl.kernel, if_neg Bool.false_ne_true, hpt, hphy, hvir, Option.map_some, hgive]
  rfl

theorem StacksOk.reserved_lt (hs : StacksOk m others s) (hk : k ∈ s.live) (side : PageSide)
    (h1 : s.info.pageOf side (k.base side) ≤ i)
    (h2 : i < s.info.pageOf side (k.base side) + reqCnt (newSize k.size)) :
    i < 8 * (s.info.area side).memBmapLen.toNat :=
  ((hs.handed hk side).set i ⟨h1, h2⟩).1

theorem StacksOk.given_bits (hs : StacksOk m others s) (hk : k ∈ s.live)
    (hi : i < 8 * (s.info.area side).memBmapLen.toNat) : (s.given k).bits side i
      = (s.info.bits side i && !decide (k.Reserved s.info side i)) := by
  have hsame := sameLayout_givePages s.info .vir (s.info.pageOf .vir k.vir) (reqCnt (newSize k.size))
  have hvir := bits_give hs.hands.laid (fun j => hs.reserved_lt hk .vir) hi
  unfold StackState.given
  rw [bits_give (hs.hands.laid.of_same hsame) (fun j h1 h2 => ?_) (by rw [hsame.len]; exact hi)]
  · refine (congrArg (· && _) hvir).trans ?_
    rw [Bool.and_assoc]
    congr 1
    cases side with
    | phy =>
      rw [decide_eq_false fun h => absurd h.1 (by decide), Bool.not_false, Bool.true_and]
      exact congrArg not (decide_eq_decide.mpr ⟨And.right, fun h => ⟨rfl, h⟩⟩)
    | vir =>
      rw [Bool.and_comm, decide_eq_false fun h => absurd h.1 (by decide), Bool.not_false,
        Bool.true_and]
      exact congrArg not (decide_eq_decide.mpr ⟨And.right, fun h => ⟨rfl, h⟩⟩)
  · rw [hsame.len]
    exact hs.reserved_lt hk .phy h1 h2

theorem StacksOk.returned (hs : StacksOk m others s) (hk : k ∈ s.live) : k.Returned m s := by
  obtain ⟨t, ht, -, hinfo, -⟩ := hs.free hk
  refine ⟨t, ht, fun side i hi => ⟨fun h => ((hs.handed hk side).set i h).2, ?_⟩⟩
  rw [hinfo]
  exact hs.given_bits hk hi

theorem HandsOk.giveBoth {f : PageSide → Handed} (h : HandsOk ⟨info, fun side => f side :: out side⟩) :
    HandsOk ⟨(info.givePages .vir (info.pageOf .vir (f .vir).addr) (reqCnt (f .vir).size)).givePages
      .phy (info.pageOf .phy (f .phy).addr) (reqCnt (f .phy).size), out⟩ := by
  have hvir := h.back (e := f .vir) .vir List.mem_cons_self (Nat.le_refl _)
  unfold Hands.back at hvir
  dsimp only at hvir
  rw [List.erase_cons_head] at hvir
  have hmem : f .phy ∈ update (fun side => f side :: out side) .vir (out .vir) .phy := by
    rw [update_of_ne (by decide)]
    exact List.mem_cons_self
  have hphy := hvir.back .phy hmem (Nat.le_refl _)
  unfold Hands.back at hphy
  dsimp only at hphy
  rw [update_of_ne (by decide), List.erase_cons_head,
    (sameLayout_givePages info .vir _ _).pageOf] at hphy
  refine hphy.sublist fun side => ?_
  cases side with
  | phy =>
    rw [update_self]
  | vir =>
    rw [update_of_ne (by decide), update_self]

theorem StacksOk.page_lt (hs : StacksOk m others s)
    (ha : s.info.offset .vir a < (s.info.area .vir).memregionSize.toNat) :
    s.info.pageOf .vir a < 8 * (s.info.area .vir).memBmapLen.toNat := by
  have h1 : s.info.pages .vir < 8 * (s.info.area .vir).memBmapLen.toNat := hs.hands.laid.room .vir
  have h2 : s.info.pages .vir = (s.info.area .vir).memregionSize.toNat / 4096 := shr12_toNat _
  rw [page_offset]
  omega

theorem StacksOk.step_free (hs : StacksOk m others s) (hk : k ∈ s.live)
    (ht : stackStep m s (.free k) = some t) : StacksOk m others t := by
  obtain ⟨t', ht', hlive, hinfo, hpt, hplaced⟩ := hs.free hk
  cases Option.some.inj (ht.symm.trans ht')
  have hl := hs.live k hk
  have hsame : SameLayout s.info t.info := by
    rw [hinfo]
    exact (sameLayout_givePages _ _ _ _).trans (sameLayout_givePages _ _ _ _)
  have hperm : HandsOk ⟨s.info, fun side => k.hand side ::
      ((s.live.erase k).map (Stack.hand · side) ++ others side)⟩ :=
    hs.hands.perm fun side => ((List.perm_cons_erase hk).map _).append_right _
  have hrange {a : Word} (ha : InRange k.sp (pageUp k.size) a) : k.Owns .vir a :=
    (owns_vir hl.sp hl.small).mpr (Or.inr ha)
  refine ⟨?_, hpt.useOk, hpt.regular, fun k' hk' => ?_, fun a ha hbit => ?_, fun a ha => ?_, hplaced,
    fun a ha => hsame.ofRest.mpr (hs.tables a (hpt.tableAt ha))⟩
  · rw [hlive, hinfo]
    exact hperm.giveBoth
  · rw [hlive] at hk'
    have hmem := List.mem_of_mem_erase hk'
    refine (hs.live k' hmem).frame hsame fun a ha => hpt.others a (fun h => ?_) (hs.owns_pool hmem ha)
    have hpair := ((List.perm_cons_erase hk).pairwise_iff fun {x y} hxy side a hi =>
      hxy side a ⟨hi.2, hi.1⟩).mp hs.apart
    exact (List.pairwise_cons.mp hpair).1 k' hk' .vir a ⟨hrange h, ha⟩
  · rw [hsame.size] at ha
    unfold MemInfo.offset at ha
    rw [hsame.start] at ha
    rw [hinfo, (show (s.given k).pageOf .vir a = s.info.pageOf .vir a from
      hinfo ▸ hsame.pageOf .vir a), hs.given_bits hk ?_] at hbit
    · by_cases hsp : InRange k.sp (pageUp k.size) a
      · exact hpt.gone a hsp (hs.owns_pool hk (hrange hsp))
      · by_cases hres : k.Reserved s.info .vir (s.info.pageOf .vir a)
        · have h1 := (reserved_page (hs.handed hk .vir) hl.small).mp hres
          rw [(hpt.others a hsp (hs.owns_pool hk h1)).1]
          exact hl.guard a (((owns_vir hl.sp hl.small).mp h1).resolve_right hsp)
        · rw [decide_eq_false hres, Bool.not_false, Bool.and_true] at hbit
          rw [(hpt.others a hsp (hs.clear_pool hbit)).1]
          exact hs.clear a ha hbit
    · exact hs.page_lt ha
  · obtain ⟨e, he, h1⟩ := hs.pool a (hpt.pool a ha)
    exact ⟨e, he, hsame.holds.mpr h1⟩

/-! ## A stack is made -/

structure TakenRun (c : PageConfig) (info : MemInfo) (out : PageSide → List Handed) (size : Word)
    (x : MemInfo × Word) : Prop where
  hands : HandsOk ⟨x.1, fun side => (kernelStack c size x.2).hand side :: out side⟩
  same : SameLayout info x.1
  vir : info.outside .vir (securePhyToVir c x.2) = false
  clear : ∀ i, (kernelStack c size x.2).Reserved info .vir i → info.bits .vir i = false
  bits : ∀ i, x.1.bits .vir i = false → info.bits .vir i = false ∧
    ¬ (kernelStack c size x.2).Reserved info .vir i

theorem reserveStack_taken {x : MemInfo × Word} {start : Nat} (hok : HandsOk ⟨info, out⟩)
    (hscan : info.scan .phy (newSize size) = some start) (hfit : RunFits info size start)
    (hx : x.2 = info.addrOf .phy start) (h0 : x.2 ≠ 0)
    (hplace : (swPhyPageAlloc (newSize size) info).1.RangeFits .vir (securePhyToVir c x.2)
      (newSize size))
    (hres : swVirAddrReserve (securePhyToVir c x.2) (newSize size)
      (info.takePages .phy start (reqCnt (newSize size))) = .ok x.1) :
    TakenRun c info out size x := by
  obtain ⟨u, phy⟩ := x
  obtain ⟨hsmall, hrun⟩ := hfit
  have hsame := sameLayout_takePages info .phy start (reqCnt (newSize size))
  have hbits := hok.laid.vir_bits hrun
  rw [phyPageAlloc_some hscan] at hplace
  have h1 := hok.handRun (scan_some hscan).1 hrun (scan_start hscan)
  unfold Hands.handRun at h1
  rw [← show phy = _ from hx, if_neg h0] at h1
  have h2 := HandsOk.handRange h1 hplace
  have h3 : (info.takePages .phy start (reqCnt (newSize size))).addrReserve .vir
    (securePhyToVir c phy) (newSize size) = .ok u := hres
  have hhands : HandsOk ⟨u, fun side => (kernelStack c size phy).hand side :: out side⟩ := by
    have h4 := h2
    unfold Hands.handRange Hands.hand at h4
    dsimp only at h4
    rw [h3] at h4
    refine HandsOk.perm h4 fun side => ?_
    have hlen := reqCnt_newSize size
    cases side with
    | phy =>
      show (update (update out .phy _) .vir _ .phy).Perm _
      rw [update_of_ne (by decide), update_self, hlen]
      exact List.Perm.refl _
    | vir =>
      show (update (update out .phy _) .vir _ .vir).Perm _
      rw [update_self, update_of_ne (by decide)]
      exact List.Perm.refl _
  unfold MemInfo.addrReserve at h3
  split_ifs at h3 with hout havl
  cases h3
  have hclear (i : Nat) (hi : (kernelStack c size phy).Reserved info .vir i) :
      info.bits .vir i = false := by
    rw [← hbits i]
    refine avlCnt_clear (not_not.mp havl) i ?_ ?_
    · rw [hsame.pageOf]
      exact hi.1
    · rw [hsame.pageOf, tempCnt_eq]
      exact hi.2
  refine ⟨hhands, hsame.trans (sameLayout_takePages _ _ _ _), ?_, hclear, fun i hi => ?_⟩
  · rw [← hsame.outside]
    exact Bool.eq_false_iff.mpr hout
  · rw [bits_takePages_self, Bool.or_eq_false_iff, hbits, hsame.pageOf, tempCnt_eq] at hi
    exact ⟨hi.2, of_decide_eq_false hi.1⟩

theorem StacksOk.refused {u : MemInfo} (hs : StacksOk m others s) (hsup : Supplied m others s reserve)
    (h : FailedTake s.info (fun side => s.live.map (Stack.hand · side) ++ others side) u) :
    StacksOk m others { s.withReserve reserve with info := u } := by
  refine ⟨h.hands, hs.useOk.withReserve hsup.ok, hs.regular, fun k hk => ?_, fun a ha hbit => ?_,
    fun a ha => ?_, ⟨hs.placed.off, hs.placed.aligned, hs.placed.tables⟩,
    fun a ha => h.same.ofRest.mpr (hs.tables a ha)⟩
  · exact (hs.live k hk).frame h.same fun a _ => ⟨rfl, Iff.rfl⟩
  · change u.offset .vir a < (u.area .vir).memregionSize.toNat at ha
    change u.bits .vir (u.pageOf .vir a) = false at hbit
    unfold MemInfo.offset at ha
    rw [h.same.size, h.same.start] at ha
    rw [h.same.pageOf] at hbit
    exact hs.clear a ha (h.clear _ (hs.page_lt ha) hbit)
  · obtain ⟨e, he, h1⟩ := hs.pool a ha
    exact ⟨e, he, h.same.holds.mpr h1⟩

theorem TakenRun.undo {x : MemInfo × Word} (h : TakenRun c info out size x)
    (hsmall : (pageUp size).toNat + 4096 < 2 ^ 31) (hphy : info.outside .phy x.2 = false)
    (h0 : x.2 ≠ 0) :
    FailedTake info out (undoStack (securePhyToVir c x.2) x.2 (newSize size) x.1) := by
  have hsize := sizeFits_newSize hsmall
  have hin (side : PageSide) (j : Nat) (h1 : x.1.pageOf side ((kernelStack c size x.2).base side) ≤ j)
      (h2 : j < x.1.pageOf side ((kernelStack c size x.2).base side) + reqCnt (newSize size)) :
      j < 8 * (x.1.area side).memBmapLen.toNat :=
    ((h.hands.handed side _ List.mem_cons_self).set j ⟨h1, h2⟩).1
  have hlaid : Laid x.1 := h.hands.laid
  have hphy1 : x.1.outside .phy x.2 = false := (h.same.outside .phy x.2).trans hphy
  unfold undoStack
  dsimp only
  rw [if_pos h0]
  by_cases hv : securePhyToVir c x.2 = 0
  · rw [if_neg (not_not.mpr hv), givePhy_eq hsize hphy1]
    refine ⟨?_, h.same.trans (sameLayout_givePages _ _ _ _), fun i hi h1 => ?_⟩
    · have h1 := h.hands.back (e := (kernelStack c size x.2).hand .phy) .phy
        List.mem_cons_self (Nat.le_refl _)
      unfold Hands.back at h1
      dsimp only at h1
      rw [List.erase_cons_head] at h1
      refine h1.sublist fun side => ?_
      cases side with
      | phy =>
        rw [update_self]
      | vir =>
        rw [update_of_ne (by decide)]
        exact List.sublist_cons_self ..
    · rw [← h.same.len] at hi
      rw [bits_give (p := x.1.pageOf .phy x.2) hlaid (hin .phy) hi,
        decide_eq_false fun h2 => absurd h2.1 (by decide),
        Bool.not_false, Bool.and_true] at h1
      exact (h.bits i h1).1
  · rw [if_pos hv]
    have hvir1 : x.1.outside .vir (securePhyToVir c x.2) = false :=
      (h.same.outside .vir _).trans h.vir
    have hsame := sameLayout_givePages x.1 .vir (x.1.pageOf .vir (securePhyToVir c x.2))
      (reqCnt (newSize size))
    rw [giveVir_eq hsize hvir1, givePhy_eq hsize ((hsame.outside .phy x.2).trans hphy1),
      hsame.pageOf]
    refine ⟨h.hands.giveBoth, (h.same.trans hsame).trans (sameLayout_givePages _ _ _ _),
      fun i hi h1 => ?_⟩
    rw [← h.same.len] at hi
    have hin2 (j : Nat) (h1 : x.1.pageOf .phy x.2 ≤ j)
        (h2 : j < x.1.pageOf .phy x.2 + reqCnt (newSize size)) :
        j < 8 * ((x.1.givePages .vir (x.1.pageOf .vir (securePhyToVir c x.2))
          (reqCnt (newSize size))).area .phy).memBmapLen.toNat := by
      rw [hsame.len]
      exact hin .phy j h1 h2
    rw [bits_give (hlaid.of_same hsame) hin2 (by rw [hsame.len]; exact hi),
      decide_eq_false fun h2 => absurd h2.1 (by decide), Bool.not_false, Bool.and_true,
      bits_give (p := x.1.pageOf .vir (securePhyToVir c x.2)) hlaid (hin .vir) hi] at h1
    by_cases h2 : (kernelStack c size x.2).Reserved info .vir i
    · exact h.clear i h2
    · have h3 : ¬ (PageSide.vir = PageSide.vir ∧ x.1.pageOf .vir (securePhyToVir c x.2) ≤ i ∧
          i < x.1.pageOf .vir (securePhyToVir c x.2) + reqCnt (newSize size)) :=
        fun h4 => h2 (h.same.reserved.mp h4.2)
      have h4 : x.1.bits .vir i = false := by
        rw [decide_eq_false h3, Bool.not_false, Bool.and_true] at h1
        exact h1
      exact (h.bits i h4).1

theorem PlaceFits.sections {phy : Word} (h : PlaceFits c info size phy)
    (ha : BySection (securePhyToVir c phy + 0x1000) (securePhyToVir c phy + 0x1000) (pageUp size) a) :
    BySection (securePhyToVir c phy + 0x1000) (phy + 0x1000) (pageUp size) a := by
  have h1 := h.whole ⟨a, ha⟩
  refine ⟨?_, ha.2⟩
  have h2 := phy.isLt
  have h3 := c.offset.isLt
  unfold securePhyToVir
  unfold sectionBytes at *
  rw [add_toNat, add_toNat, add_toNat]
  omega

/-- **A stack is made**: its pages are mapped but for the one below it. -/
theorem StacksOk.made {x : MemInfo × Word} {ptf : Word} {y : PageTables × Int}
    (hs : StacksOk m others s) (hsup : Supplied m others s reserve)
    (htaken : TakenRun m s.info (fun side => s.live.map (Stack.hand · side) ++ others side) size x)
    (hsmall : (pageUp size).toNat + 4096 < 2 ^ 31) (hplace : PlaceFits m s.info size x.2)
    (hc : CountersFit (6 * ((pageUp size).toNat / pageBytes)) s.pt)
    (hy : m.mapSecureMemory (s.pt.withReserve reserve) (securePhyToVir m x.2 + 0x1000)
      (x.2 + 0x1000) (pageUp size) ptf = some y) (hy0 : y.2 = 0) :
    StacksOk m others ⟨x.1, y.1, kernelStack m size x.2 :: s.live⟩ := by
  have huse := hs.useOk.withReserve hsup.ok
  have hhand : HandedOk x.1 .vir ((kernelStack m size x.2).hand .vir) :=
    htaken.hands.handed .vir _ List.mem_cons_self
  have howned {a : Word} (ha : (kernelStack m size x.2).Owns .vir a) :
      s.info.bits .vir (s.info.pageOf .vir a) = false := by
    have h1 := htaken.same.reserved.mp ((reserved_page hhand hsmall).mpr ha)
    rw [htaken.same.pageOf] at h1
    exact htaken.clear _ h1
  have hnone {a : Word} (ha : (kernelStack m size x.2).Owns .vir a) : physOf m s.pt a = none := by
    have h1 := (owns_iff hhand hsmall).mp ha
    have h2 := hhand.within _ h1.1 h1.2
    rw [htaken.same.size] at h2
    unfold MemInfo.offset at h2
    rw [htaken.same.start] at h2
    exact hs.clear a h2 (howned ha)
  have hrange {a : Word} (ha : InRange (securePhyToVir m x.2 + 0x1000) (pageUp size) a) :
      (kernelStack m size x.2).Owns .vir a :=
    (owns_vir (k := kernelStack m size x.2) rfl hsmall).mpr (Or.inr ha)
  have hset {k : Stack} (hk : k ∈ s.live) {a : Word} (ha : k.Owns .vir a) :
      ¬ InRange (securePhyToVir m x.2 + 0x1000) (pageUp size) a := fun h1 => by
    have h2 := hs.owns_bit hk ha
    rw [howned (hrange h1)] at h2
    cases h2
  have haway {a : Word} (ha : InRange (securePhyToVir m x.2 + 0x1000) (pageUp size) a) :
      Away m (s.pt.withReserve reserve) a := hs.clear_away hsup (howned (hrange ha))
  have hlin : m.Linear (s.pt.withReserve reserve) :=
    ⟨⟨hs.placed.off, hs.placed.aligned, hs.placed.tables⟩, hsup.next, hsup.stocked.first⟩
  have hclear := MmuConfig.clear_of_free hlin
    (fun a ha => Option.map_eq_none_iff.mp (hnone (hrange ha))) fun a ha => haway ha
  obtain ⟨heq, hkept⟩ := MmuConfig.mapSecureMemory_linear ptf (x.2 + 0x1000) hlin hsup.ok
    { hc with } hclear
  rw [heq] at hy
  have hkept := hkept y hy
  obtain ⟨h1, -⟩ | ⟨-, hva, hpa, hmap⟩ := mapSecureMemory_ranged huse hs.regular hsup.stocked
    (fun a ha => hnone (hrange ha)) (fun a ha => haway ha) hy
  · exact absurd hy0 h1
  refine ⟨htaken.hands, hmap.useOk, hmap.regular, fun k hk => ?_, fun a ha hbit => ?_, fun a ha => ?_,
    hkept.linear.toPlaced, fun a ha => htaken.same.ofRest.mpr ?_⟩
  · obtain rfl | hk := List.mem_cons.mp hk
    · refine ⟨rfl, rfl, hplace.pos, hsmall, hva, hpa, fun side => ?_, fun a => hplace.sections,
        ⟨fun a ha => ?_, fun a ha => ?_⟩, fun a ha => ?_⟩
      · refine (htaken.same.outside side _).trans ?_
        cases side with
        | phy => exact hplace.inside
        | vir => exact htaken.vir
      · exact (hmap.there a ha (hs.clear_away hsup (howned (hrange ha)))).1
      · exact (hmap.there a ha (hs.clear_away hsup (howned (hrange ha)))).2
      · have h1 : (kernelStack m size x.2).Owns .vir a :=
          (owns_vir (k := kernelStack m size x.2) rfl hsmall).mpr (Or.inl ha)
        have h2 : ¬ InRange (securePhyToVir m x.2 + 0x1000) (pageUp size) a := fun h2 => by
          have h3 : (0x1000 : Word).toNat = 4096 := rfl
          have h4 : (0x1000 : Word).toNat ≤ (a - securePhyToVir m x.2).toNat :=
            InRange.rest (by rw [newSize_toNat hsmall]; omega) (by
              rw [show newSize size - 0x1000 = pageUp size from BitVec.add_sub_cancel ..]
              exact h2)
          change (a - securePhyToVir m x.2).toNat < 4096 at ha
          omega
        exact ((hmap.others a h2 (hs.clear_away hsup (howned h1))).1).trans (hnone h1)
    · exact (hs.live k hk).frame htaken.same fun a ha =>
        hmap.others a (hset hk ha) (hs.owns_away hsup hk ha)
  · obtain ⟨h1, h2⟩ := htaken.bits _ hbit
    change ¬ (kernelStack m size x.2).Reserved s.info .vir (x.1.pageOf .vir a) at h2
    change s.info.bits .vir (x.1.pageOf .vir a) = false at h1
    change x.1.offset .vir a < (x.1.area .vir).memregionSize.toNat at ha
    unfold MemInfo.offset at ha
    rw [htaken.same.size, htaken.same.start] at ha
    have h3 : ¬ InRange (securePhyToVir m x.2 + 0x1000) (pageUp size) a := fun h3 =>
      h2 (htaken.same.reserved.mp ((reserved_page hhand hsmall).mpr (hrange h3)))
    rw [htaken.same.pageOf] at h1
    exact ((hmap.others a h3 (hs.clear_away hsup h1)).1).trans (hs.clear a ha h1)
  · obtain h1 | h1 := hmap.pool a ha
    · obtain ⟨e, he, h2⟩ := hs.pool a h1
      exact ⟨e, he, htaken.same.holds.mpr h2⟩
    · unfold Away at h1
      simp only [not_forall, not_not] at h1
      obtain ⟨z, hz, hheap, h2⟩ := h1
      obtain ⟨e, he, h3⟩ := hsup.held z hz hheap
      exact ⟨e, he, htaken.same.holds.mpr (h3 a h2)⟩
  · obtain h1 | ⟨z, hz, h1⟩ := hkept.held (Or.inl ha)
    · exact hs.tables a h1
    · by_cases hstatic : m.isStatic z.1 = true
      · exact hsup.static z hz hstatic a h1
      · have hheap := Bool.eq_false_iff.mpr hstatic
        obtain ⟨e, he, h2⟩ := hsup.held z hz hheap
        exact Or.inl ⟨e, he, h2 a
          ((MmuConfig.pageOf_of_aligned ((hsup.next z hz).heap hheap).1).mpr h1)⟩

/-! ## Calls and runs -/

theorem mapSecureMemory_refused {pt : PageTables} {va pa ptf : Word} {y : PageTables × Int}
    (h : m.mapSecureMemory pt va pa size ptf = some y) (hy : y.2 ≠ 0) : y.1 = pt := by
  unfold MmuConfig.mapSecureMemory at h
  split_ifs at h
  · obtain ⟨pt', -, rfl⟩ := Option.map_eq_some_iff.mp h
    exact absurd rfl hy
  · cases h
    rfl

/-- **The stack of a task of the kernel** is made, or nothing has changed for the others. -/
theorem StacksOk.step_kernel (hs : StacksOk m others s)
    (hfit : StackFits m others s (.allocKernel size reserve))
    (ht : stackStep m s (.allocKernel size reserve) = some t) : StacksOk m others t := by
  obtain ⟨hsup, hc, hfit⟩ := hfit
  obtain ⟨y, hy, rfl⟩ := Option.map_eq_some_iff.mp ht
  unfold allocKernelStack at hy
  have hinfo : (s.withReserve reserve).info = s.info := rfl
  rw [hinfo] at hy
  cases hres : reserveStack m (newSize size) s.info with
  | error u =>
    rw [hres] at hy
    cases hy
    exact hs.refused hsup (reserveStack_error hs.hands (fun start h1 h2 => (hfit start h1 h2).1) hres)
  | ok x =>
    obtain ⟨start, hscan, h0, hx, hok⟩ := reserveStack_ok hres
    rw [hres] at hy
    obtain ⟨z, hz, rfl⟩ := Option.map_eq_some_iff.mp hy
    obtain ⟨hrun, hplace⟩ := hfit start hscan h0
    rw [← hx] at h0 hplace
    have hplace := hplace ⟨x.1, by
      rw [phyPageAlloc_some hscan]
      exact hok⟩
    have htaken := reserveStack_taken hs.hands hscan hrun hx h0 hplace.range hok
    by_cases hz0 : z.2 = 0
    · rw [if_pos ⟨hz0, hplace.sp⟩]
      exact hs.made hsup htaken hrun.small hplace hc hz hz0
    · rw [if_neg fun h => hz0 h.1, mapSecureMemory_refused hz hz0]
      exact hs.refused hsup (htaken.undo hrun.small hplace.inside h0)

theorem StacksOk.step_user {userMode : Bool} (hs : StacksOk m others s)
    (hfit : StackFits m others s (.allocUser userMode size reserve))
    (ht : stackStep m s (.allocUser userMode size reserve) = some t) : StacksOk m others t := by
  obtain ⟨hsup, hfit⟩ := hfit
  obtain ⟨y, hy, rfl⟩ := Option.map_eq_some_iff.mp ht
  unfold allocUserStack at hy
  have hinfo : (s.withReserve reserve).info = s.info := rfl
  rw [hinfo] at hy
  cases hres : reserveStack m (newSize size) s.info with
  | error u =>
    rw [hres] at hy
    cases hy
    exact hs.refused hsup (reserveStack_error hs.hands (fun start h1 h2 => (hfit start h1 h2).1) hres)
  | ok x =>
    obtain ⟨start, hscan, h0, hx, hok⟩ := reserveStack_ok hres
    refine absurd ⟨x.1, ?_⟩ (hfit start hscan h0).2
    rw [phyPageAlloc_some hscan, ← hx]
    exact hok

theorem StacksOk.step {call : StackCall} (hs : StacksOk m others s)
    (hfit : StackFits m others s call) (ht : stackStep m s call = some t) : StacksOk m others t := by
  cases call with
  | allocKernel size reserve => exact hs.step_kernel hfit ht
  | allocUser userMode size reserve => exact hs.step_user hfit ht
  | free k =>
    have hk : k ∈ s.live := by
      by_contra hk
      have h1 : stackStep m s (.free k) = none := if_neg hk
      rw [h1] at ht
      cases ht
    exact hs.step_free hk ht

theorem StacksOk.kept (hs : StacksOk m others s) : GuardsKept m s := by
  refine ⟨fun k hk a ha => ?_, fun k hk a ha => ?_, fun k hk => hs.returned hk, hs.apart⟩
  · have hl := hs.live k hk
    have h1 : (a - k.vir).toNat < 4096 := by
      unfold InRange at ha
      rw [hl.sp, BitVec.add_sub_cancel] at ha
      exact ha
    exact ⟨(owns_vir hl.sp hl.small).mpr (Or.inl h1), hl.guard a h1⟩
  · have hl := hs.live k hk
    have h1 : InRange k.sp (pageUp k.size) a := lt_of_lt_of_le ha (le_pageUp hl.pos)
    refine ⟨_, hl.range.there a h1, ?_⟩
    have h2 : k.phy + 0x1000 + (a - k.sp) - k.phy = 0x1000 + (a - k.sp) := by
      rw [BitVec.add_assoc, BitVec.add_comm, BitVec.add_sub_cancel]
    have h3 : (0x1000 : Word).toNat = 4096 := rfl
    have h4 := hl.small
    unfold InRange at h1
    show (k.phy + 0x1000 + (a - k.sp) - k.phy).toNat < _
    rw [h2, newSize_toNat h4, add_toNat]
    omega

theorem StackStart.ok (h : StackStart m others s) : StacksOk m others s := by
  refine { h with hands := ?_, live := fun k hk => ?_ }
  · rw [h.live]
    exact h.hands
  · rw [h.live] at hk
    cases hk

end

/-! ## A page for a stack -/

/-- the place of the next stack of a page is the run from `start` on -/
def NextStack (s : StackState) (start : Nat) : Prop :=
  let va := securePhyToVir plainConfig (s.info.addrOf .phy start)
  let u := (swPhyPageAlloc (newSize 0x1000) s.info).1
  s.info.scan .phy (newSize 0x1000) = some start ∧ start + 2 ≤ s.info.pages .phy ∧
    s.info.outside .phy (s.info.addrOf .phy start) = false ∧ va + 0x1000 ≠ 0 ∧
    u.offset .vir va + 0x2000 ≤ (u.area .vir).memregionSize.toNat ∧ u.offset .vir va % 4096 = 0

instance (s : StackState) (start : Nat) : Decidable (NextStack s start) :=
  inferInstanceAs (Decidable (_ ∧ _ ∧ _ ∧ _ ∧ _ ∧ _))

theorem NextStack.fits {s : StackState} {start : Nat} {reserve : List (L2Ptr × Word)}
    (h : NextStack s start) (hsup : Supplied plainMmu (fun _ => []) s reserve)
    (hc : CountersFit 6 s.pt) : StackFits plainMmu (fun _ => []) s (.allocKernel 0x1000 reserve) := by
  obtain ⟨hscan, hrun, hin, hsp, hfit, hpage⟩ := h
  have hcnt : reqCnt (newSize 0x1000) = 2 := by decide
  have hsize : (newSize 0x1000).toNat = 0x2000 := by decide
  refine ⟨hsup, hc, fun start' hscan' _ => ?_⟩
  cases Option.some.inj (hscan.symm.trans hscan')
  refine ⟨⟨by decide, fun i _ h => ?_⟩, fun _ => ⟨by decide, hin, fun _ _ =>
    ⟨fun b _ h => ?_, fun b _ h => ?_⟩, hsp, fun _ => rfl⟩⟩
  · omega
  · change _ < MemInfo.offset _ .vir _ + _ at h
    rw [hsize] at h
    exact Nat.lt_of_lt_of_le h hfit
  · change _ < MemInfo.offset _ .vir _ + _ at h
    rw [hsize] at h
    rw [page_offset, hcnt]
    have h1 : ∀ o : Nat, o % 4096 = 0 → b < o + 0x2000 → b / 4096 < o / 4096 + 2 := by omega
    exact h1 _ hpage h

end SierraTee
