import SierraTee.Shm.Create

/-!
# Control and destruction of shared memory

* `control_refused_iff`  when a task that has no control is refused;
* `create_destroy_iff`   when creation and destruction restore the state;
* `virtual_page_kept`    the reservation of virtual pages is left behind.
-/

namespace SierraTee
open FlatMemory

/-- the task is not the creator, and the flags of the segment do not grant control -/
structure Outsider (task : Word) (shm : SharedMem) : Prop where
  other : task ≠ shm.creatorId.setWidth 32
  control : hasCtrl shm = false

/-- the commands that are the creator's -/
def Guarded (cmdId : Word) : Prop :=
  cmdId = shmCmdSetCid ∨ cmdId = shmCmdSetFlag ∨ cmdId = shmCmdDestroy

/-- the call returns an error and leaves everything as it was -/
def ControlRefused (s : ShmState) (buffer : Option Word)
    (res : Option ((ShmState × Word) × Option Word)) : Prop :=
  res = some ((s, swError), buffer)

section
variable {task id cmdId : Word} {buffer : Option Word} {s : ShmState} {shm : SharedMem}

theorem Outsider.granted_eq (h : Outsider task shm) (flags : Bool) : granted task shm flags = flags := by
  unfold granted
  rw [decide_eq_false h.other, Bool.false_or]

def setStat (s : ShmState) (id : Word) (buffer : Option Word) :
    Option ((ShmState × Word) × Option Word) :=
  buffer.map fun w => ((s.update id fun shm => { shm with status := w }, swOk), buffer)

theorem control_setCid (hfound : s.findId id = some shm) (h : Outsider task shm) :
    shmControl task id shmCmdSetCid buffer s =
      if shm.flags ≠ 0 then
        some (s.setField id buffer fun shm w => { shm with lastModify := w.setWidth 16 }, buffer)
      else setStat s id buffer := by
  unfold shmControl
  rw [hfound]
  simp only [h.granted_eq, h.control, Bool.false_eq_true, and_false, if_false, true_or, true_and,
    decide_eq_true_eq, if_true, setStat]

theorem control_setFlag (hfound : s.findId id = some shm) (h : Outsider task shm) :
    shmControl task id shmCmdSetFlag buffer s = setStat s id buffer := by
  have h1 : shmCmdSetFlag ≠ shmCmdSetCid := by decide
  have h2 : shmCmdSetFlag ≠ shmCmdSetLid := by decide
  unfold shmControl
  rw [hfound]
  simp only [h1, h2, or_self, false_and, h.granted_eq, h.control, Bool.false_eq_true, and_false,
    if_false, false_or, true_or, if_true, setStat]

theorem control_destroy (hfound : s.findId id = some shm) :
    shmControl task id shmCmdDestroy buffer s =
      if shm.size.toNat % 4096 = 0 then some ((s.destroy id shm, swOk), buffer) else none := by
  have h1 : shmCmdDestroy ≠ shmCmdSetCid := by decide
  have h2 : shmCmdDestroy ≠ shmCmdSetLid := by decide
  have h3 : shmCmdDestroy ≠ shmCmdSetFlag := by decide
  have h4 : shmCmdDestroy ≠ shmCmdSetStat := by decide
  have h5 : shmCmdDestroy ≠ shmCmdStat := by decide
  unfold shmControl
  rw [hfound]
  simp only [h1, h2, h3, h4, h5, or_self, false_and, if_false, if_true]

/-! ## Refusal -/

theorem swOk_ne_swError : swOk ≠ swError := by decide

theorem setStat_not_refused : ¬ ControlRefused s buffer (setStat s id buffer) := by
  intro h
  obtain ⟨w, -, he⟩ := Option.map_eq_some_iff.mp h
  exact swOk_ne_swError (congrArg (fun x => x.1.2) he)

theorem setField_refused_iff (f : SharedMem → Word → SharedMem) :
    ControlRefused s buffer (some (s.setField id buffer f, buffer)) ↔ buffer = none := by
  cases buffer with
  | none => exact iff_of_true rfl rfl
  | some w =>
    refine iff_of_false (fun h => ?_) fun h => by cases h
    exact swOk_ne_swError (congrArg (fun x => x.1.2) (Option.some.inj h))

/-- **Control by others** is refused only by the check of the buffer in the case behind
`shm_cmd_set_cid`. -/
theorem control_refused_iff (hfound : s.findId id = some shm) (h : Outsider task shm)
    (hcmd : Guarded cmdId) :
    ControlRefused s buffer (shmControl task id cmdId buffer s) ↔
      cmdId = shmCmdSetCid ∧ shm.flags ≠ 0 ∧ buffer = none := by
  obtain rfl | rfl | rfl := hcmd
  · rw [control_setCid hfound h, and_iff_right rfl]
    by_cases hflags : shm.flags = 0
    · rw [if_neg fun h1 => h1 hflags]
      exact iff_of_false setStat_not_refused fun h1 => h1.1 hflags
    · rw [if_pos hflags, setField_refused_iff, and_iff_right hflags]
  · rw [control_setFlag hfound h]
    exact iff_of_false setStat_not_refused fun h1 => absurd h1.1 (by decide)
  · rw [control_destroy hfound]
    refine iff_of_false (fun h1 => ?_) fun h1 => absurd h1.1 (by decide)
    split_ifs at h1
    · exact swOk_ne_swError (congrArg (fun x => x.1.2) (Option.some.inj h1))
    · cases h1

end

/-- a segment of the task 5 that grants nothing to others -/
def ownSegment : SharedMem where
  name := [97]
  id := 1
  creatorId := 5
  lastModify := 0
  flags := 16
  virAddr := 0x80000000
  phyAddr := 0x10000000
  size := 0x1000
  status := 0
  frees := 0

/-- a state with the segment, and with its pages reserved -/
def ownState : ShmState where
  segs := [ownSegment]
  pool := fun i => i = 1
  info := {
    mem := fun w => if w = 0 ∨ w = 2 then 0x80000000 else 0
    area := fun side => match side with
      | .phy => ⟨0, 8, 0x10000000, 0x40000, 63⟩
      | .vir => ⟨2, 8, 0x80000000, 0x40000, 63⟩ }

theorem control_refused_null :
    ControlRefused ownState none (shmControl 6 1 shmCmdSetCid none ownState) :=
  (control_refused_iff rfl ⟨by decide, rfl⟩ (Or.inl rfl)).mpr ⟨rfl, by decide, rfl⟩

/-- the task 6 destroys the segment of the task 5 -/
theorem outsider_destroys : Outsider 6 ownSegment ∧
    ∃ t, shmControl 6 1 shmCmdDestroy none ownState = some ((t, swOk), none) ∧ t.segs = [] ∧
      ¬ ControlRefused ownState none (shmControl 6 1 shmCmdDestroy none ownState) := by
  refine ⟨⟨by decide, rfl⟩, ownState.destroy 1 ownSegment, rfl, rfl, fun h => ?_⟩
  exact swOk_ne_swError (congrArg (fun x => x.1.2) (Option.some.inj h))

/-! ## Shared memory that is created and destroyed -/

open Bitmap

/-- the segments, the ids, both bitmaps and both counters are as before -/
def Restored (s : ShmState) (res : Option ((ShmState × Word) × Option Word)) : Prop :=
  ∃ t r b, res = some ((t, r), b) ∧ t.segs = s.segs ∧ t.pool = s.pool ∧ t.info.mem = s.info.mem ∧
    ∀ side, (t.info.area side).numPagFree = (s.info.area side).numPagFree

/-- no segment has the id that comes next, and there are no pages, or the address is the one with
which virtual pages are given back -/
def DestroyUndoes (c : PageConfig) (size : Word) (s : ShmState) : Prop :=
  (∀ i, FirstIds s.pool (reqCnt size) i → ∀ shm ∈ s.segs, shm.id.toNat ≠ i) ∧
    (reqCnt size = 0 ∨ ∀ start, s.info.FirstRun .phy (reqCnt size) start →
      securePhyToVir c (s.info.addrOf .phy start) = swError ∧
        s.info.outside .phy (s.info.addrOf .phy start) = false ∧ start < 2 ^ 20)

def createdMem (c : PageConfig) (task : Word) (name : List (BitVec 8)) (flags size : Word)
    (info : MemInfo) (id start : Nat) : SharedMem :=
  { newSharedMem task name flags id with
    phyAddr := info.addrOf .phy start
    virAddr := securePhyToVir c (info.addrOf .phy start)
    size := size }

def createdInfo (c : PageConfig) (info : MemInfo) (start n : Nat) : MemInfo :=
  (info.takePages .phy start n).takePages .vir
    (info.pageOf .vir (securePhyToVir c (info.addrOf .phy start))) n

structure NewSegment (c : PageConfig) (task : Word) (name : List (BitVec 8)) (flags size : Word)
    (s t : ShmState) (r : Word) (id start n : Nat) : Prop where
  small : SmallSize (pageUp size) n
  ids : FirstIds s.pool n id
  run : s.info.FirstRun .phy n start
  addr : s.info.addrOf .phy start ≠ 0
  reserve : (s.info.takePages .phy start n).CanReserve .vir
    (securePhyToVir c (s.info.addrOf .phy start)) n
  result : r = BitVec.ofNat 32 id
  segs : t.segs = s.segs ++ [createdMem c task name flags (pageUp size) s.info id start]
  pool : t.pool = setIds s.pool true id n
  info : t.info = createdInfo c s.info start n

section
variable {c : PageConfig} {info t u : MemInfo} {task size flags r : Word} {buffer : Option Word}
  {name : List (BitVec 8)} {alloc : Bool} {s s' : ShmState} {n start id i : Nat}

/-! ## What is created -/

theorem FirstIds.unique {pool : Nat → Bool} (h : FirstIds pool n i) (h' : FirstIds pool n id) :
    i = id := by
  obtain hlt | heq | hlt := Nat.lt_trichotomy i id
  · exact absurd h.free (h'.first i h.pos hlt)
  · exact heq
  · exact absurd h'.free (h.first id h'.pos hlt)

theorem firstRun_unique {side : PageSide} (h : info.FirstRun side n i)
    (h' : info.FirstRun side n start) : i = start := by
  obtain hlt | heq | hlt := Nat.lt_trichotomy i start
  · exact absurd h.clear (h'.first i hlt)
  · exact heq
  · exact absurd h'.clear (h.first start hlt)

theorem shmCreate_some (hnew : s.findName name = none)
    (h : shmCreate c task alloc name size flags s = some (s', r)) (hr : r ≠ swError) :
    ∃ id start, NewSegment c task name flags size s s' r id start (reqCnt size) := by
  have hflags : flags &&& shmFlagCreate ≠ 0 := by
    intro h0
    unfold shmCreate at h
    rw [hnew] at h
    have h1 : some (s, swError) = some (s', r) := (if_pos h0).symm.trans h
    cases h1
    exact hr rfl
  have hsize : (pageUp size).toNat = 4096 * reqCnt size := by
    have h1 := pageUp_aligned size
    rw [reqCnt_eq]
    omega
  rw [shmCreate_new hnew hflags] at h
  by_cases hids : reqCnt size = (idSearch s.pool (pageUp size)).2
  · rw [if_neg (not_not.mpr hids)] at h
    cases alloc with
    | false => cases h
    | true =>
      rw [if_pos rfl] at h
      have hfirst := idSearch_first hsize hids.symm
      have hsmall : SmallSize (pageUp size) (reqCnt size) := by
        have h1 := hfirst.bound
        have h2 := hfirst.pos
        have h3 : sharedMemInstance = 16 := rfl
        exact ⟨hsize, by omega⟩
      rw [← hids] at h
      have hfailed {j : MemInfo} (e : some (({ s with info := j } : ShmState), swError)
          = some (s', r)) : False := by
        cases e
        exact hr rfl
      cases hscan : s.info.scan .phy (pageUp size) with
      | none =>
        rw [shmAllocate_none hscan] at h
        exact (hfailed h).elim
      | some start =>
        by_cases h0 : s.info.addrOf .phy start = 0
        · rw [shmAllocate_zero hscan h0] at h
          exact (hfailed h).elim
        · by_cases hok : (s.info.takePages .phy start (reqCnt size)).CanReserve .vir
              (securePhyToVir c (s.info.addrOf .phy start)) (reqCnt size)
          · rw [shmAllocate_added hscan h0 hsmall hok] at h
            have hrun := scan_eq_some_iff.mp hscan
            rw [hsmall.reqCnt] at hrun
            cases h
            exact ⟨_, start, ⟨hsmall, hfirst, hrun, h0, hok, rfl, rfl, rfl, rfl⟩⟩
          · rw [shmAllocate_refused hscan h0 hsmall hok] at h
            exact (hfailed h).elim
  · rw [if_pos hids] at h
    obtain ⟨shm, -, e⟩ := Option.map_eq_some_iff.mp h
    cases e
    exact absurd rfl hr

/-! ## Names -/

theorem swStrncmp_of_eq {a b : List (BitVec 8)} {index : Nat}
    (h : ∀ i, index ≤ i → i < index + n → charAt a i = charAt b i) :
    swStrncmp a b index n = true := by
  induction n generalizing index with
  | zero => rfl
  | succ n ih =>
    have h1 := h index (Nat.le_refl _) (by omega)
    unfold swStrncmp
    split_ifs with h2 h3
    · rfl
    · exact absurd h1 h3.1
    · exact ih fun i h4 h5 => h i (by omega) (by omega)

theorem swStrncmp_swStrncpy (name : List (BitVec 8)) (n : Nat) :
    swStrncmp (swStrncpy name n) name 0 (swStrnlen name n) = true := by
  refine swStrncmp_of_eq fun i _ hi => ?_
  rw [Nat.zero_add] at hi
  have hlen : i < (name.takeWhile (· ≠ 0)).length := Nat.lt_of_lt_of_le hi (Nat.min_le_left _ _)
  have hn : i < n := Nat.lt_of_lt_of_le hi (Nat.min_le_right _ _)
  have hpre := List.takeWhile_prefix (l := name) (· ≠ 0)
  have hname : i < name.length := Nat.lt_of_lt_of_le hlen hpre.length_le
  unfold charAt swStrncpy
  rw [List.getD_eq_getElem?_getD, List.getD_eq_getElem?_getD, List.getElem?_take_of_lt hn,
    List.getElem?_eq_getElem hlen, List.getElem?_eq_getElem hname, hpre.getElem hlen]

/-! ## Pages -/

theorem SameLayout.eq_of (h : SameLayout info t) (hmem : t.mem = info.mem)
    (hfree : ∀ side, (t.area side).numPagFree = (info.area side).numPagFree) : t = info := by
  refine memInfo_ext hmem (funext fun side => ?_)
  have h1 := h.bmap side
  have h2 := h.len side
  have h3 := h.start side
  have h4 := h.size side
  have h5 := hfree side
  cases hx : t.area side
  cases hy : info.area side
  rw [hx, hy] at h1 h2 h3 h4 h5
  cases h1
  cases h2
  cases h3
  cases h4
  cases h5
  rfl

theorem sameLayout_virFree (info : MemInfo) (addr size : Word) :
    SameLayout info (info.orSame (swVirFreeReserve addr size info)) := by
  unfold MemInfo.orSame swVirFreeReserve
  split_ifs
  · exact SameLayout.refl info
  · exact sameLayout_givePages info .vir _ _

theorem sameLayout_phyFree (info : MemInfo) (addr size : Word) :
    SameLayout info (info.orSame (swPhyAddrFree addr size info)) := by
  unfold MemInfo.orSame swPhyAddrFree
  split_ifs
  · exact SameLayout.refl info
  · exact sameLayout_givePages info .phy _ _

def destroyInfo (shm : SharedMem) (info : MemInfo) : MemInfo :=
  let info :=
    if shm.virAddr = swError then info.orSame (swVirFreeReserve shm.virAddr shm.size info)
    else info
  if shm.phyAddr ≠ 0 then info.orSame (swPhyAddrFree shm.phyAddr shm.size info) else info

theorem sameLayout_destroyInfo (shm : SharedMem) (info : MemInfo) :
    SameLayout info (destroyInfo shm info) := by
  have h1 : SameLayout info (if shm.virAddr = swError
      then info.orSame (swVirFreeReserve shm.virAddr shm.size info) else info) := by
    split_ifs
    · exact sameLayout_virFree info _ _
    · exact SameLayout.refl info
  unfold destroyInfo
  split_ifs at h1 ⊢
  · exact h1.trans (sameLayout_phyFree _ _ _)
  · exact h1
  · exact h1.trans (sameLayout_phyFree _ _ _)
  · exact h1

/-- **The pages of a segment** are given back when there are none, or its virtual address is the one
of the check. -/
theorem destroyInfo_iff (h : NewSegment c task name flags size s s' r id start n) :
    destroyInfo (createdMem c task name flags (pageUp size) s.info id start) s'.info = s.info ↔
      n = 0 ∨ securePhyToVir c (s.info.addrOf .phy start) = swError ∧
        s.info.outside .phy (s.info.addrOf .phy start) = false ∧ start < 2 ^ 20 := by
  have hsmall := h.small
  have hlt := hsmall.small
  have hclear := h.run.clear
  have hreserve := h.reserve
  have haddr := h.addr
  have hback := hreserve.2
  rw [h.info]
  unfold destroyInfo createdInfo createdMem
  dsimp only
  rw [pageOf_takePages] at hback
  generalize hva : securePhyToVir c (s.info.addrOf .phy start) = va at hreserve hback ⊢
  have hout : (s.info.takePages .phy start n).outside .vir va = false := hreserve.1
  rw [outside_takePages] at hout
  by_cases hv : va = swError
  · have e : ((s.info.takePages .phy start n).takePages .vir (s.info.pageOf .vir va) n).orSame
        (swVirFreeReserve va (pageUp size)
          ((s.info.takePages .phy start n).takePages .vir (s.info.pageOf .vir va) n))
        = s.info.takePages .phy start n := by
      unfold MemInfo.orSame
      rw [hsmall.virFreeReserve, outside_takePages, outside_takePages, hout, pageOf_takePages,
        pageOf_takePages]
      exact givePages_takePages hback
    have h1 : shmgetError va (s.info.addrOf .phy start) (pageUp size)
        (s.info.takePages .phy start n) = s.info ↔ _ := shmgetError_iff hsmall hclear
    unfold shmgetError at h1
    rw [if_neg (not_not.mpr hv), pageOf_addrOf, Nat.mod_eq_iff_lt (by decide)] at h1
    rw [if_pos hv, e, h1]
    simp only [hv, true_or, true_and, haddr, ne_eq, not_false_eq_true]
  · rw [if_neg hv, if_pos haddr]
    constructor
    · intro h1
      have h2 := congrArg (fun i : MemInfo => (i.area .vir).numPagFree) h1
      rw [phyAddrFree_vir, takePages_free, if_pos rfl, takePages_free,
        if_neg (by decide : PageSide.vir ≠ .phy)] at h2
      refine Or.inl ((ofNat_eq_zero_iff (by omega)).mp ?_)
      generalize (s.info.area .vir).numPagFree = x at h2
      generalize BitVec.ofNat 32 n = y at h2
      bv_omega
    · intro h1
      obtain rfl := h1.resolve_right fun h2 => hv h2.1
      unfold MemInfo.orSame
      rw [hsmall.phyAddrFree]
      split_ifs <;> rfl

/-! ## The list -/

theorem cons_of_append_cons {X : Type} {a b : X} {l : List X} (h : l ++ [a] = b :: l) : b = a := by
  induction l generalizing b with
  | nil => exact (List.head_eq_of_cons_eq h).symm
  | cons x l ih =>
    obtain ⟨rfl, h1⟩ := List.cons_eq_cons.mp h
    exact ih h1

theorem earlier_removed (h : NewSegment c task name flags size s s' r id start n)
    (hnew : s.findName name = none) {x : SharedMem} (hx : x ∈ s.segs) (hid : x.id = r) :
    ¬ Restored s (shmControl task r shmCmdDestroy buffer s') := by
  have hpos : decide (x.id = r) = true := decide_eq_true hid
  obtain ⟨y, l, l', -, -, hsegs, herase⟩ :=
    List.exists_of_eraseP (p := fun shm : SharedMem => decide (shm.id = r)) hx hpos
  have hfind : ∃ y', s'.findId r = some y' := by
    refine Option.isSome_iff_exists.mp (List.find?_isSome.mpr ⟨x, ?_, decide_eq_true hid⟩)
    rw [h.segs]
    exact List.mem_append_left _ hx
  obtain ⟨y', hy'⟩ := hfind
  rw [control_destroy hy']
  rintro ⟨t, e, b, ht, hs, -⟩
  split_ifs at ht
  cases ht
  have h1 : s'.segs.eraseP (fun shm => decide (shm.id = r)) = s.segs := hs
  rw [h.segs, List.eraseP_append_left (p := fun shm : SharedMem => decide (shm.id = r))
    hpos _ hx, herase, hsegs, List.append_assoc] at h1
  have h2 := cons_of_append_cons (List.append_cancel_left h1)
  have h3 := List.find?_eq_none.mp hnew y (by
    rw [hsegs]
    exact List.mem_append_right l (List.mem_cons_self))
  rw [h2] at h3
  exact h3 (swStrncmp_swStrncpy name maxNameLen)

theorem setIds_setIds {pool : Nat → Bool} (h : FreeIds pool id n) :
    setIds (setIds pool true id n) false id n = pool := by
  funext i
  unfold setIds
  split_ifs with h1
  · exact (h i h1.1 h1.2).symm
  · rfl

theorem destroy_created (h : NewSegment c task name flags size s s' r id start n)
    (hno : ∀ x ∈ s.segs, x.id ≠ r) :
    shmControl task r shmCmdDestroy buffer s' =
      some (({ segs := s.segs
               pool := s.pool
               info := destroyInfo (createdMem c task name flags (pageUp size) s.info id start)
                 s'.info }, swOk), buffer) := by
  have hid : (createdMem c task name flags (pageUp size) s.info id start).id = r := h.result.symm
  have hsize : (createdMem c task name flags (pageUp size) s.info id start).size.toNat = 4096 * n :=
    h.small.size
  have hpos : decide ((createdMem c task name flags (pageUp size) s.info id start).id = r) = true :=
    decide_eq_true hid
  have hnone : s.segs.find? (fun x => decide (x.id = r)) = none :=
    List.find?_eq_none.mpr fun x hx => by
      rw [decide_eq_true_eq]
      exact hno x hx
  have hfind : s'.findId r = some (createdMem c task name flags (pageUp size) s.info id start) := by
    unfold ShmState.findId
    rw [h.segs, List.find?_append, hnone]
    exact List.find?_cons_of_pos (p := fun shm : SharedMem => decide (shm.id = r)) hpos
  have herase : s'.segs.eraseP (fun x => decide (x.id = r)) = s.segs := by
    rw [h.segs, List.eraseP_append_right]
    · rw [List.eraseP_cons_of_pos (p := fun shm : SharedMem => decide (shm.id = r)) hpos,
        List.append_nil]
    · intro x hx
      rw [decide_eq_true_eq]
      exact hno x hx
  have hr : r.toNat = id := by
    have h1 := h.ids.bound
    have h2 : sharedMemInstance = 16 := rfl
    rw [h.result, BitVec.toNat_ofNat]
    omega
  have hpool : setIds s'.pool false r.toNat (4096 * n / 4096) = s.pool := by
    rw [h.pool, hr, Nat.mul_div_cancel_left n (by decide), setIds_setIds h.ids.free]
  rw [control_destroy hfind, if_pos (by omega)]
  unfold ShmState.destroy
  rw [hsize, herase, hpool]
  rfl

/-! ## Creation and destruction -/

theorem restored_iff (h : NewSegment c task name flags size s s' r id start n)
    (hno : ∀ x ∈ s.segs, x.id ≠ r) :
    Restored s (shmControl task r shmCmdDestroy buffer s') ↔
      destroyInfo (createdMem c task name flags (pageUp size) s.info id start) s'.info = s.info := by
  rw [destroy_created h hno]
  have hlayout : SameLayout s.info s'.info := by
    rw [h.info]
    exact (sameLayout_takePages s.info .phy start n).trans (sameLayout_takePages _ .vir _ n)
  constructor
  · rintro ⟨t, e, b, ht, -, -, hmem, hfree⟩
    cases ht
    exact (hlayout.trans (sameLayout_destroyInfo _ s'.info)).eq_of hmem hfree
  · intro hinfo
    refine ⟨_, _, _, rfl, rfl, rfl, congrArg MemInfo.mem hinfo, fun side => ?_⟩
    exact congrArg (fun i : MemInfo => (i.area side).numPagFree) hinfo

/-- **Creation and destruction** by the creator are neutral exactly for these states and sizes. -/
theorem create_destroy_iff (hnew : s.findName name = none)
    (hcreate : shmCreate c task alloc name size flags s = some (s', r)) (hr : r ≠ swError) :
    Restored s (shmControl task r shmCmdDestroy buffer s') ↔ DestroyUndoes c size s := by
  obtain ⟨id, start, h⟩ := shmCreate_some hnew hcreate hr
  have hid : r.toNat = id := by
    have h1 := h.ids.bound
    have h2 : sharedMemInstance = 16 := rfl
    rw [h.result, BitVec.toNat_ofNat]
    omega
  have hfits : DestroyUndoes c size s ↔ (∀ x ∈ s.segs, x.id ≠ r) ∧
      (reqCnt size = 0 ∨ securePhyToVir c (s.info.addrOf .phy start) = swError ∧
        s.info.outside .phy (s.info.addrOf .phy start) = false ∧ start < 2 ^ 20) := by
    unfold DestroyUndoes
    refine and_congr ⟨fun h1 x hx he => ?_, fun h1 i hi x hx he => ?_⟩
      (or_congr_right ⟨fun h1 => h1 start h.run, fun h1 start' h' => ?_⟩)
    · exact h1 id h.ids x hx (by rw [he, hid])
    · rw [hi.unique h.ids, ← hid] at he
      exact h1 x hx (BitVec.toNat_inj.mp he)
    · rw [firstRun_unique h' h.run]
      exact h1
  rw [hfits]
  by_cases hno : ∀ x ∈ s.segs, x.id ≠ r
  · rw [restored_iff h hno, destroyInfo_iff h, and_iff_right hno]
  · refine iff_of_false ?_ fun h1 => hno h1.1
    obtain ⟨x, hx⟩ := not_forall.mp hno
    obtain ⟨hmem, he⟩ := Classical.not_imp.mp hx
    exact earlier_removed h hnew hmem (not_not.mp he)

end

/-- nothing is left of a segment without pages -/
theorem create_destroy_empty : ∃ t, shmCreate shmBoard 5 true [97] 0 shmFlagCreate noSegments
      = some (t, 1) ∧ Restored noSegments (shmControl 5 1 shmCmdDestroy none t) := by
  have hcreate : shmCreate shmBoard 5 true [97] 0 shmFlagCreate noSegments
      = some ((shmAllocate shmBoard 5 [97] shmFlagCreate 0 1 0 noSegments).1, 1) := by
    have hsmall : SmallSize 0 0 := ⟨rfl, by decide⟩
    have hscan : noSegments.info.scan .phy 0 = some 0 := by decide
    rw [shmCreate_new rfl (by decide)]
    rw [shmAllocate_added hscan (by decide) hsmall (by decide)]
    rfl
  refine ⟨_, hcreate, (create_destroy_iff rfl hcreate (by decide)).mpr ⟨?_, Or.inl rfl⟩⟩
  intro i _ shm hshm
  cases hshm

/-- the reservation of the virtual page is not given back -/
theorem virtual_page_kept : ∃ t, shmCreate shmBoard 5 true [97] 0x1000 shmFlagCreate noSegments
      = some (t, 1) ∧ ¬ Restored noSegments (shmControl 5 1 shmCmdDestroy none t) := by
  have hsmall : SmallSize 0x1000 1 := ⟨rfl, by decide⟩
  have hscan : noSegments.info.scan .phy 0x1000 = some 0 := by decide
  refine ⟨(shmAllocate shmBoard 5 [97] shmFlagCreate 0x1000 1 1 noSegments).1, ?_, ?_⟩
  · rw [shmCreate_new rfl (by decide)]
    rw [shmAllocate_added hscan (by decide) hsmall (by decide)]
    rfl
  · rw [shmAllocate_added hscan (by decide) hsmall (by decide)]
    rintro ⟨t, r, b, ht, -, -, -, hfree⟩
    cases ht
    exact absurd (hfree .vir) (by decide)

end SierraTee
