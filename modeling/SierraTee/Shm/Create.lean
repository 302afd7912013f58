import SierraTee.Pages.Undo
import SierraTee.Pages.Account
import SierraTee.Shm.SharedMemory

/-!
# Creation of shared memory

* `shmgetError_iff`    what the error label has to find, so that it gives back what was taken;
* `create_atomic_iff`  the calls that are all or nothing;
* `no_ids_left`        the error label releases another segment.
-/

namespace SierraTee
open Bitmap FlatMemory

/-- a segment of `n` pages, with the ids from `id` on, the physical pages from `p` on and the virtual
ones from `v` on -/
structure SegmentAdded (s s' : ShmState) (r : Word) (shm : SharedMem) (id n p v : Nat) : Prop where
  segs : s'.segs = s.segs ++ [shm]
  pages : 0 < n
  size : shm.size.toNat = 4096 * n
  result : shm.id = r ∧ r.toNat = id
  ids : 0 < id ∧ id + n ≤ sharedMemInstance ∧ FreeIds s.pool id n
  pool : s'.pool = setIds s.pool true id n
  phyAddr : shm.phyAddr = s.info.addrOf .phy p
  phy : Bitmap.Clear s.info.mem (s.info.area .phy).bmap p n
  virAddr : s.info.outside .vir shm.virAddr = false ∧ s.info.pageOf .vir shm.virAddr = v
  vir : Bitmap.Clear (s.info.takePages .phy p n).mem ((s.info.takePages .phy p n).area .vir).bmap v n
  info : s'.info = (s.info.takePages .phy p n).takePages .vir v n

/-- the result of a call that is all or nothing -/
def CreateAtomic (s : ShmState) (res : Option (ShmState × Word)) : Prop :=
  ∃ s' r, res = some (s', r) ∧ (s' = s ∨ ∃ shm id n p v, SegmentAdded s s' r shm id n p v)

/-- the physical pages from `start` on have been found: the virtual ones can be reserved as well, or
nothing of the range is given back but these -/
def FoundFits (c : PageConfig) (info : MemInfo) (n start : Nat) : Prop :=
  let addr := info.addrOf .phy start
  let virAddr := securePhyToVir c addr
  if addr ≠ 0 ∧ (info.takePages .phy start n).CanReserve .vir virAddr n then 0 < n
  else n = 0 ∨ (virAddr = swError ∨ info.outside .vir virAddr = true) ∧ addr ≠ 0 ∧
    info.outside .phy addr = false ∧ start < 2 ^ 20

/-- a segment with the name exists, none is asked for, or: there are ids, there is memory for the
descriptor, and what is given back if pages are missing is what was taken -/
def CreateFits (c : PageConfig) (alloc : Bool) (name : List (BitVec 8)) (size flags : Word)
    (s : ShmState) : Prop :=
  (s.findName name).isSome ∨ flags &&& shmFlagCreate = 0 ∨
    (∃ r, 0 < r ∧ r + reqCnt size ≤ sharedMemInstance ∧ FreeIds s.pool r (reqCnt size)) ∧
      alloc = true ∧
      ((∀ start, ¬ s.info.FirstRun .phy (reqCnt size) start) →
        reqCnt size = 0 ∨ s.info.outside .vir 0 = true) ∧
      ∀ start, s.info.FirstRun .phy (reqCnt size) start → FoundFits c s.info (reqCnt size) start

section
variable {c : PageConfig} {info : MemInfo} {task size flags va pa r : Word}
  {name : List (BitVec 8)} {alloc : Bool} {s s' : ShmState} {n start id : Nat}

/-! ## The error label -/

theorem shmgetError_none (h : SmallSize size n) :
    shmgetError 0 0 size info = info ↔ n = 0 ∨ info.outside .vir 0 = true := by
  have hsmall := h.small
  have e : shmgetError 0 0 size info = info.orSame (swVirFreeReserve 0 size info) := by
    unfold shmgetError
    rw [if_pos (by decide : (0 : Word) ≠ swError), if_neg (fun h => h rfl)]
  rw [e]
  unfold MemInfo.orSame
  rw [h.virFreeReserve]
  split_ifs with hout
  · exact iff_of_true rfl (Or.inr hout)
  · rw [givePages_eq_iff (by omega)]
    exact ⟨Or.inl, fun h1 => h1.resolve_right hout⟩

theorem phyAddrFree_vir (info : MemInfo) (addr size : Word) :
    ((info.orSame (swPhyAddrFree addr size info)).area .vir).numPagFree
      = (info.area .vir).numPagFree := by
  unfold MemInfo.orSame swPhyAddrFree
  split_ifs
  · rfl
  · exact givePages_free info .phy .vir _ _

theorem shmgetError_iff (h : SmallSize size n)
    (hclear : Bitmap.Clear info.mem (info.area .phy).bmap start n) :
    shmgetError va pa size (info.takePages .phy start n) = info ↔
      n = 0 ∨ (va = swError ∨ info.outside .vir va = true) ∧ pa ≠ 0 ∧
        info.outside .phy pa = false ∧ info.pageOf .phy pa = start := by
  have hsmall := h.small
  unfold shmgetError
  generalize ht : info.takePages .phy start n = t
  have htaken : (t.area .vir).numPagFree = (info.area .vir).numPagFree := by
    rw [← ht]
    exact takePages_free info .phy .vir start n
  have hout (side : PageSide) (addr : Word) : t.outside side addr = info.outside side addr := by
    rw [← ht, outside_takePages]
  have hpage : t.pageOf .phy pa = info.pageOf .phy pa := by
    rw [← ht, pageOf_takePages]
  have hgiven : t.givePages .phy (info.pageOf .phy pa) n = info ↔
      n = 0 ∨ info.pageOf .phy pa = start := by
    rw [← ht]
    obtain rfl | hpos := Nat.eq_zero_or_pos n
    · exact iff_of_true rfl (Or.inl rfl)
    · rw [given_back_iff (by omega) (by omega) hpos hclear]
      exact ⟨fun h1 => Or.inr h1.2, fun h1 => ⟨rfl, h1.resolve_left (by omega)⟩⟩
  have hsame : t = info ↔ n = 0 := by
    rw [← ht]
    constructor
    · intro e
      have h1 := congrArg (fun i : MemInfo => (i.area .phy).numPagFree) e
      rw [takePages_free, if_pos rfl] at h1
      refine (ofNat_eq_zero_iff (by omega)).mp ?_
      generalize (info.area .phy).numPagFree = x at h1
      generalize BitVec.ofNat 32 n = y at h1
      bv_omega
    · rintro rfl
      rfl
  by_cases hva : va = swError ∨ info.outside .vir va = true
  · have e : (if va ≠ swError then t.orSame (swVirFreeReserve va size t) else t) = t := by
      split_ifs with hne
      · unfold MemInfo.orSame
        rw [h.virFreeReserve, hout, if_pos (hva.resolve_left hne)]
      · rfl
    rw [e]
    by_cases hpa : pa = 0
    · rw [if_neg fun h1 => h1 hpa, hsame]
      exact ⟨Or.inl, fun h1 => h1.resolve_right fun h2 => h2.2.1 hpa⟩
    · rw [if_pos hpa]
      unfold MemInfo.orSame
      rw [h.phyAddrFree, hout, hpage]
      split_ifs with hphy
      · rw [hsame]
        refine ⟨Or.inl, fun h1 => h1.resolve_right fun h2 => ?_⟩
        exact Bool.false_ne_true (h2.2.2.1.symm.trans hphy)
      · rw [hgiven]
        refine or_congr_right ⟨fun h1 => ⟨hva, hpa, Bool.eq_false_iff.mpr hphy, h1⟩, fun h1 => h1.2.2.2⟩
  · obtain ⟨hne, hin⟩ := not_or.mp hva
    have e : (if va ≠ swError then t.orSame (swVirFreeReserve va size t) else t)
        = t.givePages .vir (t.pageOf .vir va) n := by
      rw [if_pos hne]
      unfold MemInfo.orSame
      rw [h.virFreeReserve, hout, if_neg hin]
    rw [e]
    constructor
    · intro h1
      have h2 : ((t.givePages .vir (t.pageOf .vir va) n).area .vir).numPagFree
          = (info.area .vir).numPagFree := by
        rw [← congrArg (fun i : MemInfo => (i.area .vir).numPagFree) h1]
        split_ifs
        · exact (phyAddrFree_vir _ pa size).symm
        · rfl
      rw [givePages_free, if_pos rfl, htaken] at h2
      refine Or.inl ((ofNat_eq_zero_iff (by omega)).mp ?_)
      generalize (info.area .vir).numPagFree = x at h2
      generalize BitVec.ofNat 32 n = y at h2
      bv_omega
    · intro h1
      obtain rfl := h1.resolve_right fun h2 => hva h2.1
      have h3 : t = info := hsame.mpr rfl
      rw [show t.givePages .vir (t.pageOf .vir va) 0 = t from rfl, h3]
      split_ifs
      · unfold MemInfo.orSame
        rw [h.phyAddrFree]
        split_ifs <;> rfl
      · rfl

/-! ## The part behind the search for ids -/

theorem failed_atomic_iff (s : ShmState) (info : MemInfo) :
    CreateAtomic s (some ({ s with info := info }, swError)) ↔ info = s.info := by
  constructor
  · rintro ⟨s', r, he, hsame | ⟨shm, id, n, p, v, hadd⟩⟩
    · cases he
      exact congrArg ShmState.info hsame
    · cases he
      have h1 := congrArg List.length hadd.segs
      rw [List.length_append] at h1
      exact absurd h1.symm (Nat.succ_ne_self _)
  · rintro rfl
    exact ⟨s, swError, rfl, Or.inl rfl⟩

theorem shmAllocate_none (h : s.info.scan .phy size = none) :
    shmAllocate c task name flags size id n s
      = ({ s with info := shmgetError 0 0 size s.info }, swError) := by
  unfold shmAllocate
  rw [phyPageAlloc_none h]
  rfl

theorem shmAllocate_zero (h : s.info.scan .phy size = some start)
    (h0 : s.info.addrOf .phy start = 0) :
    shmAllocate c task name flags size id n s
      = ({ s with info := shmgetError 0 0 size (s.info.takePages .phy start (reqCnt size)) },
        swError) := by
  unfold shmAllocate
  rw [phyPageAlloc_some h]
  exact if_pos h0

theorem shmAllocate_refused (h : s.info.scan .phy size = some start)
    (h0 : s.info.addrOf .phy start ≠ 0) (hsmall : SmallSize size n)
    (hno : ¬ (s.info.takePages .phy start n).CanReserve .vir
      (securePhyToVir c (s.info.addrOf .phy start)) n) :
    shmAllocate c task name flags size id n s
      = ({ s with
          info := shmgetError (securePhyToVir c (s.info.addrOf .phy start))
            (s.info.addrOf .phy start) size (s.info.takePages .phy start n) }, swError) := by
  have h1 := hsmall.addrReserve_refused hno
  unfold shmAllocate
  rw [phyPageAlloc_some h, hsmall.reqCnt]
  simp only [if_neg h0]
  unfold swVirAddrReserve
  rw [h1]

theorem shmAllocate_added (h : s.info.scan .phy size = some start)
    (h0 : s.info.addrOf .phy start ≠ 0) (hsmall : SmallSize size n)
    (hok : (s.info.takePages .phy start n).CanReserve .vir
      (securePhyToVir c (s.info.addrOf .phy start)) n) :
    shmAllocate c task name flags size id n s =
      ({ segs := s.segs ++ [{ newSharedMem task name flags id with
           phyAddr := s.info.addrOf .phy start
           virAddr := securePhyToVir c (s.info.addrOf .phy start)
           size := size }]
         pool := setIds s.pool true id n
         info := (s.info.takePages .phy start n).takePages .vir
           (s.info.pageOf .vir (securePhyToVir c (s.info.addrOf .phy start))) n },
       BitVec.ofNat 32 id) := by
  have h1 := hsmall.addrReserve hok
  unfold shmAllocate
  rw [phyPageAlloc_some h, hsmall.reqCnt]
  simp only [if_neg h0]
  unfold swVirAddrReserve
  rw [h1, pageOf_takePages]
  rfl

theorem added_atomic_iff (h0 : s.info.addrOf .phy start ≠ 0) (hsmall : SmallSize size n)
    (hids : 0 < id ∧ id + n ≤ sharedMemInstance ∧ FreeIds s.pool id n)
    (h : s.info.FirstRun .phy n start)
    (hok : (s.info.takePages .phy start n).CanReserve .vir
      (securePhyToVir c (s.info.addrOf .phy start)) n) :
    CreateAtomic s (some (shmAllocate c task name flags size id n s)) ↔ 0 < n := by
  have hscan : s.info.scan .phy size = some start := by
    rw [scan_eq_some_iff, hsmall.reqCnt]
    exact h
  rw [shmAllocate_added hscan h0 hsmall hok]
  constructor
  · rintro ⟨s', r, he, rfl | ⟨shm, id', n', p, v, hadd⟩⟩
    · have h1 := congrArg (fun x => x.1.segs.length) (Option.some.inj he)
      exact absurd (List.length_append.symm.trans h1) (Nat.succ_ne_self _)
    · cases he
      have h1 : [_] = [shm] := List.append_cancel_left hadd.segs
      have h2 := hadd.size
      have h3 := hadd.pages
      have h4 := hsmall.size
      cases h1
      have h5 : 4096 * n = 4096 * n' := h4.symm.trans h2
      omega
  · intro hpos
    have hid : (BitVec.ofNat 32 id).toNat = id := by
      have h1 := hids.2.1
      have h2 : sharedMemInstance = 16 := rfl
      rw [BitVec.toNat_ofNat]
      omega
    have hout := hok.1
    rw [outside_takePages] at hout
    have hvir := hok.2
    rw [pageOf_takePages] at hvir
    exact ⟨_, _, rfl, Or.inr ⟨_, id, n, start, _,
      { segs := rfl
        pages := hpos
        size := hsmall.size
        result := ⟨rfl, hid⟩
        ids := hids
        pool := rfl
        phyAddr := rfl
        phy := h.clear
        virAddr := ⟨hout, rfl⟩
        vir := hvir
        info := rfl }⟩⟩

theorem found_atomic_iff (hsmall : SmallSize size n)
    (hids : 0 < id ∧ id + n ≤ sharedMemInstance ∧ FreeIds s.pool id n)
    (h : s.info.FirstRun .phy n start) :
    CreateAtomic s (some (shmAllocate c task name flags size id n s))
      ↔ FoundFits c s.info n start := by
  have hscan : s.info.scan .phy size = some start := by
    rw [scan_eq_some_iff, hsmall.reqCnt]
    exact h
  unfold FoundFits
  by_cases h0 : s.info.addrOf .phy start = 0
  · rw [shmAllocate_zero hscan h0, failed_atomic_iff, hsmall.reqCnt, shmgetError_iff hsmall h.clear]
    simp only [h0, ne_eq, not_true_eq_false, false_and, if_false, and_false]
  · by_cases hok : (s.info.takePages .phy start n).CanReserve .vir
        (securePhyToVir c (s.info.addrOf .phy start)) n
    · rw [added_atomic_iff h0 hsmall hids h hok]
      simp only [if_pos (And.intro h0 hok)]
    · rw [shmAllocate_refused hscan h0 hsmall hok, failed_atomic_iff,
        shmgetError_iff hsmall h.clear, pageOf_addrOf, Nat.mod_eq_iff_lt (by decide)]
      simp only [if_neg fun h1 : _ ∧ _ => hok h1.2]

theorem allocate_atomic_iff (hsmall : SmallSize size n)
    (hids : 0 < id ∧ id + n ≤ sharedMemInstance ∧ FreeIds s.pool id n) :
    CreateAtomic s (some (shmAllocate c task name flags size id n s)) ↔
      ((∀ start, ¬ s.info.FirstRun .phy n start) → n = 0 ∨ s.info.outside .vir 0 = true) ∧
        ∀ start, s.info.FirstRun .phy n start → FoundFits c s.info n start := by
  cases hscan : s.info.scan .phy size with
  | none =>
    have hno : ∀ start, ¬ s.info.FirstRun .phy n start := by
      intro start h
      rw [← hsmall.reqCnt, ← scan_eq_some_iff, hscan] at h
      cases h
    rw [shmAllocate_none hscan, failed_atomic_iff, shmgetError_none hsmall]
    exact ⟨fun h => ⟨fun _ => h, fun start h1 => absurd h1 (hno start)⟩, fun h => h.1 hno⟩
  | some start =>
    have hrun : s.info.FirstRun .phy n start := by
      rw [scan_eq_some_iff, hsmall.reqCnt] at hscan
      exact hscan
    rw [found_atomic_iff hsmall hids hrun]
    constructor
    · intro h
      refine ⟨fun hno => absurd hrun (hno start), fun start' h' => ?_⟩
      rw [← hsmall.reqCnt, ← scan_eq_some_iff, hscan] at h'
      cases h'
      exact h
    · intro h
      exact h.2 start hrun

/-! ## The call -/

theorem shmCreate_found (h : (s.findName name).isSome) :
    CreateAtomic s (shmCreate c task alloc name size flags s) := by
  obtain ⟨shm, hshm⟩ := Option.isSome_iff_exists.mp h
  unfold shmCreate
  rw [hshm]
  exact ⟨s, shm.id, rfl, Or.inl rfl⟩

theorem shmCreate_noCreate (h : s.findName name = none) (hflags : flags &&& shmFlagCreate = 0) :
    CreateAtomic s (shmCreate c task alloc name size flags s) := by
  unfold shmCreate
  rw [h]
  exact ⟨s, swError, if_pos hflags, Or.inl rfl⟩

theorem shmCreate_new (h : s.findName name = none) (hflags : flags &&& shmFlagCreate ≠ 0) :
    shmCreate c task alloc name size flags s =
      if reqCnt size ≠ (idSearch s.pool (pageUp size)).2 then
        s.segs.getLast?.map fun shm =>
          ({ s with
             segs := s.segs.dropLast ++ [{ shm with frees := shm.frees + 1 }]
             info := shmgetError shm.virAddr shm.phyAddr (pageUp size) s.info }, swError)
      else if alloc then some (shmAllocate c task name flags (pageUp size)
        ((idSearch s.pool (pageUp size)).1 - (idSearch s.pool (pageUp size)).2)
        (idSearch s.pool (pageUp size)).2 s)
      else none := by
  unfold shmCreate
  rw [h, reqCnt_eq]
  exact if_neg hflags

theorem lastFreed_not_atomic (i : SharedMem → MemInfo) (r : Word) :
    ¬ CreateAtomic s (s.segs.getLast?.map fun shm =>
      ({ s with segs := s.segs.dropLast ++ [{ shm with frees := shm.frees + 1 }], info := i shm },
        r)) := by
  rintro ⟨s', r', he, h⟩
  obtain ⟨shm, hlast, e⟩ := Option.map_eq_some_iff.mp he
  have hsegs : s.segs = s.segs.dropLast ++ [shm] := (List.dropLast_append_getLast? shm hlast).symm
  cases e
  obtain hsame | ⟨shm', id, n, p, v, hadd⟩ := h
  · have h1 : s.segs.dropLast ++ [{ shm with frees := shm.frees + 1 }]
        = s.segs.dropLast ++ [shm] := (congrArg ShmState.segs hsame).trans hsegs
    have h2 := congrArg SharedMem.frees (List.head_eq_of_cons_eq (List.append_cancel_left h1))
    exact Nat.succ_ne_self _ h2
  · have h1 := congrArg List.length hadd.segs
    have h2 := congrArg List.length hsegs
    simp only [List.length_append, List.length_singleton] at h1 h2
    omega

/-- **Creation of shared memory is atomic** exactly for these states and arguments. -/
theorem create_atomic_iff (c : PageConfig) (task : Word) (alloc : Bool) (name : List (BitVec 8))
    (size flags : Word) (s : ShmState) :
    CreateAtomic s (shmCreate c task alloc name size flags s) ↔
      CreateFits c alloc name size flags s := by
  unfold CreateFits
  cases hname : s.findName name with
  | some shm =>
    have h1 : (s.findName name).isSome := by rw [hname]; rfl
    exact iff_of_true (shmCreate_found h1) (Or.inl rfl)
  | none =>
    by_cases hflags : flags &&& shmFlagCreate = 0
    · exact iff_of_true (shmCreate_noCreate hname hflags) (Or.inr (Or.inl hflags))
    · have hsize : (pageUp size).toNat = 4096 * reqCnt size := by
        have h1 := pageUp_aligned size
        rw [reqCnt_eq]
        omega
      rw [shmCreate_new hname hflags, ← idSearch_iff hsize]
      obtain ⟨hfree, hlt, hle⟩ := idSearch_spec s.pool (pageUp size)
      have hnone : ¬ (none : Option SharedMem).isSome = true := fun h => by cases h
      rw [or_iff_right hnone, or_iff_right hflags]
      by_cases hids : (idSearch s.pool (pageUp size)).2 = reqCnt size
      · rw [if_neg (not_not.mpr hids.symm), and_iff_right hids]
        cases alloc with
        | false =>
          refine iff_of_false ?_ fun h => Bool.false_ne_true h.1
          rintro ⟨s', r, he, -⟩
          cases he
        | true =>
          rw [if_pos rfl, and_iff_right rfl]
          rw [hids] at hfree hlt ⊢
          have h16 : sharedMemInstance = 16 := rfl
          have hsmall : SmallSize (pageUp size) (reqCnt size) := ⟨hsize, by omega⟩
          exact allocate_atomic_iff hsmall ⟨by omega, by omega, hfree⟩
      · rw [if_pos fun h => hids h.symm]
        exact iff_of_false (lastFreed_not_atomic _ _) fun h => hids h.1

end

/-! ## A state without free ids -/

/-- physical and virtual memory of 64 pages each -/
def shmBoard : PageConfig where
  pgd := 0
  offset := 0x70000000
  isStatic := fun _ => false
  multicore := false

def noSegments : ShmState where
  segs := []
  pool := fun _ => false
  info := {
    mem := fun _ => 0
    area := fun side => match side with
      | .phy => ⟨0, 8, 0x10000000, 0x40000, 64⟩
      | .vir => ⟨2, 8, 0x80000000, 0x40000, 64⟩ }

/-- the segment has all the ids; the task 6 asks for another one, and the first segment is released -/
theorem no_ids_left : ∃ s, shmCreate shmBoard 5 true [97] 0xF000 shmFlagCreate noSegments = some (s, 1) ∧
    ¬ CreateAtomic s (shmCreate shmBoard 6 true [98] 0x1000 shmFlagCreate s) := by
  have hsmall : SmallSize 0xF000 15 := ⟨rfl, by decide⟩
  have hscan : noSegments.info.scan .phy 0xF000 = some 0 := by decide
  refine ⟨(shmAllocate shmBoard 5 [97] shmFlagCreate 0xF000 1 15 noSegments).1, ?_, ?_⟩
  · rw [shmCreate_new rfl (by decide)]
    rw [shmAllocate_added hscan (by decide) hsmall (by decide)]
    rfl
  · rw [shmAllocate_added hscan (by decide) hsmall (by decide)]
    rw [shmCreate_new (by decide) (by decide), if_pos (by decide)]
    exact lastFreed_not_atomic _ _

end SierraTee
