import SierraTee.Names.Objects

/-!
# Names identify objects (`sw_semaphores.c`, `sw_shared_memory.c`, `sw_syscall_imp.c`)

* `segment_spec`  when what `_shm_create` returns is right;
* `names_identify_iff`, `prefix_found`.
-/

set_option linter.unusedSectionVars false

namespace SierraTee
namespace Names
open FlatMemory Registry Runs

def segPair (g : SharedMem) : Chars × Word := (g.name, g.id)

def segPairs (s : ShmState) : List (Chars × Word) := s.segs.map segPair

/-- there is all that a new segment needs; `id` is the first run of free ids -/
def Creates (c : PageConfig) (alloc : Bool) (size flags : Word) (s : ShmState) (id : Nat) : Prop :=
  flags &&& shmFlagCreate ≠ 0 ∧ alloc = true ∧ FirstIds s.pool (reqCnt size) id ∧
    ∃ start, s.info.FirstRun .phy (reqCnt size) start ∧ s.info.addrOf .phy start ≠ 0 ∧
      (s.info.takePages .phy start (reqCnt size)).CanReserve .vir
        (securePhyToVir c (s.info.addrOf .phy start)) (reqCnt size)

/-- no other segment is taken for the name; and if none is, a segment that is created gets an id that
no other one has -/
def SegmentFits (c : PageConfig) (alloc : Bool) (name : Chars) (size flags : Word) (s : ShmState) :
    Prop :=
  Unshadowed Taken (segPairs s) name ∧ ((∀ p ∈ segPairs s, ¬ Taken p.1 name) →
    ∀ id, Creates c alloc size flags s id → ∀ p ∈ segPairs s, p.2 ≠ BitVec.ofNat 32 id)

section
variable {c : PageConfig} {task size flags r : Word} {alloc : Bool} {s s' : ShmState} {id : Nat}
  {name : ObjectName} {h : List (Chars × Word)}

theorem findName_pairs (hs : ∀ p ∈ segPairs s, 0 ∉ p.1) (name : ObjectName) :
    ((segPairs s).find? fun p => Taken p.1 name.chars) = (s.findName name.chars).map segPair :=
  find_map fun g hg => taken_iff (hs (segPair g) (List.mem_map_of_mem hg)) name.noEnd name.short

theorem small_id (h : FirstIds s.pool (reqCnt size) id) : BitVec.ofNat 32 id ≠ swError := by
  have h1 := h.bound
  have h16 : sharedMemInstance = 16 := rfl
  intro e
  have he := congrArg BitVec.toNat e
  rw [BitVec.toNat_ofNat, Nat.mod_eq_of_lt (by omega)] at he
  have hmax : swError.toNat = 4294967295 := rfl
  omega

theorem creates_run (task : Word) (hnew : s.findName name.chars = none) (hc : Creates c alloc size flags s id) :
    ∃ t, shmCreate c task alloc name.chars size flags s = some (t, BitVec.ofNat 32 id) := by
  obtain ⟨hflags, halloc, hids, start, hrun, haddr, hok⟩ := hc
  have hsize : (pageUp size).toNat = 4096 * reqCnt size := by
    have h1 := pageUp_aligned size
    rw [reqCnt_eq]
    omega
  have hcount : (idSearch s.pool (pageUp size)).2 = reqCnt size :=
    (idSearch_iff hsize).mpr ⟨id, hids.pos, hids.bound, hids.free⟩
  have hid : (idSearch s.pool (pageUp size)).1 - reqCnt size = id :=
    (idSearch_first hsize hcount).unique hids
  have hsmall : SmallSize (pageUp size) (reqCnt size) := by
    have h1 := hids.bound
    have h2 := hids.pos
    have h16 : sharedMemInstance = 16 := rfl
    exact ⟨hsize, by omega⟩
  have hscan : s.info.scan .phy (pageUp size) = some start := by
    rw [scan_eq_some_iff, reqCnt_pageUp]
    exact hrun
  rw [shmCreate_new hnew hflags, hcount, hid, if_neg (not_ne_iff.mpr rfl), if_pos halloc,
    shmAllocate_added hscan haddr hsmall hok]
  exact ⟨_, rfl⟩

theorem created_asked (hnew : s.findName name.chars = none)
    (hs : shmCreate c task alloc name.chars size flags s = some (s', r)) (hr : r ≠ swError) :
    flags &&& shmFlagCreate ≠ 0 ∧ alloc = true := by
  have hflags : flags &&& shmFlagCreate ≠ 0 := by
    intro h0
    unfold shmCreate at hs
    rw [hnew] at hs
    have h1 : some (s, swError) = some (s', r) := (if_pos h0).symm.trans hs
    cases h1
    exact hr rfl
  rw [shmCreate_new hnew hflags] at hs
  split_ifs at hs with hids halloc
  · obtain ⟨g, -, e⟩ := Option.map_eq_some_iff.mp hs
    cases e
    exact absurd rfl hr
  · exact ⟨hflags, halloc⟩

theorem shmAllocate_segs {n : Nat} {x : Chars} (hid : BitVec.ofNat 32 id ≠ swError)
    (h : (shmAllocate c task x flags size id n s).2 = swError) :
    (shmAllocate c task x flags size id n s).1.segs = s.segs := by
  unfold shmAllocate at h ⊢
  simp only at h ⊢
  split_ifs at h ⊢ with h0
  · rfl
  · cases hv : swVirAddrReserve (securePhyToVir c (swPhyPageAlloc size s.info).2) size
      (swPhyPageAlloc size s.info).1 with
    | error e => rfl
    | ok info =>
      rw [hv] at h
      exact absurd h hid

theorem segPairs_failed (hnew : s.findName name.chars = none)
    (hs : shmCreate c task alloc name.chars size flags s = some (s', swError)) :
    segPairs s' = segPairs s := by
  by_cases hflags : flags &&& shmFlagCreate = 0
  · unfold shmCreate at hs
    rw [hnew] at hs
    have h1 : some (s, swError) = some (s', swError) := (if_pos hflags).symm.trans hs
    cases h1
    rfl
  · rw [shmCreate_new hnew hflags] at hs
    split_ifs at hs with hids
    · obtain ⟨g, hg, e⟩ := Option.map_eq_some_iff.mp hs
      cases e
      have hlast : s.segs.dropLast ++ [g] = s.segs :=
        List.dropLast_append_getLast? g (Option.mem_def.mpr hg)
      have hmap := congrArg (List.map segPair) hlast
      rw [List.map_append] at hmap
      unfold segPairs
      rw [List.map_append]
      exact hmap
    · have hsize : (pageUp size).toNat = 4096 * reqCnt size := by
        have h1 := pageUp_aligned size
        rw [reqCnt_eq]
        omega
      have hids' := not_ne_iff.mp hids
      have hfirst := small_id (idSearch_first hsize hids'.symm)
      rw [← hids'] at hs
      have hs' := Option.some.inj hs
      have hsegs := shmAllocate_segs hfirst (congrArg Prod.snd hs')
      rw [hs'] at hsegs
      exact congrArg (List.map segPair) hsegs

def shmResult (r : Word) : Option Word := if r = swError then none else some r

structure SegmentBook (s : ShmState) (h : List (Chars × Word)) : Prop where
  book : Book (segPairs s) h
  ids : ∀ p ∈ segPairs s, p.2 ≠ swError

theorem segment_spec (hb : SegmentBook s h)
    (hs : shmCreate c task alloc name.chars size flags s = some (s', r)) :
    (Identified (returned name (shmResult r) h) ↔ SegmentFits c alloc name.chars size flags s) ∧
      (SegmentFits c alloc name.chars size flags s →
        SegmentBook s' (returned name (shmResult r) h)) := by
  have hfind := findName_pairs hb.book.noEnd name
  have hreg := hb.book.registered
  cases hg : s.findName name.chars with
  | some g =>
    have hrun : shmCreate c task alloc name.chars size flags s = some (s, g.id) := by
      unfold shmCreate
      rw [hg]
    cases hrun.symm.trans hs
    have hmem : segPair g ∈ segPairs s := List.mem_map_of_mem (List.mem_of_find?_eq_some hg)
    have hid : g.id ≠ swError := hb.ids _ hmem
    have hres : returned name (shmResult g.id) h = (name.chars, g.id) :: h := by
      unfold shmResult
      rw [if_neg hid]
      rfl
    rw [hg] at hfind
    have htaken : Taken g.name name.chars := by
      have hdec := List.find?_some hfind
      exact of_decide_eq_true hdec
    have hiff : SegmentFits c alloc name.chars size flags s ↔ g.name = name.chars := by
      constructor
      · intro hf
        exact (unshadowed_iff fun p _ e => e ▸ taken_self p.1).mp hf.1 _ hfind
      · intro hn
        refine ⟨(unshadowed_iff fun p _ e => e ▸ taken_self p.1).mpr fun p hp => ?_, fun hno => ?_⟩
        · cases hfind.symm.trans hp
          exact hn
        · exact absurd htaken (hno _ hmem)
    rw [hres, hiff]
    exact ⟨hreg.found_iff hmem, fun hn => ⟨⟨hreg.found hmem hn, hb.book.noEnd⟩, hb.ids⟩⟩
  | none =>
    rw [hg] at hfind
    have hshadow := unshadowed_of_none hfind
    have hno : ∀ p ∈ segPairs s, ¬ Taken p.1 name.chars := by
      intro p hp ht
      exact List.find?_eq_none.mp hfind p hp (decide_eq_true ht)
    have hx : ∀ p ∈ segPairs s, p.1 ≠ name.chars := fun p hp e => hno p hp (e ▸ taken_self p.1)
    by_cases hr : r = swError
    · subst hr
      have hres : returned name (shmResult swError) h = h := rfl
      have hsame := segPairs_failed hg hs
      rw [hres]
      refine ⟨iff_of_true hreg.returned ⟨hshadow, fun _ id hc => ?_⟩, fun _ => ⟨⟨?_, ?_⟩, ?_⟩⟩
      · obtain ⟨t, ht⟩ := creates_run task hg hc
        have he : swError = BitVec.ofNat 32 id :=
          congrArg Prod.snd (Option.some.inj (hs.symm.trans ht))
        exact absurd he.symm (small_id hc.2.2.1)
      · rw [hsame]
        exact hreg
      · rw [hsame]
        exact hb.book.noEnd
      · rw [hsame]
        exact hb.ids
    · obtain ⟨id, start, hseg⟩ := shmCreate_some hg hs hr
      have hid : r = BitVec.ofNat 32 id := hseg.result
      have hres : returned name (shmResult r) h = (name.chars, r) :: h := by
        unfold shmResult
        rw [if_neg hr]
        rfl
      have hpairs : segPairs s' = segPairs s ++ [(name.chars, r)] := by
        unfold segPairs
        rw [hseg.segs, List.map_append, hid]
        have hname := swStrncpy_eq name.noEnd name.short
        exact congrArg (fun x => _ ++ [(x, BitVec.ofNat 32 id)]) hname
      have hiff : SegmentFits c alloc name.chars size flags s ↔ ∀ p ∈ segPairs s, p.2 ≠ r := by
        constructor
        · intro hf
          rw [hid]
          obtain ⟨hflags, halloc⟩ := created_asked hg hs hr
          exact hf.2 hno id ⟨hflags, halloc, hseg.ids, start, hseg.run, hseg.addr, hseg.reserve⟩
        · intro ho
          refine ⟨hshadow, fun _ id' hc => ?_⟩
          rw [hc.2.2.1.unique hseg.ids, ← hid]
          exact ho
      rw [hres, hiff]
      refine ⟨hreg.new_iff hx, fun ho => ?_⟩
      have hnew := hreg.new hx ho
      rw [← hpairs] at hnew
      refine ⟨⟨hnew, fun p hp => ?_⟩, fun p hp => ?_⟩
      all_goals rw [hpairs] at hp
      · rcases List.mem_append.mp hp with hp | hp
        · exact hb.book.noEnd p hp
        · rw [List.mem_singleton.mp hp]
          exact name.noEnd
      · rcases List.mem_append.mp hp with hp | hp
        · exact hb.ids p hp
        · rw [List.mem_singleton.mp hp]
          exact hr

end

/-! ## All objects with names -/

def devicePair (d : SwFileOperations) : Chars × SwFileOperations := (d.swDevName.chars, d)

section
variable {A : Type} [DecidableEq A] (c : PageConfig) (s : NameState A)

def NameCall.Intact : NameCall A → Prop
  | .shmCreate _ _ _ _ _ => ∀ shm ∈ s.shm.segs, shm.frees = 0
  | _ => True

/-- what has to be so of a call, and after it -/
def NamesKept (k : NameCall A) : Prop :=
  k.Intact s ∧ ∀ s', nameStep c s k = some s' →
    (Identified s'.mutexCalls ∧ Identified s'.semaphoreCalls ∧ Identified s'.shmCalls) ∧
      ∀ name, k = .findDevice name → ∀ d, findDevice s.devices name.chars = some d →
        d.swDevName.chars = name.chars

/-- no object in front of the one with the name is taken for it, and no segment has been freed -/
def NameFits : NameCall A → Prop
  | .mutexInit name _ => Unshadowed Taken (s.mutexes.map Entry.pair) name.chars
  | .semaphoreInit name _ _ => Unshadowed Taken (s.semaphores.map Entry.pair) name.chars
  | .shmCreate _ alloc name size flags =>
    (∀ shm ∈ s.shm.segs, shm.frees = 0) ∧ SegmentFits c alloc name.chars size flags s.shm
  | .findDevice name => Unshadowed DeviceTaken (s.devices.map devicePair) name.chars

structure Books : Prop where
  mutexes : Book (s.mutexes.map Entry.pair) s.mutexCalls
  semaphores : Book (s.semaphores.map Entry.pair) s.semaphoreCalls
  segments : SegmentBook s.shm s.shmCalls

variable {c s} {s' : NameState A}

theorem Books.identified (h : Books s) :
    Identified s.mutexCalls ∧ Identified s.semaphoreCalls ∧ Identified s.shmCalls :=
  ⟨h.mutexes.registered.returned, h.semaphores.registered.returned,
    h.segments.book.registered.returned⟩

theorem namesKept_iff {k : NameCall A} (hk : ∀ name, k ≠ .findDevice name) :
    NamesKept c s k ↔ k.Intact s ∧ ∀ s', nameStep c s k = some s' →
      Identified s'.mutexCalls ∧ Identified s'.semaphoreCalls ∧ Identified s'.shmCalls :=
  and_congr_right fun _ => ⟨fun h s' hs => (h s' hs).1,
    fun h s' hs => ⟨h s' hs, fun name e => absurd e (hk name)⟩⟩

theorem findDevice_iff (devices : List SwFileOperations) (name : ObjectName) :
    (∀ d, findDevice devices name.chars = some d → d.swDevName.chars = name.chars) ↔
      Unshadowed DeviceTaken (devices.map devicePair) name.chars := by
  have hfind : ((devices.map devicePair).find? fun p => DeviceTaken p.1 name.chars)
      = (findDevice devices name.chars).map devicePair :=
    find_map fun d _ => deviceTaken_iff d.swDevName.noEnd d.swDevName.fits name.noEnd
  have hself : ∀ p ∈ devices.map devicePair, p.1 = name.chars → DeviceTaken p.1 name.chars := by
    intro p hp e
    obtain ⟨d, -, rfl⟩ := List.mem_map.mp hp
    refine Or.inr (Or.inr ?_)
    rw [← e]
    exact (List.take_of_length_le d.swDevName.fits).symm
  rw [unshadowed_iff hself, hfind]
  constructor
  · intro h p hp
    obtain ⟨d, hd, rfl⟩ := Option.map_eq_some_iff.mp hp
    exact h d hd
  · intro h d hd
    exact h (devicePair d) (by rw [hd]; rfl)

theorem namedInit_none {X : Type} {l : List (Entry A X)} {h : List (Chars × A)} {x : X}
    {name : ObjectName} {malloc : Option A} (hb : Book (l.map Entry.pair) h)
    (hi : namedInit l x name.chars malloc = none) :
    Unshadowed Taken (l.map Entry.pair) name.chars := by
  refine unshadowed_of_none ?_
  rw [namedInit_find hb.noEnd name]
  unfold namedInit at hi
  cases he : l.find? fun e => swStrncmp e.name name.chars 0 (swStrnlen name.chars maxNameLen) with
  | none => rfl
  | some e =>
    rw [he] at hi
    cases hi

theorem shmCreate_none {task size flags : Word} {alloc : Bool} {name : ObjectName}
    (hb : SegmentBook s.shm s.shmCalls)
    (hs : shmCreate c task alloc name.chars size flags s.shm = none) :
    SegmentFits c alloc name.chars size flags s.shm := by
  have hnew : s.shm.findName name.chars = none := by
    cases hg : s.shm.findName name.chars with
    | none => rfl
    | some g =>
      unfold shmCreate at hs
      rw [hg] at hs
      cases hs
  refine ⟨unshadowed_of_none ?_, fun _ id hc => ?_⟩
  · rw [findName_pairs hb.book.noEnd name, hnew]
    rfl
  · obtain ⟨t, ht⟩ := creates_run task hnew hc
    cases hs.symm.trans ht

theorem forall_step_iff {k : NameCall A} (hs : nameStep c s k = some s') {p : NameState A → Prop} :
    (∀ t, nameStep c s k = some t → p t) ↔ p s' := by
  rw [hs]
  exact ⟨fun h => h s' rfl, fun h t e => Option.some.inj e ▸ h⟩

theorem forall_step_none {k : NameCall A} (hs : nameStep c s k = none) {p : NameState A → Prop} :
    ∀ t, nameStep c s k = some t → p t := by
  intro t e
  cases hs.symm.trans e

theorem step_namesKept (hb : Books s) (k : NameCall A) :
    (NamesKept c s k ↔ NameFits c s k) ∧
      (NameFits c s k → ∀ s', nameStep c s k = some s' → Books s') := by
  obtain ⟨h1, h2, h3⟩ := hb.identified
  cases k with
  | mutexInit name malloc =>
    have hin : (NameCall.mutexInit name malloc).Intact s := trivial
    rw [namesKept_iff (fun name e => by cases e), and_iff_right hin]
    cases hi : mutexInit s.mutexes name.chars malloc with
    | none =>
      have hs : nameStep c s (.mutexInit name malloc) = none := congrArg (Option.map _) hi
      exact ⟨iff_of_true (forall_step_none hs) (namedInit_none hb.mutexes hi),
        fun _ => forall_step_none hs⟩
    | some q =>
      have hs : nameStep c s (.mutexInit name malloc) = some { s with
          mutexes := q.1
          mutexCalls := returned name q.2 s.mutexCalls } := congrArg (Option.map _) hi
      obtain ⟨hiff, hbook⟩ := namedInit_spec hb.mutexes hi
      rw [forall_step_iff hs]
      refine ⟨Iff.trans ⟨fun h => h.1, fun h => ⟨h, h2, h3⟩⟩ hiff, fun hf => ?_⟩
      rw [forall_step_iff hs]
      exact ⟨hbook hf, hb.semaphores, hb.segments⟩
  | semaphoreInit name value malloc =>
    have hin : (NameCall.semaphoreInit name value malloc).Intact s := trivial
    rw [namesKept_iff (fun name e => by cases e), and_iff_right hin]
    cases hi : semaphoreInit s.semaphores name.chars value malloc with
    | none =>
      have hs : nameStep c s (.semaphoreInit name value malloc) = none :=
        congrArg (Option.map _) hi
      exact ⟨iff_of_true (forall_step_none hs) (namedInit_none hb.semaphores hi),
        fun _ => forall_step_none hs⟩
    | some q =>
      have hs : nameStep c s (.semaphoreInit name value malloc) = some { s with
          semaphores := q.1
          semaphoreCalls := returned name q.2 s.semaphoreCalls } := congrArg (Option.map _) hi
      obtain ⟨hiff, hbook⟩ := namedInit_spec hb.semaphores hi
      rw [forall_step_iff hs]
      refine ⟨Iff.trans ⟨fun h => h.2.1, fun h => ⟨h1, h, h3⟩⟩ hiff, fun hf => ?_⟩
      rw [forall_step_iff hs]
      exact ⟨hb.mutexes, hbook hf, hb.segments⟩
  | shmCreate task alloc name size flags =>
    rw [namesKept_iff fun name e => by cases e]
    cases hi : shmCreate c task alloc name.chars size flags s.shm with
    | none =>
      have hs : nameStep c s (.shmCreate task alloc name size flags) = none :=
        congrArg (Option.map _) hi
      exact ⟨and_congr_right fun _ => iff_of_true (forall_step_none hs)
        (shmCreate_none hb.segments hi), fun _ => forall_step_none hs⟩
    | some q =>
      have hs : nameStep c s (.shmCreate task alloc name size flags) = some { s with
          shm := q.1
          shmCalls := returned name (shmResult q.2) s.shmCalls } := congrArg (Option.map _) hi
      obtain ⟨hiff, hbook⟩ := segment_spec hb.segments hi
      rw [forall_step_iff hs]
      refine ⟨and_congr_right fun _ => Iff.trans ⟨fun h => h.2.2, fun h => ⟨h1, h2, h⟩⟩ hiff,
        fun hf => ?_⟩
      rw [forall_step_iff hs]
      exact ⟨hb.mutexes, hb.semaphores, hbook hf.2⟩
  | findDevice name =>
    refine ⟨?_, fun _ s' hs => ?_⟩
    · refine (and_iff_right trivial).trans (Iff.trans ?_ (findDevice_iff s.devices name))
      constructor
      · exact fun h => (h s rfl).2 name rfl
      · intro h s' hs
        cases hs
        refine ⟨hb.identified, fun name' e => ?_⟩
        cases e
        exact h
    · cases hs
      exact hb

theorem noNames_books (pool : Nat → Bool) (info : MemInfo) (devices : List SwFileOperations) :
    Books (noNames pool info devices : NameState A) := by
  have hnil {O : Type} : Book ([] : List (Chars × O)) [] :=
    ⟨registered_nil, fun _ hp => by cases hp⟩
  exact ⟨hnil, hnil, ⟨hnil, fun _ hp => by cases hp⟩⟩

/-- **Names identify objects**: in a run of initializations, creations and searches two calls return
one object exactly for equal names, and a device only under its name, exactly if no call finds an
object of another name in front of its own one, no segment gets the id of another one, and no creation
reads a segment that has been freed. -/
theorem names_identify_iff (c : PageConfig) (pool : Nat → Bool) (info : MemInfo)
    (devices : List SwFileOperations) (calls : List (NameCall A)) :
    Along (nameStep c) (NamesKept c) (noNames pool info devices) calls ↔
      Along (nameStep c) (NameFits c) (noNames pool info devices) calls := by
  refine along_iff Books ?_ (fun _ k hb => (step_namesKept hb k).1) (noNames_books pool info devices)
    calls
  intro s k s' hb hok hs
  obtain ⟨hiff, hbooks⟩ := step_namesKept (c := c) hb k
  exact hbooks (hiff.mp hok) s' hs

end

/-- the name `a` returns the mutex that has been created for `ab` -/
theorem prefix_found :
    let ab : ObjectName := ⟨[97, 98], by decide, by decide⟩
    let a : ObjectName := ⟨[97], by decide, by decide⟩
    let calls : List (NameCall (Fin 2)) := [.mutexInit ab (some 0), .mutexInit a (some 1)]
    (run (nameStep shmBoard) (noNames noSegments.pool noSegments.info []) calls).map
        NameState.mutexCalls = some [([97], 0), ([97, 98], 0)] ∧
      ¬ Along (nameStep shmBoard) (NamesKept shmBoard)
        (noNames noSegments.pool noSegments.info []) calls := by
  intro ab a calls
  refine ⟨rfl, fun h => ?_⟩
  have hcalls : Identified ([([97], 0), ([97, 98], 0)] : List (Chars × Fin 2)) := (h.2.1.2 _ rfl).1.1
  have hname := (hcalls ([97], 0) (by simp) ([97, 98], 0) (by simp)).mp rfl
  exact absurd hname (by decide)

end Names
end SierraTee
