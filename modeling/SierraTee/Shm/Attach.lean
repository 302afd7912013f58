import SierraTee.Paging.MapSecure
import SierraTee.Shm.Destroy

/-!
# Attachments of shared memory

* `attach_done`, `detach_done`  what a call can do.
-/

namespace SierraTee
open FlatMemory Runs

def shmAtAddr : Word := 0x00100000

def ptfProtUro : Word := 2
def ptfProtUrw : Word := 3

namespace PageTables
variable (c : PageConfig)

def userEntry (ptf : Word) (va pa : Word) : CpuPtEntry := { secureEntry c ptf va pa with ng := 1 }

def mapUserLoop (ptf : Word) : Nat → PageTables → Word → Word → Word → Option PageTables
  | 0, pt, _, _, size => if size = 0 then some pt else none
  | n + 1, pt, va, pa, size =>
    if size = 0 then some pt
    else if BitVec.ofNat 32 sectionBytes ≤ size ∧ sectionAligned va ∧ sectionAligned pa then
      mapUserLoop ptf n (pt.mapSectionEntry c (userEntry c ptf va pa)).1
        (va + BitVec.ofNat 32 sectionBytes) (pa + BitVec.ofNat 32 sectionBytes)
        (size - BitVec.ofNat 32 sectionBytes)
    else
      (pt.mapSmallPageEntry c (userEntry c ptf va pa)).bind fun x =>
        mapUserLoop ptf n x.1 (va + BitVec.ofNat 32 pageBytes) (pa + BitVec.ofNat 32 pageBytes)
          (size - BitVec.ofNat 32 pageBytes)

/-- `map_user_memory`; the table is that of the configuration -/
def mapUserMemory (pt : PageTables) (va pa size ptf : Word) : Option (PageTables × Int) :=
  if pageAligned size ∧ pageAligned va ∧ pageAligned pa then
    (mapUserLoop c ptf (size.toNat / pageBytes) pt va pa size).map fun pt => (pt, 0)
  else some (pt, -1)

/-- `unmap_user_memory`, which is the same for the secure table -/
def unmapUserMemory (pt : PageTables) (va size : Word) : Option (PageTables × Int) :=
  pt.unmapSecureMemory c va size

end PageTables

/-! ## The calls -/

def slotAddr (i : Nat) : Word := shmAtAddr + BitVec.ofNat 32 (i * 4096)
def slotOf (addr : Word) : Nat := (addr - shmAtAddr).toNat / 4096

def isCreator (task : Word) (shm : SharedMem) : Bool := task = shm.creatorId.setWidth 32

/-- `at_addr` for the address `NULL`, with the pool behind it; there may be no free slots -/
def attachAddr (task : Word) (shm : SharedMem) (pool : Nat → Bool) : Option (Word × (Nat → Bool)) :=
  if isCreator task shm then some (slotAddr 1, pool)
  else
    let r := idSearch pool shm.size
    if shm.size.toNat / 4096 ≠ r.2 then none
    else some (slotAddr (r.1 - r.2), setIds pool true (r.1 - r.2) r.2)

def attachAt (c : PageConfig) (task : Word) (shm : SharedMem) (atAddr flag : Word) (s : ShmState)
    (pt : PageTables) : Option ((ShmState × PageTables) × Word) :=
  let fg := shm.flags.setWidth 32 &&& flag
  if fg = 0 then some ((s, pt), 0)
  else
    (pt.mapUserMemory c atAddr shm.phyAddr shm.size
        (if fg &&& shmFlagWrite ≠ 0 then ptfProtUrw else ptfProtUro)).map fun x =>
      if x.2 = 0 then ((s, x.1), atAddr)
      else if isCreator task shm then ((s, x.1), swError)
      else (({ s with pool := setIds s.pool false (slotOf atAddr) (shm.size.toNat / 4096) }, x.1),
        swError)

/-- `_shm_attach` by the task -/
def shmAttach (c : PageConfig) (task id addr flag : Word) (s : ShmState) (pt : PageTables) :
    Option ((ShmState × PageTables) × Word) :=
  match s.findId id with
  -- `task` is `NULL`, and its id is read
  | none => none
  | some shm =>
    if addr = 0 then
      (attachAddr task shm s.pool).elim (some ((s, pt), swError)) fun x =>
        attachAt c task shm x.1 flag { s with pool := x.2 } pt
    -- `pt_base` is `NULL`
    else attachAt { c with pgd := 0 } task shm addr flag s pt

/-- `_shm_detach` by the task -/
def shmDetach (c : PageConfig) (task id addr : Word) (s : ShmState) (pt : PageTables) :
    Option ((ShmState × PageTables) × Word) :=
  match s.findId id with
  | none => some ((s, pt), swError)
  | some shm =>
    let s :=
      if isCreator task shm then s
      else { s with pool := setIds s.pool false (slotOf addr) (shm.size.toNat / 4096) }
    (pt.unmapUserMemory c addr shm.size).map fun x => ((s, x.1), if x.2 = 0 then swOk else swError)

/-! ## Runs -/

/-- an attachment that is alive -/
structure Attachment where
  id : Word
  addr : Word
  size : Word
  /-- made by a task that is not the creator -/
  pooled : Bool
  deriving DecidableEq

structure AttachState where
  shm : ShmState
  pt : PageTables
  live : List Attachment

inductive AttachCall where
  | attach (task id flag : Word)
  | detach (task id addr : Word)

def attached (task id : Word) (s : ShmState) (addr : Word) : List Attachment :=
  if addr = 0 ∨ addr = swError then []
  else (s.findId id).elim [] fun shm => [⟨id, addr, shm.size, !isCreator task shm⟩]

/-- a call, with the address `NULL` for an attachment -/
def attachStep (c : PageConfig) (s : AttachState) : AttachCall → Option AttachState
  | .attach task id flag => (shmAttach c task id 0 flag s.shm s.pt).map fun x =>
    { shm := x.1.1, pt := x.1.2, live := s.live ++ attached task id s.shm x.2 }
  | .detach task id addr => (shmDetach c task id addr s.shm s.pt).map fun x =>
    { shm := x.1.1, pt := x.1.2, live := s.live.eraseP fun a => a.id = id ∧ a.addr = addr }

/-! ## The property -/

def Attachment.Covers (a : Attachment) (x : Nat) : Prop :=
  a.addr.toNat ≤ x ∧ x < a.addr.toNat + a.size.toNat

/-- the address ranges do not meet -/
def Attachment.Disjoint (a b : Attachment) : Prop := ∀ x, a.Covers x → ¬ b.Covers x

def Permitted (shm : SharedMem) (flag : Word) : Prop := shm.flags.setWidth 32 &&& flag ≠ 0

def AttachRefused (s : ShmState) (task id flag : Word) : Prop :=
  ∀ shm, s.findId id = some shm → ¬ Permitted shm flag ∨
    isCreator task shm = false ∧ ∀ i, ¬ FirstIds s.pool (shm.size.toNat / 4096) i

def SameMaps (s t : AttachState) : Prop := t.shm = s.shm ∧ t.pt = s.pt

/-- an attachment that fails, or a detachment of what is not alive, changes nothing -/
def AttachKept (c : PageConfig) (s : AttachState) : AttachCall → Prop
  | .attach task id flag =>
    (AttachRefused s.shm task id flag → (attachStep c s (.attach task id flag)).isSome) ∧
      ∀ t, attachStep c s (.attach task id flag) = some t → t.live = s.live → SameMaps s t
  | .detach task id addr =>
    (∀ a ∈ s.live, ¬ (a.id = id ∧ a.addr = addr)) →
      ∃ t, attachStep c s (.detach task id addr) = some t ∧ SameMaps s t

def slotRange (i n x : Nat) : Prop := 0x100000 + i * 4096 ≤ x ∧ x < 0x100000 + (i + n) * 4096

def PagesOnly (s : ShmState) : Prop := ∀ shm ∈ s.segs, shm.size.toNat % 4096 = 0

section
variable {c : PageConfig} {task id addr flag at1 va pa size ptf r : Word} {shm : SharedMem}
  {s s' : ShmState} {t u : AttachState} {pt pt' : PageTables} {pool pool' : Nat → Bool}
  {a b : Attachment} {i n : Nat} {call : AttachCall}

/-! ## Slots -/

theorem slotAddr_toNat (h : i ≤ sharedMemInstance) : (slotAddr i).toNat = 0x100000 + i * 4096 := by
  have h1 : sharedMemInstance = 16 := rfl
  have h2 : shmAtAddr.toNat = 0x100000 := rfl
  unfold slotAddr
  rw [BitVec.toNat_add, BitVec.toNat_ofNat, h2]
  omega

theorem slotOf_slotAddr (h : i ≤ sharedMemInstance) : slotOf (slotAddr i) = i := by
  have h1 : sharedMemInstance = 16 := rfl
  unfold slotOf slotAddr
  rw [BitVec.add_comm, BitVec.add_sub_cancel, BitVec.toNat_ofNat]
  omega

theorem slotAddr_ne_zero (h : i ≤ sharedMemInstance) : slotAddr i ≠ 0 := by
  intro h1
  have h2 := slotAddr_toNat h
  rw [h1] at h2
  have h3 : (0 : Word).toNat = 0 := rfl
  omega

theorem slotAddr_ne_error (h : i ≤ sharedMemInstance) : slotAddr i ≠ swError := by
  intro h1
  have h2 := slotAddr_toNat h
  have h3 : sharedMemInstance = 16 := rfl
  have h4 : swError.toNat = 0xFFFFFFFF := rfl
  rw [h1] at h2
  omega

theorem covers_slot (hi : i ≤ sharedMemInstance) (haddr : a.addr = slotAddr i)
    (hsize : a.size.toNat % 4096 = 0) (x : Nat) :
    a.Covers x ↔ slotRange i (a.size.toNat / 4096) x := by
  unfold Attachment.Covers slotRange
  rw [haddr, slotAddr_toNat hi]
  omega

theorem Attachment.Disjoint.symm (h : a.Disjoint b) : b.Disjoint a := fun x hb ha => h x ha hb

/-! ## Mappings -/

theorem mapUserMemory_refused {x : PageTables × Int}
    (h : pt.mapUserMemory c va pa size ptf = some x) (hx : x.2 ≠ 0) : x.1 = pt := by
  unfold PageTables.mapUserMemory at h
  split_ifs at h
  · obtain ⟨pt', -, rfl⟩ := Option.map_eq_some_iff.mp h
    exact absurd rfl hx
  · cases h
    rfl

theorem unmapUserMemory_same (c : PageConfig) (pt : PageTables) (hsize : size.toNat % 4096 = 0)
    (h : size.toNat / 4096 = 0 ∨ PageTables.pageAligned va = false) :
    ∃ r, pt.unmapUserMemory c va size = some (pt, r) := by
  unfold PageTables.unmapUserMemory PageTables.unmapSecureMemory
  split_ifs with h1
  · have h2 := h.resolve_right fun h2 => Bool.noConfusion (h1.2.symm.trans h2)
    have h3 : size = 0 := by
      rw [← BitVec.toNat_inj]
      show size.toNat = 0
      omega
    rw [h3]
    exact ⟨0, rfl⟩
  · exact ⟨-1, rfl⟩

/-! ## What a call can do -/

theorem attachAddr_creator (h : isCreator task shm = true) :
    attachAddr task shm pool = some (slotAddr 1, pool) := by
  unfold attachAddr
  rw [if_pos h]

theorem attachAddr_other (pool : Nat → Bool) (h : isCreator task shm = false)
    (hsize : shm.size.toNat = 4096 * n) :
    (attachAddr task shm pool = none ∧ ∀ i, ¬ FirstIds pool n i) ∨
      ∃ i, FirstIds pool n i ∧ attachAddr task shm pool = some (slotAddr i, setIds pool true i n) := by
  have hdiv : shm.size.toNat / 4096 = n := by omega
  unfold attachAddr
  rw [if_neg (by rw [h]; exact Bool.false_ne_true), hdiv]
  by_cases hn : (idSearch pool shm.size).2 = n
  · right
    refine ⟨_, idSearch_first hsize hn, ?_⟩
    simp only [hn, ne_eq, not_true_eq_false, if_false]
  · left
    refine ⟨if_pos fun h1 => hn h1.symm, fun i hi => hn ?_⟩
    exact (idSearch_iff hsize).mpr ⟨i, hi.pos, hi.bound, hi.free⟩

theorem attachAt_cases {x : (ShmState × PageTables) × Word}
    (h : attachAt c task shm at1 flag s pt = some x) :
    (¬ Permitted shm flag ∧ x = ((s, pt), 0)) ∨ (Permitted shm flag ∧ ∃ pt', x = ((s, pt'), at1)) ∨
      Permitted shm flag ∧ x = ((if isCreator task shm then s
        else { s with pool := setIds s.pool false (slotOf at1) (shm.size.toNat / 4096) }, pt),
          swError) := by
  unfold attachAt at h
  dsimp only at h
  by_cases hflag : shm.flags.setWidth 32 &&& flag = 0
  · rw [if_pos hflag] at h
    cases h
    exact Or.inl ⟨not_not.mpr hflag, rfl⟩
  · rw [if_neg hflag] at h
    obtain ⟨y, hy, rfl⟩ := Option.map_eq_some_iff.mp h
    right
    by_cases hr : y.2 = 0
    · rw [if_pos hr]
      exact Or.inl ⟨hflag, y.1, rfl⟩
    · rw [if_neg hr, mapUserMemory_refused hy hr]
      refine Or.inr ⟨hflag, ?_⟩
      split_ifs <;> rfl

theorem attached_none {s : ShmState} (h : addr = 0 ∨ addr = swError) : attached task id s addr = [] :=
  if_pos h

theorem attached_slot (hi : i ≤ sharedMemInstance) (hfound : s.findId id = some shm) :
    attached task id s (slotAddr i) = [⟨id, slotAddr i, shm.size, !isCreator task shm⟩] := by
  unfold attached
  rw [if_neg (not_or.mpr ⟨slotAddr_ne_zero hi, slotAddr_ne_error hi⟩), hfound]
  rfl

inductive AttachDone (s t : AttachState) (id : Word) (shm : SharedMem) (permitted creator : Prop) :
    Prop where
  | failed (same : SameMaps s t) (live : t.live = s.live)
  /-- the flags are not permitted, and the slots are taken -/
  | lost (i : Nat) (flags : ¬ permitted) (other : ¬ creator)
      (first : FirstIds s.shm.pool (shm.size.toNat / 4096) i)
      (state : t.shm = { s.shm with pool := setIds s.shm.pool true i (shm.size.toNat / 4096) })
      (pt : t.pt = s.pt) (live : t.live = s.live)
  | own (flags : permitted) (same : creator) (state : t.shm = s.shm)
      (live : t.live = s.live ++ [⟨id, slotAddr 1, shm.size, false⟩])
  | taken (i : Nat) (flags : permitted) (other : ¬ creator)
      (first : FirstIds s.shm.pool (shm.size.toNat / 4096) i)
      (state : t.shm = { s.shm with pool := setIds s.shm.pool true i (shm.size.toNat / 4096) })
      (live : t.live = s.live ++ [⟨id, slotAddr i, shm.size, true⟩])

theorem attach_done (hpages : PagesOnly t.shm) (hfound : t.shm.findId id = some shm)
    (h : attachStep c t (.attach task id flag) = some u) :
    AttachDone t u id shm (Permitted shm flag) (isCreator task shm = true) := by
  have hmem := List.mem_of_find?_eq_some hfound
  have hsize : shm.size.toNat = 4096 * (shm.size.toNat / 4096) := by
    have h1 := hpages shm hmem
    omega
  obtain ⟨x, hx, rfl⟩ := Option.map_eq_some_iff.mp h
  unfold shmAttach at hx
  rw [hfound] at hx
  dsimp only at hx
  rw [if_pos rfl] at hx
  by_cases hc : isCreator task shm = true
  · rw [attachAddr_creator hc] at hx
    have h1 : (1 : Nat) ≤ sharedMemInstance := by decide
    obtain ⟨-, rfl⟩ | ⟨hflag, pt', rfl⟩ | ⟨-, rfl⟩ := attachAt_cases hx
    · exact .failed ⟨rfl, rfl⟩ (by rw [attached_none (Or.inl rfl), List.append_nil])
    · refine .own hflag hc rfl ?_
      rw [attached_slot h1 hfound, hc]
      rfl
    · rw [if_pos hc]
      exact .failed ⟨rfl, rfl⟩ (by rw [attached_none (Or.inr rfl), List.append_nil])
  · have hc' : isCreator task shm = false := Bool.eq_false_iff.mpr hc
    obtain ⟨hnone, -⟩ | ⟨i, hi, hsome⟩ := attachAddr_other t.shm.pool hc' hsize
    · rw [hnone] at hx
      cases hx
      exact .failed ⟨rfl, rfl⟩ (by rw [attached_none (Or.inr rfl), List.append_nil])
    · rw [hsome] at hx
      have hbound : i ≤ sharedMemInstance := Nat.le_trans (Nat.le_add_right i _) hi.bound
      obtain ⟨hflag, rfl⟩ | ⟨hflag, pt', rfl⟩ | ⟨-, rfl⟩ := attachAt_cases hx
      · exact .lost i hflag hc hi rfl rfl (by rw [attached_none (Or.inl rfl), List.append_nil])
      · refine .taken i hflag hc hi rfl ?_
        rw [attached_slot hbound hfound, hc']
        rfl
      · refine .failed ⟨?_, rfl⟩ (by rw [attached_none (Or.inr rfl), List.append_nil])
        rw [if_neg hc, slotOf_slotAddr hbound]
        dsimp only
        rw [setIds_setIds hi.free]

theorem detach_unknown (hfound : t.shm.findId id = none) :
    attachStep c t (.detach task id addr) = some { t with
      live := t.live.eraseP fun a => a.id = id ∧ a.addr = addr } := by
  unfold attachStep
  dsimp only
  unfold shmDetach
  rw [hfound]
  rfl

theorem detach_known {x : PageTables × Int} (hfound : t.shm.findId id = some shm)
    (hx : t.pt.unmapUserMemory c addr shm.size = some x) :
    attachStep c t (.detach task id addr) = some
      { shm := if isCreator task shm then t.shm else { t.shm with
          pool := setIds t.shm.pool false (slotOf addr) (shm.size.toNat / 4096) }
        pt := x.1
        live := t.live.eraseP fun a => a.id = id ∧ a.addr = addr } := by
  unfold attachStep
  dsimp only
  unfold shmDetach
  rw [hfound]
  dsimp only
  rw [hx]
  rfl

theorem detach_done (h : attachStep c t (.detach task id addr) = some u) :
    u.live = (t.live.eraseP fun a => a.id = id ∧ a.addr = addr) ∧
      (u.shm = t.shm ∨ ∃ shm, t.shm.findId id = some shm ∧ isCreator task shm = false ∧
        u.shm = { t.shm with
          pool := setIds t.shm.pool false (slotOf addr) (shm.size.toNat / 4096) }) := by
  obtain ⟨x, hx, rfl⟩ := Option.map_eq_some_iff.mp h
  refine ⟨rfl, ?_⟩
  unfold shmDetach at hx
  cases hfound : t.shm.findId id with
  | none =>
    rw [hfound] at hx
    cases hx
    exact Or.inl rfl
  | some shm =>
    rw [hfound] at hx
    obtain ⟨y, -, rfl⟩ := Option.map_eq_some_iff.mp hx
    dsimp only
    split_ifs with hc
    · exact Or.inl rfl
    · exact Or.inr ⟨shm, rfl, Bool.eq_false_iff.mpr hc, rfl⟩

end

end SierraTee
