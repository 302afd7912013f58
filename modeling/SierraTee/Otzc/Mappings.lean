import SierraTee.Lib.Keyed
import SierraTee.Params.Operation

/-!
# The shared blocks of a process and its mappings (`otz_client_main.c`)

`mmap` on the device file allocates a block, maps it and puts it on the list of the file; the call
for shared memory moves it to the list of a session, and the call that frees it takes it off.  The
driver is not told of an `munmap`, so a block stays on its list, and a later block at the same
address comes behind it.

* `lookup_follows_iff`, `unmapped_block_found`.
-/

namespace SierraTee
namespace Otzc
open Keyed Runs

/-- `otzc_shared_mem`, with `kAddr` as a physical address; `unmapped` is a history: the address of
the block has been unmapped since the block was mapped there -/
structure SharedMem where
  index : UInt32
  kAddr : UInt32
  uAddr : UInt32
  len : UInt32
  unmapped : Bool
  deriving DecidableEq

structure MappedSession where
  serviceId : UInt32
  sessionId : UInt32
  sharedMemList : List SharedMem

/-- a process with an open device file: where its addresses are mapped to, `dev_shared_mem_head`,
and its sessions -/
structure Process where
  mem : UInt32 → Option UInt32
  devSharedMem : List SharedMem
  sessions : List MappedSession

def InRange (start len a : UInt32) : Prop := a - start < len

instance (start len a : UInt32) : Decidable (InRange start len a) :=
  inferInstanceAs (Decidable (_ < _))

def SharedMem.unmap (start len : UInt32) (e : SharedMem) : SharedMem :=
  { e with unmapped := e.unmapped || decide (InRange start len e.index) }

def MappedSession.unmap (start len : UInt32) (z : MappedSession) : MappedSession :=
  { z with sharedMemList := z.sharedMemList.map (SharedMem.unmap start len) }

/-- how an `mmap` goes on in the driver: the pages of `__get_free_pages`, if there are any, and
whether `remap_pfn_range` and `kmalloc` succeed -/
structure MmapIo where
  allocAddr : Option UInt32
  remapped : Bool
  memNew : Bool

namespace Process

section
variable (s : Process)

def listed : List SharedMem := s.devSharedMem ++ s.sessions.flatMap MappedSession.sharedMemList

def munmap (start len : UInt32) : Process where
  mem := fun a => if InRange start len a then none else s.mem a
  devSharedMem := s.devSharedMem.map (SharedMem.unmap start len)
  sessions := s.sessions.map (MappedSession.unmap start len)

def Unused (k len : UInt32) : Prop :=
  ∀ e ∈ s.listed, ¬ InRange k len e.kAddr ∧ ¬ InRange e.kAddr e.len k

instance (k len : UInt32) : Decidable (s.Unused k len) :=
  inferInstanceAs (Decidable (∀ e ∈ _, _))

def mapped (start len k : UInt32) : Process :=
  { s with
    mem := fun a => if InRange start len a then some (k + (a - start)) else s.mem a
    devSharedMem := s.devSharedMem ++ [⟨start, k, start, len, false⟩] }

/-- `mmap`: what was mapped in the range is unmapped first (nothing, if the kernel has chosen the
range); the mapping is taken back when the driver fails.  `none` is an allocation of pages that are
in use. -/
def mmap (start len : UInt32) (io : MmapIo) : Option Process :=
  if len = 0 then some s
  else
    let s1 := s.munmap start len
    match io.allocAddr with
    | none => some s1
    | some k =>
      if !s1.Unused k len then none
      else if !io.remapped then some s1
      else if !io.memNew then some s1
      else some (s1.mapped start len k)

def findSession (svc ses : UInt32) : Option MappedSession :=
  s.sessions.find? fun z => z.serviceId = svc ∧ z.sessionId = ses

def modifySession (svc ses : UInt32) (f : List SharedMem → List SharedMem) : List MappedSession :=
  modify (fun z => z.serviceId = svc ∧ z.sessionId = ses)
    (fun z => { z with sharedMemList := f z.sharedMemList }) s.sessions

/-- `otz_client_shared_mem_alloc` -/
def sharedMemAlloc (svc ses addr : UInt32) : Process :=
  match s.findSession svc ses with
  | none => s
  | some _ =>
    match s.devSharedMem.find? fun e => e.index = addr with
    | none => s
    | some e =>
      { s with
        devSharedMem := s.devSharedMem.eraseP fun e => e.index = addr
        sessions := s.modifySession svc ses fun l => l ++ [e] }

/-- `otz_client_shared_mem_free` -/
def sharedMemFree (svc ses addr : UInt32) : Process :=
  { s with sessions := s.modifySession svc ses fun l => l.eraseP fun e => e.index = addr }

/-- the searches of `otz_client_kernel_encode_mem_ref`: the session's list, then the file's -/
def search (z : MappedSession) (data : UInt32) : Option SharedMem :=
  (z.sharedMemList.find? fun e => e.index = data).orElse fun _ =>
    s.devSharedMem.find? fun e => e.index = data

/-- the block that a reference is resolved to; `prepared` is whether there is a context for it -/
def resolve (svc ses data : UInt32) (prepared : Bool) : Option SharedMem :=
  if prepared then (s.findSession svc ses).bind fun z => s.search z data else none

end

end Process

/-- a call of the process -/
inductive MapCall where
  | mmap (start len : UInt32) (io : MmapIo)
  | munmap (start len : UInt32)
  | sharedMemAlloc (svc ses addr : UInt32)
  | sharedMemFree (svc ses addr : UInt32)
  | encodeMemRef (svc ses data : UInt32) (prepared : Bool)

namespace Process

def step (s : Process) : MapCall → Option Process
  | .mmap start len io => s.mmap start len io
  | .munmap start len => some (s.munmap start len)
  | .sharedMemAlloc svc ses addr => some (s.sharedMemAlloc svc ses addr)
  | .sharedMemFree svc ses addr => some (s.sharedMemFree svc ses addr)
  | .encodeMemRef _ _ _ _ => some s

/-- the device file has been opened, and then these sessions -/
def opened (ids : List (UInt32 × UInt32)) : Process where
  mem := fun _ => none
  devSharedMem := []
  sessions := ids.map fun i => ⟨i.1, i.2, []⟩

end Process

/-! ## A search that follows the mappings -/

def StillMapped (l : List SharedMem) (a : UInt32) : Prop := ∀ e ∈ l, e.index = a → e.unmapped = false

section
variable (s : Process)

/-- what the reference is resolved to is the block that is mapped at the address now, and the block
that is mapped there now is found if it is listed -/
structure Follows (svc ses data : UInt32) (prepared : Bool) : Prop where
  current : ∀ e, s.resolve svc ses data prepared = some e → s.mem data = some e.kAddr
  found : prepared = true → ∀ z, s.findSession svc ses = some z →
    ∀ e ∈ z.sharedMemList ++ s.devSharedMem, e.index = data → s.mem data = some e.kAddr →
      ∃ e', s.resolve svc ses data prepared = some e' ∧ e'.kAddr = e.kAddr

/-- a reference is resolved to the block that is mapped at its address, or refused -/
def LookupFollows : MapCall → Prop
  | .encodeMemRef svc ses data prepared => Follows s svc ses data prepared
  | _ => True

/-- the session's list has no block under the address that has been unmapped, and if it has none at
all, then the file's list has no such block -/
def LookupFits : MapCall → Prop
  | .encodeMemRef svc ses data prepared => prepared = true → ∀ z, s.findSession svc ses = some z →
    StillMapped z.sharedMemList data ∧
      ((∀ e ∈ z.sharedMemList, e.index ≠ data) → StillMapped s.devSharedMem data)
  | _ => True

end

/-! ## The lists and the mappings -/

structure EntryOk (mem : UInt32 → Option UInt32) (e : SharedMem) : Prop where
  mapped : e.unmapped = false → mem e.index = some e.kAddr
  gone : e.unmapped = true → mem e.index ≠ some e.kAddr

def Older (e e' : SharedMem) : Prop := e.index = e'.index → e.unmapped = true

structure ListOk (mem : UInt32 → Option UInt32) (l : List SharedMem) : Prop where
  entries : ∀ e ∈ l, EntryOk mem e
  aged : l.Pairwise Older

structure SessionOk (mem : UInt32 → Option UInt32) (dev : List SharedMem) (z : MappedSession) :
    Prop where
  list : ListOk mem z.sharedMemList
  older : ∀ e ∈ z.sharedMemList, ∀ e' ∈ dev, Older e e'

structure MappedOk (s : Process) : Prop where
  dev : ListOk s.mem s.devSharedMem
  sessions : ∀ z ∈ s.sessions, SessionOk s.mem s.devSharedMem z

theorem opened_mapped (ids : List (UInt32 × UInt32)) : MappedOk (.opened ids) := by
  refine ⟨⟨fun e he => absurd he List.not_mem_nil, List.Pairwise.nil⟩, fun z hz => ?_⟩
  obtain ⟨i, -, rfl⟩ := List.mem_map.1 hz
  exact ⟨⟨fun e he => absurd he List.not_mem_nil, List.Pairwise.nil⟩,
    fun e he => absurd he List.not_mem_nil⟩

section
variable {mem : UInt32 → Option UInt32} {l l' dev : List SharedMem} {start len a k : UInt32}
  {e e' : SharedMem} {s s' : Process}

theorem ListOk.sublist (h : ListOk mem l) (hs : l'.Sublist l) : ListOk mem l' :=
  ⟨fun e he => h.entries e (hs.subset he), h.aged.sublist hs⟩

/-! ### Unmapping -/

theorem unmap_unmapped : (e.unmap start len).unmapped = true ↔
    e.unmapped = true ∨ InRange start len e.index := by
  show (e.unmapped || decide (InRange start len e.index)) = true ↔ _
  rw [Bool.or_eq_true, decide_eq_true_eq]

theorem Older.unmap (h : Older e e') : Older (e.unmap start len) (e'.unmap start len) :=
  fun hi => unmap_unmapped.2 (Or.inl (h hi))

def clearRange (mem : UInt32 → Option UInt32) (start len a : UInt32) : Option UInt32 :=
  if InRange start len a then none else mem a

theorem EntryOk.unmap (h : EntryOk mem e) :
    EntryOk (clearRange mem start len) (e.unmap start len) := by
  show EntryOk _ { e with unmapped := e.unmapped || decide (InRange start len e.index) }
  by_cases hr : InRange start len e.index
  · rw [decide_eq_true hr, Bool.or_true]
    refine ⟨nofun, fun _ => ?_⟩
    show clearRange mem start len e.index ≠ _
    unfold clearRange
    rw [if_pos hr]
    exact nofun
  · rw [decide_eq_false hr, Bool.or_false]
    have hsame : clearRange mem start len e.index = mem e.index := if_neg hr
    refine ⟨fun hf => ?_, fun ht => ?_⟩
    · show clearRange mem start len e.index = _
      rw [hsame]
      exact h.mapped hf
    · show clearRange mem start len e.index ≠ _
      rw [hsame]
      exact h.gone ht

theorem ListOk.unmap (h : ListOk mem l) :
    ListOk (clearRange mem start len) (l.map (SharedMem.unmap start len)) := by
  constructor
  · intro e' he'
    obtain ⟨e, hl, rfl⟩ := List.mem_map.1 he'
    exact (h.entries e hl).unmap
  · rw [List.pairwise_map]
    exact h.aged.imp Older.unmap

theorem MappedOk.munmap (h : MappedOk s) (start len : UInt32) : MappedOk (s.munmap start len) := by
  refine ⟨h.dev.unmap, fun z' hz' => ?_⟩
  obtain ⟨z, hz, rfl⟩ := List.mem_map.1 hz'
  obtain ⟨hlist, holder⟩ := h.sessions z hz
  refine ⟨hlist.unmap, ?_⟩
  intro e₁ h₁ e₂ h₂
  obtain ⟨e, he, rfl⟩ := List.mem_map.1 h₁
  obtain ⟨e', he', rfl⟩ := List.mem_map.1 h₂
  exact (holder e he e' he').unmap

def RangeLeft (start len : UInt32) (l : List SharedMem) : Prop :=
  ∀ e ∈ l, InRange start len e.index → e.unmapped = true

theorem rangeLeft_unmap (l : List SharedMem) :
    RangeLeft start len (l.map (SharedMem.unmap start len)) := by
  intro e' he' hr
  obtain ⟨e, -, rfl⟩ := List.mem_map.1 he'
  exact unmap_unmapped.2 (Or.inr hr)

theorem rangeLeft_munmap (s : Process) :
    RangeLeft start len (s.munmap start len).devSharedMem ∧
      ∀ z ∈ (s.munmap start len).sessions, RangeLeft start len z.sharedMemList := by
  refine ⟨rangeLeft_unmap _, fun z' hz' => ?_⟩
  obtain ⟨z, -, rfl⟩ := List.mem_map.1 hz'
  exact rangeLeft_unmap _

/-! ### Mapping -/

def fillRange (mem : UInt32 → Option UInt32) (start len k a : UInt32) : Option UInt32 :=
  if InRange start len a then some (k + (a - start)) else mem a

theorem EntryOk.remap (h : EntryOk mem e) (hleft : InRange start len e.index → e.unmapped = true)
    (hk : ¬ InRange k len e.kAddr) : EntryOk (fillRange mem start len k) e := by
  by_cases hr : InRange start len e.index
  · have ht := hleft hr
    refine ⟨fun hf => absurd (ht.symm.trans hf) (by decide), fun _ hat => hk ?_⟩
    have hat' : some (k + (e.index - start)) = some e.kAddr := (if_pos hr).symm.trans hat
    have heq : e.kAddr - k = e.index - start := by
      rw [← Option.some.inj hat', UInt32.add_comm, UInt32.add_sub_cancel]
    unfold InRange
    rw [heq]
    exact hr
  · have hsame : fillRange mem start len k e.index = mem e.index := if_neg hr
    refine ⟨fun hf => ?_, fun ht => ?_⟩
    · rw [hsame]
      exact h.mapped hf
    · rw [hsame]
      exact h.gone ht

theorem ListOk.remap (h : ListOk mem l) (hleft : RangeLeft start len l)
    (hk : ∀ e ∈ l, ¬ InRange k len e.kAddr) : ListOk (fillRange mem start len k) l :=
  ⟨fun e he => (h.entries e he).remap (hleft e he) (hk e he), h.aged⟩

theorem inRange_start (hlen : len ≠ 0) : InRange start len start := by
  unfold InRange
  rw [UInt32.sub_self]
  exact UInt32.pos_iff_ne_zero.2 hlen

theorem MappedOk.mapped (h : MappedOk s) (hlen : len ≠ 0)
    (hdev : RangeLeft start len s.devSharedMem)
    (hses : ∀ z ∈ s.sessions, RangeLeft start len z.sharedMemList) (hk : s.Unused k len) :
    MappedOk (s.mapped start len k) := by
  have hkdev : ∀ e ∈ s.devSharedMem, ¬ InRange k len e.kAddr := fun e he =>
    (hk e (List.mem_append_left _ he)).1
  have hkses : ∀ z ∈ s.sessions, ∀ e ∈ z.sharedMemList, ¬ InRange k len e.kAddr :=
    fun z hz e he => (hk e (List.mem_append_right _ (List.mem_flatMap.2 ⟨z, hz, he⟩))).1
  have hnew : ∀ {l}, RangeLeft start len l → ∀ e ∈ l, Older e ⟨start, k, start, len, false⟩ := by
    intro l hl e he hi
    have hi' : e.index = start := hi
    refine hl e he ?_
    rw [hi']
    exact inRange_start hlen
  refine ⟨⟨fun e he => ?_, ?_⟩, fun z hz => ⟨(h.sessions z hz).list.remap (hses z hz) (hkses z hz),
    fun e he e' he' => ?_⟩⟩
  · rcases List.mem_append.1 he with he | he
    · exact (h.dev.remap hdev hkdev).entries e he
    · obtain rfl := List.mem_singleton.1 he
      refine ⟨fun _ => ?_, nofun⟩
      show fillRange s.mem start len k start = some k
      unfold fillRange
      rw [if_pos (inRange_start hlen), UInt32.sub_self, UInt32.add_zero]
  · refine List.pairwise_append.2 ⟨h.dev.aged, List.pairwise_singleton _ _, ?_⟩
    intro e he e' he'
    obtain rfl := List.mem_singleton.1 he'
    exact hnew hdev e he
  · rcases List.mem_append.1 he' with he' | he'
    · exact (h.sessions z hz).older e he e' he'
    · obtain rfl := List.mem_singleton.1 he'
      exact hnew (hses z hz) e he

theorem MappedOk.mmap (h : MappedOk s) {io : MmapIo} (hs : s.mmap start len io = some s') :
    MappedOk s' := by
  unfold Process.mmap at hs
  by_cases hlen : len = 0
  · rw [if_pos hlen] at hs
    cases hs
    exact h
  rw [if_neg hlen] at hs
  have h1 := h.munmap start len
  cases hk : io.allocAddr with
  | none =>
    rw [hk] at hs
    cases hs
    exact h1
  | some k =>
    rw [hk] at hs
    dsimp only at hs
    split_ifs at hs with hu hr hm
    · cases hs
      exact h1
    · cases hs
      exact h1
    · cases hs
      refine h1.mapped hlen (rangeLeft_munmap s).1 (rangeLeft_munmap s).2 ?_
      simpa using hu

/-! ### Moving a block to a session and freeing it -/

theorem older_of_find (haged : dev.Pairwise Older) (hf : (dev.find? fun e => e.index = a) = some e)
    (he' : e' ∈ dev.eraseP fun e => e.index = a) : Older e e' := by
  obtain ⟨hidx, us, vs, hdev, hus⟩ := List.find?_eq_some_iff_append.1 hf
  have hidx' : e.index = a := of_decide_eq_true hidx
  intro hi
  subst hdev
  have hno : ∀ x ∈ us, ¬ (decide (x.index = a)) = true := by
    intro x hx ht
    have := hus x hx
    rw [ht] at this
    exact absurd this (by decide)
  rw [List.eraseP_append_right _ hno, List.eraseP_cons_of_pos (by exact hidx)] at he'
  rcases List.mem_append.1 he' with h' | h'
  · exact absurd (decide_eq_true (hi.symm.trans hidx')) (hno e' h')
  · exact (List.pairwise_cons.1 (List.pairwise_append.1 haged).2.1).1 e' h' hi

theorem MappedOk.sharedMemAlloc (h : MappedOk s) (svc ses addr : UInt32) :
    MappedOk (s.sharedMemAlloc svc ses addr) := by
  unfold Process.sharedMemAlloc
  cases s.findSession svc ses with
  | none => exact h
  | some z =>
    dsimp only
    cases hf : s.devSharedMem.find? fun e => e.index = addr with
    | none => exact h
    | some e =>
      have hsub : (s.devSharedMem.eraseP fun e => e.index = addr).Sublist s.devSharedMem :=
        List.eraseP_sublist
      have hmem : e ∈ s.devSharedMem := List.mem_of_find?_eq_some hf
      have hother : ∀ z ∈ s.sessions, SessionOk s.mem (s.devSharedMem.eraseP fun e => e.index = addr) z :=
        fun z hz => ⟨(h.sessions z hz).list, fun e he e' he' =>
          (h.sessions z hz).older e he e' (hsub.subset he')⟩
      refine ⟨h.dev.sublist hsub, forall_modify hother fun z hz hz' => ⟨⟨?_, ?_⟩, ?_⟩⟩
      · intro e₁ h₁
        rcases List.mem_append.1 h₁ with h₁ | h₁
        · exact hz'.list.entries e₁ h₁
        · obtain rfl := List.mem_singleton.1 h₁
          exact h.dev.entries e₁ hmem
      · refine List.pairwise_append.2 ⟨hz'.list.aged, List.pairwise_singleton _ _, ?_⟩
        intro e₁ h₁ e₂ h₂
        obtain rfl := List.mem_singleton.1 h₂
        exact (h.sessions z hz).older e₁ h₁ e₂ hmem
      · intro e₁ h₁ e₂ h₂
        rcases List.mem_append.1 h₁ with h₁ | h₁
        · exact hz'.older e₁ h₁ e₂ h₂
        · obtain rfl := List.mem_singleton.1 h₁
          exact older_of_find h.dev.aged hf h₂

theorem MappedOk.sharedMemFree (h : MappedOk s) (svc ses addr : UInt32) :
    MappedOk (s.sharedMemFree svc ses addr) := by
  refine ⟨h.dev, forall_modify h.sessions fun z hz hz' => ⟨hz'.list.sublist List.eraseP_sublist, ?_⟩⟩
  intro e he e' he'
  exact hz'.older e (List.eraseP_sublist.subset he) e' he'

theorem MappedOk.step (h : MappedOk s) {c : MapCall} (hs : s.step c = some s') : MappedOk s' := by
  cases c with
  | mmap start len io => exact h.mmap hs
  | munmap start len =>
    cases hs
    exact h.munmap start len
  | sharedMemAlloc svc ses addr =>
    cases hs
    exact h.sharedMemAlloc svc ses addr
  | sharedMemFree svc ses addr =>
    cases hs
    exact h.sharedMemFree svc ses addr
  | encodeMemRef svc ses data prepared =>
    cases hs
    exact h

/-! ### The search -/

theorem mapped_iff_stillMapped (h : ListOk mem l)
    (hf : (l.find? fun e => e.index = a) = some e) :
    mem a = some e.kAddr ↔ StillMapped l a := by
  have hmem : e ∈ l := List.mem_of_find?_eq_some hf
  have hidx : e.index = a := by simpa using List.find?_some hf
  have hok := h.entries e hmem
  subst hidx
  constructor
  · intro hat e' he' hi'
    have hnot : e.unmapped = false := by
      cases ht : e.unmapped with
      | false => rfl
      | true => exact absurd hat (hok.gone ht)
    have hperm := find_perm_erase hf
    rcases List.mem_cons.1 (hperm.subset he') with rfl | hrest
    · exact hnot
    · have hold := older_of_find h.aged hf hrest hi'.symm
      exact absurd (hnot.symm.trans hold) (by decide)
  · intro hall
    exact hok.mapped (hall e hmem rfl)

theorem search_some {z : MappedSession}
    (hf : (z.sharedMemList.find? fun e => e.index = a) = some e) : s.search z a = some e := by
  unfold Process.search
  rw [hf]
  rfl

theorem search_none {z : MappedSession}
    (hf : (z.sharedMemList.find? fun e => e.index = a) = none) :
    s.search z a = s.devSharedMem.find? fun e => e.index = a := by
  unfold Process.search
  rw [hf]
  rfl

theorem find_none_iff : (l.find? fun e => e.index = a) = none ↔ ∀ e ∈ l, e.index ≠ a := by
  rw [List.find?_eq_none]
  exact forall₂_congr fun e _ => not_congr decide_eq_true_iff

theorem search_current_iff (h : MappedOk s) {z : MappedSession} (hz : z ∈ s.sessions) :
    (∀ e, s.search z a = some e → s.mem a = some e.kAddr) ↔
      StillMapped z.sharedMemList a ∧
        ((∀ e ∈ z.sharedMemList, e.index ≠ a) → StillMapped s.devSharedMem a) := by
  have hlist := (h.sessions z hz).list
  cases hf : z.sharedMemList.find? fun e => e.index = a with
  | some e =>
    have hmem : e ∈ z.sharedMemList := List.mem_of_find?_eq_some hf
    have hidx : e.index = a := by simpa using List.find?_some hf
    rw [search_some hf]
    constructor
    · intro hcur
      refine ⟨(mapped_iff_stillMapped hlist hf).1 (hcur e rfl), fun hno => ?_⟩
      exact absurd hidx (hno e hmem)
    · rintro ⟨hall, -⟩ e' he'
      cases he'
      exact (mapped_iff_stillMapped hlist hf).2 hall
  | none =>
    have hno := find_none_iff.1 hf
    rw [search_none hf]
    have hvac : StillMapped z.sharedMemList a := fun e he hi => absurd hi (hno e he)
    cases hd : s.devSharedMem.find? fun e => e.index = a with
    | some e =>
      constructor
      · intro hcur
        exact ⟨hvac, fun _ => (mapped_iff_stillMapped h.dev hd).1 (hcur e rfl)⟩
      · rintro ⟨-, hall⟩ e' he'
        cases he'
        exact (mapped_iff_stillMapped h.dev hd).2 (hall hno)
    | none =>
      have hno' := find_none_iff.1 hd
      refine iff_of_true (fun e he => by cases he) ⟨hvac, fun _ e he hi => ?_⟩
      exact absurd hi (hno' e he)

theorem search_isSome {z : MappedSession} (he : e ∈ z.sharedMemList ++ s.devSharedMem)
    (hi : e.index = a) : ∃ e', s.search z a = some e' := by
  cases hf : z.sharedMemList.find? fun e => e.index = a with
  | some e' => exact ⟨e', search_some hf⟩
  | none =>
    have hno := find_none_iff.1 hf
    rw [search_none hf]
    rcases List.mem_append.1 he with he | he
    · exact absurd hi (hno e he)
    · exact Option.isSome_iff_exists.1 (List.find?_isSome.2 ⟨e, he, decide_eq_true hi⟩)

theorem lookupFollows_iff (h : MappedOk s) (c : MapCall) : LookupFollows s c ↔ LookupFits s c := by
  cases c with
  | encodeMemRef svc ses data prepared =>
    cases prepared with
    | false =>
      have hnone : s.resolve svc ses data false = none := rfl
      refine iff_of_true ⟨fun e he => ?_, nofun⟩ nofun
      rw [hnone] at he
      cases he
    | true =>
      cases hz : s.findSession svc ses with
      | none =>
        have hnone : s.resolve svc ses data true = none := by
          unfold Process.resolve
          rw [if_pos rfl, hz]
          rfl
        refine iff_of_true ⟨fun e he => ?_, fun _ z he => ?_⟩ fun _ z he => ?_
        · rw [hnone] at he
          cases he
        · cases hz.symm.trans he
        · cases hz.symm.trans he
      | some z =>
        have hres : s.resolve svc ses data true = s.search z data := by
          unfold Process.resolve
          rw [if_pos rfl, hz]
          rfl
        have hiff := search_current_iff (a := data) h (List.mem_of_find?_eq_some hz)
        constructor
        · intro hfol _ z' hz'
          cases hz.symm.trans hz'
          refine hiff.1 fun e he => hfol.current e ?_
          rw [hres]
          exact he
        · intro hfit
          have hcur := hiff.2 (hfit rfl z hz)
          refine ⟨fun e he => ?_, fun _ z' hz' e he hi hat => ?_⟩
          · rw [hres] at he
            exact hcur e he
          · cases hz.symm.trans hz'
            obtain ⟨e', he'⟩ := search_isSome (s := s) he hi
            refine ⟨e', hres.trans he', ?_⟩
            exact Option.some.inj ((hcur e' he').symm.trans hat)
  | mmap start len io => exact Iff.rfl
  | munmap start len => exact Iff.rfl
  | sharedMemAlloc svc ses addr => exact Iff.rfl
  | sharedMemFree svc ses addr => exact Iff.rfl

end

/-- **The lookup follows the mappings**: for all sequences of calls of a process, every reference is
resolved to the block that is mapped at its address, or refused, if and only if no reference names
an address under which an unmapped block is still on the list in which the search stops. -/
theorem lookup_follows_iff (ids : List (UInt32 × UInt32)) (calls : List MapCall) :
    Along Process.step LookupFollows (.opened ids) calls ↔
      Along Process.step LookupFits (.opened ids) calls := by
  apply along_iff MappedOk
  · intro s c s' h _ hs
    exact h.step hs
  · intro s c h
    exact lookupFollows_iff h c
  · exact opened_mapped ids

/-- **The defect**: a page is mapped and unmapped again, as `TEEC_ReleaseSharedMemory` does; a
reference to its address is not refused. -/
theorem unmapped_block_found : ¬ ∀ (ids : List (UInt32 × UInt32)) (calls : List MapCall),
    Along Process.step LookupFollows (.opened ids) calls := by
  intro h
  let calls : List MapCall := [.mmap 0x40000000 4096 ⟨some 0x10000000, true, true⟩,
    .munmap 0x40000000 4096, .encodeMemRef 7 1 0x40000000 true]
  have h3 : LookupFollows _ (.encodeMemRef 7 1 0x40000000 true) := (h [(7, 1)] calls).2.2.1
  have hcur := h3.current ⟨0x40000000, 0x10000000, 0x40000000, 4096, true⟩ (by decide +kernel)
  exact absurd hcur (by decide +kernel)

end Otzc
end SierraTee
