import SierraTee.Kernel.Mutex
import SierraTee.Kernel.Semaphore
import SierraTee.Lib.Registry
import SierraTee.Names.Strings
import SierraTee.Shm.Destroy

/-!
# Objects with names (`sw_semaphores.c`, `sw_shared_memory.c`, `sw_syscall_imp.c`)

* `namedInit_spec`  what an initialization returns.

A `malloc` that would give the address of an object of the list has the result `none`.
-/

set_option linter.unusedSectionVars false

namespace SierraTee
namespace Names
open FlatMemory Registry

abbrev Chars := List (BitVec 8)

structure Entry (A X : Type) where
  addr : A
  name : Chars
  object : X

/-- a device that is registered -/
structure SwFileOperations where
  devId : Word
  swDevName : DeviceName
  deriving DecidableEq

section
variable {A X : Type} [DecidableEq A]

/-- the object with the name, or a new one, which is `x` at first; without memory no object is
returned -/
def namedInit (l : List (Entry A X)) (x : X) (name : Chars) (malloc : Option A) :
    Option (List (Entry A X) × Option A) :=
  match l.find? fun e => swStrncmp e.name name 0 (swStrnlen name maxNameLen) with
  | some e => some (l, some e.addr)
  | none =>
    match malloc with
    | none => some (l, none)
    | some a =>
      if l.any fun e => e.addr = a then none
      else some (l ++ [⟨a, swStrncpy name maxNameLen, x⟩], some a)

/-- `_sw_mutex_init` -/
def mutexInit (l : List (Entry A Mutex)) (name : Chars) (malloc : Option A) :
    Option (List (Entry A Mutex) × Option A) :=
  namedInit l swMutexInit name malloc

/-- `_sw_semaphore_init` -/
def semaphoreInit (l : List (Entry A (Semaphore TaskId))) (name : Chars) (value : Nat)
    (malloc : Option A) : Option (List (Entry A (Semaphore TaskId)) × Option A) :=
  namedInit l (swSemaphoreInit value) name malloc

def findDevice (devices : List SwFileOperations) (name : Chars) : Option SwFileOperations :=
  devices.find? fun d => swStrncmp d.swDevName.chars name 0 20

end

/-- the histories have a name and what was returned for it -/
structure NameState (A : Type) where
  mutexes : List (Entry A Mutex)
  semaphores : List (Entry A (Semaphore TaskId))
  shm : ShmState
  devices : List SwFileOperations
  mutexCalls : List (Chars × A)
  semaphoreCalls : List (Chars × A)
  shmCalls : List (Chars × Word)

/-- a call, with what the allocator answers -/
inductive NameCall (A : Type) where
  | mutexInit (name : ObjectName) (malloc : Option A)
  | semaphoreInit (name : ObjectName) (value : Nat) (malloc : Option A)
  | shmCreate (task : Word) (alloc : Bool) (name : ObjectName) (size flags : Word)
  | findDevice (name : ObjectName)

def returned {O : Type} (name : ObjectName) (r : Option O) (h : List (Chars × O)) : List (Chars × O) :=
  (r.map fun o => (name.chars, o)).toList ++ h

section
variable {A : Type} [DecidableEq A] (c : PageConfig)

def nameStep (s : NameState A) : NameCall A → Option (NameState A)
  | .mutexInit name malloc =>
    (mutexInit s.mutexes name.chars malloc).map fun r =>
      { s with mutexes := r.1, mutexCalls := returned name r.2 s.mutexCalls }
  | .semaphoreInit name value malloc =>
    (semaphoreInit s.semaphores name.chars value malloc).map fun r =>
      { s with semaphores := r.1, semaphoreCalls := returned name r.2 s.semaphoreCalls }
  | .shmCreate task alloc name size flags =>
    (shmCreate c task alloc name.chars size flags s.shm).map fun r =>
      { s with
        shm := r.1
        shmCalls := returned name (if r.2 = swError then none else some r.2) s.shmCalls }
  | .findDevice _ => some s

end

/-- nothing has been created -/
def noNames {A : Type} (pool : Nat → Bool) (info : MemInfo) (devices : List SwFileOperations) :
    NameState A where
  mutexes := []
  semaphores := []
  shm := ⟨[], pool, info⟩
  devices := devices
  mutexCalls := []
  semaphoreCalls := []
  shmCalls := []

/-! ## Initialization -/

section
variable {A X : Type} [DecidableEq A]

def Entry.pair (e : Entry A X) : Chars × A := (e.name, e.addr)

structure Book {O : Type} (l h : List (Chars × O)) : Prop where
  registered : Registered l h
  noEnd : ∀ p ∈ l, 0 ∉ p.1

theorem taken_self (x : Chars) : Taken x x := Or.inr List.prefix_rfl

variable {l l' : List (Entry A X)} {h : List (Chars × A)} {x : X} {name : ObjectName}
  {malloc r : Option A}

theorem namedInit_find (hl : ∀ p ∈ l.map Entry.pair, 0 ∉ p.1) (name : ObjectName) :
    ((l.map Entry.pair).find? fun p => Taken p.1 name.chars)
      = (l.find? fun e => swStrncmp e.name name.chars 0 (swStrnlen name.chars maxNameLen)).map
        Entry.pair :=
  find_map fun e he => taken_iff (hl e.pair (List.mem_map_of_mem he)) name.noEnd name.short

theorem unshadowed_of_none {O : Type} {l : List (Chars × O)} {x : Chars}
    (h : (l.find? fun p => Taken p.1 x) = none) : Unshadowed Taken l x := by
  refine (unshadowed_iff fun p _ e => e ▸ taken_self p.1).mpr fun p hp => ?_
  cases h.symm.trans hp

theorem namedInit_spec (hb : Book (l.map Entry.pair) h)
    (hi : namedInit l x name.chars malloc = some (l', r)) :
    (Identified (returned name r h) ↔ Unshadowed Taken (l.map Entry.pair) name.chars) ∧
      (Unshadowed Taken (l.map Entry.pair) name.chars → Book (l'.map Entry.pair) (returned name r h)) := by
  have hfind := namedInit_find hb.noEnd name
  have hshadow : Unshadowed Taken (l.map Entry.pair) name.chars ↔ _ :=
    unshadowed_iff fun p _ e => e ▸ taken_self p.1
  unfold namedInit at hi
  cases he : l.find? fun e => swStrncmp e.name name.chars 0 (swStrnlen name.chars maxNameLen) with
  | some e =>
    rw [he] at hi hfind
    cases hi
    have hmem : e.pair ∈ l.map Entry.pair := List.mem_map_of_mem (List.mem_of_find?_eq_some he)
    have hiff : Unshadowed Taken (l.map Entry.pair) name.chars ↔ e.name = name.chars := by
      rw [hshadow, hfind]
      exact ⟨fun hp => hp e.pair rfl, fun hn p hp => (Option.some.inj hp) ▸ hn⟩
    rw [hiff]
    exact ⟨hb.registered.found_iff hmem, fun hn => ⟨hb.registered.found hmem hn, hb.noEnd⟩⟩
  | none =>
    rw [he] at hi hfind
    have hc := unshadowed_of_none hfind
    have hx : ∀ p ∈ l.map Entry.pair, p.1 ≠ name.chars := by
      intro p hp e
      exact absurd (List.find?_eq_none.mp hfind p hp) (by simp [e, taken_self])
    cases malloc with
    | none =>
      cases hi
      exact ⟨iff_of_true hb.registered.returned hc, fun _ => hb⟩
    | some a =>
      simp only at hi
      split_ifs at hi with ha
      cases hi
      have ho : ∀ p ∈ l.map Entry.pair, p.2 ≠ a := by
        intro p hp e
        obtain ⟨e', he', rfl⟩ := List.mem_map.mp hp
        exact ha (List.any_eq_true.mpr ⟨e', he', decide_eq_true e⟩)
      rw [List.map_append, swStrncpy_eq name.noEnd name.short]
      have hnew := hb.registered.new hx ho
      refine ⟨iff_of_true hnew.returned hc, fun _ => ⟨hnew, fun p hp => ?_⟩⟩
      rcases List.mem_append.mp hp with hp | hp
      · exact hb.noEnd p hp
      · rw [List.mem_singleton.mp hp]
        exact name.noEnd

end

end Names
end SierraTee
