import SierraTee.Lib.FlatMemory

/-!
# The client API (`otz_api.c`, `otz_api.h`)

A call that reads through a null pointer has the result `none`.  So has an `mmap` that would give an
address which is mapped already, and an allocation into a structure that is still in the list of its
session, since it links the structure a second time.
-/

set_option linter.unusedSectionVars false

namespace SierraTee
open Function
namespace Api
open FlatMemory

/-- `enum otz_state_machine_state_const` -/
inductive OtzState where
  | undefined | invalid | isOpen | closing | encode | performable | running | decode
  deriving DecidableEq

/-- `enum otz_type_of_operation` -/
inductive OperationType where
  | openSession | invoke | close | none
  deriving DecidableEq

/-- `enum otz_shared_mem_flags`; `undefined` is every other value -/
inductive MemFlags where
  | serviceRo | serviceWo | serviceRw | undefined
  deriving DecidableEq

inductive ParamDir where
  | input | output
  deriving DecidableEq

/-- the results `OTZ_SUCCESS` and `OTZ_ERROR_*` -/
inductive OtzReturn where
  | success | accessDenied | encodeFormat | encodeMemory | generic | illegalArgument | illegalState
  | memory | service | undefined
  deriving DecidableEq

structure OtzDevice where
  uiState : OtzState
  sessionCount : Int

/-- `device` says whether the pointer to the device is set -/
structure OtzSession (B : Type) where
  uiState : OtzState
  operationCount : Int
  sessionId : Word
  serviceId : Word
  sharedMemCnt : Word
  device : Bool
  sharedMemList : List B

/-- `sharedMem` is the table up to its count.  `referenced` is a history: the memory that has been
encoded since the operation was prepared. -/
structure OtzOperation (S B A : Type) where
  uiState : OtzState
  session : Option S
  type : OperationType
  encErrorState : OtzReturn
  sharedMem : List B
  tempMemRefCount : Nat
  referenced : List A

structure OtzSharedMem (S A : Type) where
  uiState : OtzState
  uiLength : Word
  uiFlags : MemFlags
  pBlock : Option A
  session : Option S
  operationCount : Int

/-- the pages at an address: whether they are mapped in the client, and the id of the session that the
driver keeps them for -/
structure SharedPages where
  mapped : Bool
  owner : Option Word

end Api

open Api FlatMemory

/-- a client with one device -/
structure Api (S O B A : Type) where
  device : OtzDevice
  sessions : S → OtzSession B
  operations : O → OtzOperation S B A
  blocks : B → OtzSharedMem S A
  memory : A → SharedPages

namespace Api

def otzSvcInvalid : Word := 0

def maxMemblocksPerOperation : Nat := 4

def eNomem : Int := -12
def eFault : Int := -14
def eInval : Int := -22

section
variable {S O B A : Type} [DecidableEq S] [DecidableEq O] [DecidableEq B] [DecidableEq A]
variable (s : Api S O B A)

def setSession (x : S) (z : OtzSession B) : Api S O B A :=
  { s with sessions := update s.sessions x z }

def setOperation (o : O) (p : OtzOperation S B A) : Api S O B A :=
  { s with operations := update s.operations o p }

def setBlock (b : B) (m : OtzSharedMem S A) : Api S O B A :=
  { s with blocks := update s.blocks b m }

def setMemory (a : A) (m : SharedPages) : Api S O B A :=
  { s with memory := update s.memory a m }

def setOperationState (o : O) (t : OtzState) : Api S O B A :=
  s.setOperation o { s.operations o with uiState := t }

def addSessionCount (n : Int) : Api S O B A :=
  { s with device := { s.device with sessionCount := s.device.sessionCount + n } }

theorem setSession_self (x : S) (z : OtzSession B) : (s.setSession x z).sessions x = z := by
  show update s.sessions x z x = z
  rw [update_self]

theorem setOperation_self (o : O) (p : OtzOperation S B A) : (s.setOperation o p).operations o = p := by
  show update s.operations o p o = p
  rw [update_self]

/-! ## Preparing -/

def otzOperationPrepareOpen (x : S) (o : O) (service : Word) : Api S O B A × OtzReturn :=
  if service = otzSvcInvalid then (s, .illegalArgument)
  else
    let s := s.setSession x { s.sessions x with
      uiState := .invalid
      operationCount := 1
      serviceId := service
      sharedMemCnt := 0
      device := true
      sharedMemList := [] }
    (s.setOperation o { s.operations o with
      uiState := .encode
      session := some x
      type := .openSession
      tempMemRefCount := 0
      referenced := [] }, .success)

def otzOperationPrepareInvoke (x : S) (o : O) : Api S O B A × OtzReturn :=
  if (s.sessions x).uiState ≠ .isOpen then (s, .illegalState)
  else
    let s := s.setSession x { s.sessions x with
      operationCount := (s.sessions x).operationCount + 1 }
    (s.setOperation o { s.operations o with
      uiState := .encode
      session := some x
      type := .invoke
      encErrorState := .success
      sharedMem := []
      tempMemRefCount := 0
      referenced := [] }, .success)

def otzOperationPrepareClose (x : S) (o : O) : Api S O B A × OtzReturn :=
  if (s.sessions x).uiState ≠ .isOpen then (s, .illegalState)
  else if (s.operations o).uiState ≠ .undefined then (s, .illegalState)
  else
    let s := s.setSession x { s.sessions x with
      uiState := .closing
      operationCount := (s.sessions x).operationCount + 1 }
    (s.setOperation o { s.operations o with
      uiState := .performable
      session := some x
      type := .close
      sharedMem := []
      tempMemRefCount := 0
      referenced := [] }, .success)

/-! ## Performing -/

def openError (r : Int) : OtzReturn :=
  if r = Api.eNomem then .memory
  else if r = Api.eFault then .accessDenied
  else if r = Api.eInval then .illegalArgument
  else .undefined

def closeError (r : Int) : OtzReturn := if r = Api.eFault then .accessDenied else .undefined

def invokeError (r : Int) : OtzReturn :=
  if r = Api.eFault then .accessDenied
  else if r = Api.eInval then .illegalArgument
  else .undefined

/-- nothing of the session `id` is kept by the driver any more -/
def dropOwner (id : Word) : Api S O B A :=
  { s with memory := fun a => if (s.memory a).owner = some id then
      { s.memory a with owner := none } else s.memory a }

def resetSession (x : S) : Api S O B A :=
  s.setSession x { s.sessions x with
    uiState := .undefined
    sessionId := 0xFFFFFFFF
    serviceId := otzSvcInvalid
    device := false }

def performClose (x : S) (o : O) (r : Int) : Option (Api S O B A × OtzReturn) :=
  if !(s.sessions x).device then none
  else if r < 0 then some (s.setOperationState o .invalid, closeError r)
  else if 0 < r then some (s.setOperationState o .invalid, .service)
  else
    let s := (s.dropOwner (s.sessions x).sessionId).addSessionCount (-1)
    some ((s.resetSession x).setOperationState o .invalid, .success)

/-- an open operation; `id` is the session id that the driver gives -/
def performOpen (x : S) (o : O) (r : Int) (id : Word) : Option (Api S O B A × OtzReturn) :=
  if !(s.sessions x).device then none
  else if r < 0 then some (s.setOperationState o .invalid, openError r)
  else if 0 < r then some (s.setOperationState o .decode, .service)
  else
    let s := s.addSessionCount 1
    let s := s.setSession x { s.sessions x with
      uiState := .isOpen
      sessionId := id }
    some (s.setOperationState o .decode, .success)

def performInvoke (x : S) (o : O) (r : Int) : Option (Api S O B A × OtzReturn) :=
  if !(s.sessions x).device then none
  else if r < 0 then some (s.setOperationState o .invalid, invokeError r)
  else if 0 < r then some (s.setOperationState o .decode, .service)
  else
    let s := s.setSession x { s.sessions x with uiState := .isOpen }
    some (s.setOperationState o .decode, .success)

/-- the part of `otz_operation_perform` for a type of operation -/
def performAs (x : S) (o : O) (r : Int) (id : Word) :
    OperationType → Option (Api S O B A × OtzReturn)
  | .close =>
    if (s.sessions x).operationCount = 1 ∧ (s.sessions x).sharedMemCnt = 0 then s.performClose x o r
    else some (s, .generic)
  | .openSession => s.performOpen x o r id
  | .invoke => s.performInvoke x o r
  | .none => some (s, .undefined)

theorem performed_cases {α : Type} {d : Bool} {r : Int} {a b c q : α}
    (h : (if !d then none else if r < 0 then some a else if 0 < r then some b else some c)
      = some q) : d = true ∧ (r ≠ 0 ∧ (q = a ∨ q = b) ∨ r = 0 ∧ q = c) := by
  split_ifs at h with hd h1 h2
  · exact ⟨by simpa using hd, Or.inl ⟨Int.ne_of_lt h1, Or.inl (Option.some.inj h).symm⟩⟩
  · exact ⟨by simpa using hd, Or.inl ⟨Int.ne_of_gt h2, Or.inr (Option.some.inj h).symm⟩⟩
  · exact ⟨by simpa using hd, Or.inr ⟨by omega, (Option.some.inj h).symm⟩⟩

theorem performAs_some {x : S} (o : O) (r : Int) (id : Word) {t : OperationType}
    (hd : (s.sessions x).device = true) :
    ∃ q, s.performAs x o r id t = some q := by
  cases t with
  | openSession =>
    show ∃ q, s.performOpen x o r id = some q
    unfold performOpen
    rw [hd]
    split_ifs with h1 h2 h3 <;> first | exact ⟨_, rfl⟩ | cases h1
  | invoke =>
    show ∃ q, s.performInvoke x o r = some q
    unfold performInvoke
    rw [hd]
    split_ifs with h1 h2 h3 <;> first | exact ⟨_, rfl⟩ | cases h1
  | close =>
    unfold performAs performClose
    rw [hd]
    split_ifs with h1 h2 h3 h4 <;> first | exact ⟨_, rfl⟩ | cases h2
  | none => exact ⟨_, rfl⟩

/-- `otz_operation_perform`; a close operation that is refused stays in the state in which it runs -/
def otzOperationPerform (o : O) (r : Int) (id : Word) : Option (Api S O B A × OtzReturn) :=
  if (s.operations o).uiState ≠ .encode ∧ (s.operations o).uiState ≠ .performable then
    some (s, .illegalState)
  else if (s.operations o).type = .none then some (s.setOperationState o .running, .undefined)
  else (s.operations o).session.bind fun x =>
    (s.setOperationState o .running).performAs x o r id (s.operations o).type

theorem otzOperationPerform_cases {o : O} {r : Int} {id : Word} {q : Api S O B A × OtzReturn}
    (h : s.otzOperationPerform o r id = some q) :
    q.1 = s ∧ (s.operations o).uiState ≠ .encode ∧ (s.operations o).uiState ≠ .performable ∨
    q.1 = s.setOperationState o .running ∧ (s.operations o).type = .none ∧
      ((s.operations o).uiState = .encode ∨ (s.operations o).uiState = .performable) ∨
    ((s.operations o).uiState = .encode ∨ (s.operations o).uiState = .performable) ∧
      ∃ x, (s.operations o).session = some x ∧
        (s.setOperationState o .running).performAs x o r id (s.operations o).type = some q := by
  unfold otzOperationPerform at h
  split_ifs at h with hst htype
  · left
    cases h
    exact ⟨rfl, hst⟩
  · right
    left
    rw [not_and_or, not_ne_iff, not_ne_iff] at hst
    cases h
    exact ⟨rfl, htype, hst⟩
  · right
    right
    rw [not_and_or, not_ne_iff, not_ne_iff] at hst
    exact ⟨hst, Option.bind_eq_some_iff.mp h⟩

/-! ## Releasing -/

def releaseSession (x : S) (o : O) : Option (Api S O B A) :=
  let p := s.operations o
  if p.uiState = .encode then
    if p.type = .openSession then
      if !(s.sessions x).device then none
      else some ((s.addSessionCount (-1)).resetSession x)
    else some s
  else if p.uiState = .performable then
    if p.type = .close then
      some (s.setSession x { s.sessions x with uiState := .isOpen })
    else some s
  else if p.uiState = .decode then
    if !(s.sessions x).device then none else some s
  else some s

/-- `otz_operation_release`; for temporary memory and for the answer of the service the device is
needed, and the results of the driver are only reported -/
def otzOperationRelease (o : O) : Option (Api S O B A) :=
  let p := s.operations o
  if p.uiState ≠ .encode ∧ p.uiState ≠ .performable ∧ p.uiState ≠ .decode ∧ p.uiState ≠ .invalid then
    some s
  else p.session.bind fun x =>
    let s := s.setSession x { s.sessions x with
      operationCount := (s.sessions x).operationCount - 1 }
    if p.tempMemRefCount ≠ 0 ∧ !(s.sessions x).device then none
    else (s.releaseSession x o).map fun s => s.setOperation o { s.operations o with
      uiState := .undefined
      session := none
      type := .none }

theorem releaseSession_cases {x : S} {o : O} {t : Api S O B A} (h : s.releaseSession x o = some t) :
    ((s.operations o).uiState = .encode ∧ (s.operations o).type = .openSession ∧
      (s.sessions x).device = true ∧ t = (s.addSessionCount (-1)).resetSession x) ∨
    ((s.operations o).uiState = .performable ∧ (s.operations o).type = .close ∧
      t = s.setSession x { s.sessions x with uiState := .isOpen }) ∨
    (¬ ((s.operations o).uiState = .encode ∧ (s.operations o).type = .openSession) ∧
      ¬ ((s.operations o).uiState = .performable ∧ (s.operations o).type = .close) ∧ t = s) := by
  simp only [releaseSession] at h
  split_ifs at h with he htype hd hp hclose hdec hd
  · exact Or.inl ⟨he, htype, by simpa using hd, (Option.some.inj h).symm⟩
  · exact Or.inr (Or.inr ⟨fun e => htype e.2, fun e => absurd (he.symm.trans e.1) (by decide),
      (Option.some.inj h).symm⟩)
  · exact Or.inr (Or.inl ⟨hp, hclose, (Option.some.inj h).symm⟩)
  · exact Or.inr (Or.inr ⟨fun e => he e.1, fun e => hclose e.2, (Option.some.inj h).symm⟩)
  · exact Or.inr (Or.inr ⟨fun e => he e.1, fun e => hp e.1, (Option.some.inj h).symm⟩)
  · exact Or.inr (Or.inr ⟨fun e => he e.1, fun e => hp e.1, (Option.some.inj h).symm⟩)

def OtzOperation.releasable (p : OtzOperation S B A) : Prop :=
  p.uiState = .encode ∨ p.uiState = .performable ∨ p.uiState = .decode ∨ p.uiState = .invalid

def OtzOperation.released (p : OtzOperation S B A) : OtzOperation S B A :=
  { p with
    uiState := .undefined
    session := none
    type := .none }

def OtzSession.without (z : OtzSession B) : OtzSession B :=
  { z with operationCount := z.operationCount - 1 }

theorem otzOperationRelease_cases {o : O} {t : Api S O B A} (h : s.otzOperationRelease o = some t) :
    (¬ (s.operations o).releasable ∧ t = s) ∨
    ∃ x u, (s.operations o).releasable ∧ (s.operations o).session = some x ∧
      ((s.operations o).tempMemRefCount = 0 ∨ (s.sessions x).device = true) ∧
      (s.setSession x (s.sessions x).without).releaseSession x o = some u ∧
      t = u.setOperation o (u.operations o).released := by
  simp only [otzOperationRelease] at h
  split_ifs at h with hst
  · left
    refine ⟨?_, (Option.some.inj h).symm⟩
    rintro (e | e | e | e)
    · exact hst.1 e
    · exact hst.2.1 e
    · exact hst.2.2.1 e
    · exact hst.2.2.2 e
  · right
    obtain ⟨x, hx, h⟩ := Option.bind_eq_some_iff.mp h
    split_ifs at h with htemp
    obtain ⟨u, hu, rfl⟩ := Option.map_eq_some_iff.mp h
    refine ⟨x, u, ?_, hx, ?_, hu, rfl⟩
    · by_contra hn
      refine hst ⟨fun e => hn (Or.inl e), fun e => hn (Or.inr (Or.inl e)),
        fun e => hn (Or.inr (Or.inr (Or.inl e))), fun e => hn (Or.inr (Or.inr (Or.inr e)))⟩
    · by_contra hn
      rw [not_or] at hn
      refine htemp ⟨hn.1, ?_⟩
      show (!((s.setSession x (s.sessions x).without).sessions x).device) = true
      rw [setSession_self]
      exact congrArg not (eq_false_of_ne_true hn.2)

theorem releaseSession_some {x : S} {o : O} (h : (s.sessions x).device = true ∨
    ¬ ((s.operations o).uiState = .encode ∧ (s.operations o).type = .openSession) ∧
      (s.operations o).uiState ≠ .decode) : ∃ u, s.releaseSession x o = some u := by
  simp only [releaseSession]
  split_ifs with he htype hd hp hclose hdec hd
  · rcases h with h | h
    · rw [h] at hd
      cases hd
    · exact absurd ⟨he, htype⟩ h.1
  · exact ⟨_, rfl⟩
  · exact ⟨_, rfl⟩
  · exact ⟨_, rfl⟩
  · exact ⟨_, rfl⟩
  · rcases h with h | h
    · rw [h] at hd
      cases hd
    · exact absurd hdec h.2
  · exact ⟨_, rfl⟩
  · exact ⟨_, rfl⟩

theorem otzOperationRelease_some {x : S} {o : O} (hx : (s.operations o).session = some x)
    (h : (s.sessions x).device = true ∨ (s.operations o).tempMemRefCount = 0 ∧
      ¬ ((s.operations o).uiState = .encode ∧ (s.operations o).type = .openSession) ∧
        (s.operations o).uiState ≠ .decode) : ∃ t, s.otzOperationRelease o = some t := by
  simp only [otzOperationRelease]
  split_ifs with hst
  · exact ⟨_, rfl⟩
  · have hself := s.setSession_self x (s.sessions x).without
    have hu : ∃ u, (s.setSession x (s.sessions x).without).releaseSession x o = some u := by
      refine releaseSession_some _ ?_
      rw [hself]
      exact h.imp_right fun e => e.2
    obtain ⟨u, hu⟩ := hu
    have htemp : ¬ ((s.operations o).tempMemRefCount ≠ 0 ∧
        (!((s.setSession x (s.sessions x).without).sessions x).device) = true) := by
      rw [hself]
      intro e
      rcases h with h | h
      · have hd : (!(s.sessions x).device) = true := e.2
        rw [h] at hd
        cases hd
      · exact e.1 h.1
    refine ⟨u.setOperation o (u.operations o).released, ?_⟩
    rw [hx]
    exact (if_neg htemp).trans (congrArg (Option.map _) hu)

/-! ## The device -/

/-- `otz_device_close`; the driver frees what it keeps for the file -/
def otzDeviceClose : Api S O B A × OtzReturn :=
  if s.device.uiState = .invalid then
    ({ s with device := { s.device with uiState := .undefined } }, .success)
  else if s.device.uiState = .isOpen then
    if s.device.sessionCount = 0 then
      ({ s with
          device := { s.device with uiState := .undefined }
          memory := fun a => { s.memory a with owner := none } }, .success)
    else (s, .illegalState)
  else (s, .undefined)

/-! ## Shared memory -/

def failedBlock (b : B) : OtzSharedMem S A :=
  { s.blocks b with
    uiState := .invalid
    uiLength := 0
    uiFlags := .undefined
    pBlock := none
    session := none }

def linked (b : B) : Bool := (s.blocks b).session.any fun x => b ∈ (s.sessions x).sharedMemList

def blockAllocated (x : S) (b : B) (length : Word) (flags : MemFlags) (a : A) : Api S O B A :=
  let s := s.setMemory a ⟨true, some (s.sessions x).sessionId⟩
  let s := s.setBlock b ⟨.isOpen, length, flags, some a, some x, 0⟩
  s.setSession x { s.sessions x with
    sharedMemList := (s.sessions x).sharedMemList ++ [b]
    sharedMemCnt := (s.sessions x).sharedMemCnt + 1 }

/-- `otz_shared_memory_allocate`: `length` and `flags` are those of the structure, `mmap` is the
address, and `r` the result of the driver -/
def otzSharedMemoryAllocate (x : S) (b : B) (length : Word) (flags : MemFlags) (mmap : Option A)
    (r : Int) : Option (Api S O B A × OtzReturn) :=
  if (s.sessions x).uiState ≠ .isOpen ∨ length = 0 ∨ flags = .undefined then
    some (s, .illegalState)
  else if s.linked b ∨ mmap.any fun a => (s.memory a).mapped then none
  else if !(s.sessions x).device then none
  else match mmap with
    | none => some (s.setBlock b (s.failedBlock b), .memory)
    | some a =>
      if r = -1 then
        some ((s.setMemory a ⟨true, none⟩).setBlock b (s.failedBlock b), .memory)
      else some (s.blockAllocated x b length flags a, .success)

theorem otzSharedMemoryAllocate_cases {x : S} {b : B} {length : Word} {flags : MemFlags}
    {mmap : Option A} {r : Int} {q : Api S O B A × OtzReturn}
    (h : s.otzSharedMemoryAllocate x b length flags mmap r = some q) :
    q.1 = s ∨ s.linked b = false ∧ (q.1 = s.setBlock b (s.failedBlock b) ∨
      ∃ a, (s.memory a).mapped = false ∧
        (q.1 = (s.setMemory a ⟨true, none⟩).setBlock b (s.failedBlock b) ∨
          (s.sessions x).uiState = .isOpen ∧ (s.sessions x).device = true ∧
            q.1 = s.blockAllocated x b length flags a)) := by
  unfold otzSharedMemoryAllocate at h
  by_cases h1 : (s.sessions x).uiState ≠ .isOpen ∨ length = 0 ∨ flags = .undefined
  · left
    cases (if_pos h1).symm.trans h
    rfl
  · right
    rw [if_neg h1] at h
    by_cases h2 : s.linked b ∨ mmap.any fun a => (s.memory a).mapped
    · cases (if_pos h2).symm.trans h
    · rw [if_neg h2] at h
      by_cases h3 : (!(s.sessions x).device) = true
      · cases (if_pos h3).symm.trans h
      · rw [if_neg h3] at h
        rw [not_or] at h1 h2
        refine ⟨eq_false_of_ne_true h2.1, ?_⟩
        cases mmap with
        | none =>
          left
          cases h
          rfl
        | some a =>
          right
          refine ⟨a, eq_false_of_ne_true h2.2, ?_⟩
          by_cases hr : r = -1
          · left
            cases (if_pos hr).symm.trans h
            rfl
          · right
            cases (if_neg hr).symm.trans h
            exact ⟨not_ne_iff.mp h1.1, by simpa using h3, rfl⟩

/-- the part of `otz_shared_memory_release` behind the call of the driver -/
def blockReleased (x : S) (b : B) : Api S O B A :=
  let s := s.setBlock b { s.blocks b with
    uiState := .undefined
    uiLength := 0
    uiFlags := .undefined
    pBlock := none
    session := none }
  if b ∈ (s.sessions x).sharedMemList then
    s.setSession x { s.sessions x with
      sharedMemList := (s.sessions x).sharedMemList.erase b
      sharedMemCnt := (s.sessions x).sharedMemCnt - 1 }
  else s

/-- the memory of a block in the client is unmapped, and given back to the driver if `freed` -/
def unmapBlock (b : B) (freed : Bool) : Api S O B A :=
  match (s.blocks b).pBlock with
  | none => s
  | some a => s.setMemory a ⟨false, if freed then none else (s.memory a).owner⟩

def otzSharedMemoryRelease (b : B) (r : Int) : Option (Api S O B A) :=
  if (s.blocks b).operationCount ≠ 0 ∨ (s.blocks b).uiState = .invalid then some s
  else (s.blocks b).session.bind fun x =>
    if !(s.sessions x).device then none
    else if r ≠ 0 then some (s.unmapBlock b false)
    else some ((s.unmapBlock b true).blockReleased x b)

theorem otzSharedMemoryRelease_cases {b : B} {r : Int} {t : Api S O B A}
    (h : s.otzSharedMemoryRelease b r = some t) :
    (t = s ∧ ((s.blocks b).operationCount ≠ 0 ∨ (s.blocks b).uiState = .invalid)) ∨
    ∃ x, (s.blocks b).session = some x ∧ (s.blocks b).operationCount = 0 ∧
      (s.blocks b).uiState ≠ .invalid ∧ (s.sessions x).device = true ∧
      (r ≠ 0 ∧ t = s.unmapBlock b false ∨ r = 0 ∧ t = (s.unmapBlock b true).blockReleased x b) := by
  unfold otzSharedMemoryRelease at h
  split_ifs at h with h1 hr
  · left
    cases h
    exact ⟨rfl, h1⟩
  · right
    rw [not_or] at h1
    obtain ⟨x, hx, h⟩ := Option.bind_eq_some_iff.mp h
    split_ifs at h with hd
    cases h
    exact ⟨x, hx, not_ne_iff.mp h1.1, h1.2, by simpa using hd, Or.inl ⟨hr, rfl⟩⟩
  · right
    rw [not_or] at h1
    obtain ⟨x, hx, h⟩ := Option.bind_eq_some_iff.mp h
    split_ifs at h with hd
    cases h
    exact ⟨x, hx, not_ne_iff.mp h1.1, h1.2, by simpa using hd, Or.inr ⟨not_ne_iff.mp hr, rfl⟩⟩

theorem otzSharedMemoryRelease_some {b : B} {r : Int} {x : S} (hx : (s.blocks b).session = some x)
    (hd : (s.sessions x).device = true) : ∃ t, s.otzSharedMemoryRelease b r = some t := by
  unfold otzSharedMemoryRelease
  rw [hx]
  split_ifs with h1 h2
  · exact ⟨_, rfl⟩
  · refine ⟨_, if_neg ?_⟩
    rw [hd]
    exact Bool.false_ne_true
  · refine ⟨_, if_neg ?_⟩
    rw [hd]
    exact Bool.false_ne_true

/-! ## References -/

def setEncError (o : O) (e : OtzReturn) : Api S O B A :=
  s.setOperation o { s.operations o with encErrorState := e }

def badReference (f blockFlags : MemFlags) (d : ParamDir) : Bool :=
  (f = .serviceRo && blockFlags ≠ .serviceRo && blockFlags ≠ .serviceRw) ||
    (f = .serviceWo && blockFlags ≠ .serviceWo && blockFlags ≠ .serviceRw) ||
    (d = .input && f = .serviceWo) || (d = .output && f = .serviceRo)

def addReference (o : O) (b : B) : Api S O B A :=
  s.setOperation o { s.operations o with
    sharedMem := (s.operations o).sharedMem ++ [b]
    referenced := (s.operations o).referenced ++ (s.blocks b).pBlock.toList }

/-- `otz_encode_memory_reference` with the checks of `check_encode` -/
def otzEncodeMemoryReference (o : O) (b : B) (offset length : Word) (f : MemFlags) (d : ParamDir)
    (r : Int) : Option (Api S O B A) :=
  if (s.operations o).uiState ≠ .encode then some (s.setEncError o .illegalState)
  else if (s.operations o).encErrorState ≠ .success then some s
  else if badReference f (s.blocks b).uiFlags d then some (s.setEncError o .encodeFormat)
  else if (s.blocks b).uiLength < offset + length then some (s.setEncError o .encodeMemory)
  else if maxMemblocksPerOperation ≤ (s.operations o).sharedMem.length then
    some (s.setEncError o .encodeMemory)
  else (s.operations o).session.bind fun x =>
    if !(s.sessions x).device then none
    else if r ≠ 0 then some (s.setEncError o .encodeMemory)
    else some (s.addReference o b)

theorem otzEncodeMemoryReference_cases {o : O} {b : B} {offset length : Word} {f : MemFlags}
    {d : ParamDir} {r : Int} {t : Api S O B A}
    (h : s.otzEncodeMemoryReference o b offset length f d r = some t) :
    t = s ∨ (∃ e, t = s.setEncError o e) ∨ ((s.operations o).uiState = .encode ∧
      (s.operations o).encErrorState = .success ∧ ¬ badReference f (s.blocks b).uiFlags d ∧
      ¬ (s.blocks b).uiLength < offset + length ∧
      (s.operations o).sharedMem.length < maxMemblocksPerOperation ∧ r = 0 ∧
      (∃ x, (s.operations o).session = some x ∧ (s.sessions x).device = true) ∧
      t = s.addReference o b) := by
  unfold otzEncodeMemoryReference at h
  split_ifs at h with h1 h2 h3 h4 h5 hr
  · exact Or.inr (Or.inl ⟨_, (Option.some.inj h).symm⟩)
  · exact Or.inl (Option.some.inj h).symm
  · exact Or.inr (Or.inl ⟨_, (Option.some.inj h).symm⟩)
  · exact Or.inr (Or.inl ⟨_, (Option.some.inj h).symm⟩)
  · exact Or.inr (Or.inl ⟨_, (Option.some.inj h).symm⟩)
  · obtain ⟨x, hx, h⟩ := Option.bind_eq_some_iff.mp h
    split_ifs at h
    exact Or.inr (Or.inl ⟨_, (Option.some.inj h).symm⟩)
  · obtain ⟨x, hx, h⟩ := Option.bind_eq_some_iff.mp h
    split_ifs at h with hd
    exact Or.inr (Or.inr ⟨not_ne_iff.mp h1, not_ne_iff.mp h2, h3, h4, Nat.lt_of_not_le h5,
      not_ne_iff.mp hr, ⟨x, hx, by simpa using hd⟩, (Option.some.inj h).symm⟩)

def addTemporary (o : O) : Api S O B A :=
  s.setOperation o { s.operations o with
    tempMemRefCount := (s.operations o).tempMemRefCount + 1 }

/-- `otz_encode_array_space`: the operation gets temporary memory of its own, if `ok` -/
def otzEncodeArraySpace (o : O) (ok : Bool) : Option (Api S O B A) :=
  if (s.operations o).uiState ≠ .encode then some (s.setEncError o .illegalState)
  else if (s.operations o).encErrorState ≠ .success then some s
  else if maxMemblocksPerOperation ≤ (s.operations o).tempMemRefCount then
    some (s.setEncError o .encodeMemory)
  else (s.operations o).session.bind fun x =>
    if !(s.sessions x).device then none
    else if !ok then some (s.setEncError o .encodeMemory)
    else some (s.addTemporary o)

theorem otzEncodeArraySpace_cases {o : O} {ok : Bool} {t : Api S O B A}
    (h : s.otzEncodeArraySpace o ok = some t) :
    t = s ∨ (∃ e, t = s.setEncError o e) ∨ ((s.operations o).uiState = .encode ∧
      (∃ x, (s.operations o).session = some x ∧ (s.sessions x).device = true) ∧
      t = s.addTemporary o) := by
  unfold otzEncodeArraySpace at h
  split_ifs at h with h1 h2 h3 hok
  · exact Or.inr (Or.inl ⟨_, (Option.some.inj h).symm⟩)
  · exact Or.inl (Option.some.inj h).symm
  · exact Or.inr (Or.inl ⟨_, (Option.some.inj h).symm⟩)
  · obtain ⟨x, hx, h⟩ := Option.bind_eq_some_iff.mp h
    split_ifs at h
    exact Or.inr (Or.inl ⟨_, (Option.some.inj h).symm⟩)
  · obtain ⟨x, hx, h⟩ := Option.bind_eq_some_iff.mp h
    split_ifs at h with hd
    exact Or.inr (Or.inr ⟨not_ne_iff.mp h1, ⟨x, hx, by simpa using hd⟩, (Option.some.inj h).symm⟩)

end

/-! ## Calls -/

/-- a call with the results of the driver -/
inductive ApiCall (S O B A : Type) where
  | prepareOpen (x : S) (o : O) (service : Word)
  | prepareInvoke (x : S) (o : O)
  | prepareClose (x : S) (o : O)
  | perform (o : O) (r : Int) (id : Word)
  | release (o : O)
  | deviceClose
  | allocate (x : S) (b : B) (length : Word) (flags : MemFlags) (mmap : Option A) (r : Int)
  | sharedRelease (b : B) (r : Int)
  | encodeReference (o : O) (b : B) (offset length : Word) (f : MemFlags) (d : ParamDir) (r : Int)
  | encodeArraySpace (o : O) (ok : Bool)

section
variable {S O B A : Type} [DecidableEq S] [DecidableEq O] [DecidableEq B] [DecidableEq A]
variable (s : Api S O B A)

def step : ApiCall S O B A → Option (Api S O B A)
  | .prepareOpen x o service => some (s.otzOperationPrepareOpen x o service).1
  | .prepareInvoke x o => some (s.otzOperationPrepareInvoke x o).1
  | .prepareClose x o => some (s.otzOperationPrepareClose x o).1
  | .perform o r id => (s.otzOperationPerform o r id).map Prod.fst
  | .release o => s.otzOperationRelease o
  | .deviceClose => some s.otzDeviceClose.1
  | .allocate x b length flags mmap r =>
    (s.otzSharedMemoryAllocate x b length flags mmap r).map Prod.fst
  | .sharedRelease b r => s.otzSharedMemoryRelease b r
  | .encodeReference o b offset length f d r => s.otzEncodeMemoryReference o b offset length f d r
  | .encodeArraySpace o ok => s.otzEncodeArraySpace o ok

end

/-- the device has just been opened -/
def opened {S O B A : Type} : Api S O B A where
  device := ⟨.isOpen, 0⟩
  sessions := fun _ => ⟨.undefined, 0, 0xFFFFFFFF, otzSvcInvalid, 0, false, []⟩
  operations := fun _ => ⟨.undefined, none, .none, .success, [], 0, []⟩
  blocks := fun _ => ⟨.undefined, 0, .undefined, none, none, 0⟩
  memory := fun _ => ⟨false, none⟩

end Api
end SierraTee
