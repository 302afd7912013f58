import SierraTee.Driver.SmcCall
import SierraTee.Dispatch.Loop
import SierraTee.Paging.Shared

/-!
# Device files and the notification record (`otz_client_main.c`, `tzhyp_boot.c`, `secure_api.c`)

Opens and releases in any order, among other requests.
-/

namespace SierraTee
open FlatMemory Dispatch

/-! ## What the driver keeps -/

/-- what a `struct otzc_encode` has for the notification: `wait_data.send_wait_flag` -/
structure EncodeWait where
  encodeId : Word
  sendWaitFlag : Bool

structure OtzcSession where
  sessionId : Word
  encodeList : List EncodeWait

structure OtzcService where
  serviceId : Word
  sessionsList : List OtzcSession

structure OtzcDevFile where
  devFileId : Word
  servicesList : List OtzcService

structure OtzcNotifyData where
  guestNo : Word
  devFileId : Word
  serviceId : Word
  clientPid : Word
  sessionId : Word
  encId : Word

/-- `otz_client_service_init`: without memory the services before are gone as well -/
def OtzcDevFile.serviceInit (f : OtzcDevFile) (svc : Word) (alloc : Bool) : OtzcDevFile × Int :=
  if alloc then ({ f with servicesList := ⟨svc, []⟩ :: f.servicesList }, 0)
  else ({ f with servicesList := [] }, eNomem)

/-- the services in turn, up to the first that fails; `alloc` is the memory for each of them -/
def OtzcDevFile.initServices (alloc : Word → Bool) (f : OtzcDevFile) : List Word → OtzcDevFile × Int
  | [] => (f, 0)
  | svc :: l =>
    let r := f.serviceInit svc (alloc svc)
    if r.2 ≠ 0 then r else r.1.initServices alloc l

/-- the global service, echo, the user tests, crypt, the mutex test, the keyboard, DRM, the internal
interface and the kernel tests -/
def clientServices : List Word := [1, 2, 13, 4, 5, 6, 3, 12, 10]

/-! ## The two worlds -/

/-- the driver of a guest and what the secure world has of it -/
structure Client where
  deviceFileCnt : Word
  /-- `otzc_dev_file_head.dev_file_list` -/
  devFileList : List OtzcDevFile
  /-- `notify_data`: the address of the record and its contents -/
  notifyData : Option (Word × OtzcNotifyData)
  currentGuestId : Word
  /-- the `private_data` of the files that have been opened and not been released -/
  openFiles : List Word
  /-- `ns_sys_current->guest_no` and `ns_sys_current->notify_data` -/
  guestNo : Word
  registered : Option Word
  /-- of the dispatcher task -/
  errno : Int
  maps : NsMaps
  /-- the mappings of records that have been granted, and that have been given back; a history,
  which the code does not have -/
  taken : Nat
  given : Nat

/-- what a call of `otz_smc_call` gets: the memory for its command, and for the reference of each
section that the secure world maps -/
structure SmcAlloc where
  cmd : Option Word
  contextRef : Bool
  cmdRef : Bool
  bufRef : Bool

/-- what an open gets: memory for the file, for its services and for the record, with what is in it -/
structure OpenAlloc where
  devFile : Bool
  services : Word → Bool
  notifyData : Option (Word × OtzcNotifyData)
  smc : SmcAlloc

def NsMaps.Mappable (pgd : Word) (s : NsMaps) (addr : Word) : Prop :=
  descType (s.entry pgd (l1Index addr)) = pageDescTypeFault ∨
    descType (s.entry pgd (l1Index addr)) = pageDescTypeSection

instance (pgd : Word) (s : NsMaps) (addr : Word) : Decidable (s.Mappable pgd addr) :=
  inferInstanceAs (Decidable (_ ∨ _))

namespace Client
variable (multicore : Bool) (pgd : Word) (s : Client)

def swOk : Int := 0
def swError : Int := -1

/-! ## The secure world -/

def mapNs (addr : Word) (ref : Bool) : Client := { s with maps := s.maps.mapToNs multicore pgd addr ref }

def unmapNs (va : Word) : Client := { s with maps := s.maps.unmapFromNs pgd va }

def mapFailed : Client × Int := ({ s with errno := swEinval }, swError)

/-- the guest number is written into the record -/
def registerNotifyData (phys : Word) (ref : Bool) : Client × Int :=
  if s.maps.Mappable pgd phys then
    ({ s.mapNs multicore pgd phys ref with
        registered := some phys
        notifyData := s.notifyData.map fun r => (r.1, { r.2 with guestNo := s.guestNo })
        taken := s.taken + 1 }, swOk)
  else s.mapFailed

def unregisterNotifyData : Client :=
  match s.registered with
  | some p => { s.unmapNs pgd p with registered := none, given := s.given + 1 }
  | none => s

def registerNotifyDataApi (cmd phys : Word) (a : SmcAlloc) : Client × Int :=
  if s.maps.Mappable pgd cmd then
    let r := (s.mapNs multicore pgd cmd a.cmdRef).registerNotifyData multicore pgd phys a.bufRef
    (r.1.unmapNs pgd cmd, r.2)
  else s.mapFailed

def unregisterNotifyDataApi : Client × Int := (s.unregisterNotifyData pgd, swOk)

def answered (r : Client × Int) : Client × Int :=
  (r.1, apiAnswer (if r.2 = swError then r.1.errno else r.2))

/-- `get_api_context` and the branch of the dispatcher; a command that cannot be mapped is invalid,
and the answer is zero. `buf` is the record for a registration -/
def dispatchNotify (cmd : Word) (buf : Option Word) (a : SmcAlloc) : Client × Int :=
  if s.maps.Mappable pgd cmd then
    let s := (s.mapNs multicore pgd cmd a.contextRef).unmapNs pgd cmd
    match buf with
    | some phys => answered (s.registerNotifyDataApi multicore pgd cmd phys a)
    | none => answered (s.unregisterNotifyDataApi pgd)
  else (s.mapFailed.1, 0)

/-! ## The driver -/

def otzSmcCall (buf : Option Word) (a : SmcAlloc) : Client × Int :=
  match a.cmd with
  | some cmd => s.dispatchNotify multicore pgd cmd buf a
  | none => (s, eNomem)

/-- `current_guest_id` is read from the record after the call -/
def readGuest (r : Client × Int) : Client × Int :=
  if r.2 ≠ smcSuccess then r
  else match r.1.notifyData with
    | some d => ({ r.1 with currentGuestId := d.2.guestNo }, r.2)
    | none => r

def openNotify (a : OpenAlloc) : Client × Int :=
  match s.notifyData.or a.notifyData with
  | some d => readGuest (({ s with notifyData := some d }).otzSmcCall multicore pgd (some d.1) a.smc)
  | none => (s, eNomem)

/-- the file stays in the list when a later part of the open fails -/
def otzClientOpen (a : OpenAlloc) : Client × Int :=
  let id := s.deviceFileCnt + 1
  if a.devFile then
    let r := (OtzcDevFile.mk id []).initServices a.services clientServices
    let s := { s with deviceFileCnt := id, devFileList := r.1 :: s.devFileList }
    if r.2 ≠ 0 then (s, r.2) else s.openNotify multicore pgd a
  else ({ s with deviceFileCnt := id }, eNomem)

/-- the first file with the number; its services and sessions go with it -/
def otzClientServiceExit (id : Word) : Client :=
  { s with devFileList := s.devFileList.eraseP fun f => f.devFileId = id }

/-- the result of the call is not looked at -/
def otzClientRelease (id : Word) (a : SmcAlloc) : Client :=
  let s := ((s.otzSmcCall multicore pgd none a).1).otzClientServiceExit id
  if s.devFileList.isEmpty then { s with notifyData := none } else s

end Client

/-! ## Runs -/

inductive FileOp where
  | openFile (a : OpenAlloc)
  | release (id : Word) (a : SmcAlloc)
  | other (r : NsRequest)

namespace Client
variable (multicore : Bool) (pgd : Word) (s : Client)

/-- a file whose open fails is not released; other requests map and unmap sections -/
def step : FileOp → Option Client
  | .openFile a =>
    let r := s.otzClientOpen multicore pgd a
    some (if r.2 = 0 then { r.1 with openFiles := r.1.deviceFileCnt :: r.1.openFiles } else r.1)
  | .release id a =>
    if id ∈ s.openFiles then
      some (({ s with openFiles := s.openFiles.erase id }).otzClientRelease multicore pgd id a)
    else none
  | .other r => (s.maps.step multicore pgd r).map fun m => { s with maps := m }

end Client

end SierraTee
