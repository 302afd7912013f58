import SierraTee.Lib.Mailbox
import SierraTee.Notify.DeviceFile

/-!
# Notifications of the normal world (`tzhyp_boot.c`, `secure_api.c`, `monitor.S`, `otz_client_main.c`)

The requests and notifications in any order, with guest switches and resume commands.
-/

namespace SierraTee
open FlatMemory

/-- what a notification names: a context of an encoded command of a client -/
structure EncodeContext where
  devFileId : Word
  serviceId : Word
  sessionId : Word
  encId : Word
  deriving DecidableEq

def OtzcNotifyData.context (d : OtzcNotifyData) : EncodeContext :=
  ⟨d.devFileId, d.serviceId, d.sessionId, d.encId⟩

/-! ## The lists of a driver -/

section
variable (c : EncodeContext) (set : Bool) (files : List OtzcDevFile)

/-- the context that the handler of the interrupt comes to: its loop over the sessions of the service
ends after the first -/
def findEncode : Option EncodeWait := do
  let f ← files.find? fun f => f.devFileId = c.devFileId
  let v ← f.servicesList.find? fun v => v.serviceId = c.serviceId
  let z ← v.sessionsList.head?
  if z.sessionId = c.sessionId then z.encodeList.find? fun e => e.encodeId = c.encId else none

def encodeOf : Option EncodeWait := do
  let f ← files.find? fun f => f.devFileId = c.devFileId
  let v ← f.servicesList.find? fun v => v.serviceId = c.serviceId
  let z ← v.sessionsList.find? fun z => z.sessionId = c.sessionId
  z.encodeList.find? fun e => e.encodeId = c.encId

def modifyFirst {α : Type*} (p : α → Bool) (f : α → α) (l : List α) : List α :=
  l.replaceF fun a => if p a then some (f a) else none

def setWaitFlag : List OtzcDevFile :=
  modifyFirst (fun f => f.devFileId = c.devFileId) (fun f =>
    { f with
      servicesList := modifyFirst (fun v => v.serviceId = c.serviceId) (fun v =>
        { v with
          sessionsList := modifyFirst (fun z => z.sessionId = c.sessionId) (fun z =>
            { z with
              encodeList := modifyFirst (fun e => e.encodeId = c.encId)
                (fun e => { e with sendWaitFlag := set }) z.encodeList }) v.sessionsList })
        f.servicesList }) files

end

/-! ## The two worlds -/

structure NotifyGuest where
  /-- `notify_data` of the driver, and whether the one of the secure world points to it -/
  notifyData : Option OtzcNotifyData
  registered : Bool
  pendingNotify : Bool
  devFileList : List OtzcDevFile

structure Notifier where
  /-- `GUESTS_NO` -/
  guestsNo : Nat
  /-- the number of the guest of `ns_sys_current` -/
  nsSysCurrent : Nat
  guest : Nat → NotifyGuest
  gNsNotifyPending : Bool
  /-- the soft interrupt `NS_SGI_NOTIFY_INTERRUPT` is pending -/
  softInt : Bool
  /-- the secure world runs -/
  secure : Bool
  /-- the guests that the pending interrupt has been raised for; a history, which the code does not
  have -/
  announced : Nat → Bool
  /-- the notifications that have been raised, the wake-ups, and for each guest the notification that
  is in its record and has not been read; a history, which the code does not have -/
  box : Mailbox Nat EncodeContext

/-- what `notify_ns` sees of a task; `params` has the command of the client unless it cannot be mapped,
and there are none without a TLS -/
structure NotifyTask where
  guestNo : Int
  params : Option (Option OtzSmcCmd)

def NotifyTask.notification (t : NotifyTask) : Option (Int × EncodeContext × Word) := do
  let cmd ← t.params
  let cmd ← cmd
  some (t.guestNo, ⟨cmd.devFileId.toBitVec, ((cmd.id >>> 10) &&& 0x3ff).toBitVec, cmd.context.toBitVec,
    cmd.encId.toBitVec⟩, cmd.srcContext.toBitVec)

namespace Notifier
variable (s : Notifier)

def setGuest (g : Nat) (x : NotifyGuest) : Notifier := { s with guest := Function.update s.guest g x }

def recordOf (g : Nat) : Option OtzcNotifyData :=
  if (s.guest g).registered then (s.guest g).notifyData else none

/-- `sw_generate_soft_int` for a notification of the guest -/
def generateSoftInt (g : Nat) : Notifier :=
  { s with softInt := true, announced := Function.update s.announced g true }

def setPending (g : Nat) (b : Bool) : Notifier :=
  s.setGuest g { s.guest g with pendingNotify := b }

def writeRecord (g : Nat) (d : OtzcNotifyData) : Notifier :=
  { s.setGuest g { s.guest g with notifyData := some d } with box := s.box.send g d.context }

/-- a guest without a record, or with the record of another guest, is not notified -/
def setNotifyData (g : Nat) (c : EncodeContext) (pid : Word) : Notifier :=
  match s.recordOf g with
  | some d =>
    if d.guestNo ≠ BitVec.ofNat 32 g then { s with box := s.box.lose g c }
    else
      let s := s.writeRecord g ⟨d.guestNo, c.devFileId, c.serviceId, pid, c.sessionId, c.encId⟩
      if g ≠ s.nsSysCurrent then s.setPending g true
      else if s.gNsNotifyPending then s.setPending g true
      else s.generateSoftInt g
  | none => { s with box := s.box.lose g c }

/-- a task that does not exist is the null pointer, and a guest that does not exist is outside of the
contexts -/
def notifyNs (t : Option NotifyTask) : Option Notifier := do
  let t ← t
  match t.notification with
  | some n => if 0 ≤ n.1 ∧ n.1 < s.guestsNo then some (s.setNotifyData n.1.toNat n.2.1 n.2.2) else none
  | none => some s

/-- `tzhyp_schedule_guest`: the next context, and the first one after the last -/
def scheduleGuest : Notifier :=
  { s with nsSysCurrent := if s.nsSysCurrent + 1 ≥ s.guestsNo then 0 else s.nsSysCurrent + 1 }

/-- `non_secure_return_path`; what is compared there for `g_ns_notify_pending` is its address, which is
never 1 -/
def nonSecureReturn : Notifier :=
  let s := { s with secure := false }
  if (s.guest s.nsSysCurrent).pendingNotify then
    (s.generateSoftInt s.nsSysCurrent).setPending s.nsSysCurrent false
  else s

def acknowledge : Notifier := { s with softInt := false, announced := fun _ => false }

/-- the waiter of the context is woken, unless there is no such context or it has been woken already -/
def ipiSecureNotify : Notifier :=
  let g := s.nsSysCurrent
  match (s.guest g).notifyData with
  | some d =>
    match findEncode d.context (s.guest g).devFileList with
    | some e =>
      if e.sendWaitFlag then { s.acknowledge with box := s.box.discard g }
      else
        { s.acknowledge.setGuest g { s.guest g with
            devFileList := setWaitFlag d.context true (s.guest g).devFileList } with
          box := s.box.receive g d.context }
    | none => { s.acknowledge with box := s.box.discard g }
  | none => { s.acknowledge with box := s.box.discard g }

def resume (c : EncodeContext) : Option Notifier :=
  let x := s.guest s.nsSysCurrent
  match encodeOf c x.devFileList with
  | some e =>
    if e.sendWaitFlag then
      some { s.setGuest s.nsSysCurrent { x with devFileList := setWaitFlag c false x.devFileList } with
        secure := true }
    else none
  | none => none

/-- the flag of `resume_async_task`; it is written nowhere else -/
def resumeAsyncTask : Notifier := { s with gNsNotifyPending := false }

end Notifier

inductive NotifyOp where
  | notifyNs (t : Option NotifyTask)
  | scheduleGuest
  | nonSecureReturn
  /-- a call or an interrupt of the normal world that is for the secure world -/
  | enterSecure
  | ipiSecureNotify
  | resume (c : EncodeContext)
  | resumeAsyncTask
  /-- any other change of the lists of the driver of the current guest -/
  | driver (files : List OtzcDevFile)

/-- the secure world notifies, switches guests, resumes tasks and returns; the rest is done by the
current guest -/
def Notifier.step (s : Notifier) : NotifyOp → Option Notifier
  | .notifyNs t => if s.secure then s.notifyNs t else none
  | .scheduleGuest => if s.secure then some s.scheduleGuest else none
  | .nonSecureReturn => if s.secure then some s.nonSecureReturn else none
  | .resumeAsyncTask => if s.secure then some s.resumeAsyncTask else none
  | .enterSecure => if s.secure then none else some { s with secure := true }
  | .ipiSecureNotify => if s.secure then none else if s.softInt then some s.ipiSecureNotify else none
  | .resume c => if s.secure then none else s.resume c
  | .driver files =>
    if s.secure then none
    else some (s.setGuest s.nsSysCurrent { s.guest s.nsSysCurrent with devFileList := files })

end SierraTee
